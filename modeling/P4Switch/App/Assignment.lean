import P4Switch.App.Paths

/-! # Which thread runs which pipeline

The assignment says that an enabled pipeline has one entry, on its own thread, and a
disabled one has none. It holds along a run exactly as long as no enable call goes through
for a pipeline that is enabled already. -/
namespace P4Switch.App
open P4Switch.Lib.GuardedRun P4Switch.Lib.SwapRemove

section
variable {c : Platform} {s : State} {P : Pipeline} {t i : Nat} {name : String}

/-- Each pipeline is where its record says. -/
structure Assigned (s : State) : Prop where
  once : ∀ n P, s.obj.pipelineFind n = some P → P.enabled = true →
    (s.threadData P.threadId).pipelines.count P.p = 1
  elsewhere : ∀ n P, s.obj.pipelineFind n = some P → P.enabled = true →
    ∀ t, t ≠ P.threadId → P.p ∉ (s.threadData t).pipelines
  nowhere : ∀ n P, s.obj.pipelineFind n = some P → P.enabled = false →
    ∀ t, P.p ∉ (s.threadData t).pipelines

/-- An enable call that is not refused finds its pipeline disabled. -/
def EnablesDisabled (c : Platform) (s : State) : Call × Env → Prop
  | (.enable t name, env) => ¬ EnableRefused c s t name env →
      ∀ P, s.obj.pipelineFind name = some P → P.enabled = false
  | (.disable _ _, _) => True

/-- How often a pipeline occurs in each thread's array. -/
def occurs (s : State) (x : SwxPipeline) (t : Nat) : Nat := (s.threadData t).pipelines.count x

/-- The assignment as one equation for each pipeline. -/
theorem assigned_iff : Assigned s ↔ ∀ n P, s.obj.pipelineFind n = some P →
    ∀ t, occurs s P.p t = if P.enabled = true ∧ P.threadId = t then 1 else 0 := by
  unfold occurs
  constructor
  · intro h n P hP t
    by_cases he : P.enabled = true
    · by_cases ht : P.threadId = t
      · subst ht
        simpa [he] using h.once n P hP he
      · simpa [he, ht] using List.count_eq_zero.mpr (h.elsewhere n P hP he t (Ne.symm ht))
    · simpa [he] using List.count_eq_zero.mpr (h.nowhere n P hP (by simpa using he) t)
  · intro h
    refine ⟨?_, ?_, ?_⟩
    · intro n P hP he
      simpa [he] using h n P hP P.threadId
    · intro n P hP he t ht
      exact List.count_eq_zero.mp (by simpa [he, Ne.symm ht] using h n P hP t)
    · intro n P hP he t
      exact List.count_eq_zero.mp (by simpa [he] using h n P hP t)

theorem enabledOn_occurs (s : State) (t : Nat) (name : String) (d : PipelineData) (x : SwxPipeline)
    (t' : Nat) :
    occurs (s.enabledOn t name d) x t' = occurs s x t' + if t' = t ∧ d.p = x then 1 else 0 := by
  unfold occurs
  rw [enabledOn_pipelines]
  by_cases ht : t' = t
  · subst ht
    simp [List.count_append, List.count_singleton]
  · simp [ht]

theorem disabledOn_occurs (hs : Sound s) (name : String)
    (hi : (s.threadData t).findPipeline P.p = some i) (x : SwxPipeline) (t' : Nat) :
    occurs (s.disabledOn t name i) x t' + (if t' = t ∧ P.p = x then 1 else 0) = occurs s x t' :=
  disabledOn_count hs name hi t' x

theorem enable_find_self {obj : Obj} (h : obj.pipelineFind name = some P) :
    (obj.enable name t).pipelineFind name = some (P.enable t) := by
  simp [Obj.enable, Obj.modify, h]

/-- Enabling a disabled pipeline puts it where its record says. -/
theorem Assigned.enabledOn (h : Assigned s) {d : PipelineData}
    (hP : s.obj.pipelineFind name = some P) (hd : d.p = P.p) (hoff : P.enabled = false) :
    Assigned (s.enabledOn t name d) := by
  rw [assigned_iff] at h ⊢
  intro n Q hQ t'
  rw [enabledOn_occurs]
  obtain ⟨rfl, P', hP', rfl⟩ | ⟨hne, hQ'⟩ := enable_find hQ
  · obtain rfl : P' = P := Option.some.inj (hP'.symm.trans hP)
    have h0 : occurs s P'.p t' = 0 := by simpa [hoff] using h n P' hP t'
    show occurs s P'.p t' + _ = _
    rw [h0]
    simp [Pipeline.enable, hd, eq_comm]
  · have hpq : d.p ≠ Q.p := fun e => hne (s.obj.distinct hQ' hP (by rw [← hd, e]))
    simpa [hpq] using h n Q hQ' t'

/-- Disabling takes the pipeline's only entry away. -/
theorem Assigned.disabledOn (hs : Sound s) (h : Assigned s)
    (hP : s.obj.pipelineFind name = some P) (hon : P.enabled = true) (ht : P.threadId = t)
    (hi : (s.threadData t).findPipeline P.p = some i) : Assigned (s.disabledOn t name i) := by
  rw [assigned_iff] at h ⊢
  intro n Q hQ t'
  have hc := disabledOn_occurs hs name hi Q.p t'
  obtain ⟨rfl, hoff, P', hP', hp⟩ | ⟨hne, hQ'⟩ := disable_find hQ
  · obtain rfl : P' = P := Option.some.inj (hP'.symm.trans hP)
    rw [hp] at hc ⊢
    rw [h n P' hP t'] at hc
    simp only [hon, ht, true_and, and_true] at hc
    rw [if_neg (by simp [hoff])]
    by_cases htt : t' = t
    · subst htt
      simpa using hc
    · simpa [htt, Ne.symm htt] using hc
  · have hpq : P.p ≠ Q.p := fun e => hne (s.obj.distinct hQ' hP e.symm)
    rw [if_neg (fun e => hpq e.2), Nat.add_zero] at hc
    rw [hc]
    exact h n Q hQ' t'

/-- Enabling a pipeline that is enabled already gives it a second entry. -/
theorem not_assigned_enabledOn (h : Assigned s) {d : PipelineData}
    (hP : s.obj.pipelineFind name = some P) (hd : d.p = P.p) (hon : P.enabled = true) :
    ¬ Assigned (s.enabledOn t name d) := by
  intro h'
  rw [assigned_iff] at h h'
  -- the old entry is on the thread the record named before
  have hold := h name P hP P.threadId
  have hnew := h' name (P.enable t) (enable_find_self hP) P.threadId
  rw [enabledOn_occurs] at hnew
  simp only [Pipeline.enable, hd, hon, true_and, and_true, if_true] at hold hnew
  rw [hold] at hnew
  by_cases ht : P.threadId = t
  · simp [ht] at hnew
  · simp [ht, Ne.symm ht] at hnew

/-- Sound states in which the assignment holds. -/
structure Inv (s : State) : Prop where
  sound : Sound s
  assigned : Assigned s

theorem Inv.step (s : State) (op : Call × Env) (h : Inv s) (hok : EnablesDisabled c s op) :
    Inv (App.step c s op) := by
  refine ⟨h.sound.step op, ?_⟩
  obtain ⟨call, env⟩ := op
  cases call with
  | enable t name =>
    show Assigned (threadPipelineEnable c s t name env).1
    obtain ⟨-, e⟩ | ⟨hr, P, hP, e⟩ := enable_cases c s t name env
    · rw [e]
      exact h.assigned
    · rw [e]
      exact h.assigned.enabledOn hP rfl (hok hr P hP)
  | disable t name =>
    show Assigned (threadPipelineDisable c s t name env).1
    obtain ⟨e, -⟩ | ⟨P, i, hP, hon, ht, hi, e⟩ := disable_cases c h.sound t name env
    · rw [e]
      exact h.assigned
    · rw [e]
      exact h.assigned.disabledOn h.sound hP hon ht hi

/-- A step after which the assignment holds met the condition. -/
theorem Inv.enablesDisabled (s : State) (op : Call × Env) (h : Inv s)
    (h' : Assigned (App.step c s op)) : EnablesDisabled c s op := by
  obtain ⟨call, env⟩ := op
  cases call with
  | disable t name => trivial
  | enable t name =>
    intro hr P hP
    obtain ⟨hr', -⟩ | ⟨-, P', hP', e⟩ := enable_cases c s t name env
    · exact (hr hr').elim
    · obtain rfl : P' = P := Option.some.inj (hP'.symm.trans hP)
      have h'' : Assigned (threadPipelineEnable c s t name env).1 := h'
      rw [e] at h''
      cases he : P'.enabled with
      | false => rfl
      | true => exact (not_assigned_enabledOn h.assigned hP rfl he h'').elim

theorem Fresh.inv (h : Fresh s) : Inv s where
  sound := h.sound
  assigned := by
    refine assigned_iff.mpr ?_
    intro n P hP t
    simp [occurs, ThreadData.pipelines, h.empty t, h.disabled n P hP]

/-- The assignment holds after every call of a run if and only if every enable call of the
run that goes through is for a pipeline that is disabled at that moment. -/
theorem assigned_always_iff (c : Platform) (s : State) (h : Fresh s) (ops : List (Call × Env)) :
    Always (App.step c) Assigned s ops ↔ Meets (App.step c) (EnablesDisabled c) s ops :=
  always_iff_meets Inv.step (fun _ => Inv.assigned) Inv.enablesDisabled h.inv ops

theorem assigned_always_iff_demo :
    Always (App.step demoPlatform) Assigned demo demoCalls ↔
      Meets (App.step demoPlatform) (EnablesDisabled demoPlatform) demo demoCalls :=
  assigned_always_iff demoPlatform demo demo_fresh demoCalls

/-- The pipeline enabled on thread 1 and then on thread 2, which do not run: both calls
succeed, both threads have it, and disabling it on thread 2 leaves it on thread 1. -/
def enabledTwice : List (Call × Env) :=
  [(.enable 1 "PIPELINE0", ⟨false, true, 5⟩), (.enable 2 "PIPELINE0", ⟨false, true, 6⟩)]

theorem assigned_broken : ¬ ∀ (c : Platform) (s : State), Fresh s → ∀ ops : List (Call × Env),
    Always (App.step c) Assigned s ops := by
  intro hall
  have h := hall demoPlatform demo demo_fresh enabledTwice _ (List.prefix_refl _)
  have hp : (run (App.step demoPlatform) demo enabledTwice).obj.pipelineFind "PIPELINE0" =
      some ⟨1, 10, true, 2⟩ := by rfl
  refine h.elsewhere "PIPELINE0" _ hp rfl 1 (by decide) ?_
  decide +kernel

/-- Disabled on thread 2, the pipeline still runs on thread 1. -/
example : ((run (App.step demoPlatform) demo
    (enabledTwice ++ [(.disable 2 "PIPELINE0", ⟨false, true, 7⟩)])).threadData 1).pipelines = [1] := by
  decide +kernel

end

end P4Switch.App
