import P4Switch.App.Thread
import P4Switch.Lib.GuardedRun
import P4Switch.Lib.SwapRemove

/-! # The direct path and the message path

The two copies of insertion and removal do the same to the arrays. Their answers to a
pipeline that is not found differ, and no reachable state gets there: an enabled pipeline
is in the arrays of its thread. -/
namespace P4Switch.App
open P4Switch.Lib.GuardedRun P4Switch.Lib.SwapRemove

section
variable {c : Platform} {s : State} {td td' : ThreadData} {P : Pipeline} {x : SwxPipeline}

/-! ## Insertion and removal -/

/-- The pipelines the thread runs, in the order of its array. -/
def ThreadData.pipelines (td : ThreadData) : List SwxPipeline := slots td.p td.nPipelines

/-- The arrays are parallel and no longer than they were declared. -/
structure Mirror (td : ThreadData) : Prop where
  le : td.nPipelines ≤ THREAD_PIPELINES_MAX
  eq : ∀ i < td.nPipelines, td.p i = (td.pipelineData i).p

/-- Entry `P` added behind the others. -/
def ThreadData.push (td : ThreadData) (d : PipelineData) : ThreadData where
  p := Function.update td.p td.nPipelines d.p
  pipelineData := Function.update td.pipelineData td.nPipelines d
  nPipelines := td.nPipelines + 1

/-- Entry `i` taken out. -/
def ThreadData.remove (td : ThreadData) (i : Nat) : ThreadData where
  p := swapRemove td.p td.nPipelines i
  pipelineData := swapRemove td.pipelineData td.nPipelines i
  nPipelines := td.nPipelines - 1

theorem enableDirect_eq (c : Platform) (td : ThreadData) (P : Pipeline) (now : UInt64) :
    enableDirect c td P now =
      if td.nPipelines ≥ THREAD_PIPELINES_MAX then none
      else some (td.push ⟨P.p, c.timerPeriod P.timerPeriodMs, now + c.timerPeriod P.timerPeriodMs⟩) :=
  rfl

theorem handleEnable_eq (c : Platform) (td : ThreadData) (p : SwxPipeline) (ms : UInt32)
    (now : UInt64) : threadMsgHandlePipelineEnable c td p ms now =
      if td.nPipelines ≥ THREAD_PIPELINES_MAX then (td, -1)
      else (td.push ⟨p, c.timerPeriod ms, now + c.timerPeriod ms⟩, 0) := rfl

theorem disableDirect_eq (td : ThreadData) (P : Pipeline) :
    disableDirect td P = (td.findPipeline P.p).map td.remove := by
  unfold disableDirect
  cases td.findPipeline P.p with
  | none => rfl
  | some i =>
    simp only [Option.map_some, ThreadData.remove, swapRemove]
    split <;> rfl

theorem handleDisable_eq (td : ThreadData) (p : SwxPipeline) :
    threadMsgHandlePipelineDisable td p =
      (((td.findPipeline p).map td.remove).getD td, 0) := by
  unfold threadMsgHandlePipelineDisable
  cases td.findPipeline p with
  | none => rfl
  | some i =>
    simp only [Option.map_some, Option.getD_some, ThreadData.remove, swapRemove]
    split <;> rfl

theorem findPipeline_some {i : Nat} (h : td.findPipeline x = some i) :
    i < td.nPipelines ∧ (td.pipelineData i).p = x := by
  have hm := List.mem_of_find?_eq_some h
  have hp := List.find?_some h
  exact ⟨List.mem_range.mp hm, by simpa using hp⟩

theorem findPipeline_isSome (hm : Mirror td) (h : x ∈ td.pipelines) :
    ∃ i, td.findPipeline x = some i := by
  obtain ⟨i, hi, he⟩ := mem_slots.mp h
  refine Option.isSome_iff_exists.mp (List.find?_isSome.mpr ⟨i, List.mem_range.mpr hi, ?_⟩)
  simpa [hm.eq i hi] using he

theorem Mirror.push (h : Mirror td) (hn : td.nPipelines < THREAD_PIPELINES_MAX) (d : PipelineData) :
    Mirror (td.push d) where
  le := hn
  eq i hi := by
    have hi' : i < td.nPipelines + 1 := hi
    show Function.update td.p td.nPipelines d.p i = (Function.update td.pipelineData td.nPipelines d i).p
    rcases Nat.lt_or_eq_of_le (Nat.le_of_lt_succ hi') with hlt | rfl
    · rw [Function.update_of_ne (by omega), Function.update_of_ne (by omega), h.eq i hlt]
    · rw [Function.update_self, Function.update_self]

theorem Mirror.remove (h : Mirror td) (i : Nat) : Mirror (td.remove i) where
  le := (Nat.sub_le _ _).trans h.le
  eq j hj := by
    have hj' : j < td.nPipelines - 1 := hj
    show swapRemove td.p td.nPipelines i j = (swapRemove td.pipelineData td.nPipelines i j).p
    unfold swapRemove
    split
    · by_cases hji : j = i
      · subst hji
        rw [Function.update_self, Function.update_self, h.eq _ (by omega)]
      · rw [Function.update_of_ne hji, Function.update_of_ne hji, h.eq j (by omega)]
    · exact h.eq j (by omega)

@[simp] theorem push_pipelines (td : ThreadData) (d : PipelineData) :
    (td.push d).pipelines = td.pipelines ++ [d.p] := slots_push _ _ _

/-- Removal takes out one occurrence of the pipeline and no other entry. -/
theorem remove_count (hm : Mirror td) {i : Nat} (h : td.findPipeline x = some i) (y : SwxPipeline) :
    (td.remove i).pipelines.count y + (if x = y then 1 else 0) = td.pipelines.count y := by
  obtain ⟨hi, hx⟩ := findPipeline_some h
  have hc := swapRemove_count td.p hi y
  rwa [hm.eq i hi, hx] at hc

/-! ## What a call does -/

/-- The state after thread `t` was given entry `d` for the pipeline `name`. -/
def State.enabledOn (s : State) (t : Nat) (name : String) (d : PipelineData) : State :=
  { s.setThreadData t ((s.threadData t).push d) with obj := s.obj.enable name t }

/-- The state after entry `i` of thread `t`, the pipeline `name`, was taken out. -/
def State.disabledOn (s : State) (t : Nat) (name : String) (i : Nat) : State :=
  { s.setThreadData t ((s.threadData t).remove i) with obj := s.obj.disable name }

/-- The guards of an enable call. -/
def EnableRefused (c : Platform) (s : State) (t : Nat) (name : String) (env : Env) : Prop :=
  s.obj.pipelineFind name = none ∨ t ≥ c.RTE_MAX_LCORE ∨ s.threadEnabled t = false ∨
    (s.threadData t).nPipelines ≥ THREAD_PIPELINES_MAX ∨ (env.running = true ∧ env.allocated = false)

/-- An enable call is refused, or it adds an entry; either way both paths do the same. -/
theorem enable_cases (c : Platform) (s : State) (t : Nat) (name : String) (env : Env) :
    (EnableRefused c s t name env ∧ threadPipelineEnable c s t name env = (s, -1)) ∨
    (¬ EnableRefused c s t name env ∧ ∃ P, s.obj.pipelineFind name = some P ∧
      threadPipelineEnable c s t name env =
        (s.enabledOn t name ⟨P.p, c.timerPeriod P.timerPeriodMs,
          env.now + c.timerPeriod P.timerPeriodMs⟩, 0)) := by
  unfold EnableRefused threadPipelineEnable
  cases hf : s.obj.pipelineFind name with
  | none => exact .inl ⟨.inl rfl, rfl⟩
  | some P =>
    by_cases hl : t ≥ c.RTE_MAX_LCORE
    · exact .inl ⟨.inr (.inl hl), by simp only [if_pos hl]⟩
    by_cases he : s.threadEnabled t = false
    · exact .inl ⟨.inr (.inr (.inl he)), by simp only [if_neg hl, if_pos he]⟩
    by_cases hn : (s.threadData t).nPipelines ≥ THREAD_PIPELINES_MAX
    · refine .inl ⟨.inr (.inr (.inr (.inl hn))), ?_⟩
      have hid : s.setThreadData t (s.threadData t) = s := by
        simp [State.setThreadData]
      simp only [if_neg hl, if_neg he, enableDirect_eq, threadMsgHandle, handleEnable_eq, if_pos hn, hid]
      split
      · rfl
      · split <;> rfl
    by_cases ha : env.running = true ∧ env.allocated = false
    · refine .inl ⟨.inr (.inr (.inr (.inr ha))), ?_⟩
      simp [hl, he, ha.1, ha.2]
    · refine .inr ⟨?_, P, rfl, ?_⟩
      · rintro (h | h | h | h | h)
        · contradiction
        · exact hl h
        · exact he h
        · exact hn h
        · exact ha h
      · simp only [if_neg hl, if_neg he, enableDirect_eq, threadMsgHandle, handleEnable_eq, if_neg hn]
        split
        · rfl
        · rename_i hr
          rw [if_neg (fun h => ha ⟨by simpa using hr, h⟩)]
          rfl

/-- An enabled pipeline is among those of its thread, and the arrays are parallel. -/
structure Sound (s : State) : Prop where
  mirror : ∀ t, Mirror (s.threadData t)
  found : ∀ n P, s.obj.pipelineFind n = some P → P.enabled = true →
    P.p ∈ (s.threadData P.threadId).pipelines

/-- A disable call changes nothing, and then it fails or the pipeline was not enabled, or it takes
the first entry of the pipeline out. -/
theorem disable_cases (c : Platform) (hs : Sound s) (t : Nat) (name : String) (env : Env) :
    ((threadPipelineDisable c s t name env).1 = s ∧
      ((threadPipelineDisable c s t name env).2 = 0 →
        ∀ P, s.obj.pipelineFind name = some P → P.enabled = false)) ∨
    ∃ P i, s.obj.pipelineFind name = some P ∧ P.enabled = true ∧ P.threadId = t ∧
      (s.threadData t).findPipeline P.p = some i ∧
      threadPipelineDisable c s t name env = (s.disabledOn t name i, 0) := by
  have hfailed : (-1 : Int) = 0 → ∀ P, s.obj.pipelineFind name = some P → P.enabled = false :=
    fun h => absurd h (by decide)
  unfold threadPipelineDisable
  cases hf : s.obj.pipelineFind name with
  | none => exact .inl ⟨rfl, fun _ P hP => by cases hP⟩
  | some P =>
    rw [hf] at hfailed
    by_cases hl : t ≥ c.RTE_MAX_LCORE
    · simp only [if_pos hl]
      exact .inl ⟨trivial, hfailed⟩
    by_cases he : s.threadEnabled t = false
    · simp only [if_neg hl, if_pos he]
      exact .inl ⟨trivial, hfailed⟩
    by_cases hd : P.enabled = false
    · simp only [if_neg hl, if_neg he, if_pos hd]
      exact .inl ⟨trivial, fun _ Q hQ => Option.some.inj hQ ▸ hd⟩
    by_cases ht : P.threadId ≠ t
    · simp only [if_neg hl, if_neg he, if_neg hd, if_pos ht]
      exact .inl ⟨trivial, hfailed⟩
    have ht' : P.threadId = t := not_not.mp ht
    have hmem : P.p ∈ (s.threadData t).pipelines := ht' ▸ hs.found name P hf (by simpa using hd)
    obtain ⟨i, hi⟩ := findPipeline_isSome (hs.mirror t) hmem
    by_cases ha : env.running = true ∧ env.allocated = false
    · have hr : env.running ≠ false := by rw [ha.1]; exact Bool.noConfusion
      simp only [if_neg hl, if_neg he, if_neg hd, if_neg ht, if_neg hr, if_pos ha.2]
      exact .inl ⟨trivial, hfailed⟩
    refine .inr ⟨P, i, rfl, by simpa using hd, ht', hi, ?_⟩
    simp only [if_neg hl, if_neg he, if_neg hd, if_neg ht, disableDirect_eq, threadMsgHandle,
      handleDisable_eq, hi, Option.map_some, Option.getD_some]
    split
    · rfl
    · rename_i hr
      rw [if_neg (fun h => ha ⟨by simpa using hr, h⟩)]
      rfl

/-! ## Every reachable state is sound -/

theorem enable_find {obj : Obj} {name n : String} {t : Nat} {Q : Pipeline}
    (h : (obj.enable name t).pipelineFind n = some Q) :
    (n = name ∧ ∃ P, obj.pipelineFind name = some P ∧ Q = P.enable t) ∨
      (n ≠ name ∧ obj.pipelineFind n = some Q) := by
  unfold Obj.enable Obj.modify at h
  dsimp only at h
  split at h
  · rename_i hn
    subst hn
    obtain ⟨P, hP, rfl⟩ := Option.map_eq_some_iff.mp h
    exact .inl ⟨rfl, P, hP, rfl⟩
  · rename_i hn
    exact .inr ⟨hn, h⟩

theorem disable_find {obj : Obj} {name n : String} {Q : Pipeline}
    (h : (obj.disable name).pipelineFind n = some Q) :
    (n = name ∧ Q.enabled = false ∧ ∃ P, obj.pipelineFind name = some P ∧ Q.p = P.p) ∨
      (n ≠ name ∧ obj.pipelineFind n = some Q) := by
  unfold Obj.disable Obj.modify at h
  dsimp only at h
  split at h
  · rename_i hn
    subst hn
    obtain ⟨P, hP, rfl⟩ := Option.map_eq_some_iff.mp h
    exact .inl ⟨rfl, rfl, P, hP, rfl⟩
  · rename_i hn
    exact .inr ⟨hn, h⟩

@[simp] theorem setThreadData_same (s : State) (t : Nat) (td : ThreadData) :
    (s.setThreadData t td).threadData t = td := Function.update_self _ _ _

theorem setThreadData_other (s : State) {t t' : Nat} (td : ThreadData) (h : t' ≠ t) :
    (s.setThreadData t td).threadData t' = s.threadData t' := Function.update_of_ne h _ _

theorem enabledOn_pipelines (s : State) (t : Nat) (name : String) (d : PipelineData) (t' : Nat) :
    ((s.enabledOn t name d).threadData t').pipelines =
      if t' = t then (s.threadData t).pipelines ++ [d.p] else (s.threadData t').pipelines := by
  show ((s.setThreadData t _).threadData t').pipelines = _
  split
  · rename_i h
    subst h
    rw [setThreadData_same, push_pipelines]
  · rename_i h
    rw [setThreadData_other s _ h]

theorem Sound.enabledOn (hs : Sound s) {t : Nat} {name : String}
    (hn : (s.threadData t).nPipelines < THREAD_PIPELINES_MAX) {d : PipelineData}
    (hP : s.obj.pipelineFind name = some P) (hd : d.p = P.p) : Sound (s.enabledOn t name d) where
  mirror t' := by
    show Mirror ((s.setThreadData t _).threadData t')
    by_cases ht : t' = t
    · subst ht
      rw [setThreadData_same]
      exact (hs.mirror t').push hn d
    · rw [setThreadData_other s _ ht]
      exact hs.mirror t'
  found n Q hQ he := by
    rw [enabledOn_pipelines]
    obtain ⟨rfl, P', hP', rfl⟩ | ⟨hne, hQ'⟩ := enable_find hQ
    · obtain rfl : P' = P := Option.some.inj (hP'.symm.trans hP)
      rw [if_pos (show (P'.enable t).threadId = t from rfl)]
      exact List.mem_append_right _ (List.mem_singleton.mpr hd.symm)
    · have hm := hs.found n Q hQ' he
      split
      · rename_i ht
        exact List.mem_append_left _ (ht ▸ hm)
      · exact hm

theorem disabledOn_count (hs : Sound s) {t i : Nat} (name : String)
    (hi : (s.threadData t).findPipeline x = some i) (t' : Nat) (y : SwxPipeline) :
    ((s.disabledOn t name i).threadData t').pipelines.count y +
        (if t' = t ∧ x = y then 1 else 0) = (s.threadData t').pipelines.count y := by
  show ((s.setThreadData t _).threadData t').pipelines.count y + _ = _
  by_cases ht : t' = t
  · subst ht
    rw [setThreadData_same, ← remove_count (hs.mirror t') hi y]
    simp
  · rw [setThreadData_other s _ ht]
    simp [ht]

theorem Sound.disabledOn (hs : Sound s) {t i : Nat} {name : String}
    (hP : s.obj.pipelineFind name = some P) (hi : (s.threadData t).findPipeline P.p = some i) :
    Sound (s.disabledOn t name i) where
  mirror t' := by
    show Mirror ((s.setThreadData t _).threadData t')
    by_cases ht : t' = t
    · subst ht
      rw [setThreadData_same]
      exact (hs.mirror t').remove i
    · rw [setThreadData_other s _ ht]
      exact hs.mirror t'
  found n Q hQ he := by
    obtain ⟨-, hoff, -⟩ | ⟨hne, hQ'⟩ := disable_find hQ
    · rw [hoff] at he
      contradiction
    · have hm := hs.found n Q hQ' he
      have hpq : P.p ≠ Q.p := fun e => hne (s.obj.distinct hQ' hP e.symm)
      have hc := disabledOn_count hs name hi Q.threadId Q.p
      rw [if_neg (fun h => hpq h.2), Nat.add_zero] at hc
      exact List.count_pos_iff.mp (by rw [hc]; exact List.count_pos_iff.mpr hm)

theorem Sound.step (hs : Sound s) (op : Call × Env) : Sound (App.step c s op) := by
  obtain ⟨call, env⟩ := op
  cases call with
  | enable t name =>
    show Sound (threadPipelineEnable c s t name env).1
    obtain ⟨-, e⟩ | ⟨hr, P, hP, e⟩ := enable_cases c s t name env
    · rwa [e]
    · rw [e]
      refine hs.enabledOn ?_ hP rfl
      exact Nat.lt_of_not_le fun h => hr (.inr (.inr (.inr (.inl h))))
  | disable t name =>
    show Sound (threadPipelineDisable c s t name env).1
    obtain ⟨e, -⟩ | ⟨P, i, hP, -, -, hi, e⟩ := disable_cases c hs t name env
    · rwa [e]
    · rw [e]
      exact hs.disabledOn hP hi

theorem Fresh.sound (h : Fresh s) : Sound s where
  mirror t := ⟨by rw [h.empty t]; exact Nat.zero_le _, fun i hi => by rw [h.empty t] at hi; omega⟩
  found n P hP he := by rw [h.disabled n P hP] at he; contradiction

theorem Sound.run (hs : Sound s) (ops : List (Call × Env)) : Sound (run (App.step c) s ops) := by
  induction ops generalizing s with
  | nil => exact hs
  | cons op ops ih => exact ih (hs.step op)

/-! ## The two paths agree -/

/-- The same as far as the arrays are in use: length, pipelines, timer periods, and every
pipeline's record. -/
structure SameView (s s' : State) : Prop where
  obj : s'.obj.pipelineFind = s.obj.pipelineFind
  nPipelines : ∀ t, (s'.threadData t).nPipelines = (s.threadData t).nPipelines
  p : ∀ t, ∀ i < (s.threadData t).nPipelines, (s'.threadData t).p i = (s.threadData t).p i
  data : ∀ t, ∀ i < (s.threadData t).nPipelines,
    ((s'.threadData t).pipelineData i).p = ((s.threadData t).pipelineData i).p ∧
    ((s'.threadData t).pipelineData i).timerPeriod = ((s.threadData t).pipelineData i).timerPeriod

theorem SameView.refl (s : State) : SameView s s :=
  ⟨rfl, fun _ => rfl, fun _ _ _ => rfl, fun _ _ _ => ⟨rfl, rfl⟩⟩

/-- Two entries that differ in the time of their next turn only. -/
theorem sameView_enabledOn (s : State) (t : Nat) (name : String) {d d' : PipelineData}
    (hp : d'.p = d.p) (ht : d'.timerPeriod = d.timerPeriod) :
    SameView (s.enabledOn t name d) (s.enabledOn t name d') := by
  have hother : ∀ t' ≠ t, (s.enabledOn t name d').threadData t' = (s.enabledOn t name d).threadData t' :=
    fun t' h => (setThreadData_other s _ h).trans (setThreadData_other s _ h).symm
  have hsame : ∀ d, (s.enabledOn t name d).threadData t = (s.threadData t).push d :=
    fun d => setThreadData_same s t _
  refine ⟨rfl, fun t' => ?_, fun t' i _ => ?_, fun t' i _ => ?_⟩ <;> by_cases h : t' = t
  · subst h
    rw [hsame, hsame]
    exact rfl
  · rw [hother t' h]
  · subst h
    rw [hsame, hsame]
    simp only [ThreadData.push, hp]
  · rw [hother t' h]
  · subst h
    rw [hsame, hsame]
    simp only [ThreadData.push, Function.update_apply]
    split
    · exact ⟨hp, ht⟩
    · exact ⟨rfl, rfl⟩
  · rw [hother t' h]
    exact ⟨rfl, rfl⟩

theorem enable_agree (c : Platform) (s : State) (t : Nat) (name : String) (a : Bool) (now now' : UInt64) :
    (threadPipelineEnable c s t name ⟨true, true, now'⟩).2 =
        (threadPipelineEnable c s t name ⟨false, a, now⟩).2 ∧
      SameView (threadPipelineEnable c s t name ⟨false, a, now⟩).1
        (threadPipelineEnable c s t name ⟨true, true, now'⟩).1 := by
  have hiff : EnableRefused c s t name ⟨true, true, now'⟩ ↔ EnableRefused c s t name ⟨false, a, now⟩ := by
    simp [EnableRefused]
  obtain ⟨hr, e⟩ | ⟨hr, P, hP, e⟩ := enable_cases c s t name ⟨false, a, now⟩ <;>
    obtain ⟨hr', e'⟩ | ⟨hr', P', hP', e'⟩ := enable_cases c s t name ⟨true, true, now'⟩
  · rw [e, e']
    exact ⟨rfl, .refl _⟩
  · exact (hr' (hiff.mpr hr)).elim
  · exact (hr (hiff.mp hr')).elim
  · obtain rfl : P' = P := Option.some.inj (hP'.symm.trans hP)
    rw [e, e']
    exact ⟨rfl, sameView_enabledOn s t name (rfl) (rfl)⟩

theorem disable_agree (hs : Sound s) (t : Nat) (name : String) (a : Bool) (now now' : UInt64) :
    threadPipelineDisable c s t name ⟨true, true, now'⟩ =
      threadPipelineDisable c s t name ⟨false, a, now⟩ := by
  unfold threadPipelineDisable
  cases hf : s.obj.pipelineFind name with
  | none => exact rfl
  | some P =>
    by_cases hd : P.enabled = false
    · simp [hd]
    by_cases ht : P.threadId ≠ t
    · simp [hd, ht]
    have ht' : P.threadId = t := not_not.mp ht
    have hmem : P.p ∈ (s.threadData t).pipelines := ht' ▸ hs.found name P hf (by simpa using hd)
    obtain ⟨i, hi⟩ := findPipeline_isSome (hs.mirror t) hmem
    simp only [hd, ht', disableDirect_eq, threadMsgHandle, handleDisable_eq, hi, Option.map_some,
      Option.getD_some]
    exact rfl

theorem paths_agree (c : Platform) (hs : Sound s) (call : Call) (a : Bool) (now now' : UInt64) :
    (call.exec c s ⟨true, true, now'⟩).2 = (call.exec c s ⟨false, a, now⟩).2 ∧
      SameView (call.exec c s ⟨false, a, now⟩).1 (call.exec c s ⟨true, true, now'⟩).1 := by
  cases call with
  | enable t name => exact enable_agree c s t name a now now'
  | disable t name =>
    have h := disable_agree (c := c) hs t name a now now'
    show (threadPipelineDisable c s t name _).2 = _ ∧ SameView _ (threadPipelineDisable c s t name _).1
    rw [h]
    exact ⟨rfl, .refl _⟩

/-- A disable call leaves every other pipeline in every thread as often as it was. -/
theorem disable_others (c : Platform) (hs : Sound s) (t : Nat) (name : String) (env : Env)
    (t' : Nat) (y : SwxPipeline) (hy : ∀ P, s.obj.pipelineFind name = some P → P.p ≠ y) :
    ((threadPipelineDisable c s t name env).1.threadData t').pipelines.count y =
      (s.threadData t').pipelines.count y := by
  obtain ⟨e, -⟩ | ⟨P, i, hP, -, -, hi, e⟩ := disable_cases c hs t name env
  · rw [e]
  · rw [e, ← disabledOn_count hs name hi t' y, if_neg (fun h => hy P hP h.2), Nat.add_zero]

/-- A disable call that succeeds on an enabled pipeline takes one entry of it out of the thread. -/
theorem disable_removes (c : Platform) (hs : Sound s) (t : Nat) (name : String) (env : Env)
    (P : Pipeline) (hP : s.obj.pipelineFind name = some P) (hon : P.enabled = true)
    (hok : (threadPipelineDisable c s t name env).2 = 0) (t' : Nat) (y : SwxPipeline) :
    ((threadPipelineDisable c s t name env).1.threadData t').pipelines.count y +
        (if t' = t ∧ P.p = y then 1 else 0) = (s.threadData t').pipelines.count y := by
  obtain ⟨-, hoff⟩ | ⟨Q, i, hQ, -, -, hi, e⟩ := disable_cases c hs t name env
  · rw [hoff hok P hP] at hon
    cases hon
  · obtain rfl : P = Q := Option.some.inj (hP.symm.trans hQ)
    rw [e]
    exact disabledOn_count hs name hi t' y

/-- In every state reachable by enable and disable calls, on threads running or not, the
direct path and the message path of the next call agree, the arrays are parallel and within
bounds, and a disable leaves all other entries in place and, when it succeeds on an enabled
pipeline, takes out one of its own. -/
theorem paths_agree_reachable (c : Platform) (s : State) (h : Fresh s) (ops : List (Call × Env)) :
    (∀ (call : Call) (a : Bool) (now now' : UInt64),
      (call.exec c (run (App.step c) s ops) ⟨true, true, now'⟩).2 =
          (call.exec c (run (App.step c) s ops) ⟨false, a, now⟩).2 ∧
        SameView (call.exec c (run (App.step c) s ops) ⟨false, a, now⟩).1
          (call.exec c (run (App.step c) s ops) ⟨true, true, now'⟩).1) ∧
    (∀ t, Mirror ((run (App.step c) s ops).threadData t)) ∧
    (∀ (t : Nat) (name : String) (env : Env) (t' : Nat) (y : SwxPipeline),
      (∀ P, (run (App.step c) s ops).obj.pipelineFind name = some P → P.p ≠ y) →
      ((threadPipelineDisable c (run (App.step c) s ops) t name env).1.threadData t').pipelines.count y =
        ((run (App.step c) s ops).threadData t').pipelines.count y) ∧
    (∀ (t : Nat) (name : String) (env : Env) (P : Pipeline),
      (run (App.step c) s ops).obj.pipelineFind name = some P → P.enabled = true →
      (threadPipelineDisable c (run (App.step c) s ops) t name env).2 = 0 →
      ∀ (t' : Nat) (y : SwxPipeline),
        ((threadPipelineDisable c (run (App.step c) s ops) t name env).1.threadData t').pipelines.count y +
            (if t' = t ∧ P.p = y then 1 else 0) =
          ((run (App.step c) s ops).threadData t').pipelines.count y) := by
  have hs : Sound (run (App.step c) s ops) := h.sound.run ops
  exact ⟨paths_agree c hs, hs.mirror, disable_others c hs, disable_removes c hs⟩

/-- Two pipelines that no thread runs yet. -/
def demoPipelines (n : String) : Option Pipeline :=
  if n = "PIPELINE0" then some ⟨1, 10, false, 0⟩
  else if n = "PIPELINE1" then some ⟨2, 10, false, 0⟩
  else none

theorem demoPipelines_cases {n : String} (h : demoPipelines n = some P) :
    (n = "PIPELINE0" ∧ P = ⟨1, 10, false, 0⟩) ∨ (n = "PIPELINE1" ∧ P = ⟨2, 10, false, 0⟩) := by
  unfold demoPipelines at h
  split at h
  · rename_i hn
    exact .inl ⟨hn, (Option.some.inj h).symm⟩
  · split at h
    · rename_i hn
      exact .inr ⟨hn, (Option.some.inj h).symm⟩
    · contradiction

def demo : State where
  threadEnabled := fun t => t = 1 ∨ t = 2
  threadData := fun _ => ⟨fun _ => 0, 0, fun _ => ⟨0, 0, 0⟩⟩
  obj :=
    { pipelineFind := demoPipelines
      distinct := by
        intro n m P Q hn hm he
        obtain ⟨rfl, rfl⟩ | ⟨rfl, rfl⟩ := demoPipelines_cases hn <;>
          obtain ⟨rfl, rfl⟩ | ⟨rfl, rfl⟩ := demoPipelines_cases hm
        · rfl
        · contradiction
        · contradiction
        · rfl }

def demoPlatform : Platform := ⟨128, 2000000000⟩

theorem demo_fresh : Fresh demo where
  empty t := rfl
  disabled n P h := by
    obtain ⟨-, rfl⟩ | ⟨-, rfl⟩ := demoPipelines_cases h <;> rfl

/-- Two pipelines enabled on thread 1, one directly and one by message; the first is
disabled next. -/
def demoCalls : List (Call × Env) :=
  [(.enable 1 "PIPELINE0", ⟨false, true, 5⟩), (.enable 1 "PIPELINE1", ⟨true, true, 6⟩)]

theorem paths_agree_demo :
    ((Call.disable 1 "PIPELINE0").exec demoPlatform
        (run (App.step demoPlatform) demo demoCalls) ⟨true, true, 8⟩).2 =
      ((Call.disable 1 "PIPELINE0").exec demoPlatform
        (run (App.step demoPlatform) demo demoCalls) ⟨false, true, 7⟩).2 ∧
    ((run (App.step demoPlatform) demo demoCalls).threadData 1).pipelines = [1, 2] :=
  ⟨((paths_agree_reachable demoPlatform demo demo_fresh demoCalls).1 (.disable 1 "PIPELINE0")
    true 7 8).1, by decide +kernel⟩

end

end P4Switch.App
