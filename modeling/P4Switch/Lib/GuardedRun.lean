import Mathlib.Data.List.Basic
import Mathlib.Tactic

/-! # Runs of a step function under a condition on each step

`step s a` is the state after input `a`; a run is a fold. `Meets ok s as` says that
every step of the run from `s` starts in a state and takes an input related by `ok`.
An invariant kept by the steps that meet the condition holds after every prefix, and
when the property of interest fails as soon as one step misses the condition, the two
are equivalent along the whole run. -/
namespace P4Switch.Lib.GuardedRun

variable {σ α : Type*}

def run (step : σ → α → σ) (s : σ) (as : List α) : σ := as.foldl step s

/-- Each step of the run from `s` meets `ok`. -/
def Meets (step : σ → α → σ) (ok : σ → α → Prop) : σ → List α → Prop
  | _, [] => True
  | s, a :: as => ok s a ∧ Meets step ok (step s a) as

instance Meets.decidable {step : σ → α → σ} {ok : σ → α → Prop} [∀ s a, Decidable (ok s a)] :
    ∀ s as, Decidable (Meets step ok s as)
  | _, [] => inferInstanceAs (Decidable True)
  | s, a :: as =>
    have : Decidable (Meets step ok (step s a) as) := Meets.decidable (step s a) as
    inferInstanceAs (Decidable (ok s a ∧ Meets step ok (step s a) as))

/-- `P` holds in the start state and after every step of the run. -/
def Always (step : σ → α → σ) (P : σ → Prop) (s : σ) (as : List α) : Prop :=
  ∀ pre, pre <+: as → P (run step s pre)

section
variable {step : σ → α → σ} {ok : σ → α → Prop} {I P : σ → Prop}

@[simp] theorem run_nil (s : σ) : run step s [] = s := rfl

@[simp] theorem run_cons (s : σ) (a : α) (as : List α) :
    run step s (a :: as) = run step (step s a) as := rfl

theorem run_append (s : σ) (as bs : List α) :
    run step s (as ++ bs) = run step (run step s as) bs := List.foldl_append

theorem Meets.initial {s : σ} {pre as : List α} (h : Meets step ok s as) (hp : pre <+: as) :
    Meets step ok s pre := by
  induction pre generalizing s as with
  | nil => trivial
  | cons a pre ih =>
    obtain ⟨rest, rfl⟩ := hp
    exact ⟨h.1, ih h.2 ⟨rest, rfl⟩⟩

theorem Meets.rest {s : σ} {as bs : List α} (h : Meets step ok s (as ++ bs)) :
    Meets step ok (run step s as) bs := by
  induction as generalizing s with
  | nil => exact h
  | cons a as ih => exact ih h.2

/-- The run lemma: an invariant of the steps that meet the condition. -/
theorem Meets.invariant (hstep : ∀ s a, I s → ok s a → I (step s a)) {s : σ} {as : List α}
    (h : Meets step ok s as) (hs : I s) : I (run step s as) := by
  induction as generalizing s with
  | nil => exact hs
  | cons a as ih => exact ih h.2 (hstep s a hs h.1)

theorem Meets.always (hstep : ∀ s a, I s → ok s a → I (step s a)) (hP : ∀ s, I s → P s)
    {s : σ} {as : List α} (h : Meets step ok s as) (hs : I s) : Always step P s as :=
  fun _ hp => hP _ ((h.initial hp).invariant hstep hs)

theorem Always.tail {s : σ} {a : α} {as : List α} (h : Always step P s (a :: as)) :
    Always step P (step s a) as :=
  fun pre hp => h (a :: pre) (List.cons_prefix_cons.mpr ⟨rfl, hp⟩)

/-- The condition is exact: it is met along a run if and only if the property holds in
every state of the run. -/
theorem always_iff_meets (hstep : ∀ s a, I s → ok s a → I (step s a)) (hP : ∀ s, I s → P s)
    (hok : ∀ s a, I s → P (step s a) → ok s a) {s : σ} (hs : I s) (as : List α) :
    Always step P s as ↔ Meets step ok s as := by
  refine ⟨?_, fun h => h.always hstep hP hs⟩
  intro h
  induction as generalizing s with
  | nil => trivial
  | cons a as ih =>
    have ha : ok s a := hok s a hs (h [a] (by simp))
    exact ⟨ha, ih (hstep s a hs ha) h.tail⟩

end

end P4Switch.Lib.GuardedRun
