import Mathlib.Data.List.Count
import Mathlib.Tactic

/-! # Requests against budgets

Requests arrive one after the other, each with a key; one is granted as long as its key has
budget left and takes one unit of it. The keys do not meet: what a key gets depends on its
own budget and on how many of the requests are its own. -/
namespace P4Switch.Lib.Quota

variable {κ : Type*} [DecidableEq κ]

/-- The budgets after a request for `k`. -/
def spend (budget : κ → Nat) (k : κ) : κ → Nat := Function.update budget k (budget k - 1)

/-- Which requests are granted. -/
def grants (budget : κ → Nat) : List κ → List Bool
  | [] => []
  | k :: ks => decide (0 < budget k) :: grants (spend budget k) ks

/-- The verdicts on the requests of `k`. -/
def verdictsOf (budget : κ → Nat) (k : κ) (ks : List κ) : List Bool :=
  ((ks.zip (grants budget ks)).filter (·.1 = k)).map Prod.snd

section
variable (budget : κ → Nat) (k : κ)

@[simp] theorem spend_self : spend budget k k = budget k - 1 := Function.update_self ..

theorem spend_of_ne {j : κ} (h : j ≠ k) : spend budget k j = budget j := Function.update_of_ne h ..

@[simp] theorem grants_length (ks : List κ) : (grants budget ks).length = ks.length := by
  induction ks generalizing budget with
  | nil => rfl
  | cons j ks ih => exact congrArg Nat.succ (ih _)

theorem verdictsOf_cons_self (ks : List κ) :
    verdictsOf budget k (k :: ks) =
      decide (0 < budget k) :: verdictsOf (spend budget k) k ks := by
  simp [verdictsOf, grants]

theorem verdictsOf_cons_other {j : κ} (h : j ≠ k) (ks : List κ) :
    verdictsOf budget k (j :: ks) = verdictsOf (spend budget j) k ks := by
  simp [verdictsOf, grants, h]

/-- **The first requests of each key are granted**, as many as its budget. -/
theorem verdictsOf_eq (ks : List κ) :
    verdictsOf budget k ks =
      List.replicate (min (budget k) (ks.count k)) true ++
        List.replicate (ks.count k - budget k) false := by
  induction ks generalizing budget with
  | nil => simp [verdictsOf]
  | cons j ks ih =>
    by_cases hj : j = k
    · subst hj
      rw [verdictsOf_cons_self, ih, spend_self, List.count_cons_self]
      rcases Nat.eq_zero_or_pos (budget j) with h0 | hpos
      · simp [h0, List.replicate_succ]
      · obtain ⟨n, hn⟩ := Nat.exists_eq_succ_of_ne_zero hpos.ne'
        have hmin : min (n + 1) (ks.count j + 1) = min n (ks.count j) + 1 := by omega
        simp [hn, hmin, List.replicate_succ]
    · rw [verdictsOf_cons_other budget k hj, ih, spend_of_ne budget j (Ne.symm hj),
        List.count_cons_of_ne hj]

end

end P4Switch.Lib.Quota
