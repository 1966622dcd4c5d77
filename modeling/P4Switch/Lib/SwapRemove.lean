import Mathlib.Data.List.Perm.Basic
import Mathlib.Logic.Function.Basic
import Mathlib.Tactic

/-! # An array in use up to a length

`slots a n` are the entries in use. Entries are added at the end, and taken out by moving
the last one into their place, which leaves the others as they are up to their order. -/
namespace P4Switch.Lib.SwapRemove

variable {α : Type*}

def slots (a : Nat → α) (n : Nat) : List α := (List.range n).map a

/-- Entry `i` overwritten by the last one; the length goes down by one. -/
def swapRemove (a : Nat → α) (n i : Nat) : Nat → α :=
  if i < n - 1 then Function.update a i (a (n - 1)) else a

@[simp] theorem slots_zero (a : Nat → α) : slots a 0 = [] := rfl

theorem slots_succ (a : Nat → α) (n : Nat) : slots a (n + 1) = slots a n ++ [a n] := by
  simp [slots, List.range_succ]

theorem mem_slots {a : Nat → α} {n : Nat} {x : α} : x ∈ slots a n ↔ ∃ i < n, a i = x := by
  simp [slots]

theorem slots_congr {a b : Nat → α} {n : Nat} (h : ∀ i < n, a i = b i) : slots a n = slots b n :=
  List.map_congr_left fun i hi => h i (List.mem_range.mp hi)

theorem slots_update_of_le {a : Nat → α} {n i : Nat} (h : n ≤ i) (x : α) :
    slots (Function.update a i x) n = slots a n :=
  slots_congr fun _ hj => Function.update_of_ne (by omega) x a

theorem slots_push (a : Nat → α) (n : Nat) (x : α) :
    slots (Function.update a n x) (n + 1) = slots a n ++ [x] := by
  rw [slots_succ, slots_update_of_le (Nat.le_refl n), Function.update_self]

/-- Overwriting an entry exchanges its value for the new one. -/
theorem slots_update_perm (a : Nat → α) {n i : Nat} (h : i < n) (x : α) :
    (a i :: slots (Function.update a i x) n).Perm (x :: slots a n) := by
  induction n with
  | zero => omega
  | succ n ih =>
    rcases Nat.lt_or_eq_of_le (Nat.le_of_lt_succ h) with hi | rfl
    · rw [slots_succ, slots_succ, Function.update_of_ne (by omega)]
      exact (ih hi).append_right [a n]
    · rw [slots_push, slots_succ]
      have h1 : (a i :: (slots a i ++ [x])).Perm (a i :: x :: slots a i) :=
        (List.perm_append_singleton x (slots a i)).cons (a i)
      have h2 : (x :: (slots a i ++ [a i])).Perm (x :: a i :: slots a i) :=
        (List.perm_append_singleton (a i) (slots a i)).cons x
      exact h1.trans ((List.Perm.swap x (a i) _).trans h2.symm)

/-- Taking entry `i` out leaves the others, up to their order. -/
theorem swapRemove_perm (a : Nat → α) {n i : Nat} (h : i < n) :
    (a i :: slots (swapRemove a n i) (n - 1)).Perm (slots a n) := by
  obtain ⟨k, rfl⟩ : ∃ k, n = k + 1 := ⟨n - 1, by omega⟩
  simp only [swapRemove, Nat.add_sub_cancel]
  rw [slots_succ]
  split
  · rename_i hi
    exact (slots_update_perm a hi (a k)).trans
      (List.perm_append_singleton (a k) (slots a k)).symm
  · have hi : i = k := by omega
    subst hi
    exact (List.perm_append_singleton (a i) (slots a i)).symm

theorem swapRemove_count [DecidableEq α] (a : Nat → α) {n i : Nat} (h : i < n) (x : α) :
    (slots (swapRemove a n i) (n - 1)).count x + (if a i = x then 1 else 0) =
      (slots a n).count x := by
  rw [← (swapRemove_perm a h).count_eq x, List.count_cons]
  simp

end P4Switch.Lib.SwapRemove
