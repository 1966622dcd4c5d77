import Mathlib.Logic.Function.Basic
import Mathlib.Tactic

/-! # Arrays filled by a loop

`fill f a p c g` is the array `g` after a loop has stored the `c` values `f p`, `f (p + 1)`,
... at the indices from `a` on. A loop that stores head first, and one that is cut into
chunks, leave the same array. -/
namespace P4Switch.Lib.Fill

variable {α : Type*}

def fill (f : Nat → α) (a p c : Nat) (g : Nat → α) (i : Nat) : α :=
  if a ≤ i ∧ i < a + c then f (p + (i - a)) else g i

theorem fill_at (f : Nat → α) (a p c j : Nat) (g : Nat → α) :
    fill f a p c g (a + j) = if j < c then f (p + j) else g (a + j) := by
  have h1 : a ≤ a + j := by omega
  have h2 : a + j < a + c ↔ j < c := by omega
  simp only [fill, h1, h2, true_and, Nat.add_sub_cancel_left]

theorem fill_below {f : Nat → α} {a p c i : Nat} {g : Nat → α} (h : i < a) :
    fill f a p c g i = g i := by
  unfold fill
  rw [if_neg]
  omega

theorem fill_above {f : Nat → α} {a p c i : Nat} {g : Nat → α} (h : a + c ≤ i) :
    fill f a p c g i = g i := by
  unfold fill
  rw [if_neg]
  omega

@[simp] theorem fill_zero (f : Nat → α) (a p : Nat) (g : Nat → α) : fill f a p 0 g = g := by
  funext i
  unfold fill
  rw [if_neg]
  omega

theorem fill_append (f : Nat → α) (a p c d : Nat) (g : Nat → α) :
    fill f (a + c) (p + c) d (fill f a p c g) = fill f a p (c + d) g := by
  funext i
  rcases Nat.lt_or_ge i (a + c) with h | h
  · rw [fill_below h]
    unfold fill
    have hd : a ≤ i ∧ i < a + (c + d) ↔ a ≤ i ∧ i < a + c := by omega
    simp only [hd]
  · obtain ⟨j, rfl⟩ := Nat.exists_eq_add_of_le h
    rw [fill_at, fill_above (by omega), Nat.add_assoc a c j, fill_at, Nat.add_assoc p c j]
    have hj : c + j < c + d ↔ j < d := by omega
    simp only [hj]

theorem fill_one (f : Nat → α) (a p : Nat) (g : Nat → α) :
    fill f a p 1 g = Function.update g a (f p) := by
  funext i
  rcases Nat.lt_trichotomy i a with h | rfl | h
  · rw [fill_below h, Function.update_of_ne (Nat.ne_of_lt h)]
  · rw [Function.update_self]
    exact fill_at f i p 1 0 g
  · rw [fill_above (by omega), Function.update_of_ne (Nat.ne_of_gt h)]

/-- The loop that stores the head first. -/
theorem fill_succ (f : Nat → α) (a p c : Nat) (g : Nat → α) :
    fill f (a + 1) (p + 1) c (Function.update g a (f p)) = fill f a p (c + 1) g := by
  rw [← fill_one, fill_append, Nat.add_comm 1 c]

theorem fill_congr {f f' : Nat → α} {a p c : Nat} {g : Nat → α}
    (h : ∀ i, p ≤ i → i < p + c → f i = f' i) : fill f a p c g = fill f' a p c g := by
  funext i
  unfold fill
  split
  · rename_i hi
    rw [h _ (by omega) (by omega)]
  · rfl

end P4Switch.Lib.Fill
