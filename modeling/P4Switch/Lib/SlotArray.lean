import Mathlib.Data.Nat.Size
import Mathlib.Tactic

/-! # Slots at shifted indices

An array whose slot `id` starts at byte `id << shl`, and the rounding up to a power of two
that makes such a shift fit a size: each bit is joined to the ones above it. -/
namespace P4Switch.Lib.SlotArray

/-! ## Slots -/

/-- The first `n` slots of `size` bytes lie apart and inside an array of `bytes`. -/
structure Slots (n size shl bytes : Nat) : Prop where
  apart : ∀ a b, a < b → (a <<< shl) + size ≤ b <<< shl
  inside : ∀ a < n, (a <<< shl) + size ≤ bytes

theorem slots_of_le {n size shl bytes : Nat} (hsize : size ≤ 2 ^ shl) (hbytes : n * 2 ^ shl ≤ bytes) :
    Slots n size shl bytes := by
  have hapart : ∀ a b, a < b → (a <<< shl) + size ≤ b <<< shl := by
    intro a b hab
    have hstep : (a + 1) * 2 ^ shl ≤ b * 2 ^ shl := Nat.mul_le_mul_right _ hab
    rw [Nat.shiftLeft_eq, Nat.shiftLeft_eq]
    linarith
  refine ⟨hapart, fun a ha => (hapart a n ha).trans ?_⟩
  rw [Nat.shiftLeft_eq]
  exact hbytes

/-! ## Rounding up to a power of two -/

/-- Bit `i` of `w` tells whether one of the `n` bits of `v` from `i` on is set. -/
def Smeared (n v w : Nat) : Prop := ∀ i, w.testBit i ↔ ∃ j < n, v.testBit (i + j)

variable {n v w : Nat}

theorem smeared_one (v : Nat) : Smeared 1 v v := by
  intro i
  simp

theorem Smeared.double (h : Smeared n v w) : Smeared (n + n) v (w ||| w >>> n) := by
  intro i
  rw [Nat.testBit_or, Nat.testBit_shiftRight, Bool.or_eq_true, h, h]
  constructor
  · rintro (⟨j, hj, hv⟩ | ⟨j, hj, hv⟩)
    · exact ⟨j, by omega, hv⟩
    · refine ⟨n + j, by omega, ?_⟩
      rwa [show i + (n + j) = n + i + j by omega]
  · rintro ⟨j, hj, hv⟩
    by_cases hlow : j < n
    · exact Or.inl ⟨j, hlow, hv⟩
    · refine Or.inr ⟨j - n, by omega, ?_⟩
      rwa [show n + i + (j - n) = i + j by omega]

/-- All bits below the highest one are set. -/
theorem Smeared.eq (h : Smeared n v w) (hv : v < 2 ^ n) : w = 2 ^ v.size - 1 := by
  refine Nat.eq_of_testBit_eq fun i => ?_
  rw [Nat.testBit_two_pow_sub_one, Bool.eq_iff_iff, decide_eq_true_iff, h i, Nat.lt_size]
  constructor
  · rintro ⟨j, -, hj⟩
    exact (Nat.pow_le_pow_right (by decide) (by omega)).trans (Nat.ge_two_pow_of_testBit hj)
  · intro hi
    obtain ⟨k, hk, hbit⟩ := Nat.exists_ge_and_testBit_of_ge_two_pow hi
    have hkn : k < n := by
      by_contra hge
      rw [Nat.testBit_lt_two_pow (hv.trans_le (Nat.pow_le_pow_right (by decide) (by omega)))] at hbit
      cases hbit
    exact ⟨k - i, by omega, by rwa [Nat.add_sub_cancel' hk]⟩

/-! ## Trailing zeros -/

/-- The lowest bit that is set, of `n` bits. -/
def trailingZeros (n v : Nat) : Nat := ((List.range n).find? v.testBit).getD n

theorem trailingZeros_two_pow {k : Nat} (hk : k < n) : trailingZeros n (2 ^ k) = k := by
  have hfind : (List.range n).find? (2 ^ k).testBit = some k := by
    rw [List.find?_range_eq_some]
    refine ⟨Nat.testBit_two_pow_self, List.mem_range.mpr hk, fun j hj => ?_⟩
    rw [Nat.testBit_two_pow_of_ne (by omega)]
    rfl
  rw [trailingZeros, hfind, Option.getD_some]

end P4Switch.Lib.SlotArray
