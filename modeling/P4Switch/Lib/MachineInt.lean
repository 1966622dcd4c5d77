import Mathlib.Data.Int.ModEq
import Mathlib.Tactic

/-! # Fixed-width integers on top of `Int`

A C value is kept as a mathematical integer and cut to its width where the code
stores or converts it: `unsigned w` for `uintN_t`, `signed w` for the two's
complement types. The lemmas move the cuts through sums, so that a chain of
truncated additions is one congruence. -/
namespace P4Switch.Lib.MachineInt

/-- The value a `w`-bit unsigned object holds after `x` is stored in it. -/
def unsigned (w : Nat) (x : Int) : Nat := (x % 2 ^ w).toNat

/-- The value a `w`-bit two's complement object holds after `x` is stored in it. -/
def signed (w : Nat) (x : Int) : Int := x.bmod (2 ^ w)

theorem unsigned_cast (w : Nat) (x : Int) : (unsigned w x : Int) = x % 2 ^ w :=
  Int.toNat_of_nonneg (Int.emod_nonneg _ (by positivity))

theorem unsigned_lt (w : Nat) (x : Int) : unsigned w x < 2 ^ w := by
  have h := Int.emod_lt_of_pos x (show (0 : Int) < 2 ^ w by positivity)
  rw [← unsigned_cast] at h
  exact_mod_cast h

theorem unsigned_modEq (w : Nat) (x : Int) : (unsigned w x : Int) ≡ x [ZMOD 2 ^ w] := by
  rw [unsigned_cast]; exact Int.mod_modEq x _

/-- Two stores leave the same object exactly when the values are congruent. -/
theorem unsigned_eq_iff (w : Nat) (x y : Int) :
    unsigned w x = unsigned w y ↔ x ≡ y [ZMOD 2 ^ w] := by
  rw [← Int.natCast_inj, unsigned_cast, unsigned_cast]; rfl

theorem unsigned_of_lt {w : Nat} {x : Int} (h0 : 0 ≤ x) (h : x < 2 ^ w) :
    (unsigned w x : Int) = x := by
  rw [unsigned_cast, Int.emod_eq_of_lt h0 h]

theorem unsigned_natCast {w n : Nat} (h : n < 2 ^ w) : unsigned w (n : Int) = n := by
  have := unsigned_of_lt (w := w) (Int.natCast_nonneg n) (by exact_mod_cast h)
  exact_mod_cast this

theorem unsigned_add {w a b : Nat} (h : a + b < 2 ^ w) : unsigned w ((a : Int) + b) = a + b := by
  rw [← Int.natCast_add]; exact unsigned_natCast h

theorem unsigned_sub {w a b : Nat} (hb : b ≤ a) (h : a < 2 ^ w) :
    unsigned w ((a : Int) - b) = a - b := by
  rw [← Int.natCast_sub hb]; exact unsigned_natCast (by omega)

theorem signed_modEq (w : Nat) (x : Int) : signed w x ≡ x [ZMOD 2 ^ w] := by
  have h : signed w x % ((2 ^ w : Nat) : Int) = x % ((2 ^ w : Nat) : Int) := Int.bmod_emod
  simpa [Int.ModEq] using h

theorem modEq_of_le {v w : Nat} {x y : Int} (h : v ≤ w) (hxy : x ≡ y [ZMOD 2 ^ w]) :
    x ≡ y [ZMOD 2 ^ v] := hxy.of_dvd (pow_dvd_pow 2 h)

theorem signed_of_bounds {w : Nat} {x : Int} (h0 : -2 ^ w ≤ x * 2) (h : x * 2 < 2 ^ w) :
    signed w x = x := by
  have hm : ((2 ^ w : Nat) : Int) = 2 ^ w := by push_cast; rfl
  unfold signed
  apply Int.bmod_eq_of_le_mul_two <;> rw [hm] <;> assumption

theorem signed_add_signed (w : Nat) (x y : Int) : signed w (signed w x + y) = signed w (x + y) := by
  simp [signed]

theorem signed_bounds {w : Nat} (hw : 0 < w) (x : Int) :
    -2 ^ w ≤ signed w x * 2 ∧ signed w x * 2 < 2 ^ w := by
  obtain ⟨v, rfl⟩ : ∃ v, w = v + 1 := ⟨w - 1, by omega⟩
  have hm : ((2 ^ (v + 1) : Nat) : Int) = 2 * 2 ^ v := by push_cast; ring
  have hp : 0 < 2 ^ (v + 1) := by positivity
  have hl := Int.le_bmod (x := x) (m := 2 ^ (v + 1)) hp
  have hu := Int.bmod_lt (x := x) (m := 2 ^ (v + 1)) hp
  rw [hm] at hl hu
  rw [show (2 : Int) ^ (v + 1) = 2 * 2 ^ v by ring]
  unfold signed
  omega

abbrev u16 := unsigned 16
abbrev u64 := unsigned 64
abbrev i32 := signed 32
abbrev i64 := signed 64

theorem u16_modEq (x : Int) : (u16 x : Int) ≡ x [ZMOD 2 ^ 16] := unsigned_modEq 16 x

theorem u16_add {a b : Nat} (h : a + b < 2 ^ 16) : u16 ((a : Int) + b) = a + b := unsigned_add h

theorem u16_sub {a b : Nat} (hb : b ≤ a) (h : a < 2 ^ 16) : u16 ((a : Int) - b) = a - b :=
  unsigned_sub hb h

/-- A value of the unsigned range stored in the signed type: itself, or one turn below. -/
theorem signed_cases {w : Nat} {x : Int} (h0 : 0 ≤ x) (h : x < 2 * 2 ^ w) :
    (x < 2 ^ w ∧ signed (w + 1) x = x) ∨ (2 ^ w ≤ x ∧ signed (w + 1) x = x - 2 * 2 ^ w) := by
  have hp : (2 : Int) ^ (w + 1) = 2 * 2 ^ w := by ring
  rcases lt_or_ge x (2 ^ w) with hx | hx
  · exact .inl ⟨hx, signed_of_bounds (by rw [hp]; omega) (by rw [hp]; omega)⟩
  · refine .inr ⟨hx, ?_⟩
    have hs : signed (w + 1) x = signed (w + 1) (x - 2 * 2 ^ w) := by
      have hm : ((2 ^ (w + 1) : Nat) : Int) = 2 * 2 ^ w := by push_cast; ring
      unfold signed
      rw [← hm, Int.sub_bmod_right]
    rw [hs]
    exact signed_of_bounds (by rw [hp]; omega) (by rw [hp]; omega)

theorem i32_cases {x : Int} (h0 : 0 ≤ x) (h : x < 2 ^ 32) :
    (x < 2 ^ 31 ∧ i32 x = x) ∨ (2 ^ 31 ≤ x ∧ i32 x = x - 2 ^ 32) := signed_cases h0 h

theorem i64_cases {x : Int} (h0 : 0 ≤ x) (h : x < 2 ^ 64) :
    (x < 2 ^ 63 ∧ i64 x = x) ∨ (2 ^ 63 ≤ x ∧ i64 x = x - 2 ^ 64) := signed_cases h0 h

theorem i64_bounds (x : Int) : -2 ^ 64 ≤ i64 x * 2 ∧ i64 x * 2 < 2 ^ 64 :=
  signed_bounds (by decide) x

theorem i32_of_lt {x : Int} (h0 : 0 ≤ x) (h : x < 2 ^ 31) : i32 x = x := by
  rcases i32_cases h0 (by omega) with ⟨-, e⟩ | ⟨h', -⟩
  · exact e
  · omega

theorem i64_of_lt {x : Int} (h0 : 0 ≤ x) (h : x < 2 ^ 63) : i64 x = x := by
  rcases i64_cases h0 (by omega) with ⟨-, e⟩ | ⟨h', -⟩
  · exact e
  · omega

end P4Switch.Lib.MachineInt
