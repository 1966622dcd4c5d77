import Mathlib.Data.List.TakeWhile
import P4Switch.Lib.MachineInt

/-! # Decimal numbers in text files

A file is the list of its characters. `printInt` is what `fprintf` writes for `%d`,
`scanInt` the number that stands in front, `fscanfInt` what `fscanf` makes of it for an `int`,
and `overwrite` a write at offset zero that leaves alone what stands behind it. -/
namespace P4Switch.Lib.Decimal
open P4Switch.Lib.MachineInt

def printInt (v : Int) : List Char :=
  if v < 0 then '-' :: Nat.toDigits 10 v.natAbs else Nat.toDigits 10 v.natAbs

/-- `isspace` in the C locale. -/
def isSpace (c : Char) : Bool := c = ' ' || (9 ≤ c.toNat && c.toNat ≤ 13)

/-- The digits in front, if there are any. -/
def scanNat (cs : List Char) : Option Nat :=
  match cs.takeWhile Char.isDigit with
  | [] => none
  | d :: ds => some (Nat.ofDigitChars 10 (d :: ds) 0)

/-- `none` when there is no number to read: at end of file, or at another character. -/
def scanInt (cs : List Char) : Option Int :=
  match cs.dropWhile isSpace with
  | '-' :: ds => (scanNat ds).map fun n : Nat => -(n : Int)
  | '+' :: ds => (scanNat ds).map Int.ofNat
  | ds => (scanNat ds).map Int.ofNat

/-- `fscanf` with `%d`: the number as `strtol` gives it, cut to an `int`. -/
def fscanfInt (cs : List Char) : Option Int :=
  (scanInt cs).map fun v => i32 (max (-2 ^ 63) (min v (2 ^ 63 - 1)))

def overwrite (new old : List Char) : List Char := new ++ old.drop new.length

/-- The text is a number in digits alone. -/
structure Numeral (cs : List Char) : Prop where
  ne_nil : cs ≠ []
  digits : ∀ c ∈ cs, c.isDigit = true

/-- The value of a text of digits. -/
def value (cs : List Char) : Nat := Nat.ofDigitChars 10 cs 0

/-! ## Reading -/

theorem digit_not_space {c : Char} (h : c.isDigit = true) : isSpace c = false := by
  have h' : 48 ≤ c.toNat ∧ c.toNat ≤ 57 := by
    simpa [Char.isDigit, Char.le_def, UInt32.le_iff_toNat_le] using h
  have hs : c ≠ ' ' := by
    rintro rfl
    revert h
    decide
  have h13 : ¬c.toNat ≤ 13 := by omega
  simp [isSpace, hs, h13]

theorem Numeral.scanNat {cs : List Char} (h : Numeral cs) : scanNat cs = some (value cs) := by
  have ht : cs.takeWhile Char.isDigit = cs := List.takeWhile_eq_self_iff.mpr h.digits
  unfold Decimal.scanNat
  rw [ht]
  cases cs with
  | nil => exact absurd rfl h.ne_nil
  | cons d ds => rfl

theorem Numeral.scanInt {cs : List Char} (h : Numeral cs) :
    scanInt cs = some (value cs : Int) := by
  have hs := h.scanNat
  cases cs with
  | nil => exact absurd rfl h.ne_nil
  | cons d ds =>
    have hd := h.digits d (List.mem_cons_self ..)
    have hdrop : (d :: ds).dropWhile isSpace = d :: ds :=
      List.dropWhile_cons_of_neg (by rw [digit_not_space hd]; exact Bool.false_ne_true)
    unfold Decimal.scanInt
    rw [hdrop]
    split
    · rename_i he
      rw [(List.cons.inj he).1] at hd
      exact absurd hd (by decide)
    · rename_i he
      rw [(List.cons.inj he).1] at hd
      exact absurd hd (by decide)
    · rw [hs]
      rfl

/-! ## Printing -/

theorem numeral_toDigits (n : Nat) : Numeral (Nat.toDigits 10 n) :=
  ⟨Nat.toDigits_ne_nil, fun _ hc => Nat.isDigit_of_mem_toDigits (by decide) (by decide) hc⟩

theorem value_toDigits (n : Nat) : value (Nat.toDigits 10 n) = n := Nat.ofDigitChars_ten_toDigits

theorem printInt_natCast (n : Nat) : printInt n = Nat.toDigits 10 n := by
  unfold printInt
  rw [if_neg (by omega), Int.natAbs_natCast]

/-- What has been written is read back. -/
@[simp] theorem scanInt_printInt (v : Int) : scanInt (printInt v) = some v := by
  rcases Int.eq_nat_or_neg v with ⟨n, rfl | rfl⟩
  · rw [printInt_natCast, (numeral_toDigits n).scanInt, value_toDigits]
  · unfold printInt
    rw [Int.natAbs_neg, Int.natAbs_natCast]
    split
    · have hm : isSpace '-' = false := by decide
      have hdrop : ('-' :: Nat.toDigits 10 n).dropWhile isSpace = '-' :: Nat.toDigits 10 n :=
        List.dropWhile_cons_of_neg (by rw [hm]; exact Bool.false_ne_true)
      unfold scanInt
      rw [hdrop]
      change (scanNat (Nat.toDigits 10 n)).map _ = _
      rw [(numeral_toDigits n).scanNat, value_toDigits]
      rfl
    · have hn : n = 0 := by omega
      subst hn
      rfl

/-- A number in the range of `int` is read as it stands. -/
theorem fscanfInt_of_scanInt {cs : List Char} {v : Int} (h : scanInt cs = some v)
    (h0 : -2 ^ 31 ≤ v) (h1 : v < 2 ^ 31) : fscanfInt cs = some v := by
  have hc : max (-2 ^ 63) (min v (2 ^ 63 - 1)) = v := by omega
  rw [fscanfInt, h, Option.map_some, hc]
  exact congrArg some (signed_of_bounds (by omega) (by omega))

/-- An `int` that was written is read back. -/
theorem fscanfInt_printInt {v : Int} (h0 : -2 ^ 31 ≤ v) (h1 : v < 2 ^ 31) :
    fscanfInt (printInt v) = some v := fscanfInt_of_scanInt (scanInt_printInt v) h0 h1

theorem toDigits_one {n : Nat} (h : n < 10) : Nat.toDigits 10 n = [n.digitChar] :=
  Nat.toDigits_of_lt_base h

theorem length_toDigits_two {n : Nat} (h : 10 ≤ n) (hl : n < 100) :
    (Nat.toDigits 10 n).length = 2 := by
  have h1 : ¬(Nat.toDigits 10 n).length ≤ 1 := by
    rw [Nat.length_toDigits_le_iff (by decide) (by decide)]
    omega
  have h2 : (Nat.toDigits 10 n).length ≤ 2 := by
    rw [Nat.length_toDigits_le_iff (by decide) (by decide)]
    exact hl
  omega

/-! ## Overwriting -/

@[simp] theorem overwrite_nil (new : List Char) : overwrite new [] = new := by
  simp [overwrite]

/-- Nothing stands behind what is written. -/
theorem overwrite_of_le {new old : List Char} (h : old.length ≤ new.length) :
    overwrite new old = new := by
  rw [overwrite, List.drop_eq_nil_of_le h, List.append_nil]

/-- One digit written over two leaves the second one standing. -/
theorem overwrite_one_two (d a b : Char) : overwrite [d] [a, b] = [d, b] := rfl

theorem value_two {n : Nat} (h : n < 10) (b : Char) :
    value [n.digitChar, b] = 10 * n + value [b] := by
  unfold value
  rw [Nat.ofDigitChars_cons_digitChar_of_lt_ten h, Nat.ofDigitChars_eq_ofDigitChars_zero]
  simp

end P4Switch.Lib.Decimal
