import Mathlib.Data.List.TakeWhile
import Mathlib.Tactic

/-! # Unsigned literals

The literals of C in a string of bytes: decimal, octal after `0`, hexadecimal after `0x`.
`scanLiteral` reads the longest one in front, whatever its size, and `strtoul` is the
library function at base zero as it was before C23, which adds binary after `0b`. -/
namespace P4Switch.Lib.Numerals

/-- The value of a digit, 16 for a byte that is none. -/
def digitValue (b : UInt8) : Nat :=
  if 48 ≤ b ∧ b ≤ 57 then b.toNat - 48
  else if 97 ≤ b ∧ b ≤ 102 then b.toNat - 87
  else if 65 ≤ b ∧ b ≤ 70 then b.toNat - 55
  else 16

def isDigitOf (base : Nat) (b : UInt8) : Bool := digitValue b < base

def numeral (base : Nat) (ds : List UInt8) : Nat :=
  ds.foldl (fun n d => n * base + digitValue d) 0

/-- `isspace` in the C locale. -/
def isspace (b : UInt8) : Bool := b = 32 || (9 ≤ b && b ≤ 13)

def isdigit (b : UInt8) : Bool := isDigitOf 10 b

def skipSpaces (s : List UInt8) : List UInt8 := s.dropWhile isspace

/-- The literals and their values. -/
inductive Literal : List UInt8 → Nat → Prop
  | decimal {d : UInt8} {ds : List UInt8} (hd : d ≠ 48)
      (hds : ∀ b ∈ d :: ds, isDigitOf 10 b = true) : Literal (d :: ds) (numeral 10 (d :: ds))
  | octal {ds : List UInt8} (hds : ∀ b ∈ ds, isDigitOf 8 b = true) :
      Literal (48 :: ds) (numeral 8 ds)
  | hex {x d : UInt8} {ds : List UInt8} (hx : x = 120 ∨ x = 88)
      (hds : ∀ b ∈ d :: ds, isDigitOf 16 b = true) :
      Literal (48 :: x :: d :: ds) (numeral 16 (d :: ds))

/-- The base that the prefix asks for, and the text behind the prefix. -/
def radix (s : List UInt8) : Nat × List UInt8 :=
  if s.head? = some 48 then
    if (s[1]? = some 120 ∨ s[1]? = some 88) ∧ s[2]?.any (isDigitOf 16) = true then (16, s.drop 2)
    else (8, s)
  else (10, s)

/-- The literal in front and what is left behind it. -/
def scanLiteral (s : List UInt8) : Option (Nat × List UInt8) :=
  let (base, t) := radix s
  match t.takeWhile (isDigitOf base) with
  | [] => none
  | d :: ds => some (numeral base (d :: ds), t.dropWhile (isDigitOf base))

def ulongMax : Nat := 2 ^ 64 - 1

/-- `strtoul (s, &next, 0)`: the value, and `next`. -/
def strtoul (s : List UInt8) : Nat × List UInt8 :=
  let t := skipSpaces s
  let digits := if t.head? = some 43 ∨ t.head? = some 45 then t.tail else t
  match scanLiteral digits with
  | none => (0, s)
  | some (v, next) =>
    if ulongMax < v then (ulongMax, next)
    else if t.head? = some 45 then ((2 ^ 64 - v) % 2 ^ 64, next)
    else (v, next)

/-! ## The longest literal in front -/

section
variable {p : UInt8 → Bool} {body rest : List UInt8}

theorem takeWhile_body (hbody : ∀ b ∈ body, p b = true) (hrest : ∀ b ∈ rest.head?, p b = false) :
    (body ++ rest).takeWhile p = body := by
  rw [List.takeWhile_append_of_pos hbody]
  cases rest with
  | nil => exact List.append_nil body
  | cons b rest =>
    rw [List.takeWhile_cons_of_neg (by rw [hrest b rfl]; exact Bool.false_ne_true),
      List.append_nil]

theorem dropWhile_body (hbody : ∀ b ∈ body, p b = true) (hrest : ∀ b ∈ rest.head?, p b = false) :
    (body ++ rest).dropWhile p = rest := by
  rw [List.dropWhile_append_of_pos hbody]
  cases rest with
  | nil => rfl
  | cons b rest =>
    exact List.dropWhile_cons_of_neg (by rw [hrest b rfl]; exact Bool.false_ne_true)

end

theorem numeral_zero (base : Nat) (ds : List UInt8) :
    numeral base (48 :: ds) = numeral base ds := by
  have h : 0 * base + digitValue 48 = 0 := by
    rw [Nat.zero_mul]
    rfl
  unfold numeral
  rw [List.foldl_cons, h]

theorem isDigitOf_mono {m n : Nat} (h : m ≤ n) {b : UInt8} (hb : isDigitOf m b = true) :
    isDigitOf n b = true :=
  decide_eq_true ((of_decide_eq_true hb).trans_le h)

/-- A literal cannot go on with `b`. -/
def Stops (b : UInt8) : Prop := isDigitOf 16 b = false ∧ b ≠ 120 ∧ b ≠ 88

theorem Stops.not_digit {b : UInt8} (h : Stops b) {base : Nat} (hb : base ≤ 16) :
    isDigitOf base b = false := by
  by_contra hd
  rw [Bool.not_eq_false] at hd
  have h16 := isDigitOf_mono hb hd
  rw [h.1] at h16
  cases h16

/-- With its base known, a numeral is read to its end. -/
theorem scanLiteral_of_radix {s t ds rest : List UInt8} {base : Nat} (hr : radix s = (base, t))
    (ht : t = ds ++ rest) (hne : ds ≠ []) (hds : ∀ b ∈ ds, isDigitOf base b = true)
    (hrest : ∀ b ∈ rest.head?, isDigitOf base b = false) :
    scanLiteral s = some (numeral base ds, rest) := by
  unfold scanLiteral
  rw [hr, ht]
  dsimp only
  rw [takeWhile_body hds hrest, dropWhile_body hds hrest]
  cases ds with
  | nil => exact absurd rfl hne
  | cons d ds => rfl

theorem scanLiteral_complete {lit rest : List UInt8} {v : Nat} (h : Literal lit v)
    (hrest : ∀ b ∈ rest.head?, Stops b) : scanLiteral (lit ++ rest) = some (v, rest) := by
  cases h with
  | @decimal d ds hd hds =>
    have hr : radix (d :: ds ++ rest) = (10, d :: ds ++ rest) :=
      if_neg fun h => hd (Option.some.inj h)
    exact scanLiteral_of_radix hr rfl (List.cons_ne_nil d ds) hds
      fun b hb => (hrest b hb).not_digit (by decide)
  | @octal ds hds =>
    -- what stands behind the zero is an octal digit or the end of the literal
    have hsecond : ∀ b, (48 :: ds ++ rest)[1]? = some b → b ≠ 120 ∧ b ≠ 88 := by
      intro b hb
      cases ds with
      | nil =>
        rw [List.cons_append, List.getElem?_cons_succ, List.nil_append,
          ← List.head?_eq_getElem?] at hb
        exact (hrest b hb).2
      | cons d ds =>
        have hbd : d = b := Option.some.inj hb
        subst hbd
        have hdig := hds d (List.mem_cons_self ..)
        refine ⟨?_, ?_⟩ <;>
        · rintro rfl
          revert hdig
          decide
    have hr : radix (48 :: ds ++ rest) = (8, 48 :: ds ++ rest) := by
      unfold radix
      rw [List.cons_append, if_pos List.head?_cons, if_neg]
      rintro ⟨hx | hx, -⟩
      · exact (hsecond 120 hx).1 rfl
      · exact (hsecond 88 hx).2 rfl
    rw [← numeral_zero]
    refine scanLiteral_of_radix hr rfl (List.cons_ne_nil 48 ds) ?_ ?_
    · intro b hb
      cases hb with
      | head => rfl
      | tail _ hb => exact hds b hb
    · intro b hb
      exact (hrest b hb).not_digit (by decide)
  | @hex x d ds hx hds =>
    have hr : radix (48 :: x :: d :: ds ++ rest) = (16, d :: ds ++ rest) := by
      have hprefix : (some x = some 120 ∨ some x = some 88) ∧ isDigitOf 16 d = true :=
        ⟨hx.imp (congrArg some) (congrArg some), hds d (List.mem_cons_self ..)⟩
      exact (if_pos rfl).trans (if_pos hprefix)
    exact scanLiteral_of_radix hr rfl (List.cons_ne_nil d ds) hds fun b hb => (hrest b hb).1

/-- What is read is a literal. -/
theorem scanLiteral_sound {s next : List UInt8} {v : Nat} (h : scanLiteral s = some (v, next)) :
    ∃ lit, s = lit ++ next ∧ Literal lit v := by
  obtain ⟨base, t, hr⟩ : ∃ base t, radix s = (base, t) := ⟨_, _, rfl⟩
  have hsplit := List.takeWhile_append_dropWhile (p := isDigitOf base) (l := t)
  have hall : ∀ b ∈ t.takeWhile (isDigitOf base), isDigitOf base b = true :=
    fun b hb => List.mem_takeWhile_imp hb
  unfold scanLiteral at h
  rw [hr] at h
  dsimp only at h
  cases ht : t.takeWhile (isDigitOf base) with
  | nil =>
    rw [ht] at h
    cases h
  | cons d ds =>
    rw [ht] at h hsplit hall
    cases h
    unfold radix at hr
    by_cases hz : s.head? = some 48
    · rw [if_pos hz] at hr
      by_cases hx : (s[1]? = some 120 ∨ s[1]? = some 88) ∧ s[2]?.any (isDigitOf 16) = true
      · rw [if_pos hx] at hr
        cases hr
        cases s with
        | nil => cases hz
        | cons z s =>
          cases s with
          | nil => obtain ⟨hx | hx, -⟩ := hx <;> cases hx
          | cons x s =>
            have hzero : z = 48 := Option.some.inj hz
            have hx' : x = 120 ∨ x = 88 := hx.1.imp Option.some.inj Option.some.inj
            refine ⟨48 :: x :: d :: ds, ?_, .hex hx' hall⟩
            have hs : d :: ds ++ s.dropWhile _ = s := hsplit
            rw [hzero]
            exact congrArg (48 :: x :: ·) hs.symm
      · rw [if_neg hx] at hr
        cases hr
        have hd : d = 48 := by
          rw [← hsplit] at hz
          exact Option.some.inj hz
        subst hd
        refine ⟨48 :: ds, hsplit.symm, ?_⟩
        rw [numeral_zero]
        exact .octal fun b hb => hall b (List.mem_cons_of_mem _ hb)
    · rw [if_neg hz] at hr
      cases hr
      refine ⟨d :: ds, hsplit.symm, .decimal ?_ hall⟩
      intro hd
      refine hz ?_
      rw [← hsplit, hd]
      rfl

theorem radix_head (s : List UInt8) :
    (radix s).2.head?.any (isDigitOf (radix s).1) = s.head?.any isdigit := by
  unfold radix
  by_cases hz : s.head? = some 48
  · rw [if_pos hz]
    by_cases hx : (s[1]? = some 120 ∨ s[1]? = some 88) ∧ s[2]?.any (isDigitOf 16) = true
    · rw [if_pos hx, hz]
      dsimp only
      rw [List.head?_drop, hx.2]
      rfl
    · rw [if_neg hx]
      dsimp only
      rw [hz]
      rfl
  · rw [if_neg hz]
    rfl

/-- There is a literal in front of a digit and of nothing else. -/
theorem scanLiteral_isSome (s : List UInt8) : (scanLiteral s).isSome = s.head?.any isdigit := by
  rw [← radix_head]
  unfold scanLiteral
  dsimp only
  cases (radix s).2 with
  | nil => rfl
  | cons b t =>
    cases hb : isDigitOf (radix s).1 b with
    | true =>
      rw [List.takeWhile_cons_of_pos hb]
      exact hb.symm
    | false =>
      rw [List.takeWhile_cons_of_neg (by rw [hb]; exact Bool.false_ne_true)]
      exact hb.symm

theorem digit_ge {b : UInt8} (h : isDigitOf 16 b = true) : 48 ≤ b := by
  have hv : digitValue b < 16 := of_decide_eq_true h
  by_contra hlt
  unfold digitValue at hv
  rw [if_neg fun h => hlt h.1, if_neg, if_neg] at hv
  · exact absurd hv (by decide)
  · exact fun h => hlt (UInt8.le_trans (by decide) h.1)
  · exact fun h => hlt (UInt8.le_trans (by decide) h.1)

theorem isspace_le {b : UInt8} (h : isspace b = true) : b ≤ 32 := by
  unfold isspace at h
  rw [Bool.or_eq_true, Bool.and_eq_true] at h
  obtain h | ⟨-, h⟩ := h
  · rw [of_decide_eq_true h]
    exact UInt8.le_refl 32
  · exact UInt8.le_trans (of_decide_eq_true h) (by decide)

theorem not_isspace_digit {b : UInt8} (h : isdigit b = true) : isspace b = false := by
  by_contra hs
  rw [Bool.not_eq_false] at hs
  have hb := digit_ge (isDigitOf_mono (by decide) h)
  exact absurd (UInt8.le_trans hb (isspace_le hs)) (by decide)

/-- `strtoul` in front of a digit: the value, cut at `ULONG_MAX`. -/
theorem strtoul_digit {s next : List UInt8} {v : Nat} (hs : s.head?.any isdigit = true)
    (h : scanLiteral s = some (v, next)) : strtoul s = (min v ulongMax, next) := by
  cases s with
  | nil => cases hs
  | cons b s =>
    have hb : isdigit b = true := hs
    have hskip : skipSpaces (b :: s) = b :: s :=
      List.dropWhile_cons_of_neg (by rw [not_isspace_digit hb]; exact Bool.false_ne_true)
    have hplus : ¬(b :: s).head? = some 43 := by
      intro he
      rw [Option.some.inj he] at hb
      exact absurd hb (by decide)
    have hminus : ¬(b :: s).head? = some 45 := by
      intro he
      rw [Option.some.inj he] at hb
      exact absurd hb (by decide)
    unfold strtoul
    dsimp only
    rw [hskip, if_neg (not_or.mpr ⟨hplus, hminus⟩), h]
    dsimp only
    rw [if_neg hminus]
    by_cases hv : ulongMax < v
    · rw [if_pos hv, Nat.min_eq_right hv.le]
    · rw [if_neg hv, Nat.min_eq_left (Nat.le_of_not_lt hv)]

end P4Switch.Lib.Numerals
