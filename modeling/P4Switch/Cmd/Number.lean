import P4Switch.Lib.Numerals

/-! # Numeric arguments

`parser_read_uint64` multiplies in 64 bits and does not look for an overflow, so literals
near the end of the range are read as another number. -/
namespace P4Switch.Cmd
open P4Switch.Lib.Numerals

inductive NumError where
  | einval
  | erange
  deriving DecidableEq, Repr

/-- `val *= 1024ULL`. -/
def timesKilo (val : Nat) : Nat := val * 1024 % 2 ^ 64

/-- The `switch` on the suffix, each case falling through to the next. -/
def applySuffix (val : Nat) (p : List UInt8) : Nat × List UInt8 :=
  match p with
  | [] => (val, [])
  | b :: t =>
    if b = 84 then (timesKilo (timesKilo (timesKilo (timesKilo val))), t)
    else if b = 71 then (timesKilo (timesKilo (timesKilo val)), t)
    else if b = 77 then (timesKilo (timesKilo val), t)
    else if b = 107 ∨ b = 75 then (timesKilo val, t)
    else (val, b :: t)

def parserReadUint64 (s : List UInt8) : Except NumError Nat :=
  let p := skipSpaces s
  if p.head?.any isdigit = false then .error .einval
  else
    let (val, next) := strtoul p
    if p = next then .error .einval
    else
      let (val, p) := applySuffix val next
      if skipSpaces p ≠ [] then .error .einval else .ok val

/-- `parser_read_uint32` and `parser_read_uint16`: the range is checked on the result. -/
def parserReadNarrow (bits : Nat) (s : List UInt8) : Except NumError Nat :=
  match parserReadUint64 s with
  | .error e => .error e
  | .ok val => if 2 ^ bits - 1 < val then .error .erange else .ok val

def parserReadUint32 : List UInt8 → Except NumError Nat := parserReadNarrow 32

def parserReadUint16 : List UInt8 → Except NumError Nat := parserReadNarrow 16

/-! ## What an argument says -/

/-- The suffixes and their powers of 1024. -/
inductive Suffix : List UInt8 → Nat → Prop
  | none : Suffix [] 0
  | k : Suffix [107] 1
  | K : Suffix [75] 1
  | M : Suffix [77] 2
  | G : Suffix [71] 3
  | T : Suffix [84] 4

/-- The argument is the literal of `v` with a suffix for the power `k`. -/
inductive Numeric : List UInt8 → Nat → Nat → Prop
  | mk {before lit suf after : List UInt8} {v k : Nat}
      (hbefore : ∀ b ∈ before, isspace b = true) (hlit : Literal lit v) (hsuf : Suffix suf k)
      (hafter : ∀ b ∈ after, isspace b = true) :
      Numeric (before ++ (lit ++ (suf ++ after))) v k

/-- The reader takes an argument exactly when its product is below `2 ^ bits`, and then
yields the product. -/
def ReadsExactly (read : List UInt8 → Except NumError Nat) (bits : Nat) (s : List UInt8) : Prop :=
  ∀ n, read s = .ok n ↔ ∃ v k, Numeric s v k ∧ n = v * 1024 ^ k ∧ n < 2 ^ bits

/-! ## What the readers compute -/

/-- The power of the suffix in front, and what is left behind it. -/
def scanSuffix (p : List UInt8) : Nat × List UInt8 :=
  match p with
  | [] => (0, [])
  | b :: t =>
    if b = 84 then (4, t) else if b = 71 then (3, t) else if b = 77 then (2, t)
    else if b = 107 ∨ b = 75 then (1, t) else (0, b :: t)

/-- The literal and the power of an argument, whatever their size. -/
def scanNumber (s : List UInt8) : Option (Nat × Nat) :=
  (scanLiteral (skipSpaces s)).bind fun r =>
    if skipSpaces (scanSuffix r.2).2 = [] then some (r.1, (scanSuffix r.2).1) else none

/-- What `parser_read_uint64` makes of them. -/
def wrapped (v k : Nat) : Nat := min v ulongMax * 1024 ^ k % 2 ^ 64

theorem timesKilo_mod (n : Nat) : timesKilo (n % 2 ^ 64) = n * 1024 % 2 ^ 64 :=
  Nat.mod_mul_mod n 1024 _

theorem applySuffix_eq {val : Nat} (hval : val < 2 ^ 64) (p : List UInt8) :
    applySuffix val p = (val * 1024 ^ (scanSuffix p).1 % 2 ^ 64, (scanSuffix p).2) := by
  have hnone : val = val * 1024 ^ 0 % 2 ^ 64 := by
    rw [pow_zero, Nat.mul_one, Nat.mod_eq_of_lt hval]
  have hone : timesKilo val = val * 1024 ^ 1 % 2 ^ 64 := rfl
  have hmore : ∀ k, timesKilo (val * 1024 ^ k % 2 ^ 64) = val * 1024 ^ (k + 1) % 2 ^ 64 := by
    intro k
    rw [timesKilo_mod, Nat.mul_assoc, ← pow_succ]
  cases p with
  | nil => exact congrArg (·, []) hnone
  | cons b t =>
    unfold applySuffix scanSuffix
    dsimp only
    by_cases hT : b = 84
    · rw [if_pos hT, if_pos hT, hone, hmore, hmore, hmore]
    rw [if_neg hT, if_neg hT]
    by_cases hG : b = 71
    · rw [if_pos hG, if_pos hG, hone, hmore, hmore]
    rw [if_neg hG, if_neg hG]
    by_cases hM : b = 77
    · rw [if_pos hM, if_pos hM, hone, hmore]
    rw [if_neg hM, if_neg hM]
    by_cases hk : b = 107 ∨ b = 75
    · rw [if_pos hk, if_pos hk, hone]
    · rw [if_neg hk, if_neg hk, ← hnone]

theorem parserReadUint64_eq (s : List UInt8) :
    parserReadUint64 s =
      match scanNumber s with
      | none => .error .einval
      | some (v, k) => .ok (wrapped v k) := by
  unfold parserReadUint64 scanNumber
  dsimp only
  have hsome := scanLiteral_isSome (skipSpaces s)
  cases hs : scanLiteral (skipSpaces s) with
  | none =>
    rw [hs, Option.isSome_none] at hsome
    rw [if_pos hsome.symm]
    rfl
  | some r =>
    obtain ⟨v, next⟩ := r
    rw [hs] at hsome
    have hdigit : (skipSpaces s).head?.any isdigit = true := hsome.symm
    obtain ⟨lit, hlit, hl⟩ := scanLiteral_sound hs
    have hne : ¬skipSpaces s = next := by
      intro he
      rw [he] at hlit
      have hlen := List.self_eq_append_left.mp hlit
      cases hl <;> cases hlen
    have hlt : min v ulongMax < 2 ^ 64 :=
      (Nat.min_le_right _ _).trans_lt (by decide)
    rw [if_neg (by rw [hdigit]; exact Bool.noConfusion), strtoul_digit hdigit hs]
    dsimp only
    rw [if_neg hne, applySuffix_eq hlt]
    dsimp only [Option.bind_some]
    by_cases hrest : skipSpaces (scanSuffix next).2 = []
    · rw [if_neg (not_not.mpr hrest), if_pos hrest]
      rfl
    · rw [if_pos hrest, if_neg hrest]

/-! ## Arguments are read in one way -/

theorem scanSuffix_sound (p : List UInt8) :
    ∃ suf, p = suf ++ (scanSuffix p).2 ∧ Suffix suf (scanSuffix p).1 := by
  cases p with
  | nil => exact ⟨[], rfl, .none⟩
  | cons b t =>
    unfold scanSuffix
    dsimp only
    by_cases hT : b = 84
    · subst hT
      exact ⟨[84], rfl, .T⟩
    rw [if_neg hT]
    by_cases hG : b = 71
    · subst hG
      exact ⟨[71], rfl, .G⟩
    rw [if_neg hG]
    by_cases hM : b = 77
    · subst hM
      exact ⟨[77], rfl, .M⟩
    rw [if_neg hM]
    by_cases hk : b = 107 ∨ b = 75
    · rw [if_pos hk]
      refine ⟨[b], rfl, ?_⟩
      cases hk with
      | inl hk => exact hk ▸ .k
      | inr hk => exact hk ▸ .K
    · rw [if_neg hk]
      exact ⟨[], rfl, .none⟩

theorem space_stops {b : UInt8} (h : isspace b = true) :
    Stops b ∧ b ≠ 84 ∧ b ≠ 71 ∧ b ≠ 77 ∧ ¬(b = 107 ∨ b = 75) := by
  have hle := isspace_le h
  have hne : ∀ c : UInt8, ¬c ≤ 32 → b ≠ c := fun c hc hb => hc (hb ▸ hle)
  have hdigit : isDigitOf 16 b = false := by
    by_contra hd
    rw [Bool.not_eq_false] at hd
    exact absurd (UInt8.le_trans (digit_ge hd) hle) (by decide)
  refine ⟨⟨hdigit, hne _ (by decide), hne _ (by decide)⟩, hne _ (by decide), hne _ (by decide),
    hne _ (by decide), ?_⟩
  exact not_or.mpr ⟨hne _ (by decide), hne _ (by decide)⟩

theorem scanSuffix_complete {suf after : List UInt8} {k : Nat} (h : Suffix suf k)
    (hafter : ∀ b ∈ after, isspace b = true) : scanSuffix (suf ++ after) = (k, after) := by
  cases h with
  | none =>
    cases after with
    | nil => rfl
    | cons b after =>
      obtain ⟨-, hT, hG, hM, hk⟩ := space_stops (hafter b (List.mem_cons_self ..))
      show scanSuffix (b :: after) = _
      unfold scanSuffix
      dsimp only
      rw [if_neg hT, if_neg hG, if_neg hM, if_neg hk]
  | k => rfl
  | K => rfl
  | M => rfl
  | G => rfl
  | T => rfl

theorem suffix_stops {suf after : List UInt8} {k : Nat} (h : Suffix suf k)
    (hafter : ∀ b ∈ after, isspace b = true) : ∀ b ∈ (suf ++ after).head?, Stops b := by
  intro b hb
  cases h with
  | none =>
    cases after with
    | nil => cases hb
    | cons a after =>
      cases hb
      exact (space_stops (hafter b (List.mem_cons_self ..))).1
  | _ =>
    cases hb
    exact ⟨rfl, by decide, by decide⟩

theorem literal_head {lit : List UInt8} {v : Nat} (h : Literal lit v) (rest : List UInt8) :
    ∀ b ∈ (lit ++ rest).head?, isspace b = false := by
  intro b hb
  cases h with
  | decimal hd hds =>
    cases hb
    exact not_isspace_digit (hds b (List.mem_cons_self ..))
  | octal hds =>
    cases hb
    rfl
  | hex hx hds =>
    cases hb
    rfl

theorem numeric_iff {s : List UInt8} {v k : Nat} :
    Numeric s v k ↔ scanNumber s = some (v, k) := by
  constructor
  · intro h
    cases h with
    | @mk before lit suf after _ _ hbefore hlit hsuf hafter =>
      have hskip : skipSpaces (before ++ (lit ++ (suf ++ after))) = lit ++ (suf ++ after) :=
        dropWhile_body hbefore (literal_head hlit _)
      have hend : skipSpaces after = [] := List.dropWhile_eq_nil_iff.mpr hafter
      unfold scanNumber
      rw [hskip, scanLiteral_complete hlit (suffix_stops hsuf hafter), Option.bind_some,
        scanSuffix_complete hsuf hafter, if_pos hend]
  · intro h
    obtain ⟨⟨v', next⟩, hs, hr⟩ := Option.bind_eq_some_iff.mp h
    obtain ⟨lit, hlit, hl⟩ := scanLiteral_sound hs
    obtain ⟨suf, hsuf, hk⟩ := scanSuffix_sound next
    by_cases hend : skipSpaces (scanSuffix next).2 = []
    · rw [if_pos hend] at hr
      cases hr
      have hbefore := List.takeWhile_append_dropWhile (p := isspace) (l := s)
      rw [show s.dropWhile isspace = lit ++ next from hlit, hsuf] at hbefore
      rw [← hbefore]
      exact .mk (fun b hb => List.mem_takeWhile_imp hb) hl hk
        (List.dropWhile_eq_nil_iff.mp hend)
    · rw [if_neg hend] at hr
      cases hr

theorem Numeric.unique {s : List UInt8} {v k v' k' : Nat} (h : Numeric s v k)
    (h' : Numeric s v' k') : v = v' ∧ k = k' := by
  rw [numeric_iff] at h h'
  rw [h] at h'
  cases h'
  exact ⟨rfl, rfl⟩

theorem Numeric.read {s : List UInt8} {v k : Nat} (h : Numeric s v k) :
    parserReadUint64 s = .ok (wrapped v k) := by
  rw [parserReadUint64_eq, numeric_iff.mp h]

theorem numeric_of_read {s : List UInt8} {n : Nat} (h : parserReadUint64 s = .ok n) :
    ∃ v k, Numeric s v k ∧ n = wrapped v k := by
  rw [parserReadUint64_eq] at h
  cases hs : scanNumber s with
  | none =>
    rw [hs] at h
    cases h
  | some r =>
    rw [hs] at h
    cases h
    exact ⟨r.1, r.2, numeric_iff.mpr hs, rfl⟩

/-! ## When the readers are exact -/

theorem wrapped_lt (v k : Nat) : wrapped v k < 2 ^ 64 := Nat.mod_lt _ (by decide)

theorem min_ulongMax {v : Nat} (h : v < 2 ^ 64) : min v ulongMax = v := by
  have hle : v ≤ 2 ^ 64 - 1 := Nat.le_pred_of_lt h
  exact Nat.min_eq_left hle

theorem wrapped_of_lt {v k : Nat} (h : v * 1024 ^ k < 2 ^ 64) : wrapped v k = v * 1024 ^ k := by
  have hv : v < 2 ^ 64 := (Nat.le_mul_of_pos_right v (by positivity)).trans_lt h
  unfold wrapped
  rw [min_ulongMax hv, Nat.mod_eq_of_lt h]

/-- A literal that does not fit saturates, and its multiples stay out of the narrow ranges. -/
theorem wrapped_saturated {v k : Nat} (hv : 2 ^ 64 ≤ v) (hk : k ≤ 4) : 2 ^ 32 ≤ wrapped v k := by
  have hmin : min v ulongMax = 2 ^ 64 - 1 := Nat.min_eq_right ((Nat.pred_le _).trans hv)
  unfold wrapped
  rw [hmin]
  interval_cases k <;> decide

theorem Numeric.power_le {s : List UInt8} {v k : Nat} (h : Numeric s v k) : k ≤ 4 := by
  cases h with
  | mk hbefore hlit hsuf hafter => cases hsuf <;> decide

theorem parserReadNarrow_ok {bits : Nat} {s : List UInt8} {n : Nat} :
    parserReadNarrow bits s = .ok n ↔ parserReadUint64 s = .ok n ∧ n < 2 ^ bits := by
  have hpos : 0 < 2 ^ bits := by positivity
  unfold parserReadNarrow
  cases parserReadUint64 s with
  | error e => exact ⟨fun h => (nomatch h), fun h => (nomatch h.1)⟩
  | ok val =>
    dsimp only
    by_cases hv : 2 ^ bits - 1 < val
    · rw [if_pos hv]
      constructor
      · intro h
        cases h
      · rintro ⟨h, hn⟩
        cases h
        exact absurd hn (Nat.not_lt.mpr (Nat.le_of_pred_lt hv))
    · rw [if_neg hv]
      constructor
      · intro h
        cases h
        exact ⟨rfl, (Nat.le_pred_iff_lt hpos).mp (Nat.le_of_not_lt hv)⟩
      · rintro ⟨h, -⟩
        exact h

/-- A reader is exact on an argument unless an overflow brings the product into its range. -/
theorem readsExactly_of_range {read : List UInt8 → Except NumError Nat} {bits : Nat}
    {s : List UInt8} (hbits : bits ≤ 64)
    (hread : ∀ n, read s = .ok n ↔ parserReadUint64 s = .ok n ∧ n < 2 ^ bits) :
    ReadsExactly read bits s ↔
      ∀ v k, Numeric s v k → 2 ^ 64 ≤ v * 1024 ^ k → 2 ^ bits ≤ wrapped v k := by
  have hle : 2 ^ bits ≤ 2 ^ 64 := Nat.pow_le_pow_right (by decide) hbits
  constructor
  · intro h v k hs hover
    by_contra hlt
    obtain ⟨v', k', hs', hn, hrange⟩ := (h _).mp ((hread _).mpr ⟨hs.read, Nat.lt_of_not_le hlt⟩)
    obtain ⟨rfl, rfl⟩ := hs.unique hs'
    rw [hn] at hrange
    exact absurd (hrange.trans_le hle) (Nat.not_lt.mpr hover)
  · intro h n
    rw [hread]
    constructor
    · rintro ⟨hn, hrange⟩
      obtain ⟨v, k, hs, rfl⟩ := numeric_of_read hn
      by_cases hover : 2 ^ 64 ≤ v * 1024 ^ k
      · exact absurd hrange (Nat.not_lt.mpr (h v k hs hover))
      · exact ⟨v, k, hs, wrapped_of_lt (Nat.lt_of_not_le hover), hrange⟩
    · rintro ⟨v, k, hs, rfl, hrange⟩
      rw [← wrapped_of_lt (hrange.trans_le hle)]
      refine ⟨hs.read, ?_⟩
      rwa [wrapped_of_lt (hrange.trans_le hle)]

theorem narrow_iff {bits : Nat} (hbits : bits ≤ 32) (s : List UInt8) :
    ReadsExactly (parserReadNarrow bits) bits s ↔
      ∀ v k, Numeric s v k → v < 2 ^ 64 → 2 ^ 64 ≤ v * 1024 ^ k →
        2 ^ bits ≤ v * 1024 ^ k % 2 ^ 64 := by
  have hcut : ∀ v k, v < 2 ^ 64 → wrapped v k = v * 1024 ^ k % 2 ^ 64 := by
    intro v k hv
    rw [wrapped, min_ulongMax hv]
  rw [readsExactly_of_range (hbits.trans (by decide)) fun n => parserReadNarrow_ok]
  constructor
  · intro h v k hs hv hover
    rw [← hcut v k hv]
    exact h v k hs hover
  · intro h v k hs hover
    by_cases hv : v < 2 ^ 64
    · rw [hcut v k hv]
      exact h v k hs hv hover
    · exact (Nat.pow_le_pow_right (by decide) hbits).trans
        (wrapped_saturated (Nat.le_of_not_lt hv) hs.power_le)

/-- The 64-bit reader is exact unless the product overflows; the narrow ones are exact
unless it overflows in the multiplication and wraps round into their range. -/
theorem readsExactly_iff (s : List UInt8) :
    (ReadsExactly parserReadUint64 64 s ↔ ∀ v k, Numeric s v k → v * 1024 ^ k < 2 ^ 64) ∧
      (ReadsExactly parserReadUint32 32 s ↔
        ∀ v k, Numeric s v k → v < 2 ^ 64 → 2 ^ 64 ≤ v * 1024 ^ k →
          2 ^ 32 ≤ v * 1024 ^ k % 2 ^ 64) ∧
      (ReadsExactly parserReadUint16 16 s ↔
        ∀ v k, Numeric s v k → v < 2 ^ 64 → 2 ^ 64 ≤ v * 1024 ^ k →
          2 ^ 16 ≤ v * 1024 ^ k % 2 ^ 64) := by
  refine ⟨?_, narrow_iff (by decide) s, narrow_iff (by decide) s⟩
  have hwide : ∀ n, parserReadUint64 s = .ok n ↔ parserReadUint64 s = .ok n ∧ n < 2 ^ 64 := by
    intro n
    refine ⟨?_, And.left⟩
    intro hn
    obtain ⟨v, k, -, rfl⟩ := numeric_of_read hn
    exact ⟨hn, wrapped_lt v k⟩
  rw [readsExactly_of_range (Nat.le_refl 64) hwide]
  constructor
  · intro h v k hs
    by_contra hover
    exact absurd (h v k hs (Nat.le_of_not_lt hover)) (Nat.not_le.mpr (wrapped_lt v k))
  · intro h v k hs hover
    exact absurd (h v k hs) (Nat.not_lt.mpr hover)

/-- `16777216T` is read as 0 by all three, `18446744073709551616` as the largest number. -/
theorem readsExactly_broken :
    ¬(∀ s, ReadsExactly parserReadUint64 64 s) ∧
      ¬(∀ s, ReadsExactly parserReadUint32 32 s) ∧
      ¬∀ s, ReadsExactly parserReadUint16 16 s := by
  have hs : Numeric [49, 54, 55, 55, 55, 50, 49, 54, 84] 16777216 4 :=
    numeric_iff.mpr (by decide +kernel)
  have hbroken : ∀ read bits, read [49, 54, 55, 55, 55, 50, 49, 54, 84] = Except.ok 0 →
      ¬∀ s, ReadsExactly read bits s := by
    intro read bits hread h
    obtain ⟨v, k, hs', hn, -⟩ := (h _ 0).mp hread
    obtain ⟨rfl, rfl⟩ := hs.unique hs'
    exact absurd hn (by decide)
  exact ⟨hbroken _ 64 (by decide +kernel), hbroken _ 32 (by decide +kernel),
    hbroken _ 16 (by decide +kernel)⟩

end P4Switch.Cmd
