import P4Switch.Cmd.Loading

/-! # Member files

The loader of group members keeps the status of a blank line, and passes on a weight that
the line does not have. -/
namespace P4Switch.Cmd
open P4Switch.App

/-! ## Member lines -/

theorem strtokR_length {s t rest : List UInt8} (h : strtokR s = some (t, rest)) :
    rest.length < s.length := by
  unfold strtokR at h
  have hle := (List.dropWhile_suffix isDelimiter (l := s)).length_le
  cases hs : s.dropWhile isDelimiter with
  | nil =>
    rw [hs] at h
    cases h
  | cons b bs =>
    rw [hs] at h hle
    cases h
    have hrest := (List.dropWhile_suffix (!isDelimiter ·) (l := b :: bs)).length_le
    rw [List.length_tail]
    rw [List.length_cons] at hle hrest
    omega

/-- All tokens of a string. -/
def strtokAll (s : List UInt8) : List Token :=
  match _h : strtokR s with
  | none => []
  | some (t, rest) => t :: strtokAll rest
termination_by s.length
decreasing_by exact strtokR_length _h

/-- The fields of a string: its tokens up to a comment. -/
def fieldsOf (s : List UInt8) : List Token := (strtokAll s).takeWhile (!tokenIsComment ·)

def BlankOrComment (l : Line) : Prop := cString l ≠ [] ∧ fieldsOf (cString l) = []

/-- The fields of a well-formed member line. -/
inductive MemberFields : List Token → Member → Prop
  | plain {a b : Token} {g m : Nat} (hg : parserReadUint32 a = .ok g)
      (hm : parserReadUint32 b = .ok m) :
      MemberFields [word "group", a, word "member", b] (g, m, none)
  | weighted {a b c : Token} {g m w : Nat} (hg : parserReadUint32 a = .ok g)
      (hm : parserReadUint32 b = .ok m) (hw : parserReadUint32 c = .ok w) :
      MemberFields [word "group", a, word "member", b, word "weight", c] (g, m, some w)

def MemberLine (l : Line) (a : Member) : Prop := MemberFields (fieldsOf (cString l)) a

theorem strtokAll_eq (s : List UInt8) :
    strtokAll s =
      match strtokR s with
      | none => []
      | some (t, rest) => t :: strtokAll rest := by
  rw [strtokAll]
  split <;> rename_i h <;> rw [h]

theorem memberTokens_eq (n : Nat) (s : List UInt8) :
    memberTokens n s = if (fieldsOf s).length ≤ n then some (fieldsOf s) else none := by
  induction n generalizing s with
  | zero =>
    unfold memberTokens fieldsOf
    rw [strtokAll_eq]
    cases hs : strtokR s with
    | none => rfl
    | some r =>
      obtain ⟨t, rest⟩ := r
      dsimp only
      cases ht : tokenIsComment t with
      | true =>
        rw [List.takeWhile_cons_of_neg (by rw [ht]; exact Bool.false_ne_true)]
        rfl
      | false =>
        rw [List.takeWhile_cons_of_pos (by rw [ht]; rfl)]
        rfl
  | succ n ih =>
    unfold memberTokens fieldsOf
    rw [strtokAll_eq]
    cases hs : strtokR s with
    | none => rfl
    | some r =>
      obtain ⟨t, rest⟩ := r
      dsimp only
      cases ht : tokenIsComment t with
      | true =>
        rw [List.takeWhile_cons_of_neg (by rw [ht]; exact Bool.false_ne_true)]
        rfl
      | false =>
        rw [List.takeWhile_cons_of_pos (by rw [ht]; rfl), if_neg Bool.false_ne_true, ih]
        unfold fieldsOf
        by_cases hlen : ((strtokAll rest).takeWhile (!tokenIsComment ·)).length ≤ n
        · rw [if_pos hlen, List.length_cons, if_pos (Nat.succ_le_succ hlen)]
          rfl
        · rw [if_neg hlen, List.length_cons, if_neg fun h => hlen (Nat.le_of_succ_le_succ h)]
          rfl

theorem memberWeight_iff {ts : List Token} {w : Option Nat} :
    memberWeight ts = some w ↔
      (ts = [] ∧ w = none) ∨
        ∃ c n, ts = [word "weight", c] ∧ parserReadUint32 c = .ok n ∧ w = some n := by
  constructor
  · intro h
    cases ts with
    | nil =>
      cases h
      exact .inl ⟨rfl, rfl⟩
    | cons t ts =>
      dsimp only [memberWeight] at h
      by_cases ht : t = word "weight"
      · rw [if_pos ht] at h
        cases ts with
        | nil => cases h
        | cons c rest =>
          cases hc : parserReadUint32 c with
          | error e =>
            dsimp only at h
            rw [hc] at h
            cases h
          | ok n =>
            dsimp only at h
            rw [hc] at h
            dsimp only at h
            by_cases hrest : rest = []
            · rw [if_pos hrest] at h
              cases h
              exact .inr ⟨c, n, by rw [ht, hrest], hc, rfl⟩
            · rw [if_neg hrest] at h
              cases h
      · rw [if_neg ht] at h
        cases h
  · rintro (⟨rfl, rfl⟩ | ⟨c, n, rfl, hc, rfl⟩)
    · rfl
    · dsimp only [memberWeight]
      rw [if_pos rfl, hc]
      rfl

theorem memberOfTokens_entry {ts : List Token} {a : Member} :
    memberOfTokens ts = .entry a ↔ MemberFields ts a := by
  constructor
  · intro h
    obtain ⟨t0, t1, t2, t3, rest, rfl⟩ : ∃ t0 t1 t2 t3 rest, ts = t0 :: t1 :: t2 :: t3 :: rest := by
      match ts, h with
      | t0 :: t1 :: t2 :: t3 :: rest, _ => exact ⟨t0, t1, t2, t3, rest, rfl⟩
    dsimp only [memberOfTokens] at h
    by_cases hw : t0 ≠ word "group" ∨ t2 ≠ word "member"
    · rw [if_pos hw] at h
      cases h
    · rw [if_neg hw] at h
      obtain ⟨rfl, rfl⟩ : t0 = word "group" ∧ t2 = word "member" := by
        rwa [not_or, not_not, not_not] at hw
      cases hg : parserReadUint32 t1 with
      | error e =>
        rw [hg] at h
        cases h
      | ok group =>
        cases hm : parserReadUint32 t3 with
        | error e =>
          rw [hg, hm] at h
          cases h
        | ok member =>
          cases hweight : memberWeight rest with
          | none =>
            rw [hg, hm, hweight] at h
            cases h
          | some weight =>
            rw [hg, hm, hweight] at h
            cases h
            obtain ⟨rfl, rfl⟩ | ⟨c, n, rfl, hc, rfl⟩ := memberWeight_iff.mp hweight
            · exact .plain hg hm
            · exact .weighted hg hm hc
  · intro h
    cases h with
    | plain hg hm =>
      dsimp only [memberOfTokens]
      rw [if_neg fun h => h.elim (· rfl) (· rfl), hg, hm]
      rfl
    | weighted hg hm hw =>
      dsimp only [memberOfTokens]
      rw [if_neg fun h => h.elim (· rfl) (· rfl), hg, hm,
        memberWeight_iff.mpr (.inr ⟨_, _, rfl, hw, rfl⟩)]

theorem memberOfTokens_blank {ts : List Token} : memberOfTokens ts = .blank ↔ ts = [] := by
  constructor
  · intro h
    match ts, h with
    | [], _ => rfl
    | t0 :: t1 :: t2 :: t3 :: rest, h =>
      dsimp only [memberOfTokens] at h
      split at h
      · cases h
      · split at h
        · cases h
        · split at h
          · cases h
          · split at h <;> cases h
  · rintro rfl
    rfl

theorem fieldsOf_nil : fieldsOf [] = [] := by
  unfold fieldsOf
  rw [strtokAll_eq]
  rfl

/-- `pipeline_selector_group_member_read` tells blank lines and member lines. -/
theorem member_reads : Reads memberRead BlankOrComment MemberLine := by
  have hread : ∀ s : List UInt8, s ≠ [] → (fieldsOf s).length ≤ 6 →
      memberRead s = memberOfTokens (fieldsOf s) := by
    intro s hs hlen
    unfold memberRead
    rw [if_neg hs, memberTokens_eq, if_pos (show _ ≤ GROUP_MEMBER_INFO_TOKENS_MAX from hlen)]
  have hlong : ∀ s : List UInt8, ¬(fieldsOf s).length ≤ 6 → memberRead s = .malformed := by
    intro s hlen
    unfold memberRead
    rw [memberTokens_eq, if_neg (show ¬_ ≤ GROUP_MEMBER_INFO_TOKENS_MAX from hlen)]
    exact ite_self _
  have hfields : ∀ ts a, MemberFields ts a → ts ≠ [] ∧ ts.length ≤ 6 := by
    intro ts a h
    cases h with
    | plain hg hm => exact ⟨List.cons_ne_nil _ _, Nat.le_add_right 4 2⟩
    | weighted hg hm hw => exact ⟨List.cons_ne_nil _ _, Nat.le_refl 6⟩
  constructor
  · intro l
    by_cases hs : cString l = []
    · rw [hs]
      constructor
      · intro h
        cases h
      · intro h
        exact absurd hs h.1
    · by_cases hlen : (fieldsOf (cString l)).length ≤ 6
      · rw [hread _ hs hlen, memberOfTokens_blank]
        exact ⟨fun h => ⟨hs, h⟩, And.right⟩
      · rw [hlong _ hlen]
        constructor
        · intro h
          cases h
        · intro h
          rw [h.2] at hlen
          exact absurd (Nat.zero_le 6) hlen
  · intro l a
    by_cases hs : cString l = []
    · rw [hs]
      constructor
      · intro h
        cases h
      · intro h
        unfold MemberLine at h
        rw [hs] at h
        exact absurd fieldsOf_nil (hfields _ a h).1
    · by_cases hlen : (fieldsOf (cString l)).length ≤ 6
      · rw [hread _ hs hlen]
        exact memberOfTokens_entry
      · rw [hlong _ hlen]
        constructor
        · intro h
          cases h
        · intro h
          exact absurd (hfields _ a h).2 hlen

/-! ## The member loader -/

section
variable {σ : Type} (apply : σ → Addition → Int × σ)

/-- The addition for a member line, with the weight that is found where it has none. -/
def addMember (stale : Nat → Nat) (s : σ) (id : Nat) (a : Member) : Int × σ :=
  apply s (a.1, a.2.1, a.2.2.getD (stale id))

/-- A member file is accepted exactly when it is right. -/
structure LoadsRight (s : σ) (f : List UInt8) : Prop where
  verdict : ∀ stale, (loadMembers apply stale s f).status = 0 ↔
    AllApplied BlankOrComment MemberLine (addMember apply stale) s 1 (textLines f)
  reported : ∀ stale, (loadMembers apply stale s f).status ≠ 0 →
    FirstOffending BlankOrComment MemberLine (addMember apply stale) s 1 (textLines f)
      (loadMembers apply stale s f).line
  /-- What is passed on for a line is a function of the line. -/
  alone : ∃ addition : Line → Addition, ∀ stale, ∀ x ∈ (loadMembers apply stale s f).passed,
    x.2 = addition x.1

/-- The member lines up to the first that is refused carry their weights. -/
inductive Explicit : σ → List Line → Prop
  | nil (s : σ) : Explicit s []
  | skip {s : σ} {l : Line} {ls : List Line} :
      BlankOrComment l → Explicit s ls → Explicit s (l :: ls)
  | malformed {s : σ} {l : Line} {ls : List Line} :
      ¬BlankOrComment l → (∀ a, ¬MemberLine l a) → Explicit s (l :: ls)
  | refused {s : σ} {l : Line} {ls : List Line} {g m w : Nat} :
      MemberLine l (g, m, some w) → (apply s (g, m, w)).1 ≠ 0 → Explicit s (l :: ls)
  | apply {s s' : σ} {l : Line} {ls : List Line} {g m w : Nat} :
      MemberLine l (g, m, some w) → apply s (g, m, w) = (0, s') → Explicit s' ls →
        Explicit s (l :: ls)

variable {apply}

theorem MemberLine.unique {l : Line} {a a' : Member} (h : MemberLine l a) (h' : MemberLine l a') :
    a = a' := by
  have hr := (member_reads.entry l a).mpr h
  rw [(member_reads.entry l a').mpr h'] at hr
  cases hr
  rfl

theorem MemberLine.not_blank {l : Line} {a : Member} (h : MemberLine l a) : ¬BlankOrComment l := by
  intro hb
  have hr := (member_reads.entry l a).mpr h
  rw [(member_reads.blank l).mpr hb] at hr
  cases hr

theorem FirstOffending.not_all {stale : Nat → Nat} {s : σ} {id k : Nat} {ls : List Line}
    (h : FirstOffending BlankOrComment MemberLine (addMember apply stale) s id ls k) :
    ¬AllApplied BlankOrComment MemberLine (addMember apply stale) s id ls := by
  induction h with
  | malformed hb he =>
    intro ha
    cases ha with
    | skip hb' _ => exact hb hb'
    | apply he' _ _ => exact he _ he'
  | refused he hne =>
    intro ha
    cases ha with
    | skip hb _ => exact he.not_blank hb
    | apply he' happly _ =>
      rw [he.unique he', happly] at hne
      exact hne rfl
  | skip hb _ ih =>
    intro ha
    cases ha with
    | skip _ ha => exact ih ha
    | apply he _ _ => exact he.not_blank hb
  | apply he happly _ ih =>
    intro ha
    cases ha with
    | skip hb _ => exact he.not_blank hb
    | apply he' happly' ha =>
      rw [he.unique he', happly'] at happly
      cases happly
      exact ih ha

section
variable {stale : Nat → Nat} {status : Int} {id : Nat} {s s' : σ} {l : Line} {ls : List Line}
  {g m : Nat} {w : Option Nat}

theorem membersLoop_blank (hl : BlankOrComment l) :
    membersLoop apply stale status id s (l :: ls) =
      membersLoop apply stale (-EINVAL) (id + 1) s ls := by
  rw [membersLoop, (member_reads.blank l).mpr hl]

theorem membersLoop_malformed (hl : memberRead (cString l) = .malformed) :
    membersLoop apply stale status id s (l :: ls) = ⟨-EINVAL, id, s, []⟩ := by
  rw [membersLoop, hl]

theorem membersLoop_refused (hl : MemberLine l (g, m, w))
    (happly : (apply s (g, m, w.getD (stale id))).1 ≠ 0) :
    membersLoop apply stale status id s (l :: ls) =
      ⟨(apply s (g, m, w.getD (stale id))).1, id, (apply s (g, m, w.getD (stale id))).2,
        [(l, g, m, w.getD (stale id))]⟩ := by
  rw [membersLoop, (member_reads.entry l _).mpr hl]
  exact if_pos happly

theorem membersLoop_applied (hl : MemberLine l (g, m, w))
    (happly : apply s (g, m, w.getD (stale id)) = (0, s')) :
    membersLoop apply stale status id s (l :: ls) =
      { membersLoop apply stale 0 (id + 1) s' ls with
        passed := (l, g, m, w.getD (stale id)) ::
          (membersLoop apply stale 0 (id + 1) s' ls).passed } := by
  rw [membersLoop, (member_reads.entry l _).mpr hl]
  dsimp only
  rw [happly]
  rfl

end

/-- The status that the loop ends with when every line is right. -/
def FinalStatus (status : Int) (ls : List Line) (final : Int) : Prop :=
  (ls = [] → final = status) ∧
    ∀ l, ls.getLast? = some l →
      (BlankOrComment l → final = -EINVAL) ∧ (¬BlankOrComment l → final = 0)

theorem FinalStatus.cons {status status' final : Int} {l : Line} {ls : List Line}
    (h : FinalStatus status' ls final)
    (hl : (BlankOrComment l → status' = -EINVAL) ∧ (¬BlankOrComment l → status' = 0)) :
    FinalStatus status (l :: ls) final := by
  refine ⟨fun h => (nomatch h), ?_⟩
  intro l' hl'
  cases ls with
  | nil =>
    cases hl'
    rw [h.1 rfl]
    exact hl
  | cons b ls => exact h.2 l' (by rwa [List.getLast?_cons_cons] at hl')

theorem membersLoop_cases (apply : σ → Addition → Int × σ) (stale : Nat → Nat) (status : Int)
    (id : Nat) (s : σ) (ls : List Line) :
    (FinalStatus status ls (membersLoop apply stale status id s ls).status ∧
        AllApplied BlankOrComment MemberLine (addMember apply stale) s id ls) ∨
      ((membersLoop apply stale status id s ls).status ≠ 0 ∧
        FirstOffending BlankOrComment MemberLine (addMember apply stale) s id ls
          (membersLoop apply stale status id s ls).line) := by
  induction ls generalizing status id s with
  | nil => exact .inl ⟨⟨fun _ => rfl, fun l hl => (nomatch hl)⟩, .nil s id⟩
  | cons l ls ih =>
    cases hl : memberRead (cString l) with
    | blank =>
      have hb := (member_reads.blank l).mp hl
      rw [membersLoop_blank hb]
      obtain ⟨hs, h⟩ | ⟨hs, h⟩ := ih (-EINVAL) (id + 1) s
      · exact .inl ⟨hs.cons ⟨fun _ => rfl, fun hnb => absurd hb hnb⟩, .skip hb h⟩
      · exact .inr ⟨hs, .skip hb h⟩
    | malformed =>
      obtain ⟨hb, he⟩ := member_reads.malformed hl
      rw [membersLoop_malformed hl]
      exact .inr ⟨einval_ne, .malformed hb he⟩
    | entry a =>
      have he := (member_reads.entry l a).mp hl
      obtain ⟨g, m, w⟩ := a
      by_cases hstatus : (apply s (g, m, w.getD (stale id))).1 = 0
      · have happly : apply s (g, m, w.getD (stale id)) = (0, _) := Prod.ext hstatus rfl
        rw [membersLoop_applied he happly]
        obtain ⟨hs, h⟩ | ⟨hs, h⟩ := ih 0 (id + 1) _
        · exact .inl ⟨hs.cons ⟨fun hb => absurd hb he.not_blank, fun _ => rfl⟩,
            .apply he happly h⟩
        · exact .inr ⟨hs, .apply he happly h⟩
      · rw [membersLoop_refused he hstatus]
        exact .inr ⟨hstatus, .refused he hstatus⟩

/-- The line decides what is passed on for it. -/
def explicitAddition (l : Line) : Addition :=
  match memberRead (cString l) with
  | .entry (g, m, w) => (g, m, w.getD 0)
  | _ => (0, 0, 0)

theorem explicitAddition_eq {l : Line} {g m w : Nat} (h : MemberLine l (g, m, some w)) :
    explicitAddition l = (g, m, w) := by
  rw [explicitAddition, (member_reads.entry l _).mpr h]
  rfl

theorem Explicit.passed {s : σ} {ls : List Line} (h : Explicit apply s ls) (stale : Nat → Nat)
    (status : Int) (id : Nat) :
    ∀ x ∈ (membersLoop apply stale status id s ls).passed, x.2 = explicitAddition x.1 := by
  induction h generalizing status id with
  | nil s =>
    intro x hx
    cases hx
  | skip hb _ ih =>
    rw [membersLoop_blank hb]
    exact ih (-EINVAL) (id + 1)
  | @malformed s l ls hb he =>
    cases hl : memberRead (cString l) with
    | blank => exact absurd ((member_reads.blank l).mp hl) hb
    | entry a => exact absurd ((member_reads.entry l a).mp hl) (he a)
    | malformed =>
      rw [membersLoop_malformed hl]
      intro x hx
      cases hx
  | refused he hne =>
    rw [membersLoop_refused he hne]
    intro x hx
    rw [List.mem_singleton.mp hx]
    exact (explicitAddition_eq he).symm
  | apply he happly _ ih =>
    rw [membersLoop_applied he happly]
    intro x hx
    cases hx with
    | head => exact (explicitAddition_eq he).symm
    | tail _ hx => exact ih 0 (id + 1) x hx

/-- A weight that is not on the line is found in what is passed on. -/
theorem explicit_of_alone {s : σ} {ls : List Line} {status : Int} {id : Nat}
    {addition : Line → Addition}
    (h : ∀ stale, ∀ x ∈ (membersLoop apply stale status id s ls).passed, x.2 = addition x.1) :
    Explicit apply s ls := by
  induction ls generalizing status id s with
  | nil => exact .nil s
  | cons l ls ih =>
    cases hl : memberRead (cString l) with
    | blank =>
      have hb := (member_reads.blank l).mp hl
      have hrest : ∀ stale, ∀ x ∈ (membersLoop apply stale (-EINVAL) (id + 1) s ls).passed,
          x.2 = addition x.1 := by
        intro stale x hx
        exact h stale x (by rwa [membersLoop_blank hb])
      exact .skip hb (ih hrest)
    | malformed =>
      obtain ⟨hb, he⟩ := member_reads.malformed hl
      exact .malformed hb he
    | entry a =>
      have he := (member_reads.entry l a).mp hl
      obtain ⟨g, m, w⟩ := a
      have hhead : ∀ stale : Nat → Nat, (g, m, w.getD (stale id)) = addition l := by
        intro stale
        refine h stale (l, g, m, w.getD (stale id)) ?_
        by_cases hstatus : (apply s (g, m, w.getD (stale id))).1 = 0
        · rw [membersLoop_applied he (Prod.ext hstatus rfl)]
          exact List.mem_cons_self ..
        · rw [membersLoop_refused he hstatus]
          exact List.mem_singleton_self _
      cases w with
      | none =>
        -- two values of the variable give two weights
        have h01 := (hhead fun _ => 0).trans (hhead fun _ => 1).symm
        cases h01
      | some w =>
        by_cases hstatus : (apply s (g, m, w)).1 = 0
        · have happly : apply s (g, m, w) = (0, _) := Prod.ext hstatus rfl
          have hrest : ∀ stale, ∀ x ∈ (membersLoop apply stale 0 (id + 1)
              (apply s (g, m, w)).2 ls).passed, x.2 = addition x.1 := by
            intro stale x hx
            refine h stale x ?_
            rw [membersLoop_applied he happly]
            exact List.mem_cons_of_mem _ hx
          exact .apply he happly (ih hrest)
        · exact .refused he hstatus

/-- Member files are accepted exactly when they are right if the member lines carry their
weights, and unless a file without an offending line ends in a blank line or a comment. -/
theorem loadMembers_iff (apply : σ → Addition → Int × σ) (s : σ) (f : List UInt8)
    (hfit : ∀ l ∈ textLines f, l.length < MAX_LINE_SIZE) :
    LoadsRight apply s f ↔
      Explicit apply s (textLines f) ∧
        ∀ stale, AllApplied BlankOrComment MemberLine (addMember apply stale) s 1 (textLines f) →
          ∀ l, (textLines f).getLast? = some l → ¬BlankOrComment l := by
  have hload : ∀ stale, loadMembers apply stale s f =
      membersLoop apply stale 0 1 s (textLines f) := by
    intro stale
    rw [loadMembers, fileLines_eq f hfit]
  constructor
  · rintro ⟨hverdict, -, addition, halone⟩
    refine ⟨explicit_of_alone fun stale x hx => halone stale x (hload stale ▸ hx), ?_⟩
    intro stale hall l hl hb
    obtain ⟨hfinal, -⟩ | ⟨-, hoff⟩ := membersLoop_cases apply stale 0 1 s (textLines f)
    · have hzero := (hverdict stale).mpr hall
      rw [hload, (hfinal.2 l hl).1 hb] at hzero
      exact einval_ne hzero
    · exact hoff.not_all hall
  · rintro ⟨hexplicit, hlast⟩
    have hright : ∀ stale, (loadMembers apply stale s f).status = 0 ∧
          AllApplied BlankOrComment MemberLine (addMember apply stale) s 1 (textLines f) ∨
        (loadMembers apply stale s f).status ≠ 0 ∧
          FirstOffending BlankOrComment MemberLine (addMember apply stale) s 1 (textLines f)
            (loadMembers apply stale s f).line := by
      intro stale
      rw [hload]
      refine (membersLoop_cases apply stale 0 1 s (textLines f)).imp_left ?_
      rintro ⟨hfinal, hall⟩
      refine ⟨?_, hall⟩
      cases hl : (textLines f).getLast? with
      | none => exact hfinal.1 (List.getLast?_eq_none_iff.mp hl)
      | some l => exact (hfinal.2 l hl).2 (hlast stale hall l hl)
    refine ⟨?_, ?_, explicitAddition, ?_⟩
    · intro stale
      obtain ⟨hs, hall⟩ | ⟨hs, hoff⟩ := hright stale
      · exact ⟨fun _ => hall, fun _ => hs⟩
      · exact ⟨fun h => absurd h hs, fun hall => absurd hall hoff.not_all⟩
    · intro stale hne
      obtain ⟨hs, -⟩ | ⟨-, hoff⟩ := hright stale
      · exact absurd hs hne
      · exact hoff
    · intro stale x hx
      rw [hload] at hx
      exact hexplicit.passed stale 0 1 x hx
end

/-- A comment, and two members of a group with a blank line between them. -/
def memberFile : List UInt8 :=
  word "# group 0\ngroup 0 member 1 weight 5\n\ngroup 0 member 2 weight 3\n"

/-- A member line and a blank line behind it. -/
def blankEnd : List UInt8 := word "group 0 member 1 weight 5\n\n"

/-- A selector that takes every member. -/
def takeAll (s : Unit) (_ : Addition) : Int × Unit := (0, s)

theorem loadMembers_iff_two : LoadsRight takeAll () memberFile := by
  have hfit : ∀ l ∈ textLines memberFile, l.length < MAX_LINE_SIZE := by decide +kernel
  have hlines : textLines memberFile = [word "# group 0\n", word "group 0 member 1 weight 5\n",
      word "\n", word "group 0 member 2 weight 3\n"] := by
    decide +kernel
  have hcomment : BlankOrComment (word "# group 0\n") := (member_reads.blank _).mp (by rfl)
  have hblank : BlankOrComment (word "\n") := (member_reads.blank _).mp (by rfl)
  have hone : MemberLine (word "group 0 member 1 weight 5\n") (0, 1, some 5) :=
    (member_reads.entry _ _).mp (by rfl)
  have htwo : MemberLine (word "group 0 member 2 weight 3\n") (0, 2, some 3) :=
    (member_reads.entry _ _).mp (by rfl)
  refine (loadMembers_iff takeAll () memberFile hfit).mpr ⟨?_, ?_⟩
  · rw [hlines]
    exact .skip hcomment (.apply hone rfl (.skip hblank (.apply htwo rfl (.nil _))))
  · intro stale _ l hl
    rw [hlines] at hl
    cases hl
    exact htwo.not_blank

/-- The blank line at the end makes the loader fail, at a line behind the end. -/
theorem loadMembers_broken :
    ¬∀ (apply : Unit → Addition → Int × Unit) (f : List UInt8),
      (∀ l ∈ textLines f, l.length < MAX_LINE_SIZE) → LoadsRight apply () f := by
  intro h
  have hfit : ∀ l ∈ textLines blankEnd, l.length < MAX_LINE_SIZE := by decide +kernel
  have hlines : textLines blankEnd = [word "group 0 member 1 weight 5\n", word "\n"] := by
    decide +kernel
  have hmember : MemberLine (word "group 0 member 1 weight 5\n") (0, 1, some 5) :=
    (member_reads.entry _ _).mp (by rfl)
  have hblank : BlankOrComment (word "\n") := (member_reads.blank _).mp (by rfl)
  have hall : AllApplied BlankOrComment MemberLine (addMember takeAll fun _ => 0) () 1
      (textLines blankEnd) := by
    rw [hlines]
    exact .apply hmember rfl (.skip hblank (.nil _ _))
  have hstatus := ((h takeAll blankEnd hfit).verdict fun _ => 0).mpr hall
  rw [loadMembers, fileLines_eq blankEnd hfit, hlines, membersLoop_applied hmember rfl,
    membersLoop_blank hblank] at hstatus
  exact einval_ne hstatus

end P4Switch.Cmd
