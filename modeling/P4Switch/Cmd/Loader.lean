import P4Switch.App.Cli
import P4Switch.Cmd.Number

/-! # Rule and member files

The functions that read a file line by line and apply each line to a pipeline. Allocation
succeeds. A variable that the code leaves unset holds whatever `stale` says. -/
namespace P4Switch.Cmd
open P4Switch.App

abbrev Token := List UInt8

/-- A line as `fgets` delivers it. -/
abbrev Line := List UInt8

/-- A string literal. -/
def word (s : String) : Token := s.toList.map fun c => UInt8.ofNat c.toNat

def MAX_LINE_SIZE : Nat := 2048

/-- What one `fgets` after the other delivers. -/
def fileLines (f : List UInt8) : List Line :=
  if _h : f = [] then []
  else (fgets (MAX_LINE_SIZE - 1) f).1 :: fileLines (fgets (MAX_LINE_SIZE - 1) f).2
termination_by f.length
decreasing_by exact fgets_consumes (by decide) _h

/-- What is made of a line: an entry, or `-EINVAL` with `is_blank_or_comment` set or not. -/
inductive LineRead (α : Type) where
  | entry (a : α)
  | blank
  | malformed

def EINVAL : Int := 22

/-- The outcome of a loader: its status, the line number reported, the state behind it and
what was passed on for which line. -/
structure Loaded (σ α : Type) where
  status : Int
  line : Nat
  ctl : σ
  passed : List (Line × α)

section
variable {σ α : Type}

/-- The loop of `pipeline_table_entries_add` and its siblings. -/
def entriesLoop (read : List UInt8 → LineRead α) (apply : σ → α → Int × σ) :
    Int → Nat → σ → List Line → Loaded σ α
  | status, id, s, [] => ⟨status, id, s, []⟩
  | status, id, s, l :: ls =>
    match read (cString l) with
    | .blank => entriesLoop read apply status (id + 1) s ls
    | .malformed => ⟨-EINVAL, id, s, []⟩
    | .entry a =>
      let (status, s) := apply s a
      if status ≠ 0 then ⟨status, id, s, [(l, a)]⟩
      else
        let rest := entriesLoop read apply status (id + 1) s ls
        { rest with passed := (l, a) :: rest.passed }

def loadEntries (read : List UInt8 → LineRead α) (apply : σ → α → Int × σ) (s : σ)
    (f : List UInt8) : Loaded σ α :=
  entriesLoop read apply 0 1 s (fileLines f)

end

/-! ## Lines of a member file -/

def GROUP_MEMBER_INFO_TOKENS_MAX : Nat := 6

def tokenIsComment (token : Token) : Bool :=
  token.head? = some 35 || token.head? = some 59 ||
    (token.head? = some 47 && token[1]? = some 47)

/-- The tokens up to a comment, `none` if there are more than `n`. -/
def memberTokens : Nat → List UInt8 → Option (List Token)
  | 0, s =>
    match strtokR s with
    | none => some []
    | some (token, _) => if tokenIsComment token then some [] else none
  | n + 1, s =>
    match strtokR s with
    | none => some []
    | some (token, rest) =>
      if tokenIsComment token then some [] else (memberTokens n rest).map (token :: ·)

/-- The group, the member, and the weight if there is one. -/
abbrev Member := Nat × Nat × Option Nat

/-- The optional weight at the end of a line. -/
def memberWeight : List Token → Option (Option Nat)
  | [] => some none
  | t :: ts =>
    if t = word "weight" then
      match ts with
      | [] => none
      | value :: rest =>
        match parserReadUint32 value with
        | .error _ => none
        | .ok weight => if rest = [] then some (some weight) else none
    else none

/-- What the tokens of a line say. -/
def memberOfTokens : List Token → LineRead Member
  | [] => .blank
  | t0 :: t1 :: t2 :: t3 :: ts =>
    if t0 ≠ word "group" ∨ t2 ≠ word "member" then .malformed
    else
      match parserReadUint32 t1 with
      | .error _ => .malformed
      | .ok group =>
        match parserReadUint32 t3 with
        | .error _ => .malformed
        | .ok member =>
          match memberWeight ts with
          | none => .malformed
          | some weight => .entry (group, member, weight)
  | _ => .malformed

/-- `pipeline_selector_group_member_read`. -/
def memberRead (string : List UInt8) : LineRead Member :=
  if string = [] then .malformed
  else
    match memberTokens GROUP_MEMBER_INFO_TOKENS_MAX string with
    | none => .malformed
    | some tokens => memberOfTokens tokens

/-- What is passed on for a line: group, member and weight. -/
abbrev Addition := Nat × Nat × Nat

section
variable {σ : Type}

/-- The loop of `pipeline_selector_group_members_add` and `_delete`: `status` also takes the
result of the read, and a line without a weight leaves `weight` as it is. -/
def membersLoop (apply : σ → Addition → Int × σ) (stale : Nat → Nat) :
    Int → Nat → σ → List Line → Loaded σ Addition
  | status, id, s, [] => ⟨status, id, s, []⟩
  | _, id, s, l :: ls =>
    match memberRead (cString l) with
    | .blank => membersLoop apply stale (-EINVAL) (id + 1) s ls
    | .malformed => ⟨-EINVAL, id, s, []⟩
    | .entry (group, member, weight) =>
      let a := (group, member, weight.getD (stale id))
      let (status, s) := apply s a
      if status ≠ 0 then ⟨status, id, s, [(l, a)]⟩
      else
        let rest := membersLoop apply stale status (id + 1) s ls
        { rest with passed := (l, a) :: rest.passed }

def loadMembers (apply : σ → Addition → Int × σ) (stale : Nat → Nat) (s : σ)
    (f : List UInt8) : Loaded σ Addition :=
  membersLoop apply stale 0 1 s (fileLines f)

end

end P4Switch.Cmd
