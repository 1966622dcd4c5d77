import P4Switch.Lib.Lines

/-! # Command lines

How `cli_process` reads a line, and how `cli_script_process` cuts a script into lines. -/
namespace P4Switch.App
open P4Switch.Lib.Lines

abbrev newline : UInt8 := 10

/-- The C string at the start of a buffer. -/
def cString (bs : List UInt8) : List UInt8 := bs.takeWhile (· ≠ 0)

def CMD_MAX_TOKENS : Nat := 256

/-- `PARSE_DELIMITER`. -/
def isDelimiter (b : UInt8) : Bool := b ∈ [32, 12, 10, 13, 9, 11]

/-- `strtok_r`: the next token and what is left behind it. -/
def strtokR (s : List UInt8) : Option (List UInt8 × List UInt8) :=
  match s.dropWhile isDelimiter with
  | [] => none
  | b :: bs =>
    some ((b :: bs).takeWhile (!isDelimiter ·), ((b :: bs).dropWhile (!isDelimiter ·)).tail)

inductive TokenError where
  | e2big
  deriving DecidableEq, Repr

/-- The loop of `parse_tokenize_string` over `n` remaining places. -/
def parseTokenizeLoop : Nat → List UInt8 → Except TokenError (List (List UInt8))
  | 0, s => if (strtokR s).isSome then .error .e2big else .ok []
  | n + 1, s =>
    match strtokR s with
    | none => .ok []
    | some (t, rest) => (parseTokenizeLoop n rest).map (t :: ·)

def parseTokenizeString (s : List UInt8) : Except TokenError (List (List UInt8)) :=
  parseTokenizeLoop CMD_MAX_TOKENS s

/-- `is_comment`: a first character out of `!#%;`, or `//`, or `--`. -/
def isComment (s : List UInt8) : Bool :=
  match s with
  | [] => false
  | b :: bs => b ∈ [33, 35, 37, 59] || (b = 47 && bs.head? = some 47) ||
      (b = 45 && bs.head? = some 45)

/-- What `cli_process` makes of a line. -/
inductive Command where
  | comment
  | tokens (ts : List (List UInt8))
  | tooMany
  deriving DecidableEq, Repr

/-- The command of a line; a blank line has none. -/
def command (s : List UInt8) : Option Command :=
  if isComment s then some .comment
  else
    match parseTokenizeString s with
    | .error .e2big => some .tooMany
    | .ok [] => none
    | .ok ts => some (.tokens ts)

/-- `fgets` with room for `n` bytes: up to `n` bytes, not beyond the first newline. -/
def fgets : Nat → List UInt8 → List UInt8 × List UInt8
  | 0, f => ([], f)
  | _ + 1, [] => ([], [])
  | n + 1, b :: f =>
    if b = newline then ([b], f)
    else
      let (line, rest) := fgets n f
      (b :: line, rest)

theorem fgets_consumes {n : Nat} {f : List UInt8} (hn : n ≠ 0) (hf : f ≠ []) :
    (fgets n f).2.length < f.length := by
  have hle : ∀ n (f : List UInt8), (fgets n f).2.length ≤ f.length := by
    intro n
    induction n with
    | zero => intro f; exact Nat.le_refl _
    | succ n ih =>
      intro f
      cases f with
      | nil => exact Nat.le_refl _
      | cons b f =>
        unfold fgets
        split
        · simp
        · exact (ih f).trans (by simp)
  obtain ⟨k, rfl⟩ := Nat.exists_eq_succ_of_ne_zero hn
  obtain ⟨b, bs, rfl⟩ := List.exists_cons_of_ne_nil hf
  unfold fgets
  split
  · simp
  · exact Nat.lt_succ_of_le (hle k bs)

/-- The loop of `cli_script_process`: the strings it passes to `cli_process`, until `fgets`
meets the end of the file. -/
def cliScriptProcess (msgInLenMax : Nat) (f : List UInt8) : List (List UInt8) :=
  if _h : msgInLenMax = 0 ∨ f = [] then []
  else
    cString (fgets msgInLenMax f).1 ::
      cliScriptProcess msgInLenMax (fgets msgInLenMax f).2
termination_by f.length
decreasing_by exact fgets_consumes (fun e => _h (.inl e)) (fun e => _h (.inr e))

/-! ## A newline at the end changes no command -/

theorem strtokR_newline (s : List UInt8) :
    (strtokR s = none ∧ strtokR (s ++ [newline]) = none) ∨
      ∃ t rest, strtokR s = some (t, rest) ∧
        (strtokR (s ++ [newline]) = some (t, rest) ∨
          strtokR (s ++ [newline]) = some (t, rest ++ [newline])) := by
  unfold strtokR
  rw [List.dropWhile_append]
  cases s.dropWhile isDelimiter with
  | nil => exact .inl ⟨rfl, rfl⟩
  | cons b bs =>
    refine .inr ⟨_, _, rfl, ?_⟩
    simp only [List.isEmpty_cons, Bool.false_eq_true, if_false, List.cons_append]
    rw [← List.cons_append, List.takeWhile_append, List.dropWhile_append]
    cases hd : (b :: bs).dropWhile (!isDelimiter ·) with
    | nil =>
      have ht : (b :: bs).takeWhile (!isDelimiter ·) = b :: bs := by
        have happ := List.takeWhile_append_dropWhile (p := (!isDelimiter ·)) (l := b :: bs)
        rwa [hd, List.append_nil] at happ
      have hnl : isDelimiter newline = true := by decide
      left
      rw [ht, if_pos rfl]
      simp [hnl]
    | cons d ds =>
      have ht : ((b :: bs).takeWhile (!isDelimiter ·)).length ≠ (b :: bs).length := by
        have happ := congrArg List.length
          (List.takeWhile_append_dropWhile (p := (!isDelimiter ·)) (l := b :: bs))
        rw [hd, List.length_append, List.length_cons] at happ
        omega
      right
      rw [if_neg ht]
      rfl

theorem parseTokenizeLoop_newline (n : Nat) (s : List UInt8) :
    parseTokenizeLoop n (s ++ [newline]) = parseTokenizeLoop n s := by
  induction n generalizing s with
  | zero =>
    obtain ⟨h, h'⟩ | ⟨t, rest, h, h' | h'⟩ := strtokR_newline s <;>
      simp only [parseTokenizeLoop, h, h', Option.isSome]
  | succ n ih =>
    obtain ⟨h, h'⟩ | ⟨t, rest, h, h' | h'⟩ := strtokR_newline s
    · simp only [parseTokenizeLoop, h, h']
    · simp only [parseTokenizeLoop, h, h']
    · simp only [parseTokenizeLoop, h, h', ih]

theorem isComment_newline (s : List UInt8) : isComment (s ++ [newline]) = isComment s := by
  cases s with
  | nil => rfl
  | cons b bs =>
    cases bs with
    | nil => simp [isComment, newline]
    | cons b' bs => rfl

theorem command_newline (s : List UInt8) : command (s ++ [newline]) = command s := by
  unfold command parseTokenizeString
  rw [isComment_newline, parseTokenizeLoop_newline]

theorem command_cString_newline (l : List UInt8) :
    command (cString (l ++ [newline])) = command (cString l) := by
  unfold cString
  rw [List.takeWhile_append]
  split
  · next h =>
    have hl : l.takeWhile (· ≠ 0) = l := (List.takeWhile_prefix _).eq_of_length h
    rw [hl]
    exact command_newline l
  · rfl

/-! ## A script of whole lines -/

theorem fgets_line {n : Nat} {l : List UInt8} (hl : newline ∉ l) (hn : l.length < n)
    (f : List UInt8) : fgets n (l ++ newline :: f) = (l ++ [newline], f) := by
  induction l generalizing n with
  | nil =>
    obtain ⟨k, rfl⟩ := Nat.exists_eq_succ_of_ne_zero (Nat.ne_of_gt hn)
    rfl
  | cons b l ih =>
    obtain ⟨k, rfl⟩ := Nat.exists_eq_succ_of_ne_zero (Nat.ne_of_gt (Nat.zero_lt_of_lt hn))
    have hb : b ≠ newline := fun e => hl (by simp [e])
    have hk : l.length < k := Nat.lt_of_succ_lt_succ hn
    simp only [List.cons_append, fgets, if_neg hb]
    rw [ih (fun hm => hl (List.mem_cons_of_mem _ hm)) hk]

/-- A line as long as the buffer is read without its newline. -/
theorem fgets_full {l : List UInt8} (hl : newline ∉ l) (f : List UInt8) :
    fgets l.length (l ++ f) = (l, f) := by
  induction l with
  | nil => rfl
  | cons b l ih =>
    have hb : b ≠ newline := fun e => hl (by simp [e])
    simp only [List.length_cons, List.cons_append, fgets, if_neg hb]
    rw [ih fun hm => hl (List.mem_cons_of_mem _ hm)]

theorem cliScriptProcess_step {max : Nat} {f : List UInt8} (hmax : max ≠ 0) (hf : f ≠ []) :
    cliScriptProcess max f = cString (fgets max f).1 :: cliScriptProcess max (fgets max f).2 := by
  rw [cliScriptProcess, dif_neg (by simp [hmax, hf])]

theorem cliScriptProcess_line {max : Nat} {l : List UInt8} (hmax : max ≠ 0)
    (hl : newline ∉ l) (hlen : l.length ≤ max) (f : List UInt8) :
    (cliScriptProcess max (l ++ newline :: f)).filterMap command =
      (command (cString l)).toList ++ (cliScriptProcess max f).filterMap command := by
  rw [cliScriptProcess_step hmax (by simp)]
  rcases Nat.lt_or_eq_of_le hlen with hlt | heq
  · rw [fgets_line hl hlt, List.filterMap_cons, command_cString_newline]
    cases command (cString l) <;> rfl
  · -- the newline of a line of the maximal length is read as a blank line of its own
    obtain ⟨k, hk⟩ := Nat.exists_eq_succ_of_ne_zero hmax
    have hblank : fgets max (newline :: f) = ([newline], f) := by
      rw [hk]
      rfl
    rw [← heq, fgets_full hl, heq, cliScriptProcess_step hmax (by simp), hblank,
      List.filterMap_cons, List.filterMap_cons]
    have hnone : command (cString [newline]) = none := by decide +kernel
    rw [hnone]
    cases command (cString l) <;> rfl

/-- A script of whole lines runs the commands of its lines. -/
theorem cliScriptProcess_lines {max : Nat} (hmax : max ≠ 0) {ls : List (List UInt8)}
    (hnl : ∀ l ∈ ls, newline ∉ l) (hlen : ∀ l ∈ ls, l.length ≤ max) :
    (cliScriptProcess max (ls.flatMap (· ++ [newline]))).filterMap command =
      ls.filterMap fun l => command (cString l) := by
  induction ls with
  | nil =>
    rw [List.flatMap_nil, cliScriptProcess, dif_pos (.inr rfl)]
    rfl
  | cons l ls ih =>
    rw [List.flatMap_cons, List.append_assoc, List.singleton_append,
      cliScriptProcess_line hmax (hnl l (by simp)) (hlen l (by simp)),
      ih (fun l' h => hnl l' (List.mem_cons_of_mem _ h))
        (fun l' h => hlen l' (List.mem_cons_of_mem _ h)),
      List.filterMap_cons]
    cases command (cString l) <;> rfl

end P4Switch.App
