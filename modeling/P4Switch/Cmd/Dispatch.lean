import P4Switch.Cmd.Session

/-! # Chains of tests

`cli_process` and `cmd_help` go through a chain of `if`s. A condition is a list of tests, read
from the left until one fails. A chain whose tests are guarded reads no token that is not
there, and takes the first branch that all its tests allow. -/
namespace P4Switch.Cmd
open P4Switch.Lib.EarlyExit

inductive Test where
  /-- `n_tokens >= n`. -/
  | atLeast (n : Nat)
  /-- `n_tokens == n`. -/
  | exactly (n : Nat)
  /-- `strcmp (tokens[k], w) == 0`. -/
  | is (k : Nat) (w : String)

def Test.run (ts : List Token) : Test → Handler Bool
  | .atLeast n => return n ≤ ts.length
  | .exactly n => return ts.length = n
  | .is k w => tokenIs ts k w

/-- `&&`. -/
def allHold (ts : List Token) : List Test → Handler Bool
  | [] => return true
  | t :: rest => do
    let b ← t.run ts
    if b = true then allHold ts rest else return false

/-- An `if` whose branch returns. -/
structure Branch where
  tests : List Test
  handler : List Token → Handler Unit

/-- The branches in order, and what comes behind them. -/
def dispatch (ts : List Token) (otherwise : Handler Unit) : List Branch → Handler Unit
  | [] => otherwise
  | b :: rest => do
    let taken ← allHold ts b.tests
    if taken = true then b.handler ts else dispatch ts otherwise rest

/-! ## What is read -/

def Test.meets (ts : List Token) : Test → Bool
  | .atLeast n => n ≤ ts.length
  | .exactly n => ts.length = n
  | .is k w => ts[k]? = some (word w)

/-- With `n` tokens, no test reads a token that is not there. -/
def Guarded : Nat → List Test → Bool
  | _, [] => true
  | n, .atLeast m :: rest => Guarded (max n m) rest
  | n, .exactly m :: rest => Guarded (max n m) rest
  | n, .is k _ :: rest => k < n && Guarded n rest

theorem four_tokens {ts : List Token} (hlen : ts.length = 4) :
    ∃ t0 t1 t2 t3, ts = [t0, t1, t2, t3] := by
  obtain ⟨t0, rest, rfl⟩ := List.exists_cons_of_length_eq_add_one hlen
  obtain ⟨t1, t2, t3, rfl⟩ := List.length_eq_three.mp (Nat.succ.inj hlen)
  exact ⟨t0, t1, t2, t3, rfl⟩

theorem five_tokens {ts : List Token} (hlen : ts.length = 5) :
    ∃ t0 t1 t2 t3 t4, ts = [t0, t1, t2, t3, t4] := by
  obtain ⟨t0, rest, rfl⟩ := List.exists_cons_of_length_eq_add_one hlen
  obtain ⟨t1, t2, t3, t4, rfl⟩ := four_tokens (Nat.succ.inj hlen)
  exact ⟨t0, t1, t2, t3, t4, rfl⟩

theorem token_eq {ts : List Token} {k : Nat} {t : Token} (h : ts[k]? = some t) :
    token ts k = pure t := by
  unfold token
  rw [h]

theorem tokenIs_eq {ts : List Token} {k : Nat} (hk : k < ts.length) (w : String) :
    tokenIs ts k w = pure (Test.meets ts (.is k w)) := by
  unfold tokenIs
  rw [token_eq (List.getElem?_eq_getElem hk)]
  simp [Test.meets, hk]

/-- Guarded tests come out as they would on the tokens. -/
theorem allHold_eq {ts : List Token} {tests : List Test} {n : Nat} (h : Guarded n tests = true)
    (hn : n ≤ ts.length) : allHold ts tests = pure (tests.all (Test.meets ts)) := by
  induction tests generalizing n with
  | nil => rfl
  | cons t rest ih =>
    have hcons : ∀ b, t.run ts = pure b →
        (b = true → allHold ts rest = pure (rest.all (Test.meets ts))) →
        allHold ts (t :: rest) = pure (b && rest.all (Test.meets ts)) := by
      intro b hrun hrest
      unfold allHold
      rw [hrun, pure_bind]
      cases b with
      | true => exact hrest rfl
      | false => rfl
    rw [List.all_cons]
    cases t with
    | atLeast m =>
      refine hcons _ rfl fun hm => ih h (max_le hn ?_)
      exact of_decide_eq_true hm
    | exactly m =>
      refine hcons _ rfl fun hm => ih h (max_le hn ?_)
      exact (of_decide_eq_true hm).ge
    | is k w =>
      simp only [Guarded, Bool.and_eq_true, decide_eq_true_eq] at h
      exact hcons _ (tokenIs_eq (Nat.lt_of_lt_of_le h.1 hn) w) fun _ => ih h.2 hn

/-- The branch that a chain takes. -/
def taken (ts : List Token) (branches : List Branch) : Option Branch :=
  branches.find? fun b => b.tests.all (Test.meets ts)

/-- A chain of guarded tests runs the branch that it takes. -/
theorem dispatch_eq {ts : List Token} {branches : List Branch} {n : Nat}
    (h : ∀ b ∈ branches, Guarded n b.tests = true) (hn : n ≤ ts.length)
    (otherwise : Handler Unit) :
    dispatch ts otherwise branches =
      (taken ts branches).elim otherwise fun b => b.handler ts := by
  induction branches with
  | nil => rfl
  | cons b rest ih =>
    have hrest := ih fun b' hb' => h b' (List.mem_cons_of_mem b hb')
    unfold dispatch
    rw [allHold_eq (h b (List.mem_cons_self ..)) hn, pure_bind]
    unfold taken
    rw [List.find?_cons]
    cases b.tests.all (Test.meets ts) with
    | true => rfl
    | false => exact hrest

/-- The rule for a chain whose tests are guarded. -/
theorem dispatch_rule {P : Handler Unit → Prop} {ts : List Token} {branches : List Branch}
    {otherwise : Handler Unit} (hts : ts ≠ [])
    (hguard : branches.all (fun b => Guarded 1 b.tests) = true)
    (h : ∀ b ∈ branches, b.tests.all (Test.meets ts) = true → P (b.handler ts))
    (hother : P otherwise) : P (dispatch ts otherwise branches) := by
  have hpos := List.length_pos_of_ne_nil hts
  rw [dispatch_eq (fun b hb => List.all_eq_true.mp hguard b hb) hpos]
  cases hfind : taken ts branches with
  | none => exact hother
  | some b =>
    unfold taken at hfind
    have hall := List.find?_some (p := fun b : Branch => b.tests.all (Test.meets ts)) hfind
    exact h b (List.mem_of_find?_eq_some hfind) hall

end P4Switch.Cmd
