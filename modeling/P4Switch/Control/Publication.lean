import P4Switch.Control.DataPlane

/-! # The two halves of a commit

A commit works on the copy of the tables nobody reads, publishes it, waits for the threads
to leave the other copy, and only then works on that one. -/
namespace P4Switch.Control
open P4Switch.Lib.GuardedRun P4Switch.Tables

variable {n : Nat} {su : Setup n}

/-- A commit up to `usleep`. -/
def Ctl.publish (c : Ctl n) (abortOnFail : Bool) : Ctl n × Int :=
  let (c, status) := c.rollfwd0Loop (List.finRange n)
  if status ≠ 0 then
    ((List.finRange n).foldl
      (fun c i => if abortOnFail then (c.rollback i).tableAbort i else c.rollback i) c, status)
  else
    let c := (List.finRange n).foldl Ctl.rollfwd1 c
    ({ c with ts := c.tsNext, tsNext := c.ts }, 0)

/-- A commit from there on. -/
def Ctl.settle (c : Ctl n) : Ctl n :=
  (List.finRange n).foldl (fun c i => ((c.rollfwd0 i).1.rollfwd1 i).rollfwd2 i) c

theorem commit_eq (c : Ctl n) (ab : Bool) :
    c.commit ab = if (c.publish ab).2 = 0 then ((c.publish ab).1.settle, 0) else c.publish ab := by
  unfold Ctl.commit Ctl.publish Ctl.settle
  dsimp only
  split
  · rfl
  · rfl

theorem commit_status (c : Ctl n) (ab : Bool) : (c.commit ab).2 = (c.publish ab).2 := by
  rw [commit_eq]
  split
  · rename_i h
    exact h.symm
  · rfl

/-! ## The published copy -/

theorem foldl_ts {step : Ctl n → Fin n → Ctl n}
    (h : ∀ c i, (step c i).ts = c.ts)
    (l : List (Fin n)) (c : Ctl n) : (l.foldl step c).ts = c.ts := by
  induction l generalizing c with
  | nil => rfl
  | cons i l ih => exact (ih (step c i)).trans (h c i)

theorem rollfwd0Loop_ts (l : List (Fin n)) (c : Ctl n) : (c.rollfwd0Loop l).1.ts = c.ts := by
  induction l generalizing c with
  | nil => rfl
  | cons i l ih =>
    unfold Ctl.rollfwd0Loop
    split
    · rfl
    · exact ih (c.rollfwd0 i).1

/-- The second half leaves the copy alone that the threads read. -/
theorem settle_ts (c : Ctl n) : c.settle.ts = c.ts := by
  unfold Ctl.settle
  refine foldl_ts (fun c i => ?_) (List.finRange n) c
  rfl

theorem publish_failed {c : Ctl n} {ab : Bool} (h : (c.publish ab).2 ≠ 0) :
    (c.publish ab).1.ts = c.ts := by
  have hts := rollfwd0Loop_ts (List.finRange n) c
  unfold Ctl.publish at h ⊢
  dsimp only at h ⊢
  split at h
  · rename_i hst
    rw [if_pos hst]
    refine (foldl_ts (fun c i => ?_) _ _).trans hts
    cases ab with
    | true => rfl
    | false => rfl
  · exact absurd rfl h

/-- The copy read before the swap is not touched by the first half. -/
theorem publish_tsNext {c : Ctl n} {ab : Bool} (h : (c.publish ab).2 = 0) :
    (c.publish ab).1.tsNext = c.ts := by
  have hts := rollfwd0Loop_ts (List.finRange n) c
  unfold Ctl.publish at h ⊢
  dsimp only at h ⊢
  split at h
  · rename_i hst
    exact absurd h hst
  · rename_i hst
    rw [if_neg hst]
    have hfirst : ∀ c : Ctl n, ((List.finRange n).foldl Ctl.rollfwd1 c).ts = c.ts := by
      intro c
      refine foldl_ts (fun c i => ?_) _ c
      rfl
    exact (hfirst _).trans hts

/-- What is published is what the commit ends with. -/
theorem publish_ts {c : Ctl n} {ab : Bool} (h : (c.publish ab).2 = 0) :
    (c.publish ab).1.ts = (c.commit ab).1.ts := by
  rw [commit_eq, if_pos h]
  exact (settle_ts _).symm

/-- The control functions but the commit do not touch the tables. -/
theorem exec_ts (c : Ctl n) {op : CtlOp} (h : ∀ ab, op ≠ .commit ab) : (op.exec c).1.ts = c.ts := by
  cases op with
  | entryAdd tableName entry =>
    unfold CtlOp.exec Ctl.tableEntryAdd
    dsimp only
    split
    · rfl
    · split
      · rfl
      · rfl
  | entryDelete tableName entry =>
    unfold CtlOp.exec Ctl.tableEntryDelete
    dsimp only
    split
    · rfl
    · split
      · rfl
      · rfl
  | defaultEntryAdd tableName entry =>
    unfold CtlOp.exec Ctl.tableDefaultEntryAdd
    dsimp only
    split
    · rfl
    · split
      · rfl
      · split
        · rfl
        · rfl
  | commit ab => exact absurd rfl (h ab)
  | abort =>
    unfold CtlOp.exec Ctl.abort
    refine foldl_ts (fun c i => ?_) _ c
    rfl

/-! ## A default action that is constant -/

/-- The default action of a table is the one it was created with, and none is to come. -/
def KeepsDefault (su : Setup n) (m : Fin n → TableTxn) (i : Fin n) : Prop :=
  (m i).dflt = su.dflt i ∧ (m i).pendingDflt = none

section
variable {m : Fin n → TableTxn} {i : Fin n} (hd : KeepsDefault su m i)
include hd

theorem KeepsDefault.update {j : Fin n} {x : TableTxn}
    (hx : j = i → x.dflt = (m j).dflt ∧ x.pendingDflt = (m j).pendingDflt) :
    KeepsDefault su (Function.update m j x) i := by
  unfold KeepsDefault
  by_cases hj : i = j
  · subst hj
    rw [Function.update_self, (hx rfl).1, (hx rfl).2]
    exact hd
  · rw [Function.update_of_ne hj]
    exact hd

theorem KeepsDefault.commit (dataSize : UInt64 → UInt32) :
    KeepsDefault su (fun i => (m i).commit dataSize) i := by
  unfold KeepsDefault TableTxn.commit
  dsimp only
  rw [hd.2]
  exact ⟨hd.1, rfl⟩

end

theorem Agrees.keepsDefault {s : Ctl n × (Fin n → TableTxn)} (h : Agrees su s) {i : Fin n}
    (hconst : su.defaultActionIsConst i = true) (hd : KeepsDefault su s.2 i) (op : CtlOp) :
    KeepsDefault su (su.step s op).2 i := by
  obtain ⟨c, m⟩ := s
  unfold Setup.step Setup.apply
  dsimp only at hd ⊢
  cases op with
  | entryAdd tableName entry =>
    dsimp only
    cases su.find tableName with
    | none => exact hd
    | some j =>
      dsimp only
      split
      · exact hd.update fun _ => ⟨rfl, rfl⟩
      · exact hd
  | entryDelete tableName entry =>
    dsimp only
    cases su.find tableName with
    | none => exact hd
    | some j =>
      dsimp only
      split
      · exact hd.update fun _ => ⟨rfl, rfl⟩
      · exact hd
  | defaultEntryAdd tableName entry =>
    dsimp only
    cases hf : su.find tableName with
    | none => exact hd
    | some j =>
      dsimp only
      split
      · rename_i hok
        refine hd.update fun hj => ?_
        -- refused
        subst hj
        have hc : (c.tables j).defaultActionIsConst = true :=
          (congrArg Fixed.defaultActionIsConst (h.synced j).fixed).trans hconst
        have hfind := (h.find tableName).trans hf
        simp [CtlOp.exec, Ctl.tableDefaultEntryAdd, hfind, hc, EINVAL] at hok
      · exact hd
  | commit ab =>
    dsimp only
    split
    · exact hd.commit _
    · split
      · exact ⟨hd.1, rfl⟩
      · exact hd
  | abort => exact ⟨hd.1, rfl⟩

end P4Switch.Control
