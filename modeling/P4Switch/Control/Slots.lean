import P4Switch.Lib.Pointwise
import P4Switch.Control.OneTable

/-! # Table by table

The loops of a commit treat the tables one after the other and each by itself: what a
commit does to a table, in terms of that table alone. -/
namespace P4Switch.Control
open P4Switch.Lib.Words P4Switch.Lib.BucketChains P4Switch.Lib.Pointwise P4Switch.Tables

/-- A table with its two states. -/
structure Slot where
  table : CtlTable
  cur : TableState
  next : TableState

namespace Slot

def rollfwd0 (s : Slot) : Slot × Int :=
  (⟨(s.table.rollfwd0 s.next.obj).1, s.cur,
    { s.next with obj := (s.table.rollfwd0 s.next.obj).2.1 }⟩, (s.table.rollfwd0 s.next.obj).2.2)

def rollfwd1 (dataSize : UInt64 → UInt32) (s : Slot) : Slot :=
  { s with next := s.table.rollfwd1 dataSize s.next }

def rollfwd2 (s : Slot) : Slot := { s with table := s.table.rollfwd2 }

def rollback (s : Slot) : Slot :=
  ⟨(s.table.rollback s.next.obj).1, s.cur,
    { s.next with obj := (s.table.rollback s.next.obj).2 }⟩

def abort (s : Slot) : Slot := { s with table := s.table.abort }

def swap (s : Slot) : Slot := ⟨s.table, s.next, s.cur⟩

/-- The passes of a commit that succeeds. -/
def committed (dataSize : UInt64 → UInt32) (s : Slot) : Slot :=
  ((s.rollfwd0.1.rollfwd1 dataSize).swap.rollfwd0.1.rollfwd1 dataSize).rollfwd2

end Slot

variable {n : Nat} {dataSize : UInt64 → UInt32}

def Ctl.slot (c : Ctl n) (i : Fin n) : Slot := ⟨c.tables i, c.ts i, c.tsNext i⟩

/-! ## Steps -/

/-- The sizes of the action data never change. -/
def SameActions (dataSize : UInt64 → UInt32) (c : Ctl n) : Prop := c.actionDataSize = dataSize

theorem slot_update (c : Ctl n) (i j : Fin n) (t : CtlTable) (s : TableState) :
    ({ c with tables := Function.update c.tables i t
              tsNext := Function.update c.tsNext i s } : Ctl n).slot j =
      if j = i then ⟨t, c.ts i, s⟩ else c.slot j := by
  unfold Ctl.slot
  by_cases h : j = i
  · subst h
    simp
  · simp [h]

theorem slot_setTable (c : Ctl n) (i j : Fin n) (t : CtlTable) :
    (c.setTable i t).slot j = if j = i then { c.slot i with table := t } else c.slot j := by
  unfold Ctl.slot Ctl.setTable
  by_cases h : j = i
  · subst h
    simp
  · simp [h]

/-- A step that rewrites the slot `i` by `g`. -/
theorem local_of_slot {step : Ctl n → Fin n → Ctl n} {g : Slot → Slot}
    (hkeep : ∀ c i, (step c i).actionDataSize = c.actionDataSize)
    (h : ∀ c i j, SameActions dataSize c →
      (step c i).slot j = if j = i then g (c.slot i) else c.slot j) :
    Local Ctl.slot (SameActions dataSize) step (fun _ => g) where
  keeps := fun c i hc => (hkeep c i).trans hc
  same := fun c i hc => by rw [h c i i hc, if_pos rfl]
  other := fun c i j hc hne => by rw [h c i j hc, if_neg hne]

theorem local_rollfwd0 : Local Ctl.slot (SameActions dataSize)
    (fun (c : Ctl n) i => (c.rollfwd0 i).1) (fun _ s => s.rollfwd0.1) :=
  local_of_slot (fun _ _ => rfl) fun c i j _ => slot_update c i j _ _

theorem local_rollfwd1 : Local Ctl.slot (SameActions dataSize)
    (Ctl.rollfwd1 (n := n)) (fun _ s => s.rollfwd1 dataSize) := by
  refine local_of_slot (fun _ _ => rfl) fun c i j hc => ?_
  unfold SameActions at hc
  unfold Ctl.rollfwd1 Ctl.slot Slot.rollfwd1
  rw [hc]
  by_cases h : j = i
  · subst h
    simp
  · simp [h]

theorem local_tableAbort : Local Ctl.slot (SameActions dataSize)
    (Ctl.tableAbort (n := n)) (fun _ => Slot.abort) :=
  local_of_slot (fun _ _ => rfl) fun c i j _ => slot_setTable c i j _

theorem local_rollback : Local Ctl.slot (SameActions dataSize)
    (Ctl.rollback (n := n)) (fun _ => Slot.rollback) :=
  local_of_slot (fun _ _ => rfl) fun c i j _ => slot_update c i j _ _

theorem local_rollfwd2 : Local Ctl.slot (SameActions dataSize)
    (Ctl.rollfwd2 (n := n)) (fun _ => Slot.rollfwd2) :=
  local_of_slot (fun _ _ => rfl) fun c i j _ => slot_setTable c i j _

/-- The three stages on one table after the swap. -/
theorem local_stages : Local Ctl.slot (SameActions dataSize)
    (fun (c : Ctl n) i => ((c.rollfwd0 i).1.rollfwd1 i).rollfwd2 i)
    (fun _ s => (s.rollfwd0.1.rollfwd1 dataSize).rollfwd2) :=
  (local_rollfwd0.comp local_rollfwd1).comp local_rollfwd2

theorem local_rollbackAbort : Local Ctl.slot (SameActions dataSize)
    (fun (c : Ctl n) i => (c.rollback i).tableAbort i) (fun _ s => s.rollback.abort) :=
  local_rollback.comp local_tableAbort

/-! ## The loop that can fail -/

/-- The tables up to the first error. -/
theorem rollfwd0Loop_cases (c : Ctl n) {l : List (Fin n)} (hn : l.Nodup) :
    ((∀ i ∈ l, (c.slot i).rollfwd0.2 = 0) ∧
      c.rollfwd0Loop l = (l.foldl (fun c i => (c.rollfwd0 i).1) c, 0)) ∨
    ∃ l₁ i l₂, l = l₁ ++ i :: l₂ ∧ (∀ j ∈ l₁, (c.slot j).rollfwd0.2 = 0) ∧
      (c.slot i).rollfwd0.2 ≠ 0 ∧
      c.rollfwd0Loop l =
        ((l₁ ++ [i]).foldl (fun c i => (c.rollfwd0 i).1) c, (c.slot i).rollfwd0.2) := by
  induction l generalizing c with
  | nil => exact Or.inl ⟨fun i hi => absurd hi List.not_mem_nil, rfl⟩
  | cons i l ih =>
    obtain ⟨hi, hn⟩ := List.nodup_cons.mp hn
    by_cases hst : (c.rollfwd0 i).2 = 0
    · have hloop : c.rollfwd0Loop (i :: l) = (c.rollfwd0 i).1.rollfwd0Loop l := by
        rw [Ctl.rollfwd0Loop, if_neg (not_not_intro hst)]
      have hslot : ∀ j ∈ l, ((c.rollfwd0 i).1).slot j = c.slot j := fun j hj =>
        local_rollfwd0.other c i j rfl (ne_of_mem_of_not_mem hj hi)
      rw [hloop]
      rcases ih (c.rollfwd0 i).1 hn with ⟨hall, hrun⟩ | ⟨l₁, k, l₂, rfl, hall, hk, hrun⟩
      · refine Or.inl ⟨fun j hj => ?_, hrun⟩
        rcases List.mem_cons.mp hj with rfl | hj
        · exact hst
        · rw [← hslot j hj]
          exact hall j hj
      · rw [hslot k (by simp)] at hk hrun
        refine Or.inr ⟨i :: l₁, k, l₂, rfl, fun j hj => ?_, hk, hrun⟩
        rcases List.mem_cons.mp hj with rfl | hj
        · exact hst
        · rw [← hslot j (List.mem_append_left _ hj)]
          exact hall j hj
    · refine Or.inr ⟨[], i, l, rfl, fun j hj => absurd hj List.not_mem_nil, hst, ?_⟩
      rw [Ctl.rollfwd0Loop, if_pos hst]
      rfl

/-! ## The commit -/

/-- What becomes of a table when the commit fails. -/
def Slot.rolledBack (s : Slot) (abortOnFail : Bool) : Slot :=
  if abortOnFail then s.rollback.abort else s.rollback

/-- A commit succeeds on all tables, or fails and rolls all of them back: those before the
failing one and itself after their pass, the others as they were. -/
theorem commit_cases (c : Ctl n) (abortOnFail : Bool) :
    ((∀ i, (c.slot i).rollfwd0.2 = 0) ∧ (c.commit abortOnFail).2 = 0 ∧
      ∀ i, (c.commit abortOnFail).1.slot i = (c.slot i).committed c.actionDataSize) ∨
    ∃ i, (∀ j < i, (c.slot j).rollfwd0.2 = 0) ∧ (c.slot i).rollfwd0.2 ≠ 0 ∧
      (c.commit abortOnFail).2 = (c.slot i).rollfwd0.2 ∧
      (∀ j ≤ i, (c.commit abortOnFail).1.slot j = (c.slot j).rollfwd0.1.rolledBack abortOnFail) ∧
      ∀ j > i, (c.commit abortOnFail).1.slot j = (c.slot j).rolledBack abortOnFail := by
  have hds : SameActions c.actionDataSize c := rfl
  rcases rollfwd0Loop_cases c (List.nodup_finRange n) with
    ⟨hall, hrun⟩ | ⟨l₁, i, l₂, hl, hall, hi, hrun⟩
  · left
    have hcommit : c.commit abortOnFail =
        ((List.finRange n).foldl (fun c i => ((c.rollfwd0 i).1.rollfwd1 i).rollfwd2 i)
          (let c₁ := (List.finRange n).foldl Ctl.rollfwd1
            ((List.finRange n).foldl (fun c i => (c.rollfwd0 i).1) c)
           { c₁ with ts := c₁.tsNext, tsNext := c₁.ts }), 0) := by
      unfold Ctl.commit
      rw [hrun]
      rfl
    have hds₁ := local_rollfwd0.foldl_keeps (List.finRange n) hds
    have hds₂ := local_rollfwd1.foldl_keeps (List.finRange n) hds₁
    have hfirst := fun i => (local_rollfwd1.foldl_finRange hds₁ i).trans
      (congrArg _ (local_rollfwd0.foldl_finRange hds i))
    refine ⟨fun i => hall i (List.mem_finRange i), by rw [hcommit], fun i => ?_⟩
    rw [hcommit]
    have hstages : Local Ctl.slot (SameActions c.actionDataSize)
        (fun (c : Ctl n) i => ((c.rollfwd0 i).1.rollfwd1 i).rollfwd2 i)
        (fun _ s => (s.rollfwd0.1.rollfwd1 c.actionDataSize).rollfwd2) := local_stages
    have hswap := congrArg Slot.swap (hfirst i)
    refine (hstages.foldl_finRange ?_ i).trans ?_
    · exact hds₂
    · exact congrArg (fun s => (s.rollfwd0.1.rollfwd1 c.actionDataSize).rollfwd2) hswap
  · right
    have hsorted : (l₁ ++ i :: l₂).Pairwise (· < ·) := hl ▸ List.pairwise_lt_finRange n
    have hlt : ∀ j, j ∈ l₁ ↔ j < i := fun j => by
      obtain ⟨-, hright, hleft⟩ := List.pairwise_append.mp hsorted
      constructor
      · exact fun hj => hleft j hj i List.mem_cons_self
      · intro hj
        have hmem : j ∈ l₁ ++ i :: l₂ := hl ▸ List.mem_finRange j
        rcases List.mem_append.mp hmem with hmem | hmem
        · exact hmem
        · rcases List.mem_cons.mp hmem with rfl | hmem
          · exact absurd hj (lt_irrefl j)
          · exact absurd ((List.pairwise_cons.mp hright).1 j hmem) (lt_asymm hj)
    have hle : ∀ j, j ∈ l₁ ++ [i] ↔ j ≤ i := fun j => by
      rw [List.mem_append, List.mem_singleton, hlt, le_iff_lt_or_eq]
    have hnd : (l₁ ++ [i]).Nodup := by
      have := hsorted.nodup
      rw [List.append_cons] at this
      exact (List.nodup_append.mp this).1
    have hcommit : c.commit abortOnFail = ((List.finRange n).foldl
        (fun c i => if abortOnFail then (c.rollback i).tableAbort i else c.rollback i)
        ((l₁ ++ [i]).foldl (fun c i => (c.rollfwd0 i).1) c), (c.slot i).rollfwd0.2) := by
      unfold Ctl.commit
      rw [hrun]
      dsimp only
      rw [if_pos hi]
    have hds₁ := local_rollfwd0.foldl_keeps (l₁ ++ [i]) hds
    have hback : ∀ j, (c.commit abortOnFail).1.slot j =
        (((l₁ ++ [i]).foldl (fun c i => (c.rollfwd0 i).1) c).slot j).rolledBack abortOnFail := by
      intro j
      rw [hcommit]
      cases abortOnFail with
      | true => exact local_rollbackAbort.foldl_finRange hds₁ j
      | false => exact local_rollback.foldl_finRange hds₁ j
    refine ⟨i, fun j hj => hall j ((hlt j).mpr hj), hi, by rw [hcommit], fun j hj => ?_,
      fun j hj => ?_⟩
    · rw [hback, local_rollfwd0.foldl_mem hnd ((hle j).mpr hj) hds]
    · rw [hback, local_rollfwd0.foldl_other (fun hm => absurd ((hle j).mp hm) (not_le.mpr hj)) hds]

theorem commit_actions (c : Ctl n) (abortOnFail : Bool) :
    SameActions c.actionDataSize (c.commit abortOnFail).1 := by
  have hds : SameActions c.actionDataSize c := rfl
  have hloop : SameActions c.actionDataSize (c.rollfwd0Loop (List.finRange n)).1 := by
    rcases rollfwd0Loop_cases c (List.nodup_finRange n) with ⟨-, hrun⟩ | ⟨l₁, i, l₂, -, -, -, hrun⟩
    · rw [hrun]
      exact local_rollfwd0.foldl_keeps _ hds
    · rw [hrun]
      exact local_rollfwd0.foldl_keeps _ hds
  unfold Ctl.commit
  dsimp only
  split
  · cases abortOnFail with
    | true => exact local_rollbackAbort.foldl_keeps _ hloop
    | false => exact local_rollback.foldl_keeps _ hloop
  · exact local_stages.foldl_keeps _ (local_rollfwd1.foldl_keeps _ hloop)

theorem abort_actions (c : Ctl n) : SameActions c.actionDataSize c.abort :=
  local_tableAbort.foldl_keeps _ rfl

theorem abort_slot (c : Ctl n) (i : Fin n) : c.abort.slot i = (c.slot i).abort := by
  have habort : Local Ctl.slot (SameActions c.actionDataSize) (Ctl.tableAbort (n := n))
      (fun _ => Slot.abort) := local_tableAbort
  exact habort.foldl_finRange rfl i

end P4Switch.Control
