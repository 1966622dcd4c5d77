import P4Switch.Lib.GuardedRun
import P4Switch.Control.Slots

/-! # Transactions on maps

Over any run of the control functions the data plane shows the committed map of every
table, with its default action, and the pending lists the map that a commit will make of
it. A commit that fails leaves all tables as they were. -/
namespace P4Switch.Control
open P4Switch.Lib.Words P4Switch.Lib.BucketChains P4Switch.Lib.GuardedRun P4Switch.Tables

/-! ## The abstract tables -/

/-- A table as its users think of it. -/
structure TableTxn where
  map : Txn (List UInt64) Value
  dflt : UInt64 × Bytes
  pendingDflt : Option TableEntry

/-- The default action once the pending one takes its place. -/
def newDefault (dataSize : UInt64 → UInt32) (dflt : UInt64 × Bytes) :
    Option TableEntry → UInt64 × Bytes
  | none => dflt
  | some e => (e.actionId, fun j =>
      if j < (dataSize e.actionId).toNat then e.actionData.getD (fun _ => 0) j else dflt.2 j)

def TableTxn.commit (dataSize : UInt64 → UInt32) (m : TableTxn) : TableTxn :=
  ⟨m.map.commit, newDefault dataSize m.dflt m.pendingDflt, none⟩

def TableTxn.abort (m : TableTxn) : TableTxn := ⟨m.map.abort, m.dflt, none⟩

def TableState.dflt (s : TableState) : UInt64 × Bytes := (s.defaultActionId, s.defaultActionData)

/-- Every entry passed the check of its key mask. -/
def AllMasks (p : TableParams) (es : List TableEntry) : Prop :=
  ∀ e ∈ es, tableEntryKeyCheckEm p e = 0

/-- What no control function writes. -/
structure Fixed where
  name : String
  actions : List TableActionInfo
  defaultActionIsConst : Bool

def CtlTable.fixed (t : CtlTable) : Fixed := ⟨t.name, t.actions, t.defaultActionIsConst⟩

/-- Both copies show the committed map, in the same layout. -/
structure Synced (dataSize : UInt64 → UInt32) (fx : Fixed) (p : TableParams) (s : Slot)
    (m : TableTxn) : Prop where
  fixed : s.table.fixed = fx
  params : s.table.params = p
  cur : ShowsCommitted p s.table m.map s.cur.obj
  next : IsTable p s.next.obj
  copy : s.next.obj.store = s.cur.obj.store
  masks : AllMasks p s.table.all
  curDflt : s.cur.dflt = m.dflt
  nextDflt : s.next.dflt = m.dflt
  pendingDflt : ∀ d, newDefault dataSize d s.table.pendingDefault =
    newDefault dataSize d m.pendingDflt

variable {dataSize : UInt64 → UInt32} {fx : Fixed} {p : TableParams} {s : Slot} {m : TableTxn}

theorem rollfwd1_dflt (dataSize : UInt64 → UInt32) (t : CtlTable) (s : TableState) :
    (t.rollfwd1 dataSize s).dflt = newDefault dataSize s.dflt t.pendingDefault ∧
      (t.rollfwd1 dataSize s).obj = s.obj := by
  unfold CtlTable.rollfwd1
  cases t.pendingDefault with
  | none => exact ⟨rfl, rfl⟩
  | some e => exact ⟨rfl, rfl⟩

theorem all_rollfwd2 (t : CtlTable) : ∀ e ∈ t.rollfwd2.all, e ∈ t.all := by
  intro e he
  simp only [CtlTable.all, CtlTable.rollfwd2, List.append_nil, List.mem_append] at he ⊢
  grind

theorem all_abort (t : CtlTable) : ∀ e ∈ t.abort.all, e ∈ t.all := by
  intro e he
  simp only [CtlTable.all, CtlTable.abort, List.append_nil, List.mem_append] at he ⊢
  grind

theorem ShowsCommitted.counted {t : CtlTable} {m : Txn (List UInt64) Value} {obj : Table}
    (h : ShowsCommitted p t m obj) (a b d : Nat) : ShowsCommitted p (t.counted a b d) m obj :=
  ⟨h.table, h.tracks.counters a b d, h.data, h.shows⟩

namespace Synced
variable (h : Synced dataSize fx p s m)
include h

theorem nextShows : ShowsCommitted p s.table m.map s.next.obj :=
  ⟨h.next, h.cur.tracks, h.cur.data, fun ws => by rw [h.copy, h.cur.shows]⟩

/-- A pass that succeeds on the next copy succeeds on the current one too, and both end with
the map to come. -/
theorem committed (hok : s.rollfwd0.2 = 0) :
    Synced dataSize fx p (s.committed dataSize) (m.commit dataSize) := by
  rcases rollfwd0_cases h.nextShows with hr | hf
  · obtain ⟨a, b, d, obj₁, hrun₁, -, ht₁, hst₁⟩ := hr.result
    have hcur := h.cur.counted a b d
    rcases rollfwd0_cases hcur with hr₂ | hf₂
    · obtain ⟨a₂, b₂, d₂, obj₂, hrun₂, -, ht₂, hst₂⟩ := hr₂.result
      obtain ⟨hd₁, ho₁⟩ := rollfwd1_dflt dataSize (s.table.counted a b d)
        { s.next with obj := obj₁ }
      obtain ⟨hd₂, ho₂⟩ := rollfwd1_dflt dataSize
        ((s.table.counted a b d).counted a₂ b₂ d₂) { s.cur with obj := obj₂ }
      have hslot : s.committed dataSize =
          ⟨((s.table.counted a b d).counted a₂ b₂ d₂).rollfwd2,
            (s.table.counted a b d).rollfwd1 dataSize { s.next with obj := obj₁ },
            ((s.table.counted a b d).counted a₂ b₂ d₂).rollfwd1 dataSize
              { s.cur with obj := obj₂ }⟩ := by
        simp only [Slot.committed, Slot.rollfwd0, Slot.rollfwd1, Slot.swap, Slot.rollfwd2, hrun₁,
          hrun₂]
      have hpending := h.pendingDflt m.dflt
      rw [hslot]
      constructor
      case fixed => exact h.fixed
      case params => exact h.params
      case cur =>
        dsimp only
        rw [ho₁]
        refine ⟨ht₁, ((h.cur.tracks.counters a b d).counters a₂ b₂ d₂).rollfwd2, ?_, fun ws => ?_⟩
        · exact fun e he => h.cur.data e (all_rollfwd2 _ e he)
        · rw [hst₁]
          exact get_pendingStore h.nextShows hr.accepts ws
      case next =>
        dsimp only
        rw [ho₂]
        exact ht₂
      case copy =>
        dsimp only
        rw [ho₁, ho₂, hst₁, hst₂, h.copy]
        rfl
      case masks => exact fun e he => h.masks e (all_rollfwd2 _ e he)
      case curDflt =>
        refine hd₁.trans (Eq.trans ?_ hpending)
        exact congrArg (newDefault dataSize · s.table.pendingDefault) h.nextDflt
      case nextDflt =>
        refine hd₂.trans (Eq.trans ?_ hpending)
        exact congrArg (newDefault dataSize · s.table.pendingDefault) h.curDflt
      case pendingDflt => exact fun _ => rfl
    · refine absurd hr.accepts ?_
      rw [h.copy]
      exact hf₂.refuses
  · obtain ⟨k, obj', hrun, -⟩ := hf.result
    have hstatus : s.rollfwd0.2 = -ENOSPC := by
      simp only [Slot.rollfwd0, hrun]
    rw [hstatus] at hok
    exact absurd hok (by decide)

/-- The pending work is dropped. -/
theorem abort : Synced dataSize fx p s.abort m.abort where
  fixed := h.fixed
  params := h.params
  cur := ⟨h.cur.table, h.cur.tracks.abort, fun e he => h.cur.data e (all_abort _ e he),
    h.cur.shows⟩
  next := h.next
  copy := h.copy
  masks := fun e he => h.masks e (all_abort _ e he)
  curDflt := h.curDflt
  nextDflt := h.nextDflt
  pendingDflt := fun _ => rfl

/-- A table whose next copy was restored. -/
theorem restored (s' : Slot) (hcur : s'.cur = s.cur) (hdflt : s'.next.dflt = s.next.dflt)
    (hr : RollsBack p s.table s.next.obj.store (s'.table.rollback s'.next.obj)) (ab : Bool) :
    Synced dataSize fx p (s'.rolledBack ab) (if ab then m.abort else m) := by
  obtain ⟨a, b, d, htable, ht, hst⟩ := hr
  have hback : Synced dataSize fx p s'.rollback m := by
    constructor
    case fixed =>
      simp only [Slot.rollback, htable]
      exact h.fixed
    case params =>
      simp only [Slot.rollback, htable]
      exact h.params
    case cur =>
      simp only [Slot.rollback, htable, hcur]
      exact h.cur.counted a b d
    case next => exact ht
    case copy =>
      simp only [Slot.rollback, hcur]
      rw [hst, h.copy]
    case masks =>
      simp only [Slot.rollback, htable]
      exact h.masks
    case curDflt =>
      simp only [Slot.rollback, hcur]
      exact h.curDflt
    case nextDflt => exact hdflt.trans h.nextDflt
    case pendingDflt =>
      simp only [Slot.rollback, htable]
      exact h.pendingDflt
  cases ab with
  | true => exact hback.abort
  | false => exact hback

theorem untouched (ab : Bool) :
    Synced dataSize fx p (s.rolledBack ab) (if ab then m.abort else m) :=
  h.restored s rfl rfl (rollsBack_untouched h.nextShows) ab

theorem failed (hstatus : s.rollfwd0.2 ≠ 0) (ab : Bool) :
    Synced dataSize fx p (s.rollfwd0.1.rolledBack ab) (if ab then m.abort else m) := by
  rcases rollfwd0_cases h.nextShows with hr | hf
  · obtain ⟨a, b, d, obj', hrun, -⟩ := hr.result
    refine absurd ?_ hstatus
    simp only [Slot.rollfwd0, hrun]
  · exact h.restored s.rollfwd0.1 rfl rfl (rollsBack_failed h.nextShows hf) ab

theorem before (hstatus : s.rollfwd0.2 = 0) (hD : s.table.pendingDelete = []) (ab : Bool) :
    Synced dataSize fx p (s.rollfwd0.1.rolledBack ab) (if ab then m.abort else m) := by
  rcases rollfwd0_cases h.nextShows with hr | hf
  · exact h.restored s.rollfwd0.1 rfl rfl (rollsBack_done h.nextShows hr hD) ab
  · obtain ⟨k, obj', hrun, -⟩ := hf.result
    have hne : s.rollfwd0.2 = -ENOSPC := by
      simp only [Slot.rollfwd0, hrun]
    rw [hne] at hstatus
    exact absurd hstatus (by decide)

end Synced

end P4Switch.Control
