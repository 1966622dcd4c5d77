import P4Switch.Control.Runs
import P4Switch.Tables.KeyMap

/-! # What the data plane sees

The control plane and the maps it stands for, kept together by every call. -/
namespace P4Switch.Control
open P4Switch.Lib.Words P4Switch.Lib.BucketChains P4Switch.Lib.GuardedRun P4Switch.Tables

variable {n : Nat} {su : Setup n}

/-! ## The entry functions -/

namespace Synced
variable {dataSize : UInt64 → UInt32} {fx : Fixed} {p : TableParams} {s : Slot} {m : TableTxn}
  {entry : TableEntry} (h : Synced dataSize fx p s m)
include h

theorem tests (hk : tableEntryKeyCheckEm p entry = 0) :
    Tests (keyOf p) s.table entry (p.words entry.key) := by
  intro e he
  have hwords := keycmp_words h.next.config hk (h.masks e he)
  unfold CtlTable.sameKey
  rw [h.params]
  exact decide_eq_decide.mpr hwords

theorem entryAdd (hk : tableEntryKeyCheckEm p entry = 0) :
    Synced dataSize fx p
      { s with table := s.table.entryAdd entry (tableEntryDuplicate dataSize s.table entry true) }
      { m with map := m.map.put (p.words entry.key) (argsOf dataSize p entry) } := by
  have hp := h.params
  have hc : Config s.table.params s.next.obj := by
    rw [hp]
    exact h.next.config
  obtain ⟨hkey, hval⟩ := duplicate_entry dataSize hc entry
  have hmask : tableEntryKeyCheckEm s.table.params entry = 0 := by
    rw [hp]
    exact hk
  have hdupmask := duplicate_mask dataSize hmask
  rw [hp] at hkey hval hdupmask
  obtain ⟨hfixed, hparams, hpending⟩ := entryAdd_fixed s.table entry
    (tableEntryDuplicate dataSize s.table entry true)
  have htracks := h.cur.tracks.entryAdd (h.tests hk) hkey
  rw [hval] at htracks
  constructor
  case fixed => exact hfixed.trans h.fixed
  case params => exact hparams.trans hp
  case cur =>
    refine ⟨h.cur.table, htracks, fun e he => ?_, h.cur.shows⟩
    rcases all_entryAdd e he with rfl | he
    · exact Option.some_ne_none _
    · exact h.cur.data e he
  case next => exact h.next
  case copy => exact h.copy
  case masks =>
    intro e he
    rcases all_entryAdd e he with rfl | he
    · exact hdupmask
    · exact h.masks e he
  case curDflt => exact h.curDflt
  case nextDflt => exact h.nextDflt
  case pendingDflt =>
    intro d
    dsimp only
    rw [hpending]
    exact h.pendingDflt d

theorem entryDelete (hk : tableEntryKeyCheckEm p entry = 0) :
    (s.table.entryDelete entry).2 = 0 ∧
      Synced dataSize fx p { s with table := (s.table.entryDelete entry).1 }
        { m with map := m.map.remove (p.words entry.key) } := by
  obtain ⟨hfixed, hparams, hpending⟩ := entryDelete_fixed s.table entry
  obtain ⟨hstatus, htracks⟩ := h.cur.tracks.entryDelete (h.tests hk)
  refine ⟨hstatus, ?_⟩
  constructor
  case fixed => exact hfixed.trans h.fixed
  case params => exact hparams.trans h.params
  case cur => exact ⟨h.cur.table, htracks, fun e he => h.cur.data e (all_entryDelete e he), h.cur.shows⟩
  case next => exact h.next
  case copy => exact h.copy
  case masks => exact fun e he => h.masks e (all_entryDelete e he)
  case curDflt => exact h.curDflt
  case nextDflt => exact h.nextDflt
  case pendingDflt =>
    intro d
    dsimp only
    rw [hpending]
    exact h.pendingDflt d

theorem defaultEntryAdd (entry : TableEntry) :
    Synced dataSize fx p
      { s with table := { s.table with
          pendingDefault := some (tableEntryDuplicate dataSize s.table entry false) } }
      { m with pendingDflt := some entry } := by
  constructor
  case fixed => exact h.fixed
  case params => exact h.params
  case cur =>
    refine ⟨h.cur.table, ?_, h.cur.data, h.cur.shows⟩
    exact ⟨h.cur.tracks.nodup, h.cur.tracks.modify, h.cur.tracks.committed, h.cur.tracks.pending⟩
  case next => exact h.next
  case copy => exact h.copy
  case masks => exact h.masks
  case curDflt => exact h.curDflt
  case nextDflt => exact h.nextDflt
  case pendingDflt =>
    intro d
    refine Prod.ext rfl (funext fun j => ?_)
    by_cases hj : j < (dataSize entry.actionId).toNat
    · simp [newDefault, tableEntryDuplicate, copyBytes, hj]
    · simp [newDefault, tableEntryDuplicate, hj]

end Synced

/-! ## One call -/

/-- The control plane and the maps stand for each other. -/
structure Agrees (su : Setup n) (s : Ctl n × (Fin n → TableTxn)) : Prop where
  actions : s.1.actionDataSize = su.actionDataSize
  synced : ∀ i, Synced su.actionDataSize (su.fixed i) (su.params i) (s.1.slot i) (s.2 i)

namespace Agrees
variable {c : Ctl n} {m : Fin n → TableTxn} (h : Agrees su (c, m))
include h

theorem find (tableName : String) : c.tableFind tableName = su.find tableName := by
  unfold Ctl.tableFind Setup.find
  congr 1
  funext i
  have hname := congrArg Fixed.name (h.synced i).fixed
  exact congrArg (fun nm => decide (tableName = nm)) hname

/-- One table changes. -/
theorem setTable {i : Fin n} {t : CtlTable} {mi : TableTxn}
    (hi : Synced su.actionDataSize (su.fixed i) (su.params i) { c.slot i with table := t } mi) :
    Agrees su (c.setTable i t, Function.update m i mi) := by
  refine ⟨h.actions, fun j => ?_⟩
  dsimp only
  rw [slot_setTable]
  by_cases hj : j = i
  · subst hj
    rw [if_pos rfl, Function.update_self]
    exact hi
  · rw [if_neg hj, Function.update_of_ne hj]
    exact h.synced j

/-- A call that is refused changes nothing. -/
theorem refused (op : CtlOp) (hex : op.exec c = (c, -EINVAL)) (hop : ∀ ab, op ≠ .commit ab)
    (hab : op ≠ .abort) : Agrees su (su.step (c, m) op) := by
  have happly : su.apply m op (-EINVAL) = m := by
    cases op with
    | entryAdd tableName entry => cases hf : su.find tableName <;> simp [Setup.apply, hf, EINVAL]
    | entryDelete tableName entry =>
      cases hf : su.find tableName <;> simp [Setup.apply, hf, EINVAL]
    | defaultEntryAdd tableName entry =>
      cases hf : su.find tableName <;> simp [Setup.apply, hf, EINVAL]
    | commit ab => exact absurd rfl (hop ab)
    | abort => exact absurd rfl hab
  unfold Setup.step
  dsimp only
  rw [hex, happly]
  exact h

theorem entryAdd (tableName : String) (entry : TableEntry) :
    Agrees su (su.step (c, m) (.entryAdd tableName entry)) := by
  have hfind := h.find tableName
  cases hf : su.find tableName with
  | none =>
    rw [hf] at hfind
    refine h.refused _ ?_ (fun ab => by simp) (by simp)
    simp [CtlOp.exec, Ctl.tableEntryAdd, hfind]
  | some i =>
    rw [hf] at hfind
    have hi := h.synced i
    have hparams : (c.tables i).params = su.params i := hi.params
    by_cases hcheck : tableEntryCheck c.actionDataSize (c.tables i) entry true true = 0
    · have hex : CtlOp.exec c (.entryAdd tableName entry) =
          (c.setTable i ((c.tables i).entryAdd entry
            (tableEntryDuplicate su.actionDataSize (c.tables i) entry true)), 0) := by
        rw [← h.actions]
        simp [CtlOp.exec, Ctl.tableEntryAdd, hfind, hcheck]
      have hmask := check_mask rfl hcheck
      rw [hparams] at hmask
      unfold Setup.step
      dsimp only
      rw [hex]
      simp only [Setup.apply, hf, if_true]
      exact h.setTable (hi.entryAdd hmask)
    · refine h.refused _ ?_ (fun ab => by simp) (by simp)
      simp [CtlOp.exec, Ctl.tableEntryAdd, hfind, hcheck]

theorem entryDelete (tableName : String) (entry : TableEntry) :
    Agrees su (su.step (c, m) (.entryDelete tableName entry)) := by
  have hfind := h.find tableName
  cases hf : su.find tableName with
  | none =>
    rw [hf] at hfind
    refine h.refused _ ?_ (fun ab => by simp) (by simp)
    simp [CtlOp.exec, Ctl.tableEntryDelete, hfind]
  | some i =>
    rw [hf] at hfind
    have hi := h.synced i
    have hparams : (c.tables i).params = su.params i := hi.params
    by_cases hcheck : tableEntryCheck c.actionDataSize (c.tables i) entry true false = 0
    · have hmask := check_mask rfl hcheck
      rw [hparams] at hmask
      obtain ⟨hstatus, hdel⟩ := hi.entryDelete hmask
      have hstatus : ((c.tables i).entryDelete entry).2 = 0 := hstatus
      have hex : CtlOp.exec c (.entryDelete tableName entry) =
          (c.setTable i ((c.tables i).entryDelete entry).1, 0) := by
        simp [CtlOp.exec, Ctl.tableEntryDelete, hfind, hcheck, hstatus]
      unfold Setup.step
      dsimp only
      rw [hex]
      simp only [Setup.apply, hf, if_true]
      exact h.setTable hdel
    · refine h.refused _ ?_ (fun ab => by simp) (by simp)
      simp [CtlOp.exec, Ctl.tableEntryDelete, hfind, hcheck]

theorem defaultEntryAdd (tableName : String) (entry : TableEntry) :
    Agrees su (su.step (c, m) (.defaultEntryAdd tableName entry)) := by
  have hfind := h.find tableName
  cases hf : su.find tableName with
  | none =>
    rw [hf] at hfind
    refine h.refused _ ?_ (fun ab => by simp) (by simp)
    simp [CtlOp.exec, Ctl.tableDefaultEntryAdd, hfind]
  | some i =>
    rw [hf] at hfind
    by_cases hok : (c.tables i).defaultActionIsConst = false ∧
        tableEntryCheck c.actionDataSize (c.tables i) entry false true = 0
    · have hex : CtlOp.exec c (.defaultEntryAdd tableName entry) =
          (c.setTable i
            { c.tables i with
              pendingDefault :=
                some (tableEntryDuplicate su.actionDataSize (c.tables i) entry false) }, 0) := by
        rw [← h.actions]
        simp [CtlOp.exec, Ctl.tableDefaultEntryAdd, hfind, hok.1, hok.2]
      unfold Setup.step
      dsimp only
      rw [hex]
      simp only [Setup.apply, hf, if_true]
      exact h.setTable ((h.synced i).defaultEntryAdd entry)
    · refine h.refused _ ?_ (fun ab => by simp) (by simp)
      cases hd : (c.tables i).defaultActionIsConst with
      | true => simp [CtlOp.exec, Ctl.tableDefaultEntryAdd, hfind, hd]
      | false =>
        rw [hd] at hok
        have hcheck := not_and.mp hok rfl
        simp [CtlOp.exec, Ctl.tableDefaultEntryAdd, hfind, hd, hcheck]

theorem commit (ab : Bool) (hclean : CleanFailure (c, m) (.commit ab)) :
    Agrees su (su.step (c, m) (.commit ab)) := by
  have hactions : (c.commit ab).1.actionDataSize = c.actionDataSize := commit_actions c ab
  refine ⟨hactions.trans h.actions, fun i => ?_⟩
  unfold Setup.step CtlOp.exec Setup.apply
  dsimp only
  rcases commit_cases c ab with ⟨hall, hstatus, hslots⟩ | ⟨k, hbefore, hk, hstatus, hle, hgt⟩
  · rw [if_pos hstatus, hslots, h.actions]
    exact (h.synced i).committed (hall i)
  · rw [if_neg (by rw [hstatus]; exact hk)]
    have hmaps : (if ab = true then fun i => (m i).abort else m) i =
        if ab = true then (m i).abort else m i := by
      split
      · rfl
      · rfl
    rw [hmaps]
    rcases lt_trichotomy i k with hik | rfl | hik
    · rw [hle i hik.le]
      exact (h.synced i).before (hbefore i hik) (hclean k hbefore hk i hik) ab
    · rw [hle i le_rfl]
      exact (h.synced i).failed hk ab
    · rw [hgt i hik]
      exact (h.synced i).untouched ab

theorem abort : Agrees su (su.step (c, m) .abort) := by
  refine ⟨(abort_actions c).trans h.actions, fun i => ?_⟩
  unfold Setup.step CtlOp.exec Setup.apply
  dsimp only
  rw [abort_slot]
  exact (h.synced i).abort

end Agrees

theorem agrees_step (s : Ctl n × (Fin n → TableTxn)) (op : CtlOp) (h : Agrees su s)
    (hclean : CleanFailure s op) : Agrees su (su.step s op) := by
  obtain ⟨c, m⟩ := s
  cases op with
  | entryAdd tableName entry => exact h.entryAdd tableName entry
  | entryDelete tableName entry => exact h.entryDelete tableName entry
  | defaultEntryAdd tableName entry => exact h.defaultEntryAdd tableName entry
  | commit ab => exact h.commit ab hclean
  | abort => exact h.abort

theorem agrees_create {obj : Fin n → Table}
    (hobj : ∀ i, tableCreateEmpty (su.params i) = some (obj i))
    (hs : ∀ i, (su.params i).Sized) : Agrees su (Ctl.create su obj, su.init) := by
  refine ⟨rfl, fun i => ?_⟩
  have ht : IsTable (su.params i) (obj i) := ⟨create_valid (hobj i) (hs i), create_config (hobj i)⟩
  have hshows : ∀ ws, (obj i).store.get (su.params i).home ws = none := fun ws => by
    rw [create_store (hobj i) (hs i)]
    refine find_eq_none.mpr (absent_iff.mp fun c hc j => ?_)
    rw [List.mem_singleton.mp hc]
    rfl
  have hempty : Holds (keyOf (su.params i)) (valOf (su.params i)) [] fun _ => none := fun k v =>
    iff_of_false (Option.some_ne_none v).symm fun ⟨e, he, _⟩ => by cases he
  constructor
  case fixed => rfl
  case params => rfl
  case cur =>
    exact ⟨ht, ⟨List.nodup_nil, List.Perm.refl _, hempty, hempty⟩,
      fun e he => absurd he List.not_mem_nil, hshows⟩
  case next => exact ht
  case copy => rfl
  case masks => exact fun e he => absurd he List.not_mem_nil
  case curDflt => rfl
  case nextDflt => rfl
  case pendingDflt => exact fun _ => rfl

/-! ## What can be observed -/

/-- As many bytes of the action data as an entry of the table has. -/
def shown (p : TableParams) (r : UInt64 × Bytes) : Value :=
  (r.1, (List.range p.actionDataSize.toNat).map r.2)

/-- A lookup on a copy of the table that shows the map `f` and the default action `d`. -/
theorem lookup_shown {p : TableParams} {s : TableState} {f : List UInt64 → Option Value}
    {d : UInt64 × Bytes} (ht : IsTable p s.obj) (hf : ∀ ws, s.obj.store.get p.home ws = f ws)
    (hd : s.dflt = d) (key : Bytes) :
    shown p (s.lookup key) = (f (p.words fun j => key (p.keyOffset.toNat + j))).getD (shown p d) := by
  rw [← hf, ← ht.lookup, ← hd]
  unfold TableState.lookup
  cases tableLookupUnoptimized s.obj key with
  | none => rfl
  | some d => rfl

/-- Each key is printed once. -/
theorem Synced.printed_nodup {dataSize : UInt64 → UInt32} {fx : Fixed} {p : TableParams}
    {s : Slot} {m : TableTxn} (h : Synced dataSize fx p s m) :
    (s.table.printed.map (keyOf p)).Nodup := by
  have hsub : s.table.printed.Sublist (s.table.entries ++ s.table.pendingAdd ++
      s.table.pendingModify0 ++ s.table.pendingDelete) :=
    ((List.sublist_append_left _ _).append_right _).append_right _
  exact h.cur.tracks.nodup.sublist (hsub.map _)

/-- The number of entries in the current copy. -/
theorem Synced.size_printed {dataSize : UInt64 → UInt32} {fx : Fixed} {p : TableParams}
    {s : Slot} {m : TableTxn} (h : Synced dataSize fx p s m) :
    size (p.nKeysMax / 4).toNat s.cur.obj.store = s.table.printed.length := by
  rw [h.cur.table.good.size_eq h.cur.table.home_lt h.printed_nodup fun k => ?_, List.length_map]
  rw [h.cur.shows, List.mem_map]
  constructor
  · rintro ⟨e, he, rfl⟩
    rw [(h.cur.tracks.committed _ _).mpr ⟨e, he, rfl, rfl⟩]
    exact Option.some_ne_none _
  · intro hk
    obtain ⟨v, hv⟩ := Option.ne_none_iff_exists'.mp hk
    obtain ⟨e, he, hkey, -⟩ := (h.cur.tracks.committed _ _).mp hv
    exact ⟨e, he, hkey⟩

/-- The state after a run from the creation of the pipeline. -/
def Setup.after (su : Setup n) (obj : Fin n → Table) (ops : List CtlOp) :
    Ctl n × (Fin n → TableTxn) :=
  run su.step (Ctl.create su obj, su.init) ops

section
variable {obj : Fin n → Table} (hobj : ∀ i, tableCreateEmpty (su.params i) = some (obj i))
  (hs : ∀ i, (su.params i).Sized)
include hobj hs

theorem agrees_after {ops : List CtlOp}
    (hclean : Meets su.step CleanFailure (Ctl.create su obj, su.init) ops) :
    Agrees su (su.after obj ops) :=
  hclean.invariant agrees_step (agrees_create hobj hs)

end

/-- With a single table there is none before the failing one. -/
theorem clean_single {su : Setup 1} (s : Ctl 1 × (Fin 1 → TableTxn)) (ops : List CtlOp) :
    Meets su.step CleanFailure s ops := by
  induction ops generalizing s with
  | nil => trivial
  | cons op ops ih =>
    refine ⟨?_, ih _⟩
    cases op with
    | commit ab => exact fun i _ _ j hj => absurd hj (by omega)
    | _ => trivial

/-! ## A pipeline of one table -/

/-- Its action 1 has eight bytes of data. -/
def smallSetup : Setup 1 where
  name := fun _ => "small"
  params := fun _ => smallParams
  actions := fun _ => [⟨0, true, true⟩, ⟨1, true, true⟩]
  defaultActionIsConst := fun _ => false
  actionDataSize := fun actionId => if actionId = 1 then 8 else 0
  dflt := fun _ => (0, fun _ => 0)

theorem smallSetup_sized (i : Fin 1) : (smallSetup.params i).Sized := smallParams_sized

def someKey : Bytes := fun _ => 1

/-- Two keys committed, one of them deleted again and a third one added. -/
def smallRun : List CtlOp :=
  [.entryAdd "small" (entryUnder 1), .entryAdd "small" (entryUnder 2), .commit false,
    .entryDelete "small" (entryUnder 1), .entryAdd "small" (entryUnder 3)]

/-! ## Commits -/

/-- The data plane shows the committed maps, and so does the copy the next commit works on;
the entries printed are those of the map, each key once. -/
theorem dataPlane_committed {obj : Fin n → Table}
    (hobj : ∀ i, tableCreateEmpty (su.params i) = some (obj i))
    (hs : ∀ i, (su.params i).Sized) (ops : List CtlOp)
    (hclean : Meets su.step CleanFailure (Ctl.create su obj, su.init) ops) (i : Fin n) :
    (∀ key, shown (su.params i) (((su.after obj ops).1.ts i).lookup key) =
      (((su.after obj ops).2 i).map.committed
        ((su.params i).words fun j => key ((su.params i).keyOffset.toNat + j))).getD
          (shown (su.params i) ((su.after obj ops).2 i).dflt)) ∧
    (∀ key, shown (su.params i) (((su.after obj ops).1.tsNext i).lookup key) =
      shown (su.params i) (((su.after obj ops).1.ts i).lookup key)) ∧
    (((su.after obj ops).1.tables i).printed.map (keyOf (su.params i))).Nodup ∧
    ∀ k v, ((su.after obj ops).2 i).map.committed k = some v ↔
      ∃ e ∈ ((su.after obj ops).1.tables i).printed,
        keyOf (su.params i) e = k ∧ valOf (su.params i) e = v := by
  have h := (agrees_after hobj hs hclean).synced i
  have hcur := fun key => lookup_shown h.cur.table h.cur.shows h.curDflt key
  have hnext := fun key => lookup_shown h.next h.nextShows.shows h.nextDflt key
  exact ⟨hcur, fun key => (hnext key).trans (hcur key).symm, h.printed_nodup,
    h.cur.tracks.committed⟩

theorem dataPlane_committed_small :
    shown (smallSetup.params 0)
        (((smallSetup.after (fun _ => smallTable) smallRun).1.ts 0).lookup someKey) =
      (((smallSetup.after (fun _ => smallTable) smallRun).2 0).map.committed
        ((smallSetup.params 0).words fun j =>
          someKey ((smallSetup.params 0).keyOffset.toNat + j))).getD
          (shown (smallSetup.params 0)
            ((smallSetup.after (fun _ => smallTable) smallRun).2 0).dflt) :=
  (dataPlane_committed (fun _ => smallTable_spec) smallSetup_sized smallRun (clean_single _ _) 0).1
    someKey

/-- A commit that leaves room in every table, for the entries to add beside those that are
there, succeeds. -/
theorem commit_succeeds {obj : Fin n → Table}
    (hobj : ∀ i, tableCreateEmpty (su.params i) = some (obj i))
    (hs : ∀ i, (su.params i).Sized) (ops : List CtlOp)
    (hclean : Meets su.step CleanFailure (Ctl.create su obj, su.init) ops)
    (hroom : ∀ i, ((su.after obj ops).1.tables i).printed.length +
      ((su.after obj ops).1.tables i).pendingAdd.length ≤
        min (su.params i).nKeysMax.toNat ((su.params i).nKeysMax.toNat / 4 + 4)) (ab : Bool) :
    ((su.after obj ops).1.commit ab).2 = 0 := by
  have hagrees := agrees_after hobj hs hclean
  rcases commit_cases (su.after obj ops).1 ab with ⟨-, hstatus, -⟩ | ⟨k, -, hk, -, -, -⟩
  · exact hstatus
  · have h := hagrees.synced k
    rcases rollfwd0_cases h.nextShows with hr | hf
    · obtain ⟨a, b, d, obj', hrun, -⟩ := hr.result
      refine absurd ?_ hk
      simp only [Slot.rollfwd0, hrun]
    · refine absurd (accepts_of_room h.next.home_lt h.next.good ?_ ?_) hf.refuses
      all_goals
        have hlen : ((su.after obj ops).1.slot k).table.printed.length +
            ((su.after obj ops).1.slot k).table.pendingAdd.length ≤ _ := hroom k
        rw [← h.size_printed] at hlen
        rw [h.copy, List.length_map]
        have hdiv : ((su.params k).nKeysMax / 4).toNat = (su.params k).nKeysMax.toNat / 4 :=
          UInt32.toNat_div _ _
      · exact (le_min_iff.mp hlen).1
      · rw [hdiv]
        exact (le_min_iff.mp hlen).2

theorem commit_succeeds_small :
    ((smallSetup.after (fun _ => smallTable) smallRun).1.commit true).2 = 0 :=
  commit_succeeds (fun _ => smallTable_spec) smallSetup_sized smallRun
    (clean_single _ _) (by decide +kernel) true

end P4Switch.Control
