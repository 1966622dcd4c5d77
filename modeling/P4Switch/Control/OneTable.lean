import P4Switch.Control.Passes

/-! # Rolling one table forward and back

A pass that fails leaves additions that `table_rollback` takes out again; a pass that
succeeds on one copy succeeds on any copy of the same layout. -/
namespace P4Switch.Control
open P4Switch.Lib.Words P4Switch.Lib.BucketChains P4Switch.Tables

variable {p : TableParams} {t : CtlTable} {m : Txn (List UInt64) Value} {obj obj' : Table}

/-- The table's lists with other counters. -/
def CtlTable.counted (t : CtlTable) (nAdd nModify nDelete : Nat) : CtlTable :=
  { t with nAdd := nAdd, nModify := nModify, nDelete := nDelete }

theorem not_pending (hp : t.isUpdatePending = false) :
    t.pendingAdd = [] ∧ t.pendingModify1 = [] ∧ t.pendingDelete = [] := by
  simpa [CtlTable.isUpdatePending] using hp

/-- What `table_rollfwd0` does when it succeeds. -/
structure RollsForward (p : TableParams) (t : CtlTable) (obj : Table) : Prop where
  accepts : Accepts p.home obj.store (t.pendingAdd.map p.entryOf)
  result : ∃ nAdd nModify nDelete obj',
    t.rollfwd0 obj = (t.counted nAdd nModify nDelete, obj', 0) ∧
    (t.isUpdatePending = true → nAdd = t.pendingAdd.length ∧ nModify = t.pendingModify1.length ∧
      nDelete = t.pendingDelete.length) ∧
    IsTable p obj' ∧ obj'.store = pendingStore p t obj.store

/-- What it does when an addition is refused. -/
structure FailsForward (p : TableParams) (t : CtlTable) (obj : Table) : Prop where
  refuses : ¬Accepts p.home obj.store (t.pendingAdd.map p.entryOf)
  result : ∃ k obj', t.rollfwd0 obj = (t.counted k 0 0, obj', -ENOSPC) ∧ IsTable p obj' ∧
    Accepts p.home obj.store ((t.pendingAdd.take k).map p.entryOf) ∧
    obj'.store = obj.store.putAll p.home ((t.pendingAdd.take k).map p.entryOf)

theorem rollfwd0_cases (h : ShowsCommitted p t m obj) :
    RollsForward p t obj ∨ FailsForward p t obj := by
  cases hp : t.isUpdatePending with
  | false =>
    obtain ⟨hA, hM, hD⟩ := not_pending hp
    refine Or.inl ⟨by rw [hA]; trivial, t.nAdd, t.nModify, t.nDelete, obj, ?_, ?_, h.table, ?_⟩
    · simp [CtlTable.rollfwd0, hp, CtlTable.counted]
    · intro hp'
      rw [hp] at hp'
      cases hp'
    · rw [pendingStore, hA, hM, hD]
      rfl
  | true =>
    rcases addLoop_spec h.table (data_pendingAdd h) 0 with
      ⟨hacc, obj₁, hrun, ht₁, hst₁⟩ | ⟨hacc, k, obj₁, hrun, ht₁, hacc', hst₁⟩
    · -- the changes of existing keys and the deletions cannot fail
      have hacc₁ := modify_accepts h hacc
      rw [← hst₁] at hacc₁
      obtain ⟨-, obj₂, hrun₂, ht₂, hst₂⟩ | ⟨hno, -⟩ := addLoop_spec ht₁ (data_pendingModify1 h) 0
      · obtain ⟨obj₃, hrun₃, ht₃, hst₃⟩ := delLoop_spec ht₂ t.pendingDelete 0
        refine Or.inl ⟨hacc, _, _, _, obj₃, ?_, fun _ => ⟨rfl, rfl, rfl⟩, ht₃, ?_⟩
        · unfold CtlTable.rollfwd0
          rw [hp, hrun]
          dsimp only
          rw [hrun₂]
          dsimp only
          rw [hrun₃, Nat.zero_add, Nat.zero_add, Nat.zero_add]
          rfl
        · rw [hst₃, hst₂, hst₁]
          rfl
      · exact absurd hacc₁ hno
    · refine Or.inr ⟨hacc, k, obj₁, ?_, ht₁, hacc', hst₁⟩
      unfold CtlTable.rollfwd0
      rw [hp, hrun, Nat.zero_add]
      rfl

/-! ## Rolling back -/

/-- What `table_rollback` undoes, by its counters. -/
theorem rollback_spec (ht : IsTable p obj) (hA : AllData t.pendingDelete)
    (hM : AllData t.pendingModify0) (hp : t.isUpdatePending = true) :
    ∃ nAdd nModify nDelete obj', t.rollback obj = (t.counted nAdd nModify nDelete, obj') ∧
      IsTable p obj' ∧
      obj'.store = ((obj.store.putAll p.home ((t.pendingDelete.take t.nDelete).map p.entryOf)).putAll
        p.home ((t.pendingModify0.take t.nModify).map p.entryOf)).removeAll p.home
          ((t.pendingAdd.take t.nAdd).map (keyOf p)) := by
  obtain ⟨ht₁, hst₁⟩ := undoAdd_spec ht hA t.nDelete
  cases h₁ : undoLoop tableAdd obj t.nDelete t.pendingDelete with
  | mk obj₁ nDelete =>
    rw [h₁] at ht₁ hst₁
    obtain ⟨ht₂, hst₂⟩ := undoAdd_spec ht₁ hM t.nModify
    cases h₂ : undoLoop tableAdd obj₁ t.nModify t.pendingModify0 with
    | mk obj₂ nModify =>
      rw [h₂] at ht₂ hst₂
      obtain ⟨ht₃, hst₃⟩ := undoDel_spec ht₂ t.pendingAdd t.nAdd
      cases h₃ : undoLoop tableDel obj₂ t.nAdd t.pendingAdd with
      | mk obj₃ nAdd =>
        rw [h₃] at ht₃ hst₃
        refine ⟨nAdd, nModify, nDelete, obj₃, ?_, ht₃, ?_⟩
        · simp [CtlTable.rollback, hp, h₁, h₂, h₃, CtlTable.counted]
        · rw [hst₃, hst₂, hst₁]
          rfl

/-- Additions made and taken out again. -/
theorem additions_restored {es : List TableEntry} (h : ShowsCommitted p t m obj)
    (hsub : ∀ e ∈ es, e ∈ t.pendingAdd) (hacc : Accepts p.home obj.store (es.map p.entryOf)) :
    (obj.store.putAll p.home (es.map p.entryOf)).removeAll p.home (es.map (keyOf p)) =
      obj.store := by
  refine removeAll_putAll h.table.home_lt h.table.good hacc ?_ fun ws => ?_
  · intro e he
    obtain ⟨d, hd, rfl⟩ := List.mem_map.mp he
    rw [present_iff, not_not]
    exact get_pendingAdd h (hsub d hd)
  · simp only [List.mem_map]
    constructor
    · rintro ⟨e, he, rfl⟩
      exact ⟨valOf p e, e, he, rfl⟩
    · rintro ⟨v, e, he, heq⟩
      exact ⟨e, he, congrArg Prod.fst heq⟩

/-- A table that was rolled back. -/
def RollsBack (p : TableParams) (t : CtlTable) (s : TableLayout) (r : CtlTable × Table) : Prop :=
  ∃ nAdd nModify nDelete, r.1 = t.counted nAdd nModify nDelete ∧ IsTable p r.2 ∧ r.2.store = s

/-- With nothing pending there is nothing to undo. -/
theorem rollsBack_idle (ht : IsTable p obj) (hp : t.isUpdatePending = false) :
    RollsBack p t obj.store (t.rollback obj) := by
  refine ⟨t.nAdd, t.nModify, t.nDelete, ?_⟩
  simp [CtlTable.rollback, hp, CtlTable.counted, ht]

/-- The failing table: the additions that were made are taken out again. -/
theorem rollsBack_failed (h : ShowsCommitted p t m obj) (hf : FailsForward p t obj) :
    RollsBack p t obj.store
      ((t.rollfwd0 obj).1.rollback (t.rollfwd0 obj).2.1) := by
  obtain ⟨k, obj', hrun, ht', hacc, hst⟩ := hf.result
  rw [hrun]
  dsimp only
  cases hp : t.isUpdatePending with
  | false =>
    have hempty := (not_pending hp).1
    exact absurd (by rw [hempty]; trivial) hf.refuses
  | true =>
    have hdata : AllData (t.counted k 0 0).pendingDelete := data_pendingDelete (t := t) h
    have hdata0 : AllData (t.counted k 0 0).pendingModify0 := data_pendingModify0 (t := t) h
    obtain ⟨a, b, d, obj'', hback, ht'', hst''⟩ := rollback_spec ht' hdata hdata0 hp
    refine ⟨a, b, d, ?_, ?_, ?_⟩
    · rw [hback]
      rfl
    · rw [hback]
      exact ht''
    · rw [hback, hst'', hst]
      exact additions_restored h (fun e he => List.mem_of_mem_take he) hacc

/-- A table before the failing one, without deletions: the old values come back, and the
additions go. -/
theorem rollsBack_done (h : ShowsCommitted p t m obj) (hr : RollsForward p t obj)
    (hD : t.pendingDelete = []) :
    RollsBack p t obj.store ((t.rollfwd0 obj).1.rollback (t.rollfwd0 obj).2.1) := by
  obtain ⟨a, b, d, obj', hrun, hcount, ht', hst⟩ := hr.result
  rw [hrun]
  dsimp only
  cases hp : t.isUpdatePending with
  | false =>
    obtain ⟨hA, hM, -⟩ := not_pending hp
    have hsame : obj'.store = obj.store := by
      rw [hst, pendingStore, hA, hM, hD]
      rfl
    rw [← hsame]
    exact rollsBack_idle (t := t.counted a b d) ht' hp
  | true =>
    obtain ⟨rfl, rfl, rfl⟩ := hcount hp
    have hdata : AllData (t.counted t.pendingAdd.length t.pendingModify1.length
      t.pendingDelete.length).pendingDelete := data_pendingDelete (t := t) h
    have hdata0 : AllData (t.counted t.pendingAdd.length t.pendingModify1.length
      t.pendingDelete.length).pendingModify0 := data_pendingModify0 (t := t) h
    obtain ⟨a', b', d', obj'', hback, ht'', hst''⟩ := rollback_spec ht' hdata hdata0 hp
    have hh := h.table.home_lt
    obtain ⟨-, hM0n, -⟩ := keys_nodup h
    have hlen : t.pendingModify1.length = t.pendingModify0.length := by
      simpa using h.tracks.modify.length_eq
    refine ⟨a', b', d', ?_, ?_, ?_⟩
    · rw [hback]
      rfl
    · rw [hback]
      exact ht''
    · rw [hback, hst'', hst, pendingStore]
      dsimp only [CtlTable.counted]
      rw [hD, hlen, List.take_length, List.take_length, List.take_length]
      -- the old values replace the new ones
      have hold : ((obj.store.putAll p.home (t.pendingAdd.map p.entryOf)).putAll p.home
          (t.pendingModify1.map p.entryOf)).putAll p.home (t.pendingModify0.map p.entryOf) =
            obj.store.putAll p.home (t.pendingAdd.map p.entryOf) := by
        refine putAll_putAll hh (h.table.good.putAll hh) ?_ ?_ ?_
        · intro e he
          obtain ⟨d, hd, rfl⟩ := List.mem_map.mp he
          have hget := get_committed h (e := d) (by simp [hd])
          refine (get_putAll_of_not_mem hh h.table.good hr.accepts fun hmem => ?_).trans hget
          rw [map_fst_entryOf] at hmem
          obtain ⟨d', hd', hk⟩ := List.mem_map.mp hmem
          have hnone := get_pendingAdd h hd'
          rw [hk] at hnone
          exact Option.some_ne_none _ (hget.symm.trans hnone)
        · rw [map_fst_entryOf]
          exact hM0n
        · intro e he
          rw [map_fst_entryOf]
          obtain ⟨d, hd, rfl⟩ := List.mem_map.mp he
          exact h.tracks.modify.mem_iff.mp (List.mem_map_of_mem (f := keyOf p) hd)
      change ((((obj.store.putAll p.home (t.pendingAdd.map p.entryOf)).putAll p.home
        (t.pendingModify1.map p.entryOf))).putAll p.home
          (t.pendingModify0.map p.entryOf)).removeAll p.home (t.pendingAdd.map (keyOf p)) = _
      rw [hold]
      exact additions_restored h (fun e he => he) hr.accepts

/-- A table behind the failing one: whatever its counters say, nothing changes. -/
theorem rollsBack_untouched (h : ShowsCommitted p t m obj) :
    RollsBack p t obj.store (t.rollback obj) := by
  cases hp : t.isUpdatePending with
  | false => exact rollsBack_idle h.table hp
  | true =>
    obtain ⟨a, b, d, obj', hback, ht', hst⟩ := rollback_spec h.table (data_pendingDelete h)
      (data_pendingModify0 h) hp
    have hh := h.table.home_lt
    have hsame : ∀ es : List TableEntry,
        (∀ e ∈ es, e ∈ t.entries ++ t.pendingModify0 ++ t.pendingDelete) →
        obj.store.putAll p.home (es.map p.entryOf) = obj.store := fun es hes => by
      refine putAll_same hh h.table.good fun e he => ?_
      obtain ⟨d, hd, rfl⟩ := List.mem_map.mp he
      exact get_committed h (hes d hd)
    refine ⟨a, b, d, ?_, ?_, ?_⟩
    · rw [hback]
    · rw [hback]
      exact ht'
    · rw [hback, hst, hsame _ fun e he => by simp [List.mem_of_mem_take he],
        hsame _ fun e he => by simp [List.mem_of_mem_take he]]
      refine removeAll_absent fun ws hws => ?_
      obtain ⟨e, he, rfl⟩ := List.mem_map.mp hws
      rw [present_iff, not_not]
      exact get_pendingAdd h (List.mem_of_mem_take he)

end P4Switch.Control
