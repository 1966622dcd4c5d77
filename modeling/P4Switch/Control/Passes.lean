import P4Switch.Lib.BucketRestore
import P4Switch.Tables.Valid
import P4Switch.Control.Lists

/-! # The passes of a commit over one table

What the loops of `table_rollfwd0` and `table_rollback` do to a copy of the table, and that
a roll-back after a failure leaves every key where it was. -/
namespace P4Switch.Control
open P4Switch.Lib.Words P4Switch.Lib.BucketChains P4Switch.Tables

variable {p : TableParams} {obj : Table} {es : List TableEntry}

/-- Every entry comes with its data. -/
def AllData (es : List TableEntry) : Prop := ∀ e ∈ es, e.actionData ≠ none

/-! ## Loops -/

/-- A loop of additions is `putAll` up to the first that is refused. -/
theorem addLoop_spec (ht : IsTable p obj) (hd : AllData es) (n : Nat) :
    (Accepts p.home obj.store (es.map p.entryOf) ∧
      ∃ obj', opsLoop tableAdd obj n es = (obj', n + es.length, 0) ∧ IsTable p obj' ∧
        obj'.store = obj.store.putAll p.home (es.map p.entryOf)) ∨
    (¬Accepts p.home obj.store (es.map p.entryOf) ∧
      ∃ k obj', opsLoop tableAdd obj n es = (obj', n + k, -ENOSPC) ∧ IsTable p obj' ∧
        Accepts p.home obj.store ((es.take k).map p.entryOf) ∧
        obj'.store = obj.store.putAll p.home ((es.take k).map p.entryOf)) := by
  induction es generalizing obj n with
  | nil => exact Or.inl ⟨trivial, obj, rfl, ht, rfl⟩
  | cons e es ih =>
    obtain ⟨ht', hstatus, hstore⟩ := ht.add (hd e List.mem_cons_self)
    cases hput : (obj.store.put p.home (p.entryOf e).1 (p.entryOf e).2).2 with
    | false =>
      rw [hput] at hstatus
      have hsame : (tableAdd obj e).1.store = obj.store := by
        rw [hstore]
        obtain ⟨-, ⟨hacc, -⟩ | ⟨hrefused, -⟩⟩ := put_effect ht.good ht.home_lt (p.entryOf e).1
          (p.entryOf e).2
        · rw [hput] at hacc
          cases hacc
        · rw [hrefused]
      refine Or.inr ⟨fun hacc => ?_, 0, (tableAdd obj e).1, ?_, ht', trivial, hsame⟩
      · have := hacc.1
        rw [hput] at this
        cases this
      · rw [opsLoop, hstatus, if_pos (by decide)]
        rfl
    | true =>
      rw [hput, if_pos rfl] at hstatus
      have hloop : opsLoop tableAdd obj n (e :: es) =
          opsLoop tableAdd (tableAdd obj e).1 (n + 1) es := by
        rw [opsLoop, hstatus, if_neg (by decide)]
      rw [hloop]
      rcases ih ht' (fun e' he' => hd e' (List.mem_cons_of_mem e he')) (n + 1) with
        ⟨hacc, obj', hrun, ht'', hst⟩ | ⟨hacc, k, obj', hrun, ht'', hacc', hst⟩
      · rw [hstore] at hacc hst
        refine Or.inl ⟨⟨hput, hacc⟩, obj', ?_, ht'', hst⟩
        rw [hrun, List.length_cons, Nat.add_assoc, Nat.add_comm 1]
      · rw [hstore] at hacc hacc' hst
        refine Or.inr ⟨fun h => hacc h.2, k + 1, obj', ?_, ht'', ⟨hput, hacc'⟩, hst⟩
        rw [hrun, Nat.add_assoc, Nat.add_comm 1]

theorem delLoop_spec (ht : IsTable p obj) (es : List TableEntry) (n : Nat) :
    ∃ obj', opsLoop tableDel obj n es = (obj', n + es.length, 0) ∧ IsTable p obj' ∧
      obj'.store = obj.store.removeAll p.home (es.map fun e => p.words e.key) := by
  induction es generalizing obj n with
  | nil => exact ⟨obj, rfl, ht, rfl⟩
  | cons e es ih =>
    obtain ⟨ht', hstatus, hstore⟩ := ht.del e
    obtain ⟨obj', hrun, ht'', hst⟩ := ih ht' (n + 1)
    rw [hstore] at hst
    refine ⟨obj', ?_, ht'', hst⟩
    rw [opsLoop, hstatus, if_neg (by decide), hrun, List.length_cons, Nat.add_assoc, Nat.add_comm 1]

theorem undoAdd_spec (ht : IsTable p obj) (hd : AllData es) (n : Nat) :
    IsTable p (undoLoop tableAdd obj n es).1 ∧
      (undoLoop tableAdd obj n es).1.store =
        obj.store.putAll p.home ((es.take n).map p.entryOf) := by
  induction es generalizing obj n with
  | nil => simpa [undoLoop, Store.putAll] using ht
  | cons e es ih =>
    cases n with
    | zero => exact ⟨ht, rfl⟩
    | succ n =>
      obtain ⟨ht', -, hstore⟩ := ht.add (hd e List.mem_cons_self)
      obtain ⟨ht'', hst⟩ := ih ht' (fun e' he' => hd e' (List.mem_cons_of_mem e he')) n
      rw [hstore] at hst
      exact ⟨ht'', hst⟩

theorem undoDel_spec (ht : IsTable p obj) (es : List TableEntry) (n : Nat) :
    IsTable p (undoLoop tableDel obj n es).1 ∧
      (undoLoop tableDel obj n es).1.store =
        obj.store.removeAll p.home ((es.take n).map fun e => p.words e.key) := by
  induction es generalizing obj n with
  | nil => simpa [undoLoop, Store.removeAll] using ht
  | cons e es ih =>
    cases n with
    | zero => exact ⟨ht, rfl⟩
    | succ n =>
      obtain ⟨ht', -, hstore⟩ := ht.del e
      obtain ⟨ht'', hst⟩ := ih ht' n
      rw [hstore] at hst
      exact ⟨ht'', hst⟩

/-! ## One table -/

/-- The words of an entry's key. -/
def keyOf (p : TableParams) (e : TableEntry) : List UInt64 := p.words e.key

def valOf (p : TableParams) (e : TableEntry) : Value := e.value p.actionDataSize []

theorem map_fst_entryOf (es : List TableEntry) :
    (es.map p.entryOf).map Prod.fst = es.map (keyOf p) := by
  rw [List.map_map]
  rfl

/-- What the table holds once the pending lists are applied. -/
def pendingStore (p : TableParams) (t : CtlTable) (s : TableLayout) : TableLayout :=
  ((s.putAll p.home (t.pendingAdd.map p.entryOf)).putAll p.home
    (t.pendingModify1.map p.entryOf)).removeAll p.home (t.pendingDelete.map (keyOf p))

/-- A copy of the table that shows the committed entries. -/
structure ShowsCommitted (p : TableParams) (t : CtlTable) (m : Txn (List UInt64) Value)
    (obj : Table) : Prop where
  table : IsTable p obj
  tracks : Tracks (keyOf p) (valOf p) t m
  data : AllData t.all
  shows : ∀ ws, obj.store.get p.home ws = m.committed ws

section
variable {t : CtlTable} {m : Txn (List UInt64) Value} (h : ShowsCommitted p t m obj)
include h

theorem data_pendingAdd : AllData t.pendingAdd := fun e he => h.data e ((mem_all t).2.1 e he)

theorem data_pendingModify0 : AllData t.pendingModify0 :=
  fun e he => h.data e ((mem_all t).2.2.1 e he)

theorem data_pendingModify1 : AllData t.pendingModify1 :=
  fun e he => h.data e ((mem_all t).2.2.2.1 e he)

theorem data_pendingDelete : AllData t.pendingDelete :=
  fun e he => h.data e ((mem_all t).2.2.2.2 e he)

theorem get_committed {e : TableEntry}
    (he : e ∈ t.entries ++ t.pendingModify0 ++ t.pendingDelete) :
    obj.store.get p.home (keyOf p e) = some (valOf p e) := by
  rw [h.shows]
  exact (h.tracks.committed _ _).mpr ⟨e, he, rfl, rfl⟩

theorem keys_nodup : (t.pendingAdd.map (keyOf p)).Nodup ∧ (t.pendingModify0.map (keyOf p)).Nodup ∧
    (t.pendingModify1.map (keyOf p)).Nodup := by
  have hn := h.tracks.nodup
  simp only [List.map_append] at hn
  have hEAM := (List.nodup_append.mp hn).1
  have hM := (List.nodup_append.mp hEAM).2.1
  exact ⟨(List.nodup_append.mp (List.nodup_append.mp hEAM).1).2.1, hM,
    h.tracks.modify.nodup_iff.mpr hM⟩

/-- The key of an entry to add is not in the table. -/
theorem get_pendingAdd {e : TableEntry} (he : e ∈ t.pendingAdd) :
    obj.store.get p.home (keyOf p e) = none := by
  obtain ⟨l₁, l₂, hA⟩ := List.append_of_mem he
  have hp : (t.entries ++ t.pendingAdd ++ t.pendingModify0 ++ t.pendingDelete).Perm
      (e :: (t.entries ++ (l₁ ++ l₂) ++ t.pendingModify0 ++ t.pendingDelete)) := by
    rw [hA]
    simpa using @List.perm_middle _ e (t.entries ++ l₁)
      (l₂ ++ (t.pendingModify0 ++ t.pendingDelete))
  have honly := h.tracks.only hp rfl
  rw [h.shows, Option.eq_none_iff_forall_ne_some]
  intro v hv
  obtain ⟨d, hd, hkey, -⟩ := (h.tracks.committed _ _).mp hv
  refine honly d ?_ hkey
  simp only [List.mem_append] at hd ⊢
  grind

/-- The key of a modified entry is. -/
theorem get_pendingModify1 {e : TableEntry} (he : e ∈ t.pendingModify1) :
    obj.store.get p.home (keyOf p e) ≠ none := by
  obtain ⟨d, hd, hkey⟩ := List.mem_map.mp (h.tracks.modify.mem_iff.mp
    (List.mem_map_of_mem (f := keyOf p) he))
  rw [← hkey, get_committed h (by simp [hd])]
  exact Option.some_ne_none _

/-- The new entries do not touch what is modified. -/
theorem modify_accepts (hacc : Accepts p.home obj.store (t.pendingAdd.map p.entryOf)) :
    Accepts p.home (obj.store.putAll p.home (t.pendingAdd.map p.entryOf))
      (t.pendingModify1.map p.entryOf) := by
  refine (putAll_present h.table.home_lt (h.table.good.putAll h.table.home_lt) ?_).1
  intro e he
  obtain ⟨d, hd, rfl⟩ := List.mem_map.mp he
  exact present_putAll h.table.home_lt h.table.good hacc (get_pendingModify1 h hd)

/-- The passes end with the map to come. -/
theorem get_pendingStore (hacc : Accepts p.home obj.store (t.pendingAdd.map p.entryOf))
    (ws : List UInt64) : (pendingStore p t obj.store).get p.home ws = m.pending ws := by
  have hh := h.table.home_lt
  have hg := h.table.good
  have hg₁ : Good _ _ _ _ (obj.store.putAll p.home (t.pendingAdd.map p.entryOf)) := hg.putAll hh
  have hacc₁ := modify_accepts h hacc
  obtain ⟨hAn, -, hM1n⟩ := keys_nodup h
  unfold pendingStore
  rw [get_removeAll hh (hg₁.putAll hh)]
  by_cases hD : ws ∈ t.pendingDelete.map (keyOf p)
  · rw [if_pos hD]
    obtain ⟨d, hd, rfl⟩ := List.mem_map.mp hD
    obtain ⟨l₁, l₂, hDl⟩ := List.append_of_mem hd
    have hp : (t.entries ++ t.pendingAdd ++ t.pendingModify0 ++ t.pendingDelete).Perm
        (d :: (t.entries ++ t.pendingAdd ++ t.pendingModify0 ++ (l₁ ++ l₂))) := by
      rw [hDl]
      simpa using @List.perm_middle _ d (t.entries ++ t.pendingAdd ++ t.pendingModify0 ++ l₁) l₂
    have honly := h.tracks.only hp rfl
    have hM1 := h.tracks.modify1_absent fun e he => honly e (by simp [he])
    refine (Option.eq_none_iff_forall_ne_some.mpr fun v hv => ?_).symm
    obtain ⟨e, he, hkey, -⟩ := (h.tracks.pending _ _).mp hv
    simp only [List.mem_append] at he
    rcases he with (he | he) | he
    · exact honly e (by simp [he]) hkey
    · exact honly e (by simp [he]) hkey
    · exact hM1 e he hkey
  · rw [if_neg hD]
    by_cases hM : ws ∈ t.pendingModify1.map (keyOf p)
    · obtain ⟨d, hd, rfl⟩ := List.mem_map.mp hM
      have hn : ((t.pendingModify1.map p.entryOf).map Prod.fst).Nodup := by
        rw [map_fst_entryOf]
        exact hM1n
      rw [(h.tracks.pending (keyOf p d) (valOf p d)).mpr ⟨d, by simp [hd], rfl, rfl⟩]
      exact get_putAll_of_mem hh hg₁ hacc₁ hn (List.mem_map_of_mem hd)
    · have hM' : ws ∉ (t.pendingModify1.map p.entryOf).map Prod.fst := by
        rwa [map_fst_entryOf]
      rw [get_putAll_of_not_mem hh hg₁ hacc₁ hM']
      by_cases hA : ws ∈ t.pendingAdd.map (keyOf p)
      · obtain ⟨d, hd, rfl⟩ := List.mem_map.mp hA
        have hn : ((t.pendingAdd.map p.entryOf).map Prod.fst).Nodup := by
          rw [map_fst_entryOf]
          exact hAn
        rw [(h.tracks.pending (keyOf p d) (valOf p d)).mpr ⟨d, by simp [hd], rfl, rfl⟩]
        exact get_putAll_of_mem hh hg hacc hn (List.mem_map_of_mem hd)
      · have hA' : ws ∉ (t.pendingAdd.map p.entryOf).map Prod.fst := by
          rwa [map_fst_entryOf]
        rw [get_putAll_of_not_mem hh hg hacc hA', h.shows]
        ext v
        rw [h.tracks.committed, h.tracks.pending]
        have hM0 : ∀ e ∈ t.pendingModify0, keyOf p e ≠ ws := fun e he hk =>
          hM (h.tracks.modify.mem_iff.mpr (hk ▸ List.mem_map_of_mem he))
        refine exists_congr fun e => ?_
        have hD : e ∈ t.pendingDelete → keyOf p e ≠ ws := fun he hk =>
          hD (hk ▸ List.mem_map_of_mem he)
        have hM : e ∈ t.pendingModify1 → keyOf p e ≠ ws := fun he hk =>
          hM (hk ▸ List.mem_map_of_mem he)
        have hA : e ∈ t.pendingAdd → keyOf p e ≠ ws := fun he hk =>
          hA (hk ▸ List.mem_map_of_mem he)
        have hM0 := hM0 e
        simp only [List.mem_append]
        grind

end

end P4Switch.Control
