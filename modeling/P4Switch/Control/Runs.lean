import P4Switch.Control.Refinement

/-! # Runs of the control functions

Every control function refines its counterpart on maps, and so does any run of them. -/
namespace P4Switch.Control
open P4Switch.Lib.Words P4Switch.Lib.BucketChains P4Switch.Lib.GuardedRun P4Switch.Tables

/-! ## The control functions on maps -/

/-- What is fixed when the pipeline is created. -/
structure Setup (n : Nat) where
  name : Fin n → String
  params : Fin n → TableParams
  actions : Fin n → List TableActionInfo
  defaultActionIsConst : Fin n → Bool
  actionDataSize : UInt64 → UInt32
  dflt : Fin n → UInt64 × Bytes

variable {n : Nat} {su : Setup n}

def Setup.fixed (su : Setup n) (i : Fin n) : Fixed :=
  ⟨su.name i, su.actions i, su.defaultActionIsConst i⟩

inductive CtlOp where
  | entryAdd (tableName : String) (entry : TableEntry)
  | entryDelete (tableName : String) (entry : TableEntry)
  | defaultEntryAdd (tableName : String) (entry : TableEntry)
  | commit (abortOnFail : Bool)
  | abort

def CtlOp.exec (c : Ctl n) : CtlOp → Ctl n × Int
  | .entryAdd tableName entry => c.tableEntryAdd tableName entry
  | .entryDelete tableName entry => c.tableEntryDelete tableName entry
  | .defaultEntryAdd tableName entry => c.tableDefaultEntryAdd tableName entry
  | .commit abortOnFail => c.commit abortOnFail
  | .abort => (c.abort, 0)

def Setup.find (su : Setup n) (tableName : String) : Option (Fin n) :=
  (List.finRange n).find? fun i => tableName = su.name i

/-- The action of an entry with its arguments. -/
def argsOf (dataSize : UInt64 → UInt32) (p : TableParams) (entry : TableEntry) : Value :=
  (entry.actionId, (List.range p.actionDataSize.toNat).map
    (copyBytes (dataSize entry.actionId) (entry.actionData.getD fun _ => 0)))

/-- The maps after a call that returned `status`. -/
def Setup.apply (su : Setup n) (m : Fin n → TableTxn) (op : CtlOp) (status : Int) :
    Fin n → TableTxn :=
  match op with
  | .entryAdd tableName entry =>
    match su.find tableName with
    | some i =>
      if status = 0 then
        Function.update m i { m i with
          map := (m i).map.put ((su.params i).words entry.key)
            (argsOf su.actionDataSize (su.params i) entry) }
      else m
    | none => m
  | .entryDelete tableName entry =>
    match su.find tableName with
    | some i =>
      if status = 0 then
        Function.update m i { m i with map := (m i).map.remove ((su.params i).words entry.key) }
      else m
    | none => m
  | .defaultEntryAdd tableName entry =>
    match su.find tableName with
    | some i =>
      if status = 0 then Function.update m i { m i with pendingDflt := some entry } else m
    | none => m
  | .commit abortOnFail =>
    if status = 0 then fun i => (m i).commit su.actionDataSize
    else if abortOnFail then fun i => (m i).abort
    else m
  | .abort => fun i => (m i).abort

/-- The control plane with the maps it stands for. -/
def Setup.step (su : Setup n) (s : Ctl n × (Fin n → TableTxn)) (op : CtlOp) :
    Ctl n × (Fin n → TableTxn) :=
  ((op.exec s.1).1, su.apply s.2 op (op.exec s.1).2)

/-- A commit that fails finds no deletions pending in the tables before the failing one. -/
def CleanFailure (s : Ctl n × (Fin n → TableTxn)) : CtlOp → Prop
  | .commit _ => ∀ i, (∀ j < i, (s.1.slot j).rollfwd0.2 = 0) → (s.1.slot i).rollfwd0.2 ≠ 0 →
      ∀ j < i, (s.1.tables j).pendingDelete = []
  | _ => True

/-- The control plane of a new pipeline, on the tables `obj`. -/
def Ctl.create (su : Setup n) (obj : Fin n → Table) : Ctl n where
  actionDataSize := su.actionDataSize
  tables := fun i =>
    { name := su.name i
      actions := su.actions i
      defaultActionIsConst := su.defaultActionIsConst i
      params := su.params i
      entries := []
      pendingAdd := []
      pendingModify0 := []
      pendingModify1 := []
      pendingDelete := []
      pendingDefault := none
      nAdd := 0
      nModify := 0
      nDelete := 0 }
  ts := fun i => ⟨obj i, (su.dflt i).2, (su.dflt i).1⟩
  tsNext := fun i => ⟨obj i, (su.dflt i).2, (su.dflt i).1⟩

/-- Empty maps. -/
def Setup.init (su : Setup n) : Fin n → TableTxn :=
  fun i => ⟨⟨fun _ => none, fun _ => none⟩, su.dflt i, none⟩

/-! ## Entries -/

section
variable {dataSize : UInt64 → UInt32} {p : TableParams} {t : CtlTable} {entry e new : TableEntry}

/-- Keys that passed the check of their masks compare by their words. -/
theorem keycmp_words {obj : Table} (hc : Config p obj) (h₀ : tableEntryKeyCheckEm p entry = 0)
    (h₁ : tableEntryKeyCheckEm p e = 0) :
    tableEntryKeycmp p entry e = 0 ↔ keyOf p e = p.words entry.key := by
  have hmask : ∀ {e : TableEntry}, tableEntryKeyCheckEm p e = 0 → ∀ i < p.keySize.toNat,
      (e.keyMask.map (· i)).getD 0xFF &&& p.mask i = p.mask i := by
    intro e he i hi
    unfold tableEntryKeyCheckEm at he
    cases hm : e.keyMask with
    | none =>
      have hones : (0xFF : UInt8) = -1 := rfl
      rw [Option.map_none, Option.getD_none, hones, UInt8.neg_one_and]
    | some km =>
      rw [hm] at he
      dsimp only at he
      split at he
      · rename_i hall
        simpa using List.all_eq_true.mp hall i (List.mem_range.mpr hi)
      · exact absurd he (by decide)
  rw [keyOf, words_eq hc, tableEntryKeycmp]
  simp only [ite_eq_left_iff, one_ne_zero, imp_false, not_not, List.all_eq_true, List.mem_range,
    Bool.and_eq_true, decide_eq_true_eq, UInt8.and_assoc]
  refine forall_congr' fun i => forall_congr' fun hi => ?_
  rw [hmask h₀ i hi, hmask h₁ i hi]
  exact ⟨fun h => h.2.symm, fun h => ⟨rfl, h.symm⟩⟩

theorem check_mask {keyCheck dataCheck : Bool} (hk : keyCheck = true)
    (h : tableEntryCheck dataSize t entry keyCheck dataCheck = 0) :
    tableEntryKeyCheckEm t.params entry = 0 := by
  by_contra hne
  unfold tableEntryCheck at h
  rw [if_pos ⟨hk, hne⟩] at h
  exact hne h

/-- A duplicate has the key of the original, and the arguments of its action. -/
theorem duplicate_entry (dataSize : UInt64 → UInt32) {obj : Table} (hc : Config t.params obj) (entry : TableEntry) :
    keyOf t.params (tableEntryDuplicate dataSize t entry true) = t.params.words entry.key ∧
      valOf t.params (tableEntryDuplicate dataSize t entry true) =
        argsOf dataSize t.params entry := by
  refine ⟨?_, rfl⟩
  rw [keyOf, words_eq hc]
  intro j hj
  simp [tableEntryDuplicate, copyBytes, hj]

theorem duplicate_mask (dataSize : UInt64 → UInt32) (h : tableEntryKeyCheckEm t.params entry = 0) :
    tableEntryKeyCheckEm t.params (tableEntryDuplicate dataSize t entry true) = 0 := by
  unfold tableEntryKeyCheckEm at h ⊢
  cases hm : entry.keyMask with
  | none => simp [tableEntryDuplicate, hm]
  | some km =>
    rw [hm] at h
    dsimp only at h
    split at h
    · rename_i hall
      simp only [tableEntryDuplicate, hm, if_true, Option.map_some]
      rw [if_pos]
      refine List.all_eq_true.mpr fun i hi => ?_
      have hbound := List.mem_range.mp hi
      simpa [copyBytes, hbound] using List.all_eq_true.mp hall i hi
    · exact absurd h (by decide)

/-! ## The lists after an entry function -/

theorem mem_tailqReplace (test : TableEntry → Bool) (l : List TableEntry)
    (h : e ∈ tailqReplace test new l) : e = new ∨ e ∈ l := by
  induction l with
  | nil => cases h
  | cons x l ih =>
    rw [tailqReplace] at h
    split at h
    · exact (List.mem_cons.mp h).imp_right (List.mem_cons_of_mem x)
    · rcases List.mem_cons.mp h with rfl | h
      · exact Or.inr List.mem_cons_self
      · exact (ih h).imp_right (List.mem_cons_of_mem x)

theorem all_entryAdd : ∀ e ∈ (t.entryAdd entry new).all, e = new ∨ e ∈ t.all := by
  intro e he
  have hE := fun h : e ∈ t.entries.eraseP (t.sameKey entry) => List.mem_of_mem_eraseP h
  have hD := fun h : e ∈ t.pendingDelete.eraseP (t.sameKey entry) => List.mem_of_mem_eraseP h
  unfold CtlTable.entryAdd at he
  split at he
  · rename_i x hx
    have hx := List.mem_of_find?_eq_some hx
    simp only [CtlTable.all, List.mem_append, List.mem_singleton] at he ⊢
    grind
  · split at he
    · have hA : e ∈ _ → e = new ∨ e ∈ _ := mem_tailqReplace (t.sameKey entry) t.pendingAdd
      simp only [CtlTable.all, List.mem_append] at he ⊢
      grind
    · split at he
      · have hM : e ∈ _ → e = new ∨ e ∈ _ :=
          mem_tailqReplace (t.sameKey entry) t.pendingModify1
        simp only [CtlTable.all, List.mem_append] at he ⊢
        grind
      · split at he
        · rename_i x hx
          have hx := List.mem_of_find?_eq_some hx
          simp only [CtlTable.all, List.mem_append, List.mem_singleton] at he ⊢
          grind
        · simp only [CtlTable.all, List.mem_append, List.mem_singleton] at he ⊢
          grind

theorem all_entryDelete : ∀ e ∈ (t.entryDelete entry).1.all, e ∈ t.all := by
  intro e he
  have hE := fun h : e ∈ t.entries.eraseP (t.sameKey entry) => List.mem_of_mem_eraseP h
  have hA := fun h : e ∈ t.pendingAdd.eraseP (t.sameKey entry) => List.mem_of_mem_eraseP h
  have hM0 := fun h : e ∈ t.pendingModify0.eraseP (t.sameKey entry) => List.mem_of_mem_eraseP h
  have hM1 := fun h : e ∈ t.pendingModify1.eraseP (t.sameKey entry) => List.mem_of_mem_eraseP h
  unfold CtlTable.entryDelete at he
  dsimp only at he
  split at he
  · rename_i x hx
    have hx := List.mem_of_find?_eq_some hx
    simp only [CtlTable.all, List.mem_append, List.mem_singleton] at he ⊢
    grind
  · split at he
    · split at he
      · simp only [CtlTable.all, List.mem_append] at he ⊢
        grind
      · rename_i x hx
        have hx := List.mem_of_find?_eq_some hx
        simp only [CtlTable.all, List.mem_append, List.mem_singleton] at he ⊢
        grind
    · simp only [CtlTable.all, List.mem_append] at he ⊢
      grind

theorem entryAdd_fixed (t : CtlTable) (entry new : TableEntry) :
    (t.entryAdd entry new).fixed = t.fixed ∧
    (t.entryAdd entry new).params = t.params ∧
    (t.entryAdd entry new).pendingDefault = t.pendingDefault := by
  unfold CtlTable.entryAdd
  split
  · exact ⟨rfl, rfl, rfl⟩
  · split
    · exact ⟨rfl, rfl, rfl⟩
    · split
      · exact ⟨rfl, rfl, rfl⟩
      · split
        · exact ⟨rfl, rfl, rfl⟩
        · exact ⟨rfl, rfl, rfl⟩

theorem entryDelete_fixed (t : CtlTable) (entry : TableEntry) :
    (t.entryDelete entry).1.fixed = t.fixed ∧
    (t.entryDelete entry).1.params = t.params ∧
    (t.entryDelete entry).1.pendingDefault = t.pendingDefault := by
  unfold CtlTable.entryDelete
  dsimp only
  split
  · exact ⟨rfl, rfl, rfl⟩
  · split
    · split
      · exact ⟨rfl, rfl, rfl⟩
      · exact ⟨rfl, rfl, rfl⟩
    · exact ⟨rfl, rfl, rfl⟩

end

end P4Switch.Control
