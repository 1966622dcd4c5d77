import P4Switch.Tables.ExactMatch

/-! # Table transactions

The part of `rte_swx_ctl.c` that keeps the entries of the exact-match tables: the pending
lists that the entry functions write, and the commit that takes them to the copy of the
tables the data plane does not use, swaps the copies and repeats the work on the other.
Allocation succeeds. -/
namespace P4Switch.Control
open P4Switch.Lib.Words P4Switch.Tables

/-- `struct rte_swx_ctl_table_action_info`. -/
structure TableActionInfo where
  actionId : UInt64
  actionIsForTableEntries : Bool
  actionIsForDefaultEntry : Bool

/-- `struct table`. -/
structure CtlTable where
  name : String
  actions : List TableActionInfo
  defaultActionIsConst : Bool
  params : TableParams
  entries : List TableEntry
  pendingAdd : List TableEntry
  pendingModify0 : List TableEntry
  pendingModify1 : List TableEntry
  pendingDelete : List TableEntry
  pendingDefault : Option TableEntry
  nAdd : Nat
  nModify : Nat
  nDelete : Nat

/-- `struct rte_swx_table_state`. -/
structure TableState where
  obj : Table
  defaultActionData : Bytes
  defaultActionId : UInt64

/-- `struct rte_swx_ctl_pipeline`, of `n` tables. `actionDataSize` is the `data_size` of each
action. -/
structure Ctl (n : Nat) where
  actionDataSize : UInt64 → UInt32
  tables : Fin n → CtlTable
  ts : Fin n → TableState
  tsNext : Fin n → TableState

/-! ## Entries -/

/-- `malloc` and `memcpy` of `n` bytes. -/
def copyBytes (n : UInt32) (src : Bytes) : Bytes := fun j => if j < n.toNat then src j else 0

/-- `table_entry_key_check_em`. -/
def tableEntryKeyCheckEm (p : TableParams) (entry : TableEntry) : Int :=
  match entry.keyMask with
  | none => 0
  | some keyMask =>
    if (List.range p.keySize.toNat).all fun i => keyMask i &&& p.mask i = p.mask i then 0
    else -EINVAL

/-- `table_entry_check`. -/
def tableEntryCheck (dataSize : UInt64 → UInt32) (t : CtlTable) (entry : TableEntry)
    (keyCheck dataCheck : Bool) : Int :=
  if keyCheck ∧ tableEntryKeyCheckEm t.params entry ≠ 0 then tableEntryKeyCheckEm t.params entry
  else if dataCheck then
    match t.actions.find? fun tai => entry.actionId = tai.actionId with
    | none => -EINVAL
    | some tai =>
      if dataSize entry.actionId ≠ 0 ∧ entry.actionData.isNone then -EINVAL
      else if keyCheck ∧ !tai.actionIsForTableEntries then -EINVAL
      else if !keyCheck ∧ !tai.actionIsForDefaultEntry then -EINVAL
      else 0
  else 0

/-- `table_entry_duplicate`, after a check. The action data is allocated in any case. -/
def tableEntryDuplicate (dataSize : UInt64 → UInt32) (t : CtlTable) (entry : TableEntry)
    (keyDuplicate : Bool) : TableEntry where
  key := if keyDuplicate then copyBytes t.params.keySize entry.key else fun _ => 0
  keyMask := if keyDuplicate then entry.keyMask.map (copyBytes t.params.keySize) else none
  keyPriority := if keyDuplicate then entry.keyPriority else 0
  actionId := entry.actionId
  actionData := some (copyBytes (dataSize entry.actionId) (entry.actionData.getD fun _ => 0))

/-- `table_entry_keycmp`: 0 on equal keys. -/
def tableEntryKeycmp (p : TableParams) (e0 e1 : TableEntry) : Int :=
  let km := fun (e : TableEntry) i => (e.keyMask.map (· i)).getD 0xFF
  if (List.range p.keySize.toNat).all fun i =>
      km e0 i &&& p.mask i = km e1 i &&& p.mask i &&
        e0.key i &&& km e0 i &&& p.mask i = e1.key i &&& km e1 i &&& p.mask i then 0
  else 1

/-- The test of the `_find` functions. -/
def CtlTable.sameKey (t : CtlTable) (entry e : TableEntry) : Bool :=
  tableEntryKeycmp t.params entry e = 0

/-- `TAILQ_INSERT_AFTER` and `TAILQ_REMOVE` on the first element that satisfies the test. -/
def tailqReplace (test : TableEntry → Bool) (new : TableEntry) : List TableEntry → List TableEntry
  | [] => []
  | e :: l => if test e then new :: l else e :: tailqReplace test new l

/-! ## The entry functions -/

/-- `table_find`. -/
def Ctl.tableFind {n : Nat} (c : Ctl n) (tableName : String) : Option (Fin n) :=
  (List.finRange n).find? fun i => tableName = (c.tables i).name

def Ctl.setTable {n : Nat} (c : Ctl n) (i : Fin n) (t : CtlTable) : Ctl n :=
  { c with tables := Function.update c.tables i t }

/-- The lists after an addition of `newEntry`, a duplicate of `entry`. -/
def CtlTable.entryAdd (t : CtlTable) (entry newEntry : TableEntry) : CtlTable :=
  match t.entries.find? (t.sameKey entry) with
  | some existing =>
    { t with
      pendingModify1 := t.pendingModify1 ++ [newEntry]
      entries := t.entries.eraseP (t.sameKey entry)
      pendingModify0 := t.pendingModify0 ++ [existing] }
  | none =>
    match t.pendingAdd.find? (t.sameKey entry) with
    | some _ => { t with pendingAdd := tailqReplace (t.sameKey entry) newEntry t.pendingAdd }
    | none =>
      match t.pendingModify1.find? (t.sameKey entry) with
      | some _ =>
        { t with pendingModify1 := tailqReplace (t.sameKey entry) newEntry t.pendingModify1 }
      | none =>
        match t.pendingDelete.find? (t.sameKey entry) with
        | some existing =>
          { t with
            pendingModify1 := t.pendingModify1 ++ [newEntry]
            pendingDelete := t.pendingDelete.eraseP (t.sameKey entry)
            pendingModify0 := t.pendingModify0 ++ [existing] }
        | none => { t with pendingAdd := t.pendingAdd ++ [newEntry] }

/-- `rte_swx_ctl_pipeline_table_entry_add`. -/
def Ctl.tableEntryAdd {n : Nat} (c : Ctl n) (tableName : String) (entry : TableEntry) : Ctl n × Int :=
  match c.tableFind tableName with
  | none => (c, -EINVAL)
  | some i =>
    let t := c.tables i
    if tableEntryCheck c.actionDataSize t entry true true ≠ 0 then (c, -EINVAL)
    else (c.setTable i (t.entryAdd entry (tableEntryDuplicate c.actionDataSize t entry true)), 0)

/-- The lists after a deletion, with the status. -/
def CtlTable.entryDelete (t : CtlTable) (entry : TableEntry) : CtlTable × Int :=
  let same := t.sameKey entry
  match t.entries.find? same with
  | some existing =>
    ({ t with
       entries := t.entries.eraseP same
       pendingDelete := t.pendingDelete ++ [existing] }, 0)
  | none =>
    let t := { t with pendingAdd := t.pendingAdd.eraseP same }
    match t.pendingModify1.find? same with
    | some _ =>
      let t := { t with pendingModify1 := t.pendingModify1.eraseP same }
      match t.pendingModify0.find? same with
      | none => (t, -EINVAL)
      | some realExisting =>
        ({ t with
           pendingModify0 := t.pendingModify0.eraseP same
           pendingDelete := t.pendingDelete ++ [realExisting] }, 0)
    | none => (t, 0)

/-- `rte_swx_ctl_pipeline_table_entry_delete`. -/
def Ctl.tableEntryDelete {n : Nat} (c : Ctl n) (tableName : String) (entry : TableEntry) :
    Ctl n × Int :=
  match c.tableFind tableName with
  | none => (c, -EINVAL)
  | some i =>
    if tableEntryCheck c.actionDataSize (c.tables i) entry true false ≠ 0 then (c, -EINVAL)
    else (c.setTable i ((c.tables i).entryDelete entry).1, ((c.tables i).entryDelete entry).2)

/-- `rte_swx_ctl_pipeline_table_default_entry_add`. -/
def Ctl.tableDefaultEntryAdd {n : Nat} (c : Ctl n) (tableName : String) (entry : TableEntry) :
    Ctl n × Int :=
  match c.tableFind tableName with
  | none => (c, -EINVAL)
  | some i =>
    let t := c.tables i
    if t.defaultActionIsConst then (c, -EINVAL)
    else if tableEntryCheck c.actionDataSize t entry false true ≠ 0 then (c, -EINVAL)
    else
      (c.setTable i
        { t with pendingDefault := some (tableEntryDuplicate c.actionDataSize t entry false) }, 0)

/-! ## The stages of a commit -/

/-- `table_is_update_pending`, the default entry left aside. -/
def CtlTable.isUpdatePending (t : CtlTable) : Bool :=
  t.pendingAdd.length + t.pendingModify1.length + t.pendingDelete.length ≠ 0

/-- A loop of `ops.add` or `ops.del` that stops at the first error; `n` counts the others. -/
def opsLoop (op : Table → TableEntry → Table × Int) :
    Table → Nat → List TableEntry → Table × Nat × Int
  | obj, n, [] => (obj, n, 0)
  | obj, n, entry :: l =>
    if (op obj entry).2 ≠ 0 then ((op obj entry).1, n, (op obj entry).2)
    else opsLoop op (op obj entry).1 (n + 1) l

/-- `table_rollfwd0` on one copy of the table. -/
def CtlTable.rollfwd0 (t : CtlTable) (obj : Table) : CtlTable × Table × Int :=
  if !t.isUpdatePending then (t, obj, 0)
  else
    let (obj, nAdd, status) := opsLoop tableAdd obj 0 t.pendingAdd
    if status ≠ 0 then ({ t with nAdd := nAdd, nModify := 0, nDelete := 0 }, obj, status)
    else
      let (obj, nModify, status) := opsLoop tableAdd obj 0 t.pendingModify1
      if status ≠ 0 then ({ t with nAdd := nAdd, nModify := nModify, nDelete := 0 }, obj, status)
      else
        let (obj, nDelete, status) := opsLoop tableDel obj 0 t.pendingDelete
        ({ t with nAdd := nAdd, nModify := nModify, nDelete := nDelete }, obj, status)

/-- `table_rollfwd1` on one copy of the table's state. -/
def CtlTable.rollfwd1 (dataSize : UInt64 → UInt32) (t : CtlTable) (s : TableState) : TableState :=
  match t.pendingDefault with
  | none => s
  | some e =>
    { s with
      defaultActionData := fun j =>
        if j < (dataSize e.actionId).toNat then e.actionData.getD (fun _ => 0) j
        else s.defaultActionData j
      defaultActionId := e.actionId }

/-- `table_rollfwd2`. -/
def CtlTable.rollfwd2 (t : CtlTable) : CtlTable :=
  { t with
    entries := t.entries ++ t.pendingAdd ++ t.pendingModify1
    pendingAdd := []
    pendingModify0 := []
    pendingModify1 := []
    pendingDelete := []
    pendingDefault := none }

/-- A loop of `ops.add` or `ops.del` over at most `n` entries; `n` counts down. -/
def undoLoop (op : Table → TableEntry → Table × Int) : Table → Nat → List TableEntry → Table × Nat
  | obj, n, [] => (obj, n)
  | obj, n, entry :: l => if n = 0 then (obj, n) else undoLoop op (op obj entry).1 (n - 1) l

/-- `table_rollback`. -/
def CtlTable.rollback (t : CtlTable) (obj : Table) : CtlTable × Table :=
  if !t.isUpdatePending then (t, obj)
  else
    let (obj, nDelete) := undoLoop tableAdd obj t.nDelete t.pendingDelete
    let (obj, nModify) := undoLoop tableAdd obj t.nModify t.pendingModify0
    let (obj, nAdd) := undoLoop tableDel obj t.nAdd t.pendingAdd
    ({ t with nAdd := nAdd, nModify := nModify, nDelete := nDelete }, obj)

/-- `table_abort`. -/
def CtlTable.abort (t : CtlTable) : CtlTable :=
  { t with
    pendingAdd := []
    pendingModify1 := []
    entries := t.entries ++ t.pendingModify0 ++ t.pendingDelete
    pendingModify0 := []
    pendingDelete := []
    pendingDefault := none }

/-! ## The commit -/

section
variable {n : Nat}

/-- `table_rollfwd0` on `ts_next`. -/
def Ctl.rollfwd0 (c : Ctl n) (i : Fin n) : Ctl n × Int :=
  let (t, obj, status) := (c.tables i).rollfwd0 (c.tsNext i).obj
  ({ c with
     tables := Function.update c.tables i t
     tsNext := Function.update c.tsNext i { c.tsNext i with obj := obj } }, status)

def Ctl.rollfwd1 (c : Ctl n) (i : Fin n) : Ctl n :=
  { c with
    tsNext := Function.update c.tsNext i ((c.tables i).rollfwd1 c.actionDataSize (c.tsNext i)) }

def Ctl.rollfwd2 (c : Ctl n) (i : Fin n) : Ctl n := c.setTable i (c.tables i).rollfwd2

def Ctl.rollback (c : Ctl n) (i : Fin n) : Ctl n :=
  let (t, obj) := (c.tables i).rollback (c.tsNext i).obj
  { c with
    tables := Function.update c.tables i t
    tsNext := Function.update c.tsNext i { c.tsNext i with obj := obj } }

def Ctl.tableAbort (c : Ctl n) (i : Fin n) : Ctl n := c.setTable i (c.tables i).abort

/-- The loop over the tables whose first error goes to `rollback`. -/
def Ctl.rollfwd0Loop : Ctl n → List (Fin n) → Ctl n × Int
  | c, [] => (c, 0)
  | c, i :: l => if (c.rollfwd0 i).2 ≠ 0 then c.rollfwd0 i else (c.rollfwd0 i).1.rollfwd0Loop l

/-- `rte_swx_ctl_pipeline_commit`. -/
def Ctl.commit (c : Ctl n) (abortOnFail : Bool) : Ctl n × Int :=
  let (c, status) := c.rollfwd0Loop (List.finRange n)
  if status ≠ 0 then
    ((List.finRange n).foldl
      (fun c i => if abortOnFail then (c.rollback i).tableAbort i else c.rollback i) c, status)
  else
    let c := (List.finRange n).foldl Ctl.rollfwd1 c
    let c := { c with ts := c.tsNext, tsNext := c.ts }
    ((List.finRange n).foldl (fun c i => ((c.rollfwd0 i).1.rollfwd1 i).rollfwd2 i) c, 0)

/-- `rte_swx_ctl_pipeline_abort`. -/
def Ctl.abort (c : Ctl n) : Ctl n := (List.finRange n).foldl Ctl.tableAbort c

/-! ## What the data plane reads -/

/-- The lookup of a packet's key: the action and its data. -/
def TableState.lookup (s : TableState) (key : Bytes) : UInt64 × Bytes :=
  match tableLookupUnoptimized s.obj key with
  | some d => (d.actionId, d.actionData)
  | none => (s.defaultActionId, s.defaultActionData)

/-- The entries `rte_swx_ctl_pipeline_table_fprintf` prints. -/
def CtlTable.printed (t : CtlTable) : List TableEntry := t.entries ++ t.pendingModify0 ++ t.pendingDelete

end

end P4Switch.Control
