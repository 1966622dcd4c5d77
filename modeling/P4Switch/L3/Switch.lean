import P4Switch.L3.HostTable
import P4Switch.L3.Effects

/-! # The pipeline under its control plane

The threads, the two copies of `ipv4_host` and the control plane that changes one while
the threads read the other. A thread takes the published copy with each packet and keeps
it to the end of the packet. -/
namespace P4Switch.L3
open P4Switch.Lib.Memory P4Switch.Lib.GuardedRun P4Switch.Lib.Words P4Switch.Ixgbe
  P4Switch.Tables P4Switch.Control

/-! ## The system -/

/-- `ipv4_host` as `l3.spec` declares it. -/
def l3Setup : Setup 1 where
  name := fun _ => "ipv4_host"
  params := fun _ => ipv4HostParams
  actions := fun _ => [⟨1, true, true⟩, ⟨2, true, true⟩, ⟨0, true, true⟩]
  defaultActionIsConst := fun _ => true
  actionDataSize := fun actionId => if actionId = 1 then 8 else 0
  dflt := fun _ => (0, fun _ => 0)

/-- The threads and the control plane. `mailboxes` are those of the table, one for each
thread; the mailbox inside a thread records the visit and the key of the first one. -/
structure Switch where
  engine : Engine
  mailboxes : ThreadId → Tables.Mailbox
  /-- the thread's `table_state` is the copy that was replaced -/
  stale : ThreadId → Bool
  ctl : Ctl 1
  /-- the control thread is inside a commit, asleep -/
  waiting : Bool

/-- `t->table_state`. -/
def Switch.tableState (s : Switch) (i : ThreadId) : TableState :=
  if s.stale i then s.ctl.tsNext 0 else s.ctl.ts 0

/-- `instr_rx_exec`: a thread that waits for a packet takes the published copy. -/
def Switch.rx (s : Switch) (i : ThreadId) (port : UInt32) (pkt : Option (MbufPtr × RteMbuf)) :
    Switch :=
  { s with
    engine := s.engine.rx i port pkt
    stale := if (s.engine.threads i).ip = 0 then Function.update s.stale i false else s.stale }

/-- `instr_table_exec`. A visit that is not the last one leaves the thread where it is. -/
def Switch.tableExec (s : Switch) (i : ThreadId) : Switch :=
  let t := s.engine.threads i
  let m := s.mailboxes i
  let r := tableLookup (s.tableState i).obj m (s.engine.keyBytes i)
  let seen : Mailbox := ⟨r.1.state, if m.state = 0 then s.engine.tableKey i else t.mailbox.key⟩
  { s with
    mailboxes := Function.update s.mailboxes i r.1
    engine := match r.2 with
      | none => s.engine.setThread i { t with mailbox := seen }
      | some r =>
        (s.engine.setThread i { t.next with mailbox := seen }).action i (actionFor (s.tableState i) r) }

/-- No other instruction looks at the table. -/
def noTable : Ipv4Host := ⟨fun _ => none, fun _ _ => false⟩

def Switch.exec (s : Switch) (i : ThreadId) : Switch :=
  match apply[(s.engine.threads i).ip]? with
  | some .table => s.tableExec i
  | _ => { s with engine := s.engine.exec noTable i }

/-- A call of the control plane; a commit goes as far as the swap and then waits. -/
def Switch.control (s : Switch) (op : CtlOp) : Switch × Int :=
  match op with
  | .commit abortOnFail =>
    let (c, status) := s.ctl.publish abortOnFail
    if status = 0 then ({ s with ctl := c, stale := fun i => !s.stale i, waiting := true }, 0)
    else ({ s with ctl := c }, status)
  | op => ({ s with ctl := (op.exec s.ctl).1 }, (op.exec s.ctl).2)

/-- The rest of the commit. -/
def Switch.settle (s : Switch) : Switch := { s with ctl := s.ctl.settle, waiting := false }

inductive SwitchOp where
  | rx (i : ThreadId) (port : UInt32) (pkt : Option (MbufPtr × RteMbuf))
  | exec (i : ThreadId)
  | control (op : CtlOp)
  | settle

/-- The switch with the map its table stands for. The control thread does one thing at a
time. -/
def Switch.step (s : Switch × (Fin 1 → TableTxn)) : SwitchOp → Switch × (Fin 1 → TableTxn)
  | .rx i port pkt => (s.1.rx i port pkt, s.2)
  | .exec i => (s.1.exec i, s.2)
  | .control op =>
    if s.1.waiting then s
    else ((s.1.control op).1, l3Setup.apply s.2 op (s.1.control op).2)
  | .settle => if s.1.waiting then (s.1.settle, s.2) else s

/-- What `usleep` is there for: when the control thread goes on, no packet is left that was
received before the swap. -/
def GraceOver (s : Switch × (Fin 1 → TableTxn)) : SwitchOp → Prop
  | .settle => ∀ i, (s.1.engine.threads i).ip ≠ 0 → s.1.stale i = false
  | _ => True

instance GraceOver.decidable : ∀ s op, Decidable (GraceOver s op)
  | s, .settle =>
    inferInstanceAs (Decidable (∀ i, (s.1.engine.threads i).ip ≠ 0 → s.1.stale i = false))
  | _, .rx _ _ _ => inferInstanceAs (Decidable True)
  | _, .exec _ => inferInstanceAs (Decidable True)
  | _, .control _ => inferInstanceAs (Decidable True)

theorem ipv4HostParams_ok : (tableCreateEmpty ipv4HostParams).isSome = true := rfl

theorem ipv4HostParams_sized : ipv4HostParams.Sized := by
  constructor <;> decide +kernel

/-- `table_state_build` for `ipv4_host`. -/
def ipv4HostTable : Table := (tableCreateEmpty ipv4HostParams).get ipv4HostParams_ok

theorem ipv4HostTable_spec (i : Fin 1) :
    tableCreateEmpty (l3Setup.params i) = some ipv4HostTable :=
  (Option.some_get ipv4HostParams_ok).symm

/-- The switch with `nPorts` output ports configured. -/
def Switch.build (nPorts : Nat) : Switch × (Fin 1 → TableTxn) :=
  (⟨Engine.build nPorts, fun _ => zeroMailbox, fun _ => false,
    Ctl.create l3Setup fun _ => ipv4HostTable, false⟩, l3Setup.init)

/-! ## What every step keeps -/

/-- Between a swap and the end of its commit the threads may read either copy. -/
structure SwitchInv (s : Switch × (Fin 1 → TableTxn)) : Prop where
  settled : s.1.waiting = false → Agrees l3Setup (s.1.ctl, s.2)
  published : s.1.waiting = true → ∃ c m ab, Agrees l3Setup (c, m) ∧ (c.publish ab).2 = 0 ∧
    s.1.ctl = (c.publish ab).1 ∧ s.2 = l3Setup.apply m (.commit ab) 0
  dflt : KeepsDefault l3Setup s.2 0
  reads : Reads (s.1.ctl.ts 0)
  readsNext : s.1.waiting = true → Reads (s.1.ctl.tsNext 0)
  fresh : s.1.waiting = false → ∀ i, (s.1.engine.threads i).ip ≠ 0 → s.1.stale i = false
  looking : ∀ i, Looking (s.1.tableState i).obj (s.1.mailboxes i) (s.1.engine.threads i).mailbox
  idle : MailboxIdle s.1.engine

theorem agrees_reads {c : Ctl 1} {m : Fin 1 → TableTxn} (h : Agrees l3Setup (c, m))
    (hd : KeepsDefault l3Setup m 0) : Reads (c.ts 0) := by
  have hs := h.synced 0
  refine ⟨hs.cur.table, ?_⟩
  have hdflt := congrArg Prod.fst (hs.curDflt.trans hd.1)
  exact hdflt

theorem switchInv_build (nPorts : Nat) : SwitchInv (Switch.build nPorts) := by
  have hagrees : Agrees l3Setup (Ctl.create l3Setup fun _ => ipv4HostTable, l3Setup.init) :=
    agrees_create ipv4HostTable_spec fun _ => ipv4HostParams_sized
  have hd : KeepsDefault l3Setup l3Setup.init 0 := ⟨rfl, rfl⟩
  constructor
  case settled => exact fun _ => hagrees
  case published => exact fun h => absurd h Bool.false_ne_true
  case dflt => exact hd
  case reads => exact agrees_reads hagrees hd
  case readsNext => exact fun h => absurd h Bool.false_ne_true
  case fresh => exact fun _ _ _ => rfl
  case looking => exact fun _ => looking_idle _ rfl rfl
  case idle => exact fun _ _ => rfl

/-! ## Instructions -/

section
variable {e : Engine} {i j : ThreadId} {tbl tbl' : Ipv4Host}

theorem exec_noTable (h : apply[(e.threads i).ip]? ≠ some .table) :
    e.exec tbl i = e.exec tbl' i := by
  unfold Engine.exec
  split
  · rfl
  · rename_i instr hi
    cases instr with
    | table => exact absurd hi h
    | _ => rfl

theorem action_mailbox (t : Thread) (a : Action) :
    (((e.setThread i t).action i a).threads i).mailbox = t.mailbox := by
  cases a with
  | noAction =>
    unfold Engine.action
    rw [setThread_same]
  | send port class_ =>
    unfold Engine.action
    dsimp only
    rw [store_threads, setThread_setThread, setThread_same, setThread_same]
  | drop_1 =>
    unfold Engine.action
    rw [setThread_setThread, setThread_same, setThread_same]

theorem finish_mailbox (o : Outcome) :
    ((e.finish i o).threads i).mailbox = (e.threads i).mailbox := by
  unfold Engine.finish
  dsimp only
  rw [setThread_same]

theorem setThread_mailbox {t : Thread} (h : t.mailbox = (e.threads i).mailbox) :
    ((e.setThread i t).threads i).mailbox = (e.threads i).mailbox := by
  rw [setThread_same, h]

/-- Only the table touches the mailbox. -/
theorem exec_mailbox (h : apply[(e.threads i).ip]? ≠ some .table) :
    ((e.exec tbl i).threads i).mailbox = (e.threads i).mailbox := by
  unfold Engine.exec
  split
  · rfl
  · rename_i instr hi
    cases instr with
    | rx => rfl
    | movDrop v => exact setThread_mailbox rfl
    | extract hd => exact setThread_mailbox rfl
    | jmpeq target hd offset v =>
      unfold Engine.execInstr
      dsimp only
      split
      · exact setThread_mailbox rfl
      · exact setThread_mailbox rfl
    | jmp target => exact setThread_mailbox rfl
    | table => exact absurd hi h
    | jmpneqDrop target v =>
      unfold Engine.execInstr
      dsimp only
      split
      · exact setThread_mailbox rfl
      · exact setThread_mailbox rfl
    | emitTx hs =>
      unfold Engine.execInstr Engine.emitTx
      dsimp only
      rw [finish_mailbox]
      split
      · exact setThread_mailbox rfl
      · exact setThread_mailbox rfl
    | drop => exact finish_mailbox _

/-- A visit that is not the last one. -/
theorem tableExec_early (h : (e.threads i).mailbox.state < 2) :
    e.tableExec tbl i = e.setThread i { e.threads i with
      mailbox := ⟨(e.threads i).mailbox.state + 1,
        if (e.threads i).mailbox.state = 0 then e.tableKey i else (e.threads i).mailbox.key⟩ } := by
  unfold Engine.tableExec
  have hcases : (e.threads i).mailbox.state = 0 ∨ (e.threads i).mailbox.state = 1 := by omega
  rcases hcases with h | h
  · simp only [h, if_true]
  · simp only [h, Nat.one_ne_zero, if_false]

theorem tableExec_last (h : (e.threads i).mailbox.state = 2) :
    e.tableExec tbl i = (e.setThread i { (e.threads i).next with
      mailbox := { (e.threads i).mailbox with state := 0 } }).action i (e.lookupResult tbl i) := by
  unfold Engine.tableExec
  simp only [h]

end

section
variable {s : Switch} {i j : ThreadId}

theorem exec_of_table (h : apply[(s.engine.threads i).ip]? = some .table) :
    s.exec i = s.tableExec i := by
  unfold Switch.exec
  rw [h]

theorem exec_of_other (h : apply[(s.engine.threads i).ip]? ≠ some .table) :
    s.exec i = { s with engine := s.engine.exec noTable i } := by
  unfold Switch.exec
  split
  · rename_i hi
    exact absurd hi h
  · rfl

/-- An instruction does not concern the control plane. -/
theorem exec_keeps (s : Switch) (i : ThreadId) :
    (s.exec i).stale = s.stale ∧ (s.exec i).ctl = s.ctl ∧ (s.exec i).waiting = s.waiting := by
  by_cases h : apply[(s.engine.threads i).ip]? = some .table
  · rw [exec_of_table h]
    exact ⟨rfl, rfl, rfl⟩
  · rw [exec_of_other h]
    exact ⟨rfl, rfl, rfl⟩

theorem tableState_fresh (h : s.stale i = false) : s.tableState i = s.ctl.ts 0 :=
  if_neg (Bool.eq_false_iff.mp h)

theorem tableState_stale (h : s.stale i = true) : s.tableState i = s.ctl.tsNext 0 := if_pos h

/-- The thread executes an instruction of the program on the copy it holds. -/
structure Executes (s : Switch) (i : ThreadId) (s' : Switch) : Prop where
  engine : s'.engine = s.engine.exec (hostOf (s.tableState i)) i
  looking : Looking (s.tableState i).obj (s'.mailboxes i) (s'.engine.threads i).mailbox
  others : ∀ j, j ≠ i → s'.mailboxes j = s.mailboxes j

theorem tableExec_executes (hip : apply[(s.engine.threads i).ip]? = some .table)
    (hr : Reads (s.tableState i))
    (hl : Looking (s.tableState i).obj (s.mailboxes i) (s.engine.threads i).mailbox) :
    Executes s i (s.tableExec i) := by
  have hfetch : s.engine.exec (hostOf (s.tableState i)) i =
      s.engine.tableExec (hostOf (s.tableState i)) i := exec_of_fetch hip
  obtain ⟨exts, hi⟩ := hr.table.valid.linked
  have hstate := hl.state_eq
  have hcases : (s.engine.threads i).mailbox.state < 2 ∨
      (s.engine.threads i).mailbox.state = 2 := by
    have hle := hl.1
    omega
  have hpair : (s.tableExec i).engine = s.engine.exec (hostOf (s.tableState i)) i ∧
      Looking (s.tableState i).obj ((s.tableExec i).mailboxes i)
        ((s.tableExec i).engine.threads i).mailbox := by
    rw [hfetch]
    unfold Switch.tableExec
    dsimp only
    rw [Function.update_self, hstate]
    rcases hcases with h | h
    · obtain ⟨hnone, hst, hlook⟩ := hl.visit hr.table.config hi.keySize h s.engine i
      rw [hnone, hst, tableExec_early h]
      dsimp only
      rw [setThread_same]
      exact ⟨rfl, hlook⟩
    · obtain ⟨hst, r, hsome, haction⟩ := hl.last hr h s.engine i rfl
      rw [hsome, hst, tableExec_last h]
      dsimp only
      rw [haction, h, action_mailbox]
      exact ⟨rfl, looking_idle _ hst rfl⟩
  constructor
  case engine => exact hpair.1
  case looking => exact hpair.2
  case others => exact fun j hj => Function.update_of_ne hj _ _

theorem exec_executes (hr : (s.engine.threads i).ip ≠ 0 → Reads (s.tableState i))
    (hl : Looking (s.tableState i).obj (s.mailboxes i) (s.engine.threads i).mailbox) :
    Executes s i (s.exec i) := by
  by_cases hip : apply[(s.engine.threads i).ip]? = some .table
  · rw [exec_of_table hip]
    have h10 := apply_table hip
    exact tableExec_executes hip (hr (by omega)) hl
  · rw [exec_of_other hip]
    constructor
    case engine => exact exec_noTable hip
    case looking =>
      dsimp only
      rw [exec_mailbox hip]
      exact hl
    case others => exact fun _ _ => rfl

end

end P4Switch.L3
