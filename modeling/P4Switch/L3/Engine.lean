import P4Switch.Lib.Memory
import P4Switch.Ixgbe.Queue

/-! # The engine that runs the l3 program

The instructions of `l3.spec`, in the order the engine keeps them after fusing the three
`emit` with the `tx` behind them, and what each does to the thread that executes it.
Threads share the packet memory; every interleaving of their instructions is a run. -/
namespace P4Switch.L3
open P4Switch.Lib.Memory P4Switch.Ixgbe

abbrev RTE_SWX_PIPELINE_THREADS_MAX : Nat := 16

instance : NeZero RTE_SWX_PIPELINE_THREADS_MAX := ⟨by decide⟩

abbrev ThreadId := Fin RTE_SWX_PIPELINE_THREADS_MAX

/-! ## Memory -/

/-- The headers of `l3.spec`, in its order. -/
inductive Header where
  | ethernet
  | vlanTag
  | ipv4
  deriving DecidableEq, Repr

def Header.nBytes : Header → Nat
  | .ethernet => 14
  | .vlanTag => 4
  | .ipv4 => 20

/-- A frame's buffer, or the headers a thread keeps for itself. -/
inductive Region where
  | mbuf (handle : MbufPtr)
  | headerStorage (thread : ThreadId)
  deriving DecidableEq, Repr

abbrev Addr := Ptr Region

/-- Where `header_build` puts the header inside `header_storage`. -/
def Header.ptr0 (i : ThreadId) : Header → Addr
  | .ethernet => ⟨.headerStorage i, 0⟩
  | .vlanTag => ⟨.headerStorage i, 14⟩
  | .ipv4 => ⟨.headerStorage i, 18⟩

/-! ## The program -/

/-- The entries of `ipv4_host`; `drop_1` and `NoAction` have no arguments. -/
inductive Action where
  | noAction
  | send (port class_ : UInt32)
  | drop_1
  deriving DecidableEq, Repr

/-- The exact-match table. `entry` is what the control plane added under a destination
address. A lookup hashes the key first and compares it two visits later: `sameBucket`
tells whether what was prepared for the first key also finds the second. -/
structure Ipv4Host where
  entry : UInt32 → Option Action
  sameBucket : UInt32 → UInt32 → Bool

/-- The action for a key: the entry's on a hit, the default one on a miss. -/
def Ipv4Host.lookup (tbl : Ipv4Host) (key : UInt32) : Action := (tbl.entry key).getD .noAction

inductive Instr where
  | rx
  | movDrop (v : UInt8)
  | extract (h : Header)
  | jmpeq (target : Nat) (h : Header) (offset : Nat) (v : UInt16)
  | jmp (target : Nat)
  | table
  | jmpneqDrop (target : Nat) (v : UInt8)
  | emitTx (hs : List Header)
  | drop

/-- The `apply` block. -/
def apply : List Instr :=
  [.rx,
   .movDrop 1,
   .extract .ethernet,
   .jmpeq 6 .ethernet 12 0x8100,
   .jmpeq 9 .ethernet 12 0x800,
   .jmp 10,
   .extract .vlanTag,
   .jmpeq 9 .vlanTag 2 0x800,
   .jmp 10,
   .extract .ipv4,
   .table,
   .jmpneqDrop 13 0,
   .emitTx [.ethernet, .vlanTag, .ipv4],
   .drop]

/-! ## Threads -/

/-- `struct rte_swx_pkt`, with the mbuf behind the handle as it was received. -/
structure Pkt where
  handle : MbufPtr
  mbuf : RteMbuf
  offset : UInt32
  length : UInt32

/-- `struct header_out_runtime`. -/
structure HeaderOut where
  ptr0 : Addr
  ptr : Addr
  nBytes : Nat

/-- The lookup's mailbox: the visit it is at and the key hashed at the first one. -/
structure Mailbox where
  state : Nat
  key : UInt32

/-- The parts of `struct thread` the program uses. The list `headersOut` stands for the
array and `n_headers_out`. -/
structure Thread where
  ip : Nat
  pkt : Pkt
  ptr : Addr
  structs : Header → Addr
  validHeaders : Header → Bool
  headersOut : List HeaderOut
  mailbox : Mailbox
  ingressPort : UInt32
  metaDrop : UInt8
  egressPort : UInt32

/-- `thread_ip_inc`. -/
def Thread.next (t : Thread) : Thread := { t with ip := t.ip + 1 }

/-- `__instr_hdr_extract_many_exec` for one header. -/
def Thread.extract (t : Thread) (h : Header) : Thread :=
  { t with
    structs := fun h' => if h' = h then t.ptr else t.structs h'
    validHeaders := fun h' => h' = h || t.validHeaders h'
    ptr := t.ptr.add h.nBytes
    pkt := { t.pkt with
      offset := t.pkt.offset + UInt32.ofNat h.nBytes
      length := t.pkt.length - UInt32.ofNat h.nBytes } }

/-- One header of `__instr_hdr_emit_many_exec`: an adjacent one joins the last block. -/
def emitHeader (i : ThreadId) (t : Thread) (out : List HeaderOut) (h : Header) : List HeaderOut :=
  if t.validHeaders h then
    match out.getLast? with
    | none => [⟨h.ptr0 i, t.structs h, h.nBytes⟩]
    | some ho =>
      if ho.ptr.add ho.nBytes = t.structs h then
        out.dropLast ++ [{ ho with nBytes := ho.nBytes + h.nBytes }]
      else out ++ [⟨h.ptr0 i, t.structs h, h.nBytes⟩]
  else out

/-- `__instr_hdr_emit_many_exec`. -/
def Thread.emitMany (i : ThreadId) (t : Thread) (hs : List Header) : Thread :=
  { t with headersOut := hs.foldl (emitHeader i t) t.headersOut }

/-- The packet after `n` header bytes were put back in front of it. -/
def Pkt.grow (p : Pkt) (n : Nat) : Pkt :=
  { p with offset := p.offset - UInt32.ofNat n, length := p.length + UInt32.ofNat n }

/-- `emit_handler`: the bytes it stores, if any, and the packet it leaves. -/
def Thread.emitHandler (mem : Mem Region) (t : Thread) : Option (Addr × List UInt8) × Pkt :=
  -- no header change or decapsulation
  match t.headersOut with
  | [h0] =>
    if h0.ptr.add h0.nBytes = t.ptr then (none, t.pkt.grow h0.nBytes)
    else (some (t.ptr.sub h0.nBytes, mem.bytes h0.ptr h0.nBytes), t.pkt.grow h0.nBytes)
  -- encapsulation copies the first block only
  | [h0, h1] =>
    let offset := h0.nBytes + h1.nBytes
    if h1.ptr.add h1.nBytes = t.ptr ∧ h0.ptr = h0.ptr0 then
      (some (t.ptr.sub offset, mem.bytes h0.ptr h0.nBytes), t.pkt.grow offset)
    else
      (some (t.ptr.sub offset, mem.bytes h0.ptr h0.nBytes ++ mem.bytes h1.ptr h1.nBytes),
        t.pkt.grow offset)
  | hs =>
    let block := hs.flatMap fun h => mem.bytes h.ptr h.nBytes
    if block.length ≠ 0 then (some (t.ptr.sub block.length, block), t.pkt.grow block.length)
    else (none, t.pkt)

/-- `writer_pkt_tx`: the mbuf it passes to the driver. -/
def Pkt.tx (p : Pkt) (mem : Mem Region) : RteMbuf :=
  { p.mbuf with
    dataLen := (p.length + p.mbuf.dataLen.toUInt32 - p.mbuf.pktLen).toUInt16
    pktLen := p.length
    dataOff := p.offset.toUInt16
    buf := fun k => mem ⟨.mbuf p.handle, k⟩ }

/-! ## The pipeline -/

/-- What became of a frame. `drop` hands the packet to the last output port; `fault` is a
`tx` that reads `p->out` past its end. -/
inductive Outcome where
  | drop
  | tx (port : UInt32) (m : RteMbuf)
  | fault (port : UInt32)

/-- `p->out[port]` with `n` output ports, and its `pkt_tx`. The last port is the drop sink that
the build puts behind the configured ones; the index is not checked. -/
def portOutTx (n : Nat) (port : UInt32) (m : RteMbuf) : Outcome :=
  if port.toNat + 1 < n then .tx port m
  else if port.toNat + 1 = n then .drop
  else .fault port

/-- A frame that has left the pipeline: the thread, the frame as received, its outcome. -/
structure Done where
  thread : ThreadId
  pkt : Pkt
  outcome : Outcome

/-- A block of bytes stored while a packet was processed. -/
structure Store where
  pkt : Pkt
  ptr : Addr
  block : List UInt8

/-- The pipeline. `done` and `stores` record what was sent and stored; no instruction
reads them. Behind a `fault` the record is no longer the code's. -/
structure Engine where
  nPortsOut : Nat
  mem : Mem Region
  threads : ThreadId → Thread
  done : List Done
  stores : List Store

def Engine.setThread (s : Engine) (i : ThreadId) (t : Thread) : Engine :=
  { s with threads := fun j => if j = i then t else s.threads j }

@[simp] theorem setThread_same (s : Engine) (i : ThreadId) (t : Thread) :
    (s.setThread i t).threads i = t := if_pos rfl

@[simp] theorem setThread_other (s : Engine) {i j : ThreadId} (t : Thread) (h : j ≠ i) :
    (s.setThread i t).threads j = s.threads j := if_neg h

@[simp] theorem setThread_setThread (s : Engine) (i : ThreadId) (t t' : Thread) :
    (s.setThread i t).setThread i t' = s.setThread i t' := by
  simp only [Engine.setThread, Engine.mk.injEq, and_true, true_and]
  funext j
  split <;> rfl

@[simp] theorem setThread_mem (s : Engine) (i : ThreadId) (t : Thread) :
    (s.setThread i t).mem = s.mem := rfl

/-- Thread `i` stores `block` at `p`. -/
def Engine.store (s : Engine) (i : ThreadId) (p : Addr) (block : List UInt8) : Engine :=
  { s with mem := s.mem.write p block, stores := ⟨(s.threads i).pkt, p, block⟩ :: s.stores }

@[simp] theorem store_threads (s : Engine) (i : ThreadId) (p : Addr) (block : List UInt8) :
    (s.store i p block).threads = s.threads := rfl

/-- The packet is given away and the thread is back at `rx`. -/
def Engine.finish (s : Engine) (i : ThreadId) (o : Outcome) : Engine :=
  { s.setThread i { s.threads i with ip := 0 } with done := ⟨i, (s.threads i).pkt, o⟩ :: s.done }

/-- The actions. `mov h.ipv4.src_addr t.class` goes through the header pointer, whether
the header is valid or not. -/
def Engine.action (s : Engine) (i : ThreadId) : Action → Engine
  | .noAction => s
  | .send port class_ =>
    let t := s.threads i
    (s.setThread i { t with egressPort := port, metaDrop := 0 }).store i
      ((t.structs .ipv4).add 12) (beBytes class_)
  | .drop_1 => s.setThread i { s.threads i with metaDrop := 1 }

/-- The four bytes the lookup reads: `dst_addr` through the header pointer. -/
def Engine.tableKey (s : Engine) (i : ThreadId) : UInt32 :=
  s.mem.be32 (((s.threads i).structs .ipv4).add 16)

/-- The action the last visit of a lookup finds. -/
def Engine.lookupResult (tbl : Ipv4Host) (s : Engine) (i : ThreadId) : Action :=
  let key := s.tableKey i
  let first := (s.threads i).mailbox.key
  if first = key ∨ tbl.sameBucket first key then tbl.lookup key else .noAction

/-- `table_lookup` and the action: hash the key, compare the signatures, compare the key. -/
def Engine.tableExec (tbl : Ipv4Host) (s : Engine) (i : ThreadId) : Engine :=
  let t := s.threads i
  match t.mailbox.state with
  | 0 => s.setThread i { t with mailbox := ⟨1, s.tableKey i⟩ }
  | 1 => s.setThread i { t with mailbox := { t.mailbox with state := 2 } }
  | _ =>
    (s.setThread i { t.next with mailbox := { t.mailbox with state := 0 } }).action i
      (s.lookupResult tbl i)

/-- The fused `emit`s and `tx`. -/
def Engine.emitTx (s : Engine) (i : ThreadId) (hs : List Header) : Engine :=
  let t := (s.threads i).emitMany i hs
  let (block, pkt) := t.emitHandler s.mem
  let s := s.setThread i t
  let s := match block with
    | none => s
    | some (p, bs) => s.store i p bs
  s.finish i (portOutTx s.nPortsOut t.egressPort (pkt.tx s.mem))

/-- One instruction on thread `i`. A thread at `rx` waits for a packet. -/
def Engine.execInstr (tbl : Ipv4Host) (s : Engine) (i : ThreadId) : Instr → Engine
  | .rx => s
  | .movDrop v => s.setThread i { (s.threads i).next with metaDrop := v }
  | .extract h => s.setThread i ((s.threads i).next.extract h)
  | .jmpeq target h offset v =>
    let t := s.threads i
    if s.mem.be16 ((t.structs h).add offset) = v then s.setThread i { t with ip := target }
    else s.setThread i t.next
  | .jmp target => s.setThread i { s.threads i with ip := target }
  | .table => s.tableExec tbl i
  | .jmpneqDrop target v =>
    let t := s.threads i
    if t.metaDrop ≠ v then s.setThread i { t with ip := target } else s.setThread i t.next
  | .emitTx hs => s.emitTx i hs
  | .drop => s.finish i .drop

/-- The instruction thread `i` stands at. -/
def Engine.exec (tbl : Ipv4Host) (s : Engine) (i : ThreadId) : Engine :=
  match apply[(s.threads i).ip]? with
  | none => s
  | some instr => s.execInstr tbl i instr

/-- The buffer is attached to a packet some thread is working on. -/
def Engine.InFlight (s : Engine) (handle : MbufPtr) : Prop :=
  ∃ j, (s.threads j).ip ≠ 0 ∧ (s.threads j).pkt.handle = handle

instance (s : Engine) (handle : MbufPtr) : Decidable (s.InFlight handle) :=
  inferInstanceAs (Decidable (∃ j, (s.threads j).ip ≠ 0 ∧ (s.threads j).pkt.handle = handle))

/-- The thread after `__instr_rx_exec` received `m`. -/
def Thread.received (t : Thread) (port : UInt32) (handle : MbufPtr) (m : RteMbuf) : Thread :=
  { t with
    ip := 1
    pkt := ⟨handle, m, m.dataOff.toUInt32, m.pktLen⟩
    ptr := ⟨.mbuf handle, m.dataOff.toUInt32.toNat⟩
    validHeaders := fun _ => false
    headersOut := []
    ingressPort := port }

/-- `rx` on thread `i`. The pool does not give out a buffer that is in flight, and the
network card has filled the buffer before the packet is handed over. Without a packet
the thread stays where it is, its headers forgotten. -/
def Engine.rx (s : Engine) (i : ThreadId) (port : UInt32) : Option (MbufPtr × RteMbuf) → Engine
  | none =>
    let t := s.threads i
    if t.ip = 0 then
      s.setThread i { t with
        ptr := ⟨.mbuf t.pkt.handle, t.pkt.offset.toNat⟩
        validHeaders := fun _ => false
        headersOut := []
        ingressPort := port }
    else s
  | some (handle, m) =>
    if (s.threads i).ip = 0 ∧ ¬ s.InFlight handle then
      { s.setThread i ((s.threads i).received port handle m) with
        mem := fun q => if q.region = .mbuf handle then m.buf q.off else s.mem q }
    else s

inductive Op where
  | rx (i : ThreadId) (port : UInt32) (pkt : Option (MbufPtr × RteMbuf))
  | exec (i : ThreadId)

def Engine.step (tbl : Ipv4Host) (s : Engine) : Op → Engine
  | .rx i port pkt => s.rx i port pkt
  | .exec i => s.exec tbl i

/-! ## The pipeline once built -/

/-- A zeroed mbuf, behind the handle no thread has used yet. -/
def zeroMbuf : RteMbuf := ⟨0, 0, 0, 0, 0, [], fun _ => 0⟩

/-- `header_build`: the header pointers of a fresh thread lead to its own zeroed storage. -/
def Thread.build (i : ThreadId) : Thread where
  ip := 0
  pkt := ⟨0, zeroMbuf, 0, 0⟩
  ptr := ⟨.mbuf 0, 0⟩
  structs := Header.ptr0 i
  validHeaders := fun _ => false
  headersOut := []
  mailbox := ⟨0, 0⟩
  ingressPort := 0
  metaDrop := 0
  egressPort := 0

/-- `rte_swx_pipeline_build` of a pipeline with `nPorts` output ports configured. -/
def Engine.build (nPorts : Nat) : Engine where
  nPortsOut := nPorts + 1
  mem := fun _ => 0
  threads := Thread.build
  done := []
  stores := []

end P4Switch.L3
