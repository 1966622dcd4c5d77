import P4Switch.Ixgbe.Vtx

/-! # The burst, the cleanup, the release and the NIC

`ixgbe_xmit_fixed_burst_vec` in the order of the source: open the log, clip the burst,
clean up when few descriptors are free, send up to the end of the ring, send the rest,
set the RS bit at the boundary, publish the tail. -/
namespace P4Switch.Ixgbe
open P4Switch.Lib.MachineInt

/-- The plain flags and the flags of the last descriptor of the ring. -/
def flags : Nat := DCMD_DTYP_FLAGS
def rs : Nat := IXGBE_ADVTXD_DCMD_RS ||| DCMD_DTYP_FLAGS

/-! ## Stores into 16-bit fields -/

def Driver.setNbTxFree (s : Driver) (x : Int) : Driver :=
  { s with txq := { s.txq with nbTxFree := u16 x }, trace := s.trace ++ [.u16 x] }

def Driver.setTxNextRs (s : Driver) (x : Int) : Driver :=
  { s with txq := { s.txq with txNextRs := u16 x }, trace := s.trace ++ [.u16 x] }

def Driver.setTxNextDd (s : Driver) (x : Int) : Driver :=
  { s with txq := { s.txq with txNextDd := u16 x }, trace := s.trace ++ [.u16 x] }

/-- `tx_ring[tx_next_rs].read.cmd_type_len |= IXGBE_ADVTXD_DCMD_RS`. -/
def Driver.reportAtNextRs (s : Driver) : Driver :=
  let i := s.txq.txNextRs
  { s with txq := { s.txq with txRing := Function.update s.txq.txRing i (s.txq.txRing i).orRs },
           trace := s.trace ++ [.setRs i] }

/-- The new tail, in the queue and in the TDT register. -/
def Driver.publish (s : Driver) (txId : Nat) : Driver :=
  { s with txq := { s.txq with txTail := txId }, tdt := txId, trace := s.trace ++ [.tdt txId] }

/-! ## Cleanup -/

/-- `rte_pktmbuf_prefree_seg`. The code does not get past a `NULL` slot: the event that one
leaves is the last of the code's (`Driver.Faulted`). -/
def prefreeSeg (h : Heap) (m : Option MbufPtr) : Option MbufPtr := m.filter h.lastRef

def freeEvent (h : Heap) (k : FreeKind) (m : Option MbufPtr) : Event :=
  .free k m (m.any h.lastRef)

/-- The bulk loop of `ixgbe_tx_free_bufs`, with `free[] = hd :: acc`: mbufs of one pool
are gathered and put back together. -/
def bulkLoop (h : Heap) (hd : MbufPtr) (acc : List MbufPtr) : List (Option MbufPtr) → List Event
  | [] => [.put (h.mbuf hd).pool (hd :: acc)]
  | slot :: slots =>
    freeEvent h .done slot ::
      match prefreeSeg h slot with
      | none => bulkLoop h hd acc slots
      | some m =>
        if (h.mbuf m).pool = (h.mbuf hd).pool then bulkLoop h hd (acc ++ [m]) slots
        else .put (h.mbuf hd).pool (hd :: acc) :: bulkLoop h m [] slots

/-- The loop taken when the first mbuf is still referenced elsewhere. -/
def singleLoop (h : Heap) : List (Option MbufPtr) → List Event
  | [] => []
  | slot :: slots =>
    freeEvent h .done slot ::
      match prefreeSeg h slot with
      | none => singleLoop h slots
      | some m => .put (h.mbuf m).pool [m] :: singleLoop h slots

/-- The events of freeing `txep[0 .. n-1]`. -/
def freeSlots (h : Heap) : List (Option MbufPtr) → List Event
  | [] => []
  | slot :: slots =>
    freeEvent h .done slot ::
      match prefreeSeg h slot with
      | some m => bulkLoop h m [] slots
      | none => singleLoop h slots

/-- The index of the first buffer to free. -/
def IxgbeTxQueue.firstDd (q : IxgbeTxQueue) : Nat := q.txNextDd - (q.txRsThresh - 1)

/-- The software ring entries `txep[0 .. tx_rs_thresh-1]`. -/
def IxgbeTxQueue.ddSlots (q : IxgbeTxQueue) : List (Option MbufPtr) :=
  (List.range q.txRsThresh).map fun i => q.swRingV (q.firstDd + i)

/-- `ixgbe_tx_free_bufs` of the vector path. -/
def ixgbeTxFreeBufs (h : Heap) (s : Driver) : Nat × Driver :=
  if (s.txq.txRing s.txq.txNextDd).dd = false then (0, s)
  else
    let s := s.emit (freeSlots h (s.txq.ddSlots))
    let s := s.setNbTxFree (s.txq.nbTxFree + s.txq.txRsThresh)
    let s := s.setTxNextDd (s.txq.txNextDd + s.txq.txRsThresh)
    let s :=
      if s.txq.txNextDd ≥ s.txq.nbTxDesc then s.setTxNextDd ((s.txq.txRsThresh : Int) - 1)
      else s
    (s.txq.txRsThresh, s)

/-! ## The burst -/

/-- The locals that change at the end of the ring: `tx_id`, the position reached in
`tx_pkts`, `nb_commit` and `num_pkt_sent`. -/
structure Cursor where
  txId : Nat
  pkt : Nat
  nbCommit : Nat
  num : Nat
  drv : Driver

/-- The branch `if (nb_commit >= n)`: the packets up to the end of the ring. -/
def xmitRingEnd (b : Burst) (n nbCommit : Nat) (s : Driver) : Cursor :=
  let txId := s.txq.txTail
  let s := txBacklogEntry b txId 0 n s
  let (num, s) := ringEndLoop b flags (n - 1) txId 0 0 s
  let (v, s) := davidisVtx1 b rs (txId + (n - 1)) (n - 1) (s.emit [.readPkt (n - 1)])
  let num := u64 (num + v)
  let nbCommit := u16 (nbCommit - num)
  let s := s.emit [.wrap]
  let s := s.setTxNextRs ((s.txq.txRsThresh : Int) - 1)
  ⟨0, n - 1 + 1, nbCommit, num, s⟩

/-- The rest of the burst, from the cursor on. -/
def xmitRest (b : Burst) (nbPkts : Nat) (c : Cursor) : Nat × Driver :=
  let s := txBacklogEntry b c.txId c.pkt c.nbCommit c.drv
  let (v, s) := vtx b flags c.txId c.pkt c.nbCommit s
  let num := u64 (c.num + v)
  let txId := u16 (c.txId + num)
  let s := s.emit [.u16 (c.txId + num)]
  let s :=
    if txId > s.txq.txNextRs then
      s.reportAtNextRs.setTxNextRs (s.txq.txNextRs + s.txq.txRsThresh)
    else s
  let s := s.setNbTxFree (s.txq.nbTxFree - num)
  let s := s.publish txId
  (nbPkts, s.emit [.log s.sum_QoS s.skipped s.packets_sent, .fclose])

/-- The state after the log is opened and, when few descriptors are free, the cleanup. -/
def prepare (b : Burst) (s : Driver) : Driver :=
  let s := s.emit [.fopen]
  if s.txq.nbTxFree < s.txq.txFreeThresh then (ixgbeTxFreeBufs b.toHeap s).2 else s

/-- The number of packets the call takes on and returns. -/
def nbPkts (b : Burst) (s : Driver) : Nat :=
  min (prepare b s).txq.nbTxFree (min b.nbPkts s.txq.txRsThresh)

/-- The number of descriptors up to the end of the ring. -/
def ringLeft (q : IxgbeTxQueue) : Nat := u16 ((q.nbTxDesc : Int) - q.txTail)

/-- `ixgbe_xmit_fixed_burst_vec`: the value returned and the state after the call. -/
def ixgbeXmitFixedBurstVec (b : Burst) (s : Driver) : Nat × Driver :=
  let k := nbPkts b s
  let s := prepare b s
  if k = 0 then (0, s)
  else
    let n := ringLeft s.txq
    if k ≥ n then xmitRest b k (xmitRingEnd b n k s)
    else xmitRest b k ⟨s.txq.txTail, 0, k, 0, s⟩

/-! ## Release and NIC -/

/-- `tx_next_dd - (tx_rs_thresh - 1)`, stored in an `unsigned int`. -/
def IxgbeTxQueue.releaseStart (q : IxgbeTxQueue) : Nat :=
  unsigned 32 ((q.txNextDd : Int) - ((q.txRsThresh : Int) - 1))

/-- The walk of `_ixgbe_tx_queue_release_mbufs_vec` from index `i`; `none` when it has
not reached `tx_tail` after `fuel` steps, and when it hands `rte_pktmbuf_free_seg` a `NULL`. -/
def releaseLoop (h : Heap) (q : IxgbeTxQueue) : Nat → Nat → Option (List Event)
  | fuel, i =>
    if i = q.txTail then some []
    else match fuel, q.swRingV i with
      | 0, _ => none
      | _ + 1, none => none
      | fuel + 1, some m =>
        (releaseLoop h q fuel ((i + 1) % q.nbTxDesc)).map (rtePktmbufFreeSeg h .release m ++ ·)

/-- `_ixgbe_tx_queue_release_mbufs_vec`, with as many steps as there are descriptors. -/
def ixgbeTxQueueReleaseMbufsVec (h : Heap) (s : Driver) : Option Driver :=
  let maxDesc := u16 ((s.txq.nbTxDesc : Int) - 1)
  if s.txq.nbTxFree = maxDesc then some s
  else
    (releaseLoop h s.txq s.txq.nbTxDesc s.txq.releaseStart).map fun es =>
      { s with
        txq := { s.txq with
          nbTxFree := maxDesc
          swRingV := fun i => if i < s.txq.nbTxDesc then none else s.txq.swRingV i }
        trace := s.trace ++ es }

/-- The NIC completes the descriptor at its head, if software has handed it over: a
descriptor posted with RS is written back with DD. -/
def nicComplete (s : Driver) : Driver :=
  if s.tdh = s.tdt then s
  else
    let d := s.txq.txRing s.tdh
    let ring := if d.rs then Function.update s.txq.txRing s.tdh d.orDd else s.txq.txRing
    { s with txq := { s.txq with txRing := ring }
             tdh := (s.tdh + 1) % s.txq.nbTxDesc
             trace := s.trace ++ [.complete s.tdh] }

/-! ## Faults -/

/-- The event is a `NULL` handed to `rte_pktmbuf_prefree_seg` or a store past the end of one of
the two rings of `nb` entries. -/
def Event.isFault (nb : Nat) : Event → Bool
  | .free _ none _ => true
  | .swStore i _ => nb ≤ i
  | .store i _ => nb ≤ i
  | _ => false

/-- The code has crashed, or written past a ring, on its way here: what follows in the model is
not behaviour of the code. -/
def Driver.Faulted (s : Driver) : Prop := s.trace.any (Event.isFault s.txq.nbTxDesc) = true

instance (s : Driver) : Decidable s.Faulted := inferInstanceAs (Decidable (_ = true))

/-! ## Runs -/

/-- What can happen to a queue between its reset and its release. -/
inductive Op where
  | burst (b : Burst)
  | freeBufs (h : Heap)
  | nic

def step (s : Driver) : Op → Driver
  | .burst b => (ixgbeXmitFixedBurstVec b s).2
  | .freeBufs h => (ixgbeTxFreeBufs h s).2
  | .nic => nicComplete s

/-- The driver with a queue just handed to it: registers, counters and trace are fresh. -/
def Driver.ofQueue (q : IxgbeTxQueue) : Driver where
  txq := q
  tdt := 0
  tdh := 0
  sum_QoS := 0
  skipped := 0
  packets_sent := 0
  trace := []

/-- The state after a burst on a queue. -/
def afterBurst (b : Burst) (q : IxgbeTxQueue) : Driver :=
  (ixgbeXmitFixedBurstVec b (.ofQueue q)).2

/-- The driver after the set-up of a queue. -/
def Driver.reset (q : QueueConf) : Driver := Driver.ofQueue (ixgbeResetTxQueueVec q)

end P4Switch.Ixgbe
