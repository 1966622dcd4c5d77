import P4Switch.Ixgbe.BurstSpec

/-! # The unmodified transmit paths

The vector burst before the change, which the `// original` lines and the NEON file still
show, and the scalar `tx_xmit_pkts` with its own cleanup. Both send every packet they
take on. -/
namespace P4Switch.Ixgbe
open P4Switch.Lib.MachineInt P4Switch.Lib.Fill

/-! ## The vector burst -/

/-- `vtx1`: one descriptor, whatever the packet's class. -/
def vtx1 (b : Burst) (flags txdp p : Nat) (s : Driver) : Driver :=
  (s.emit [.readPkt p]).store txdp ((b.pkt p).desc flags)

/-- The loop over `vtx1`, before the end of the ring and in the original `vtx`. -/
def vtxOriginal (b : Burst) (flags : Nat) : Nat → Nat → Nat → Driver → Driver
  | 0, _, _, s => s
  | c + 1, txdp, p, s => vtxOriginal b flags c (txdp + 1) (p + 1) (vtx1 b flags txdp p s)

/-- The original cleanup test: no log is opened before it. -/
def prepareOriginal (b : Burst) (s : Driver) : Driver :=
  if s.txq.nbTxFree < s.txq.txFreeThresh then (ixgbeTxFreeBufs b.toHeap s).2 else s

/-- The end of the original burst, with `nb_commit` packets from `p` on left. -/
def xmitRestOriginal (b : Burst) (nbPkts txId p nbCommit : Nat) (s : Driver) : Nat × Driver :=
  let s := txBacklogEntry b txId p nbCommit s
  let s := vtxOriginal b flags nbCommit txId p s
  let txId := u16 ((txId : Int) + nbCommit)
  let s :=
    if txId > s.txq.txNextRs then
      s.reportAtNextRs.setTxNextRs (s.txq.txNextRs + s.txq.txRsThresh)
    else s
  (nbPkts, s.publish txId)

/-- The original branch `if (nb_commit >= n)`. -/
def xmitRingEndOriginal (b : Burst) (n : Nat) (s : Driver) : Driver :=
  let txId := s.txq.txTail
  let s := txBacklogEntry b txId 0 n s
  let s := vtxOriginal b flags (n - 1) txId 0 s
  let s := vtx1 b rs (txId + (n - 1)) (n - 1) s
  s.setTxNextRs ((s.txq.txRsThresh : Int) - 1)

/-- The original burst, with `nb_tx_free` already reduced by the `k` packets taken on. -/
def sendOriginal (b : Burst) (k : Nat) (s : Driver) : Nat × Driver :=
  let n := ringLeft s.txq
  if k ≥ n then
    xmitRestOriginal b k 0 (n - 1 + 1) (u16 ((k : Int) - n)) (xmitRingEndOriginal b n s)
  else xmitRestOriginal b k s.txq.txTail 0 k s

/-- `ixgbe_xmit_fixed_burst_vec` of the NEON file. -/
def ixgbeXmitFixedBurstVecOriginal (b : Burst) (s : Driver) : Nat × Driver :=
  let s := prepareOriginal b s
  let k := min s.txq.nbTxFree (min b.nbPkts s.txq.txRsThresh)
  if k = 0 then (0, s) else sendOriginal b k (s.setNbTxFree (s.txq.nbTxFree - k))

/-! ## The scalar path -/

/-- The descriptor of `tx1` and `tx4`: the payload length is that of the first segment. -/
def RteMbuf.descSimple (m : RteMbuf) : AdvTxDesc where
  bufferAddr := (m.bufIova.toNat + m.dataOff.toNat) % 2 ^ 64
  cmdTypeLen := DCMD_DTYP_FLAGS ||| m.dataLen.toNat
  olinfoStatus := (m.dataLen.toNat <<< IXGBE_ADVTXD_PAYLEN_SHIFT) % 2 ^ 32

def tx1 (b : Burst) (txdp p : Nat) (s : Driver) : Driver :=
  (s.emit [.readPkt p]).store txdp (b.pkt p).descSimple

def tx4 (b : Burst) (txdp p : Nat) (s : Driver) : Driver :=
  tx1 b (txdp + 3) (p + 3) (tx1 b (txdp + 2) (p + 2) (tx1 b (txdp + 1) (p + 1) (tx1 b txdp p s)))

/-- The main loop of `ixgbe_tx_fill_hw_ring`, four packets at a time. -/
def fillMain (b : Burst) : Nat → Nat → Nat → Driver → Driver
  | _, _, 0, s => s
  | tx, p, c + 1, s => fillMain b (tx + 4) (p + 4) c (tx4 b tx p (txBacklogEntry b tx p 4 s))

/-- Its loop over the packets left over. -/
def fillLeftover (b : Burst) : Nat → Nat → Nat → Driver → Driver
  | _, _, 0, s => s
  | tx, p, c + 1, s => fillLeftover b (tx + 1) (p + 1) c (tx1 b tx p (txBacklogEntry b tx p 1 s))

/-- `ixgbe_tx_fill_hw_ring` with `pkts` at `p`. -/
def ixgbeTxFillHwRing (b : Burst) (p nbPkts : Nat) (s : Driver) : Driver :=
  let mainpart := 4 * (nbPkts / 4)
  let leftover := nbPkts % 4
  fillLeftover b (s.txq.txTail + mainpart) (p + mainpart) leftover
    (fillMain b s.txq.txTail p (nbPkts / 4) s)

/-- The loop of the scalar `ixgbe_tx_free_bufs`, with `free[0 .. nb_free-1]` so far. -/
def freeSimple (h : Heap) : List MbufPtr → List (Option MbufPtr) → List Event
  | [], [] => []
  | hd :: acc, [] => [.put (h.mbuf hd).pool (hd :: acc)]
  | free, slot :: slots =>
    freeEvent h .done slot ::
      match prefreeSeg h slot, free with
      | none, free => freeSimple h free slots
      | some m, [] => freeSimple h [m] slots
      | some m, hd :: acc =>
        if acc.length + 1 ≥ RTE_IXGBE_TX_MAX_FREE_BUF_SZ ∨ (h.mbuf m).pool ≠ (h.mbuf hd).pool then
          .put (h.mbuf hd).pool (hd :: acc) :: freeSimple h [m] slots
        else freeSimple h (hd :: acc ++ [m]) slots

/-- The scalar `ixgbe_tx_free_bufs`, which clears the entries it frees. -/
def ixgbeTxFreeBufsSimple (h : Heap) (s : Driver) : Nat × Driver :=
  if (s.txq.txRing s.txq.txNextDd).dd = false then (0, s)
  else
    let s := s.emit (freeSimple h [] s.txq.ddSlots)
    let first := s.txq.firstDd
    let s := { s with txq := { s.txq with
      swRingV := fill (fun _ => none) first 0 s.txq.txRsThresh s.txq.swRingV } }
    let s := s.setNbTxFree (s.txq.nbTxFree + s.txq.txRsThresh)
    let s := s.setTxNextDd (s.txq.txNextDd + s.txq.txRsThresh)
    let s :=
      if s.txq.txNextDd ≥ s.txq.nbTxDesc then s.setTxNextDd ((s.txq.txRsThresh : Int) - 1)
      else s
    (s.txq.txRsThresh, s)

/-- The boundary test of the scalar path, which wraps `tx_next_rs`. -/
def scalarBoundary (s : Driver) : Driver :=
  if s.txq.txTail > s.txq.txNextRs then
    let s := s.reportAtNextRs.setTxNextRs (s.txq.txNextRs + s.txq.txRsThresh)
    if s.txq.txNextRs ≥ s.txq.nbTxDesc then s.setTxNextRs ((s.txq.txRsThresh : Int) - 1) else s
  else s

def Driver.setTxTail (s : Driver) (x : Int) : Driver :=
  { s with txq := { s.txq with txTail := u16 x }, trace := s.trace ++ [.u16 x] }

def prepareSimple (b : Burst) (s : Driver) : Driver :=
  if s.txq.nbTxFree < s.txq.txFreeThresh then (ixgbeTxFreeBufsSimple b.toHeap s).2 else s

/-- The scalar wrap: the packets up to the end of the ring, and RS at `tx_next_rs`. -/
def scalarRingEnd (b : Burst) (n : Nat) (s : Driver) : Driver :=
  let s := (ixgbeTxFillHwRing b 0 n s).reportAtNextRs
  (s.setTxNextRs ((s.txq.txRsThresh : Int) - 1)).setTxTail 0

/-- The end of `tx_xmit_pkts`, with `n` of the `k` packets sent before the wrap. -/
def scalarRest (b : Burst) (n k : Nat) (s : Driver) : Nat × Driver :=
  let s := ixgbeTxFillHwRing b n (u16 ((k : Int) - n)) s
  let s := scalarBoundary (s.setTxTail (s.txq.txTail + (k - n)))
  let s := if s.txq.txTail ≥ s.txq.nbTxDesc then s.setTxTail 0 else s
  (k, s.publish s.txq.txTail)

/-- `tx_xmit_pkts` on `nbPkts` packets. -/
def txXmitPkts (b : Burst) (nbPkts : Nat) (s : Driver) : Nat × Driver :=
  let s := prepareSimple b s
  let k := min s.txq.nbTxFree nbPkts
  if k = 0 then (0, s)
  else
    let s := s.setNbTxFree (s.txq.nbTxFree - k)
    if s.txq.txTail + k > s.txq.nbTxDesc then
      scalarRest b (ringLeft s.txq) k (scalarRingEnd b (ringLeft s.txq) s)
    else scalarRest b 0 k s

/-! ## What the loops leave -/

/-- The queue after a loop that posts `desc` for each of the packets from `p` on. -/
def IxgbeTxQueue.posted (q : IxgbeTxQueue) (desc : Nat → AdvTxDesc) (tx p c : Nat) :
    IxgbeTxQueue :=
  { q with txRing := fill desc tx p c q.txRing }

theorem vtxOriginal_txq (b : Burst) (f c tx p : Nat) (s : Driver) :
    (vtxOriginal b f c tx p s).txq = s.txq.posted (fun i => (b.pkt i).desc f) tx p c := by
  induction c generalizing tx p s with
  | zero => simp [vtxOriginal, IxgbeTxQueue.posted]
  | succ c ih =>
    rw [vtxOriginal, ih]
    simp only [IxgbeTxQueue.posted, vtx1, Driver.store, Driver.emit]
    rw [fill_succ (fun i => (b.pkt i).desc f)]

theorem txBacklogEntry_txq (b : Burst) (tx p c : Nat) (s : Driver) :
    (txBacklogEntry b tx p c s).txq =
      { s.txq with swRingV := b.backlog tx p c s.txq.swRingV } := by rw [txBacklogEntry_eq]

theorem tx1_txq (b : Burst) (tx p : Nat) (s : Driver) :
    (tx1 b tx p s).txq = s.txq.posted (fun i => (b.pkt i).descSimple) tx p 1 := by
  simp only [IxgbeTxQueue.posted, fill_one]
  rfl

theorem posted_posted (q : IxgbeTxQueue) (desc : Nat → AdvTxDesc) (tx p c d : Nat) :
    (q.posted desc tx p c).posted desc (tx + c) (p + c) d = q.posted desc tx p (c + d) := by
  simp only [IxgbeTxQueue.posted, fill_append]

theorem tx4_txq (b : Burst) (tx p : Nat) (s : Driver) :
    (tx4 b tx p s).txq = s.txq.posted (fun i => (b.pkt i).descSimple) tx p 4 := by
  simp only [tx4, tx1_txq, posted_posted]

/-- The queue after `c` packets have been filled in on the scalar path. -/
def IxgbeTxQueue.filled (q : IxgbeTxQueue) (b : Burst) (tx p c : Nat) : IxgbeTxQueue :=
  { q with
    swRingV := b.backlog tx p c q.swRingV
    txRing := fill (fun i => (b.pkt i).descSimple) tx p c q.txRing }

theorem filled_filled (q : IxgbeTxQueue) (b : Burst) (tx p c d : Nat) :
    (q.filled b tx p c).filled b (tx + c) (p + c) d = q.filled b tx p (c + d) := by
  simp only [IxgbeTxQueue.filled, backlog_eq_fill, fill_append]

theorem fillMain_txq (b : Burst) (tx p c : Nat) (s : Driver) :
    (fillMain b tx p c s).txq = s.txq.filled b tx p (4 * c) := by
  induction c generalizing tx p s with
  | zero => simp [fillMain, IxgbeTxQueue.filled, backlog_eq_fill]
  | succ c ih =>
    have h4 : (tx4 b tx p (txBacklogEntry b tx p 4 s)).txq = s.txq.filled b tx p 4 := by
      rw [tx4_txq, txBacklogEntry_txq]
      rfl
    rw [fillMain, ih, h4, filled_filled, Nat.mul_succ, Nat.add_comm 4]

theorem fillLeftover_txq (b : Burst) (tx p c : Nat) (s : Driver) :
    (fillLeftover b tx p c s).txq = s.txq.filled b tx p c := by
  induction c generalizing tx p s with
  | zero => simp [fillLeftover, IxgbeTxQueue.filled, backlog_eq_fill]
  | succ c ih =>
    have h1 : (tx1 b tx p (txBacklogEntry b tx p 1 s)).txq = s.txq.filled b tx p 1 := by
      rw [tx1_txq, txBacklogEntry_txq]
      rfl
    rw [fillLeftover, ih, h1, filled_filled, Nat.add_comm 1]

/-- The chunks of four and the leftovers together. -/
theorem ixgbeTxFillHwRing_txq (b : Burst) (p c : Nat) (s : Driver) :
    (ixgbeTxFillHwRing b p c s).txq = s.txq.filled b s.txq.txTail p c := by
  rw [ixgbeTxFillHwRing, fillLeftover_txq, fillMain_txq, filled_filled, Nat.div_add_mod]

end P4Switch.Ixgbe
