import P4Switch.Ixgbe.Queue

/-! # One packet: `davidis_vtx1`, and the loops that call it

The driver's state is the queue, the two NIC registers and the three global counters.
Every access that a property speaks about (array reads, ring writes, frees, stdio calls)
is appended to a trace; nothing reads the trace back. What the driver finds outside its
own memory is an input of the call: the mbufs, the counter files at the moment they are
read, and the value that the uninitialised `ret` of `vtx` happens to hold. -/
namespace P4Switch.Ixgbe
open P4Switch.QosBuffer P4Switch.Lib.MachineInt

/-- Where an mbuf reference is given up. -/
inductive FreeKind where
  | drop      -- `rte_pktmbuf_free` in `davidis_vtx1`
  | seg       -- a further segment of a dropped packet
  | done      -- `ixgbe_tx_free_bufs`
  | release   -- `_ixgbe_tx_queue_release_mbufs_vec`
  deriving DecidableEq, Repr

inductive Event where
  | fopen
  | fclose
  | readPkt (i : Nat)
  | swStore (i : Nat) (m : MbufPtr)
  | bufRead (f : BufferFile)
  | bufTrunc (f : BufferFile)
  | bufWrite (f : BufferFile) (v : Int)
  | store (i : Nat) (d : AdvTxDesc)
  | setRs (i : Nat)
  | wrap
  | u16 (exact : Int)
  | free (k : FreeKind) (m : Option MbufPtr) (last : Bool)
  | put (pool : Nat) (ms : List MbufPtr)
  | tdt (v : Nat)
  | log (sumQoS skipped packetsSent : Int)
  | complete (i : Nat)
  deriving DecidableEq, Repr

structure Driver where
  txq : IxgbeTxQueue
  tdt : Nat
  tdh : Nat
  sum_QoS : Int
  skipped : Int
  packets_sent : Int
  trace : List Event

/-- The mbufs at the time of a call. `lastRef m` says that the driver's reference is the
last one, so that `rte_pktmbuf_prefree_seg` hands the mbuf back for its pool. -/
structure Heap where
  mbuf : MbufPtr → RteMbuf
  lastRef : MbufPtr → Bool

/-- One call of `ixgbe_xmit_fixed_burst_vec`: its arguments and what it meets. `txPkts i`
is the pointer found at `tx_pkts[i]`, also past the caller's array. For packet `i`,
`scan i` is what `fscanf` finds in the class's counter file, and `policy i` the outcome of
`u < drop_probability`, both `none` at end of file. Reading the uninitialised `ret` of `vtx` is
undefined in C; here it holds one `int` throughout the call, whichever that is. -/
structure Burst extends Heap where
  txPkts : Nat → MbufPtr
  nbPkts : Nat
  policy : Nat → Option Bool
  scan : Nat → Option Int
  ret : Int

def Burst.pkt (b : Burst) (p : Nat) : RteMbuf := b.mbuf (b.txPkts p)

/-- The packet is admitted: its counter is positive when it is reached. -/
def Burst.admits (b : Burst) (p : Nat) : Bool := decide (0 < (b.scan p).getD 0)

def Driver.emit (s : Driver) (es : List Event) : Driver := { s with trace := s.trace ++ es }

/-! ## Giving mbufs back -/

/-- `rte_pktmbuf_free_seg`: the mbuf goes to its pool with its last reference. -/
def rtePktmbufFreeSeg (h : Heap) (k : FreeKind) (m : MbufPtr) : List Event :=
  .free k (some m) (h.lastRef m) :: if h.lastRef m then [.put (h.mbuf m).pool [m]] else []

/-- `rte_pktmbuf_free`: the mbuf and the segments behind it. -/
def rtePktmbufFree (h : Heap) (m : MbufPtr) : List Event :=
  rtePktmbufFreeSeg h .drop m ++ (h.mbuf m).next.flatMap (rtePktmbufFreeSeg h .seg)

/-! ## The packet -/

/-- `bufferManagementProbability`: the packet's QoS byte and the policy's decision. -/
def bufferManagementProbability (b : Burst) (p : Nat) (s : Driver) : Bool × Int × Driver :=
  let currentQoS := (b.pkt p).currentQoS
  let s := s.emit [.fopen, .fclose]
  match b.policy p with
  | none => (false, currentQoS, s)
  | some belowDropProbability => (!belowDropProbability, currentQoS, s)

def Driver.skip (s : Driver) : Driver := { s with skipped := i64 (s.skipped + 1) }

def Driver.store (s : Driver) (i : Nat) (d : AdvTxDesc) : Driver :=
  { s with txq := { s.txq with txRing := Function.update s.txq.txRing i d },
           trace := s.trace ++ [.store i d] }

/-- `davidis_vtx1` on the packet at `tx_pkts[p]`, for the descriptor `txdp`. -/
def davidisVtx1 (b : Burst) (flags txdp p : Nat) (s : Driver) : Nat × Driver :=
  let (_, currentQoS, s) := bufferManagementProbability b p s
  -- the policy's decision is overwritten at once
  let sendPacketFlag := true
  if sendPacketFlag = false then
    (0, s.skip.emit (rtePktmbufFree b.toHeap (b.txPkts p)))
  else
    let s := s.emit [.fopen, .bufRead (bufferFile currentQoS), .fclose]
    let fifoSize := (b.scan p).getD 0
    if fifoSize ≤ 0 then
      (0, s.skip.emit (rtePktmbufFree b.toHeap (b.txPkts p)))
    else
      let fifoSize := fifoSize - 1
      let s := { s with sum_QoS := i64 (s.sum_QoS + currentQoS)
                        packets_sent := i32 (s.packets_sent + 1) }
      let s := s.emit [.fopen, .bufTrunc (bufferFile currentQoS),
        .bufWrite (bufferFile currentQoS) fifoSize, .fclose]
      (1, s.store txdp ((b.pkt p).desc flags))

/-- The loop of `vtx`: `ret` is carried over the packets, never reset. -/
def vtxLoop (b : Burst) (flags : Nat) : Nat → Nat → Nat → Int → Nat → Driver → Nat × Driver
  | 0, _, _, _, num, s => (num, s)
  | c + 1, txdp, p, ret, num, s =>
    let (v, s) := davidisVtx1 b flags txdp p (s.emit [.readPkt p])
    let ret := i32 (ret + v)
    vtxLoop b flags c (txdp + 1) (p + 1) ret (u64 (num + ret)) s

def vtx (b : Burst) (flags txdp p nbPkts : Nat) (s : Driver) : Nat × Driver :=
  vtxLoop b flags nbPkts txdp p b.ret 0 s

/-- The loop `for (i = 0; i < n - 1; ...)` before the end of the ring. -/
def ringEndLoop (b : Burst) (flags : Nat) : Nat → Nat → Nat → Nat → Driver → Nat × Driver
  | 0, _, _, num, s => (num, s)
  | c + 1, txdp, p, num, s =>
    let (v, s) := davidisVtx1 b flags txdp p (s.emit [.readPkt p])
    ringEndLoop b flags c (txdp + 1) (p + 1) (u64 (num + v)) s

/-- `tx_backlog_entry` with `txep = &sw_ring_v[txep]` and `tx_pkts` at `p`. -/
def txBacklogEntry (b : Burst) : Nat → Nat → Nat → Driver → Driver
  | _, _, 0, s => s
  | txep, p, c + 1, s =>
    txBacklogEntry b (txep + 1) (p + 1) c
      { s with txq := { s.txq with swRingV := Function.update s.txq.swRingV txep (b.txPkts p) }
               trace := s.trace ++ [.readPkt p, .swStore txep (b.txPkts p)] }

/-! ## What one packet does -/

/-- The events of `davidis_vtx1`, with the caller's read of the array before them. -/
def vtx1Events (b : Burst) (flags txdp p : Nat) : List Event :=
  let f := bufferFile (b.pkt p).currentQoS
  [.readPkt p, .fopen, .fclose, .fopen, .bufRead f, .fclose] ++
    if b.admits p then
      [.fopen, .bufTrunc f, .bufWrite f ((b.scan p).getD 0 - 1), .fclose,
        .store txdp ((b.pkt p).desc flags)]
    else rtePktmbufFree b.toHeap (b.txPkts p)

/-- Whatever the policy file says, only the class's counter decides. -/
theorem davidisVtx1_eq (b : Burst) (flags txdp p : Nat) (s : Driver) :
    davidisVtx1 b flags txdp p (s.emit [.readPkt p]) =
      if b.admits p then
        (1, { s with
          txq := { s.txq with txRing := Function.update s.txq.txRing txdp ((b.pkt p).desc flags) }
          sum_QoS := i64 (s.sum_QoS + (b.pkt p).currentQoS)
          packets_sent := i32 (s.packets_sent + 1)
          trace := s.trace ++ vtx1Events b flags txdp p })
      else
        (0, { s with skipped := i64 (s.skipped + 1)
                     trace := s.trace ++ vtx1Events b flags txdp p }) := by
  unfold davidisVtx1 bufferManagementProbability
  by_cases h : b.admits p = true
  · have hf : ¬(b.scan p).getD 0 ≤ 0 := by simpa [Burst.admits] using h
    cases b.policy p <;> simp [h, hf, vtx1Events, Driver.emit, Driver.store]
  · have hf : (b.scan p).getD 0 ≤ 0 := by simpa [Burst.admits] using h
    cases b.policy p <;> simp [h, hf, vtx1Events, Driver.emit, Driver.skip]

theorem davidisVtx1_fst (b : Burst) (flags txdp p : Nat) (s : Driver) :
    (davidisVtx1 b flags txdp p (s.emit [.readPkt p])).1 = (b.admits p).toNat := by
  rw [davidisVtx1_eq]; cases b.admits p <;> rfl

/-! ## What a loop does -/

/-- The state after `davidis_vtx1` on the `c` packets from `p` on, for the descriptors
from `txdp` on. -/
def vtx1s (b : Burst) (flags : Nat) : Nat → Nat → Nat → Driver → Driver
  | 0, _, _, s => s
  | c + 1, txdp, p, s =>
    vtx1s b flags c (txdp + 1) (p + 1) (davidisVtx1 b flags txdp p (s.emit [.readPkt p])).2

/-- The decisions on the `c` packets from `p` on. -/
def Burst.decisions (b : Burst) (p c : Nat) : List Bool := (List.range' p c).map b.admits

/-- The admitted ones among the `c` packets from `p` on. -/
def Burst.admitted (b : Burst) (p c : Nat) : List Nat := (List.range' p c).filter b.admits

/-- The dropped ones among the `c` packets from `p` on. -/
def Burst.dropped (b : Burst) (p c : Nat) : List Nat := (List.range' p c).filter (!b.admits ·)

/-- The sum of the running totals of the decisions, counted from `ret` on in an `int`. -/
def reported (ret : Int) : List Bool → Int
  | [] => 0
  | a :: as => i32 (ret + a.toNat) + reported (i32 (ret + a.toNat)) as

theorem vtxLoop_snd (b : Burst) (flags c txdp p : Nat) (ret : Int) (num : Nat) (s : Driver) :
    (vtxLoop b flags c txdp p ret num s).2 = vtx1s b flags c txdp p s := by
  induction c generalizing txdp p ret num s with
  | zero => rfl
  | succ c ih => exact ih _ _ _ _ _

theorem vtxLoop_fst (b : Burst) (flags c txdp p : Nat) (ret : Int) (num : Nat) (s : Driver)
    (hn : num < 2 ^ 64) :
    (vtxLoop b flags c txdp p ret num s).1 = u64 (num + reported ret (b.decisions p c)) := by
  induction c generalizing txdp p ret num s with
  | zero => simpa [vtxLoop, Burst.decisions, reported] using (unsigned_natCast hn).symm
  | succ c ih =>
    simp only [vtxLoop, davidisVtx1_fst]
    rw [ih _ _ _ _ _ (unsigned_lt 64 _), unsigned_eq_iff]
    simp only [Burst.decisions, List.range'_succ, List.map_cons, reported]
    rw [← Int.add_assoc]
    exact (unsigned_modEq 64 _).add_right _

theorem vtx_snd (b : Burst) (flags txdp p c : Nat) (s : Driver) :
    (vtx b flags txdp p c s).2 = vtx1s b flags c txdp p s := vtxLoop_snd ..

/-- `vtx` does not return the number of packets it sent but the sum of the running totals. -/
theorem vtx_fst (b : Burst) (flags txdp p c : Nat) (s : Driver) :
    (vtx b flags txdp p c s).1 = u64 (reported b.ret (b.decisions p c)) := by
  simpa [vtx] using vtxLoop_fst b flags c txdp p b.ret 0 s (by decide)

theorem ringEndLoop_snd (b : Burst) (flags c txdp p num : Nat) (s : Driver) :
    (ringEndLoop b flags c txdp p num s).2 = vtx1s b flags c txdp p s := by
  induction c generalizing txdp p num s with
  | zero => rfl
  | succ c ih => exact ih _ _ _ _

theorem ringEndLoop_fst (b : Burst) (flags c txdp p num : Nat) (s : Driver)
    (hn : num + c < 2 ^ 64) :
    (ringEndLoop b flags c txdp p num s).1 = num + (b.admitted p c).length := by
  induction c generalizing txdp p num s with
  | zero => rfl
  | succ c ih =>
    have hv : (b.admits p).toNat ≤ 1 := Bool.toNat_le _
    have hu : u64 (num + (b.admits p).toNat : Int) = num + (b.admits p).toNat := by
      exact_mod_cast unsigned_natCast (w := 64) (n := num + (b.admits p).toNat) (by omega)
    simp only [ringEndLoop, davidisVtx1_fst, hu]
    rw [ih _ _ _ _ (by omega)]
    cases h : b.admits p
    · simp [Burst.admitted, List.range'_succ, h]
    · simp [Burst.admitted, List.range'_succ, h]; omega

/-! ## The state after a loop -/

/-- The descriptor ring after the loop. -/
def Burst.descs (b : Burst) (flags c txdp p : Nat) (ring : Nat → AdvTxDesc) (i : Nat) :
    AdvTxDesc :=
  if txdp ≤ i ∧ i < txdp + c ∧ b.admits (p + (i - txdp)) then (b.pkt (p + (i - txdp))).desc flags
  else ring i

/-- The events of the loop. -/
def vtx1sEvents (b : Burst) (flags : Nat) : Nat → Nat → Nat → List Event
  | 0, _, _ => []
  | c + 1, txdp, p => vtx1Events b flags txdp p ++ vtx1sEvents b flags c (txdp + 1) (p + 1)

theorem descs_succ (b : Burst) (flags c txdp p : Nat) (ring : Nat → AdvTxDesc) :
    b.descs flags (c + 1) txdp p ring =
      b.descs flags c (txdp + 1) (p + 1)
        (if b.admits p then Function.update ring txdp ((b.pkt p).desc flags) else ring) := by
  funext i
  rcases Nat.lt_trichotomy i txdp with h | rfl | h
  · have h' : ¬txdp ≤ i := by omega
    have h'' : ¬txdp + 1 ≤ i := by omega
    simp only [Burst.descs, h', h'', false_and, if_false]
    split
    · rw [Function.update_of_ne (by omega)]
    · rfl
  · have h'' : ¬i + 1 ≤ i := by omega
    simp only [Burst.descs, h'', false_and, if_false, Nat.sub_self, Nat.add_zero]
    cases hb : b.admits p <;> simp
  · have hi : p + 1 + (i - (txdp + 1)) = p + (i - txdp) := by omega
    have h1 : txdp ≤ i := by omega
    have h2 : txdp + 1 ≤ i := by omega
    have h3 : i < txdp + (c + 1) ↔ i < txdp + 1 + c := by omega
    simp only [Burst.descs, hi, h1, h2, h3, true_and]
    congr 1
    split
    · rw [Function.update_of_ne (by omega)]
    · rfl

theorem vtx1s_txq (b : Burst) (flags c txdp p : Nat) (s : Driver) :
    (vtx1s b flags c txdp p s).txq =
      { s.txq with txRing := b.descs flags c txdp p s.txq.txRing } := by
  induction c generalizing txdp p s with
  | zero =>
    have : b.descs flags 0 txdp p s.txq.txRing = s.txq.txRing := by
      funext i; simp only [Burst.descs]; rw [if_neg]; omega
    simp only [vtx1s, this]
  | succ c ih =>
    rw [vtx1s, ih, descs_succ, davidisVtx1_eq]
    split <;> simp_all

theorem vtx1s_trace (b : Burst) (flags c txdp p : Nat) (s : Driver) :
    (vtx1s b flags c txdp p s).trace = s.trace ++ vtx1sEvents b flags c txdp p := by
  induction c generalizing txdp p s with
  | zero => simp [vtx1s, vtx1sEvents]
  | succ c ih =>
    rw [vtx1s, ih, davidisVtx1_eq, vtx1sEvents]
    split <;> simp

theorem vtx1s_regs (b : Burst) (flags c txdp p : Nat) (s : Driver) :
    (vtx1s b flags c txdp p s).tdt = s.tdt ∧ (vtx1s b flags c txdp p s).tdh = s.tdh := by
  induction c generalizing txdp p s with
  | zero => exact ⟨rfl, rfl⟩
  | succ c ih =>
    rw [vtx1s, (ih _ _ _).1, (ih _ _ _).2, davidisVtx1_eq]
    split <;> exact ⟨rfl, rfl⟩

/-- The QoS of the admitted packets, summed. -/
def Burst.qosSum (b : Burst) (ps : List Nat) : Int := (ps.map fun p => (b.pkt p).currentQoS).sum

/-- The counters after a loop, as long as they held values of their types before. -/
theorem vtx1s_counters (b : Burst) (flags c txdp p : Nat) (s : Driver)
    (hq : i64 s.sum_QoS = s.sum_QoS) (hk : i64 s.skipped = s.skipped)
    (hs : i32 s.packets_sent = s.packets_sent) :
    (vtx1s b flags c txdp p s).sum_QoS = i64 (s.sum_QoS + b.qosSum (b.admitted p c)) ∧
    (vtx1s b flags c txdp p s).skipped = i64 (s.skipped + (b.dropped p c).length) ∧
    (vtx1s b flags c txdp p s).packets_sent =
      i32 (s.packets_sent + (b.admitted p c).length) := by
  induction c generalizing txdp p s with
  | zero => simp [vtx1s, Burst.qosSum, Burst.admitted, Burst.dropped, hq, hk, hs]
  | succ c ih =>
    have idem (w : Nat) (x : Int) : signed w (signed w x) = signed w x := by simp [signed]
    rw [vtx1s, davidisVtx1_eq]
    cases h : b.admits p
    · obtain ⟨h1, h2, h3⟩ := ih (txdp + 1) (p + 1)
        { s with skipped := i64 (s.skipped + 1)
                 trace := s.trace ++ vtx1Events b flags txdp p } hq (idem _ _) hs
      simp only [Bool.false_eq_true, if_false, h1, h2, h3]
      simp [Burst.admitted, Burst.dropped, List.range'_succ, h, signed_add_signed]
      congr 1; ring
    · obtain ⟨h1, h2, h3⟩ := ih (txdp + 1) (p + 1) { s with
          txq := { s.txq with txRing := Function.update s.txq.txRing txdp ((b.pkt p).desc flags) }
          sum_QoS := i64 (s.sum_QoS + (b.pkt p).currentQoS)
          packets_sent := i32 (s.packets_sent + 1)
          trace := s.trace ++ vtx1Events b flags txdp p } (idem _ _) hk (idem _ _)
      simp only [if_true, h1, h2, h3]
      simp [Burst.admitted, Burst.dropped, Burst.qosSum, List.range'_succ, h, signed_add_signed,
        Int.add_assoc]
      congr 1; ring

/-- The software ring after `tx_backlog_entry`. -/
def Burst.backlog (b : Burst) (txep p c : Nat) (ring : Nat → Option MbufPtr) (i : Nat) :
    Option MbufPtr :=
  if txep ≤ i ∧ i < txep + c then some (b.txPkts (p + (i - txep))) else ring i

/-- The events of `tx_backlog_entry`. -/
def backlogEvents (b : Burst) : Nat → Nat → Nat → List Event
  | _, _, 0 => []
  | txep, p, c + 1 =>
    [.readPkt p, .swStore txep (b.txPkts p)] ++ backlogEvents b (txep + 1) (p + 1) c

theorem txBacklogEntry_eq (b : Burst) (txep p c : Nat) (s : Driver) :
    txBacklogEntry b txep p c s =
      { s with txq := { s.txq with swRingV := b.backlog txep p c s.txq.swRingV }
               trace := s.trace ++ backlogEvents b txep p c } := by
  induction c generalizing txep p s with
  | zero =>
    have : b.backlog txep p 0 s.txq.swRingV = s.txq.swRingV := by
      funext i; simp only [Burst.backlog]; rw [if_neg]; omega
    simp [txBacklogEntry, backlogEvents, this]
  | succ c ih =>
    rw [txBacklogEntry, ih]
    have hb : b.backlog (txep + 1) (p + 1) c
        (Function.update s.txq.swRingV txep (some (b.txPkts p))) =
        b.backlog txep p (c + 1) s.txq.swRingV := by
      funext i
      rcases Nat.lt_trichotomy i txep with h | rfl | h
      · have h1 : ¬txep ≤ i := by omega
        have h2 : ¬txep + 1 ≤ i := by omega
        simp [Burst.backlog, h1, h2, Function.update_of_ne (Nat.ne_of_lt h)]
      · have h2 : ¬i + 1 ≤ i := by omega
        simp [Burst.backlog, h2]
      · have h1 : txep ≤ i := by omega
        have h2 : txep + 1 ≤ i := by omega
        have h3 : i < txep + (c + 1) ↔ i < txep + 1 + c := by omega
        have hi : p + 1 + (i - (txep + 1)) = p + (i - txep) := by omega
        simp [Burst.backlog, h1, h2, h3, hi, Function.update_of_ne (Nat.ne_of_gt h)]
    simp [hb, backlogEvents]

end P4Switch.Ixgbe
