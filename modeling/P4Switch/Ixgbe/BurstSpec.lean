import P4Switch.Ixgbe.Burst
import P4Switch.Lib.Fill

/-! # What the burst does, field by field

One lemma per part of `ixgbe_xmit_fixed_burst_vec`. Later modules cite these and do not
unfold the parts again. -/
namespace P4Switch.Ixgbe
open P4Switch.Lib.MachineInt P4Switch.Lib.Fill

/-! ## Lists of packets -/

theorem Burst.admitted_append (b : Burst) (p c d : Nat) :
    b.admitted p (c + d) = b.admitted p c ++ b.admitted (p + c) d := by
  simp only [Burst.admitted, ← List.filter_append]
  rw [List.range'_append_1]

theorem Burst.dropped_append (b : Burst) (p c d : Nat) :
    b.dropped p (c + d) = b.dropped p c ++ b.dropped (p + c) d := by
  simp only [Burst.dropped, ← List.filter_append]
  rw [List.range'_append_1]

theorem Burst.qosSum_append (b : Burst) (ps qs : List Nat) :
    b.qosSum (ps ++ qs) = b.qosSum ps + b.qosSum qs := by simp [Burst.qosSum]

theorem Burst.mem_admitted (b : Burst) (p c i : Nat) :
    i ∈ b.admitted p c ↔ (p ≤ i ∧ i < p + c) ∧ b.admits i = true := by
  simp [Burst.admitted, List.mem_range'_1]

theorem Burst.admitted_length_le (b : Burst) (p c : Nat) : (b.admitted p c).length ≤ c := by
  simpa [Burst.admitted] using List.length_filter_le b.admits (List.range' p c)

theorem Burst.admitted_add_dropped (b : Burst) (p c : Nat) :
    (b.admitted p c).length + (b.dropped p c).length = c := by
  have h := List.length_eq_length_filter_add (l := List.range' p c) b.admits
  simpa [Burst.admitted, Burst.dropped] using h.symm

/-- All `c` packets are admitted exactly when as many are. -/
theorem Burst.admitted_length_eq (b : Burst) (p c : Nat) :
    (b.admitted p c).length = c ↔ ∀ i, p ≤ i → i < p + c → b.admits i = true := by
  have h : (b.admitted p c).length = c ↔
      (b.admitted p c).length = (List.range' p c).length := by simp
  rw [h]
  simp only [Burst.admitted, List.length_filter_eq_length_iff, List.mem_range'_1]
  exact ⟨fun h i hp hi => h i ⟨hp, hi⟩, fun h i hi => h i hi.1 hi.2⟩

/-- The software ring is filled with the packets as they come. -/
theorem backlog_eq_fill (b : Burst) (tx p c : Nat) (ring : Nat → Option MbufPtr) :
    b.backlog tx p c ring = fill (fun i => some (b.txPkts i)) tx p c ring := rfl

/-! ## Cleanup -/

/-- The queue after a cleanup that found DD set. -/
def IxgbeTxQueue.cleaned (q : IxgbeTxQueue) : IxgbeTxQueue :=
  { q with
    nbTxFree := u16 ((q.nbTxFree : Int) + q.txRsThresh)
    txNextDd :=
      if u16 ((q.txNextDd : Int) + q.txRsThresh) ≥ q.nbTxDesc then u16 ((q.txRsThresh : Int) - 1)
      else u16 ((q.txNextDd : Int) + q.txRsThresh) }

/-- The 16-bit stores of the cleanup. -/
def IxgbeTxQueue.cleanedU16 (q : IxgbeTxQueue) : List Event :=
  [.u16 ((q.nbTxFree : Int) + q.txRsThresh), .u16 ((q.txNextDd : Int) + q.txRsThresh)] ++
    if u16 ((q.txNextDd : Int) + q.txRsThresh) ≥ q.nbTxDesc then [.u16 ((q.txRsThresh : Int) - 1)]
    else []

theorem ixgbeTxFreeBufs_eq (h : Heap) (s : Driver) :
    (ixgbeTxFreeBufs h s).2 =
      if (s.txq.txRing s.txq.txNextDd).dd then
        { s with txq := s.txq.cleaned
                 trace := s.trace ++ (freeSlots h s.txq.ddSlots ++ s.txq.cleanedU16) }
      else s := by
  unfold ixgbeTxFreeBufs IxgbeTxQueue.cleaned IxgbeTxQueue.cleanedU16
  cases (s.txq.txRing s.txq.txNextDd).dd
  · rfl
  · simp only [Driver.emit, Driver.setNbTxFree, Driver.setTxNextDd, Bool.true_eq_false, if_false,
      if_true]
    split <;> rename_i hw <;> simp [hw]

/-- The call cleans up: few descriptors are free and DD is set. -/
def IxgbeTxQueue.cleans (q : IxgbeTxQueue) : Bool :=
  decide (q.nbTxFree < q.txFreeThresh) && (q.txRing q.txNextDd).dd

theorem prepare_eq (b : Burst) (s : Driver) :
    prepare b s =
      if s.txq.cleans then
        { s with
          txq := s.txq.cleaned
          trace := s.trace ++ (.fopen :: (freeSlots b.toHeap s.txq.ddSlots ++ s.txq.cleanedU16)) }
      else s.emit [.fopen] := by
  unfold prepare IxgbeTxQueue.cleans
  by_cases hf : s.txq.nbTxFree < s.txq.txFreeThresh
  · simp only [hf, decide_true, Bool.true_and, Driver.emit, if_true, ixgbeTxFreeBufs_eq]
    split <;> simp
  · simp [hf, Driver.emit]

theorem prepare_txq (b : Burst) (s : Driver) :
    (prepare b s).txq = if s.txq.cleans then s.txq.cleaned else s.txq := by
  rw [prepare_eq]; split <;> rfl

/-- The cleanup touches two fields of the queue and the trace. -/
theorem prepare_frame (b : Burst) (s : Driver) :
    (prepare b s).txq.txRing = s.txq.txRing ∧ (prepare b s).txq.swRingV = s.txq.swRingV ∧
    (prepare b s).txq.nbTxDesc = s.txq.nbTxDesc ∧ (prepare b s).txq.txTail = s.txq.txTail ∧
    (prepare b s).txq.txFreeThresh = s.txq.txFreeThresh ∧
    (prepare b s).txq.txRsThresh = s.txq.txRsThresh ∧
    (prepare b s).txq.txNextRs = s.txq.txNextRs := by
  rw [prepare_txq]; split <;> exact ⟨rfl, rfl, rfl, rfl, rfl, rfl, rfl⟩

theorem prepare_counters (b : Burst) (s : Driver) :
    (prepare b s).sum_QoS = s.sum_QoS ∧ (prepare b s).skipped = s.skipped ∧
    (prepare b s).packets_sent = s.packets_sent ∧ (prepare b s).tdt = s.tdt ∧
    (prepare b s).tdh = s.tdh := by
  rw [prepare_eq]; split <;> exact ⟨rfl, rfl, rfl, rfl, rfl⟩

/-! ## Up to the end of the ring -/

/-- The number of packets handled before the wrap: at least one, whatever `n` is. -/
def ringEndPkts (n : Nat) : Nat := n - 1 + 1

/-- The descriptor ring after that part. -/
def Burst.ringEndDescs (b : Burst) (n tail : Nat) (ring : Nat → AdvTxDesc) : Nat → AdvTxDesc :=
  b.descs rs 1 (tail + (n - 1)) (n - 1) (b.descs flags (n - 1) tail 0 ring)

def ringEndEvents (b : Burst) (n tail : Nat) (rsThresh : Nat) : List Event :=
  backlogEvents b tail 0 n ++ (vtx1sEvents b flags (n - 1) tail 0 ++
    (vtx1sEvents b rs 1 (tail + (n - 1)) (n - 1) ++ [.wrap, .u16 ((rsThresh : Int) - 1)]))

theorem xmitRingEnd_drv (b : Burst) (n k : Nat) (s : Driver) :
    (xmitRingEnd b n k s).drv =
      ((vtx1s b rs 1 (s.txq.txTail + (n - 1)) (n - 1)
        (vtx1s b flags (n - 1) s.txq.txTail 0 (txBacklogEntry b s.txq.txTail 0 n s))).emit
          [.wrap]).setTxNextRs ((s.txq.txRsThresh : Int) - 1) := by
  simp only [xmitRingEnd, ringEndLoop_snd]
  have hd : (davidisVtx1 b rs (s.txq.txTail + (n - 1)) (n - 1)
      ((vtx1s b flags (n - 1) s.txq.txTail 0 (txBacklogEntry b s.txq.txTail 0 n s)).emit
        [.readPkt (n - 1)])).2 = vtx1s b rs 1 (s.txq.txTail + (n - 1)) (n - 1)
          (vtx1s b flags (n - 1) s.txq.txTail 0 (txBacklogEntry b s.txq.txTail 0 n s)) := rfl
  have ht : (vtx1s b rs 1 (s.txq.txTail + (n - 1)) (n - 1)
      (vtx1s b flags (n - 1) s.txq.txTail 0 (txBacklogEntry b s.txq.txTail 0 n s))).txq.txRsThresh
        = s.txq.txRsThresh := by rw [vtx1s_txq, vtx1s_txq, txBacklogEntry_eq]
  rw [hd, ← ht]
  rfl

theorem xmitRingEnd_txq (b : Burst) (n k : Nat) (s : Driver) :
    (xmitRingEnd b n k s).drv.txq =
      { s.txq with
        swRingV := b.backlog s.txq.txTail 0 n s.txq.swRingV
        txRing := b.ringEndDescs n s.txq.txTail s.txq.txRing
        txNextRs := u16 ((s.txq.txRsThresh : Int) - 1) } := by
  rw [xmitRingEnd_drv]
  simp only [Driver.emit, Driver.setTxNextRs, vtx1s_txq, txBacklogEntry_eq, Burst.ringEndDescs]

theorem xmitRingEnd_trace (b : Burst) (n k : Nat) (s : Driver) :
    (xmitRingEnd b n k s).drv.trace =
      s.trace ++ ringEndEvents b n s.txq.txTail s.txq.txRsThresh := by
  rw [xmitRingEnd_drv]
  simp [Driver.emit, Driver.setTxNextRs, vtx1s_trace, txBacklogEntry_eq, ringEndEvents]

theorem xmitRingEnd_num (b : Burst) (n k : Nat) (s : Driver) (hn : n < 2 ^ 16) :
    (xmitRingEnd b n k s).num = (b.admitted 0 (ringEndPkts n)).length := by
  simp only [xmitRingEnd]
  rw [ringEndLoop_fst b flags (n - 1) _ 0 0 _ (by omega), davidisVtx1_fst, ringEndPkts,
    Burst.admitted_append]
  have h1 : (b.admitted (0 + (n - 1)) 1).length = (b.admits (n - 1)).toNat := by
    cases h : b.admits (n - 1) <;> simp [Burst.admitted, h]
  have h2 := b.admitted_length_le 0 (n - 1)
  have h3 : (b.admits (n - 1)).toNat ≤ 1 := Bool.toNat_le _
  have h4 := unsigned_natCast (w := 64)
    (n := 0 + (b.admitted 0 (n - 1)).length + (b.admits (n - 1)).toNat) (by omega)
  rw [List.length_append, h1]
  push_cast at h4 ⊢
  exact h4.trans (by omega)

theorem xmitRingEnd_nbCommit (b : Burst) (n k : Nat) (s : Driver) (hn : n < 2 ^ 16) :
    (xmitRingEnd b n k s).nbCommit = u16 ((k : Int) - (b.admitted 0 (ringEndPkts n)).length) := by
  rw [← xmitRingEnd_num b n k s hn]; rfl

theorem xmitRingEnd_regs (b : Burst) (n k : Nat) (s : Driver) :
    (xmitRingEnd b n k s).drv.tdt = s.tdt ∧ (xmitRingEnd b n k s).drv.tdh = s.tdh := by
  rw [xmitRingEnd_drv]
  simp only [Driver.emit, Driver.setTxNextRs, vtx1s_regs, txBacklogEntry_eq, and_self]

/-! ## The rest of the burst -/

/-- `num_pkt_sent` after `vtx`. -/
def restNum (b : Burst) (c : Cursor) : Nat :=
  u64 ((c.num : Int) + reported b.ret (b.decisions c.pkt c.nbCommit))

/-- The new `tx_tail`. -/
def restTail (b : Burst) (c : Cursor) : Nat := u16 ((c.txId : Int) + restNum b c)

/-- The descriptor ring before the boundary test. -/
def restRing (b : Burst) (c : Cursor) : Nat → AdvTxDesc :=
  b.descs flags c.nbCommit c.txId c.pkt c.drv.txq.txRing

/-- The RS bit at the boundary. -/
def restRs (b : Burst) (c : Cursor) : Nat → AdvTxDesc :=
  if restTail b c > c.drv.txq.txNextRs then
    Function.update (restRing b c) c.drv.txq.txNextRs (restRing b c c.drv.txq.txNextRs).orRs
  else restRing b c

/-- The stores after the loop. -/
def restStores (b : Burst) (c : Cursor) : List Event :=
  .u16 ((c.txId : Int) + restNum b c) ::
    ((if restTail b c > c.drv.txq.txNextRs then
      [.setRs c.drv.txq.txNextRs, .u16 ((c.drv.txq.txNextRs : Int) + c.drv.txq.txRsThresh)]
    else []) ++ [.u16 ((c.drv.txq.nbTxFree : Int) - restNum b c), .tdt (restTail b c)])

theorem restNum_eq (b : Burst) (c : Cursor) :
    u64 ((c.num : Int) + (vtx b flags c.txId c.pkt c.nbCommit
      (txBacklogEntry b c.txId c.pkt c.nbCommit c.drv)).1) = restNum b c := by
  rw [vtx_fst, restNum, unsigned_eq_iff]
  exact (unsigned_modEq 64 _).add_left _

/-- The state after the loop of `vtx`. -/
def restDrv (b : Burst) (c : Cursor) : Driver :=
  vtx1s b flags c.nbCommit c.txId c.pkt (txBacklogEntry b c.txId c.pkt c.nbCommit c.drv)

theorem restDrv_txq (b : Burst) (c : Cursor) :
    (restDrv b c).txq =
      { c.drv.txq with
        swRingV := b.backlog c.txId c.pkt c.nbCommit c.drv.txq.swRingV
        txRing := restRing b c } := by
  simp only [restDrv, vtx1s_txq, txBacklogEntry_eq, restRing]

theorem xmitRest_eq (b : Burst) (k : Nat) (c : Cursor) :
    (xmitRest b k c).2 =
      { restDrv b c with
        txq := { c.drv.txq with
          swRingV := b.backlog c.txId c.pkt c.nbCommit c.drv.txq.swRingV
          txRing := restRs b c
          txNextRs :=
            if restTail b c > c.drv.txq.txNextRs then
              u16 ((c.drv.txq.txNextRs : Int) + c.drv.txq.txRsThresh)
            else c.drv.txq.txNextRs
          nbTxFree := u16 ((c.drv.txq.nbTxFree : Int) - restNum b c)
          txTail := restTail b c }
        tdt := restTail b c
        trace := c.drv.trace ++ (backlogEvents b c.txId c.pkt c.nbCommit ++
          (vtx1sEvents b flags c.nbCommit c.txId c.pkt ++ (restStores b c ++
            [.log (restDrv b c).sum_QoS (restDrv b c).skipped (restDrv b c).packets_sent,
              .fclose]))) } := by
  have hs : (vtx b flags c.txId c.pkt c.nbCommit
      (txBacklogEntry b c.txId c.pkt c.nbCommit c.drv)).2 = restDrv b c := by
    rw [vtx_snd, restDrv]
  have ht : (restDrv b c).trace = c.drv.trace ++ (backlogEvents b c.txId c.pkt c.nbCommit ++
      vtx1sEvents b flags c.nbCommit c.txId c.pkt) := by
    simp [restDrv, vtx1s_trace, txBacklogEntry_eq]
  simp only [xmitRest, restNum_eq, hs]
  rw [show u16 ((c.txId : Int) + restNum b c) = restTail b c from rfl]
  by_cases hr : restTail b c > c.drv.txq.txNextRs
  · simp [Driver.emit, Driver.reportAtNextRs, Driver.setTxNextRs, Driver.setNbTxFree,
      Driver.publish, restDrv_txq, restRs, restStores, hr, ht]
  · simp [Driver.emit, Driver.setNbTxFree, Driver.publish, restDrv_txq, restRs, restStores, hr, ht]

/-! ## The rest of the burst, without wrap-around -/

/-- The queue after the rest of the burst when `m` is the count it ends with. -/
def Cursor.after (b : Burst) (c : Cursor) (m : Nat) : IxgbeTxQueue :=
  { c.drv.txq with
    swRingV := b.backlog c.txId c.pkt c.nbCommit c.drv.txq.swRingV
    txRing :=
      if c.txId + m > c.drv.txq.txNextRs then
        Function.update (restRing b c) c.drv.txq.txNextRs (restRing b c c.drv.txq.txNextRs).orRs
      else restRing b c
    txNextRs :=
      if c.txId + m > c.drv.txq.txNextRs then c.drv.txq.txNextRs + c.drv.txq.txRsThresh
      else c.drv.txq.txNextRs
    nbTxFree := c.drv.txq.nbTxFree - m
    txTail := c.txId + m }

/-- `m` is the count sent, modulo 2^16. -/
def Cursor.Counts (b : Burst) (c : Cursor) (m : Nat) : Prop :=
  (c.num : Int) + reported b.ret (b.decisions c.pkt c.nbCommit) ≡ m [ZMOD 2 ^ 16]

theorem restNum_modEq (b : Burst) (c : Cursor) :
    (restNum b c : Int) ≡ c.num + reported b.ret (b.decisions c.pkt c.nbCommit) [ZMOD 2 ^ 16] :=
  modEq_of_le (by decide) (unsigned_modEq 64 _)

theorem restTail_eq {b : Burst} {c : Cursor} {m : Nat} (h : c.Counts b m)
    (ht : c.txId + m < 2 ^ 16) : restTail b c = c.txId + m := by
  rw [← unsigned_add ht, restTail, unsigned_eq_iff]
  exact ((restNum_modEq b c).trans h).add_left _

/-- Which counts bring the tail to `x`. -/
theorem restTail_eq_iff {b : Burst} {c : Cursor} {x : Nat} (hx : x < 2 ^ 16) :
    restTail b c = x ↔
      c.txId + (c.num + reported b.ret (b.decisions c.pkt c.nbCommit)) ≡ x [ZMOD 2 ^ 16] := by
  have hm : (c.txId : Int) + restNum b c ≡
      c.txId + (c.num + reported b.ret (b.decisions c.pkt c.nbCommit)) [ZMOD 2 ^ 16] :=
    (restNum_modEq b c).add_left _
  have hu : u16 (x : Int) = x := unsigned_natCast hx
  constructor
  · intro h
    rw [← h]
    exact hm.symm.trans (unsigned_modEq 16 _).symm
  · intro h
    rw [← hu, restTail, unsigned_eq_iff]
    exact hm.trans h

theorem restFree_eq {b : Burst} {c : Cursor} {m f : Nat} (h : c.Counts b m) (hm : m ≤ f)
    (hf : f < 2 ^ 16) : u16 ((f : Int) - restNum b c) = f - m := by
  rw [← unsigned_sub hm hf, unsigned_eq_iff]
  exact ((restNum_modEq b c).trans h).sub_left _

theorem xmitRest_txq {b : Burst} {k : Nat} {c : Cursor} {m : Nat} (h : c.Counts b m)
    (ht : c.txId + m < 2 ^ 16) (hm : m ≤ c.drv.txq.nbTxFree) (hf : c.drv.txq.nbTxFree < 2 ^ 16)
    (hr : c.drv.txq.txNextRs + c.drv.txq.txRsThresh < 2 ^ 16) :
    (xmitRest b k c).2.txq = c.after b m := by
  rw [xmitRest_eq]
  simp only [Cursor.after, restRs, restTail_eq h ht, restFree_eq h hm hf, unsigned_add hr]

/-! ## The whole call -/

/-- Where the second half of the call starts. -/
def cursor (b : Burst) (s : Driver) : Cursor :=
  let q := (prepare b s).txq
  if nbPkts b s < ringLeft q then ⟨q.txTail, 0, nbPkts b s, 0, prepare b s⟩
  else xmitRingEnd b (ringLeft q) (nbPkts b s) (prepare b s)

theorem burst_eq (b : Burst) (s : Driver) :
    ixgbeXmitFixedBurstVec b s =
      if nbPkts b s = 0 then (0, prepare b s) else xmitRest b (nbPkts b s) (cursor b s) := by
  unfold ixgbeXmitFixedBurstVec cursor
  dsimp only
  split
  · rfl
  · split
    · rename_i h; rw [if_neg (by omega)]
    · rename_i h; rw [if_pos (by omega)]

theorem burst_zero {b : Burst} {s : Driver} (h : nbPkts b s = 0) :
    (ixgbeXmitFixedBurstVec b s).2 = prepare b s := by rw [burst_eq, if_pos h]

theorem burst_pos {b : Burst} {s : Driver} (h : nbPkts b s ≠ 0) :
    (ixgbeXmitFixedBurstVec b s).2 = (xmitRest b (nbPkts b s) (cursor b s)).2 := by
  rw [burst_eq, if_neg h]

/-- The value returned is the clipped burst length. -/
theorem burst_fst (b : Burst) (s : Driver) : (ixgbeXmitFixedBurstVec b s).1 = nbPkts b s := by
  rw [burst_eq]
  split
  · rename_i h; exact h.symm
  · rfl

theorem cursor_short {b : Burst} {s : Driver} (h : nbPkts b s < ringLeft (prepare b s).txq) :
    cursor b s = ⟨(prepare b s).txq.txTail, 0, nbPkts b s, 0, prepare b s⟩ := if_pos h

theorem cursor_long {b : Burst} {s : Driver} (h : ringLeft (prepare b s).txq ≤ nbPkts b s) :
    cursor b s = xmitRingEnd b (ringLeft (prepare b s).txq) (nbPkts b s) (prepare b s) :=
  if_neg (by omega)

/-- The number of packets the call handles. -/
def processed (b : Burst) (s : Driver) : Nat :=
  if nbPkts b s = 0 then 0 else (cursor b s).pkt + (cursor b s).nbCommit

theorem ringLeft_lt (q : IxgbeTxQueue) : ringLeft q < 2 ^ 16 := unsigned_lt 16 _

/-- The part up to the end of the ring leaves the packets that it did not admit. -/
theorem cursor_long_nbCommit {b : Burst} {s : Driver} (hk : nbPkts b s ≠ 0)
    (hk16 : nbPkts b s < 2 ^ 16) (h : ringLeft (prepare b s).txq ≤ nbPkts b s) :
    (cursor b s).nbCommit =
      nbPkts b s - (b.admitted 0 (ringEndPkts (ringLeft (prepare b s).txq))).length := by
  have ha := b.admitted_length_le 0 (ringEndPkts (ringLeft (prepare b s).txq))
  have hle : ringEndPkts (ringLeft (prepare b s).txq) ≤ nbPkts b s := by
    unfold ringEndPkts
    omega
  rw [cursor_long h, xmitRingEnd_nbCommit _ _ _ _ (ringLeft_lt _), u16_sub (by omega) hk16]

/-- With packets dropped up to the end of the ring a call handles more than it returns. -/
theorem processed_eq {b : Burst} {s : Driver} (hk : nbPkts b s ≠ 0) (hk16 : nbPkts b s < 2 ^ 16)
    (h : ringLeft (prepare b s).txq ≤ nbPkts b s) :
    processed b s = ringEndPkts (ringLeft (prepare b s).txq) +
      (nbPkts b s - (b.admitted 0 (ringEndPkts (ringLeft (prepare b s).txq))).length) := by
  rw [processed, if_neg hk, cursor_long_nbCommit hk hk16 h, cursor_long h]
  rfl

/-- With the tail inside a ring of the accepted sizes, `n` is the distance to its end. -/
theorem ringLeft_eq {q : IxgbeTxQueue} (h : q.txTail < q.nbTxDesc) (hn : q.nbTxDesc < 2 ^ 16) :
    ringLeft q = q.nbTxDesc - q.txTail := by
  have he : (q.nbTxDesc : Int) - q.txTail = ((q.nbTxDesc - q.txTail : Nat) : Int) := by omega
  rw [ringLeft, he]
  exact unsigned_natCast (by omega)

theorem nbPkts_le_free (b : Burst) (s : Driver) : nbPkts b s ≤ (prepare b s).txq.nbTxFree :=
  Nat.min_le_left _ _

theorem nbPkts_le_thresh (b : Burst) (s : Driver) : nbPkts b s ≤ s.txq.txRsThresh :=
  (Nat.min_le_right _ _).trans (Nat.min_le_right _ _)

/-! ## What no step changes -/

theorem freeBufs_counters (h : Heap) (s : Driver) :
    (ixgbeTxFreeBufs h s).2.sum_QoS = s.sum_QoS ∧ (ixgbeTxFreeBufs h s).2.skipped = s.skipped ∧
    (ixgbeTxFreeBufs h s).2.packets_sent = s.packets_sent := by
  rw [ixgbeTxFreeBufs_eq]
  split <;> exact ⟨rfl, rfl, rfl⟩

theorem nicComplete_counters (s : Driver) :
    (nicComplete s).sum_QoS = s.sum_QoS ∧ (nicComplete s).skipped = s.skipped ∧
    (nicComplete s).packets_sent = s.packets_sent := by
  unfold nicComplete
  split <;> exact ⟨rfl, rfl, rfl⟩

theorem cursor_conf {b : Burst} {s : Driver} (h : s.txq.Conf) : (cursor b s).drv.txq.Conf := by
  have hp : (prepare b s).txq.Conf := by
    rw [prepare_txq]
    split <;> exact h
  unfold cursor
  dsimp only
  split
  · exact hp
  · rw [xmitRingEnd_txq]
    exact hp

/-- The ring size and the thresholds are never written. -/
theorem step_conf {s : Driver} (op : Op) (h : s.txq.Conf) : (step s op).txq.Conf := by
  cases op with
  | burst b =>
    change (ixgbeXmitFixedBurstVec b s).2.txq.Conf
    by_cases hk : nbPkts b s = 0
    · rw [burst_zero hk, prepare_txq]
      split <;> exact h
    · rw [burst_pos hk, xmitRest_eq]
      exact cursor_conf h
  | freeBufs hp =>
    change (ixgbeTxFreeBufs hp s).2.txq.Conf
    rw [ixgbeTxFreeBufs_eq]
    split <;> exact h
  | nic =>
    change (nicComplete s).txq.Conf
    unfold nicComplete
    split <;> exact h

/-! ## What stands in the trace -/

theorem mem_backlogEvents {b : Burst} {txep p c : Nat} {e : Event}
    (h : e ∈ backlogEvents b txep p c) :
    ∃ j, j < c ∧ (e = .readPkt (p + j) ∨ e = .swStore (txep + j) (b.txPkts (p + j))) := by
  induction c generalizing txep p with
  | zero => simp [backlogEvents] at h
  | succ c ih =>
    rcases List.mem_append.mp h with h | h
    · exact ⟨0, by omega, by simpa using h⟩
    · obtain ⟨j, hj, he⟩ := ih h
      refine ⟨j + 1, by omega, ?_⟩
      rwa [show p + (j + 1) = p + 1 + j by omega, show txep + (j + 1) = txep + 1 + j by omega]

theorem mem_vtx1sEvents {b : Burst} {f c txdp p : Nat} {e : Event}
    (h : e ∈ vtx1sEvents b f c txdp p) :
    ∃ j, j < c ∧ e ∈ vtx1Events b f (txdp + j) (p + j) := by
  induction c generalizing txdp p with
  | zero => simp [vtx1sEvents] at h
  | succ c ih =>
    rcases List.mem_append.mp h with h | h
    · exact ⟨0, by omega, h⟩
    · obtain ⟨j, hj, he⟩ := ih h
      refine ⟨j + 1, by omega, ?_⟩
      rwa [show p + (j + 1) = p + 1 + j by omega, show txdp + (j + 1) = txdp + 1 + j by omega]

/-- The event gives mbufs back and does nothing else. -/
def Event.isFree : Event → Bool
  | .free _ _ _ => true
  | .put _ _ => true
  | _ => false

theorem rtePktmbufFreeSeg_isFree {h : Heap} {k : FreeKind} {m : MbufPtr} {e : Event}
    (he : e ∈ rtePktmbufFreeSeg h k m) : e.isFree = true := by
  unfold rtePktmbufFreeSeg at he
  split at he
  · simp only [List.mem_cons, List.not_mem_nil, or_false] at he
    rcases he with rfl | rfl <;> rfl
  · simp only [List.mem_cons, List.not_mem_nil, or_false] at he
    subst he; rfl

theorem rtePktmbufFree_isFree {h : Heap} {m : MbufPtr} {e : Event}
    (he : e ∈ rtePktmbufFree h m) : e.isFree = true := by
  rcases List.mem_append.mp he with he | he
  · exact rtePktmbufFreeSeg_isFree he
  · obtain ⟨_, _, he⟩ := List.mem_flatMap.mp he
    exact rtePktmbufFreeSeg_isFree he

theorem bulkLoop_isFree {h : Heap} {hd : MbufPtr} {acc : List MbufPtr}
    {slots : List (Option MbufPtr)} {e : Event} (he : e ∈ bulkLoop h hd acc slots) :
    e.isFree = true := by
  induction slots generalizing hd acc with
  | nil => simp only [bulkLoop, List.mem_singleton] at he; subst he; rfl
  | cons slot slots ih =>
    simp only [bulkLoop, List.mem_cons] at he
    rcases he with rfl | he
    · rfl
    · split at he
      · exact ih he
      · split at he
        · exact ih he
        · rcases List.mem_cons.mp he with rfl | he
          · rfl
          · exact ih he

theorem singleLoop_isFree {h : Heap} {slots : List (Option MbufPtr)} {e : Event}
    (he : e ∈ singleLoop h slots) : e.isFree = true := by
  induction slots with
  | nil => simp [singleLoop] at he
  | cons slot slots ih =>
    simp only [singleLoop, List.mem_cons] at he
    rcases he with rfl | he
    · rfl
    · split at he
      · exact ih he
      · rcases List.mem_cons.mp he with rfl | he
        · rfl
        · exact ih he

theorem freeSlots_isFree {h : Heap} {slots : List (Option MbufPtr)} {e : Event}
    (he : e ∈ freeSlots h slots) : e.isFree = true := by
  cases slots with
  | nil => simp [freeSlots] at he
  | cons slot slots =>
    simp only [freeSlots, List.mem_cons] at he
    rcases he with rfl | he
    · rfl
    · split at he
      · exact bulkLoop_isFree he
      · exact singleLoop_isFree he

/-- What `davidis_vtx1` leaves in the trace besides stdio and array reads. -/
theorem mem_vtx1Events {b : Burst} {f txdp p : Nat} {e : Event} (h : e ∈ vtx1Events b f txdp p) :
    e.isFree = true ∨ e = .readPkt p ∨ e = .fopen ∨ e = .fclose ∨
      (∃ g, e = .bufRead g ∨ e = .bufTrunc g ∨ ∃ v, e = .bufWrite g v) ∨
      (b.admits p = true ∧ e = .store txdp ((b.pkt p).desc f)) := by
  simp only [vtx1Events] at h
  rcases List.mem_append.mp h with h | h
  · simp only [List.mem_cons, List.not_mem_nil, or_false] at h
    rcases h with h | h | h | h | h | h <;> simp [h]
  · split at h
    · rename_i ha
      simp only [List.mem_cons, List.not_mem_nil, or_false] at h
      rcases h with h | h | h | h | h <;> simp [h, ha]
    · exact .inl (rtePktmbufFree_isFree h)

/-! ## The range of what is reported -/

theorem reported_bounds (r : Int) (as : List Bool) :
    -(as.length * 2 ^ 31 : Int) ≤ reported r as ∧ reported r as ≤ as.length * 2 ^ 31 := by
  induction as generalizing r with
  | nil => simp [reported]
  | cons a as ih =>
    have hb : -2 ^ 32 ≤ i32 (r + a.toNat) * 2 ∧ i32 (r + a.toNat) * 2 < 2 ^ 32 :=
      signed_bounds (by decide) _
    obtain ⟨h3, h4⟩ := ih (i32 (r + a.toNat))
    simp only [reported, List.length_cons]
    push_cast
    constructor <;> omega

@[simp] theorem Burst.decisions_length (b : Burst) (p c : Nat) : (b.decisions p c).length = c := by
  simp [Burst.decisions]

/-- Cut to 64 bits, a report of a burst is itself exactly when it is not negative. -/
theorem u64_reported {b : Burst} {p c m : Nat} (hc : c ≤ 2 ^ 16) (hm : m < 2 ^ 16)
    (h : u64 (reported b.ret (b.decisions p c)) = m) :
    reported b.ret (b.decisions p c) = m := by
  obtain ⟨h1, h2⟩ := reported_bounds b.ret (b.decisions p c)
  rw [Burst.decisions_length] at h1 h2
  have hc' : (c : Int) ≤ 2 ^ 16 := by exact_mod_cast hc
  have he := unsigned_cast 64 (reported b.ret (b.decisions p c))
  rw [show unsigned 64 (reported b.ret (b.decisions p c)) = m from h] at he
  omega

/-! ## A burst of minimum-size frames -/

/-- `n` frames in mbufs 1, 2, ... of one pool, each with QoS byte 0 and the counter as
`scan` says, and with `ret` starting at zero. -/
def plainBurst (n : Nat) (scan : Nat → Option Int) : Burst where
  mbuf := fun m => ⟨UInt64.ofNat (4096 * m), 128, 60, 60, 0, [], fun _ => 0⟩
  lastRef := fun _ => true
  txPkts := fun i => i + 1
  nbPkts := n
  policy := fun _ => some false
  scan := scan
  ret := 0

/-- A packet sent and completed, one dropped, and three sent with `ret` starting at -1, from
where the running totals add up to three. -/
def mixedBursts : List Op :=
  [.burst (plainBurst 1 fun _ => some 33), .nic, .burst (plainBurst 1 fun _ => some 0),
    .burst { plainBurst 3 fun _ => some 33 with ret := -1 }, .nic]

end P4Switch.Ixgbe
