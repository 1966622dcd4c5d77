import P4Switch.Ixgbe.Original
import P4Switch.Ixgbe.Ring
import P4Switch.Ixgbe.Window

/-! # The burst without drops against the unmodified paths

When every packet is admitted, the modified burst should leave what the original vector
burst and the scalar path leave. It does when the burst ends before the last descriptor
and the weighted count is the plain one; the scalar path moreover writes the length of the
first segment where the vector path writes that of the packet. -/
namespace P4Switch.Ixgbe
open P4Switch.Lib.MachineInt P4Switch.Lib.Circular P4Switch.Lib.Fill

/-- The queue after `k` packets were posted below the last descriptor with `desc`. -/
def IxgbeTxQueue.sent (q : IxgbeTxQueue) (b : Burst) (desc : Nat → AdvTxDesc) (k : Nat) :
    IxgbeTxQueue :=
  let ring := fill desc q.txTail 0 k q.txRing
  { q with
    swRingV := b.backlog q.txTail 0 k q.swRingV
    txRing :=
      if q.txTail + k > q.txNextRs then Function.update ring q.txNextRs (ring q.txNextRs).orRs
      else ring
    txNextRs := if q.txTail + k > q.txNextRs then q.txNextRs + q.txRsThresh else q.txNextRs
    nbTxFree := q.nbTxFree - k
    txTail := q.txTail + k }

/-! ## The modified burst -/

theorem descs_eq_fill {b : Burst} {f c tx p : Nat} {ring : Nat → AdvTxDesc}
    (h : ∀ i, p ≤ i → i < p + c → b.admits i = true) :
    b.descs f c tx p ring = fill (fun i => (b.pkt i).desc f) tx p c ring := by
  funext i
  unfold Burst.descs fill
  by_cases hi : tx ≤ i ∧ i < tx + c
  · have ha : b.admits (p + (i - tx)) = true := h _ (by omega) (by omega)
    simp only [hi, ha, and_true, if_true]
  · have hi' : ¬(tx ≤ i ∧ i < tx + c ∧ b.admits (p + (i - tx)) = true) := by
      rintro ⟨h1, h2, -⟩
      exact hi ⟨h1, h2⟩
    rw [if_neg hi, if_neg hi']

section
variable {b : Burst} {q : IxgbeTxQueue}

theorem ofQueue_inv (hc : q.Conf) (hr : RingFields q) : RingInv (.ofQueue q) :=
  ⟨hc, hr, fun _ he => by cases he⟩

/-- What the bounds of the invariant give for the prepared queue. -/
theorem prepared_bounds (hc : q.Conf) (hr : RingFields q) :
    (prepare b (.ofQueue q)).txq.txTail = q.txTail ∧
    (prepare b (.ofQueue q)).txq.nbTxDesc = q.nbTxDesc ∧
    (prepare b (.ofQueue q)).txq.nbTxFree < 2 ^ 16 ∧
    (prepare b (.ofQueue q)).txq.txNextRs + (prepare b (.ofQueue q)).txq.txRsThresh < 2 ^ 16 := by
  have hp := prepare_inv b (ofQueue_inv hc hr)
  obtain ⟨-, -, hn, ht, -, -, -⟩ := prepare_frame b (.ofQueue q)
  have h1 := hp.ring.free_le
  have h2 := hp.ring.nextRs_lt
  have h3 := hp.conf.hi
  have h4 := hp.conf.rs_eq
  exact ⟨ht, hn, by omega, by omega⟩

theorem burst_sent (hc : q.Conf) (hr : RingFields q)
    (hall : ∀ i < nbPkts b (.ofQueue q), b.admits i = true)
    (hlt : nbPkts b (.ofQueue q) < q.nbTxDesc - q.txTail) (hk : nbPkts b (.ofQueue q) ≠ 0)
    (hcount : prefixReport b.ret (nbPkts b (.ofQueue q)) (nbPkts b (.ofQueue q)) ≡
      nbPkts b (.ofQueue q) [ZMOD 2 ^ 16]) :
    (afterBurst b q).txq = (prepare b (.ofQueue q)).txq.sent b (fun i => (b.pkt i).desc flags)
      (nbPkts b (.ofQueue q)) := by
  obtain ⟨ht, hn, hf, hrs⟩ := prepared_bounds (b := b) hc hr
  have hhi := hc.hi
  have hleft := Placed.left (s := .ofQueue q) ⟨hc, hr.tail_lt⟩ b
  have hpre : b.AdmitsPrefix 0 (nbPkts b (.ofQueue q)) (nbPkts b (.ofQueue q)) := by
    intro i hi
    rw [Nat.zero_add]
    exact iff_of_true (hall i hi) hi
  have hcount : (shortCursor b (.ofQueue q)).Counts b (nbPkts b (.ofQueue q)) := by
    have hrep := (hpre.reported_modEq (Nat.le_refl _) b.ret).trans hcount
    simpa [Cursor.Counts, shortCursor] using hrep
  unfold afterBurst
  rw [burst_pos hk, cursor_short (by rw [hleft]; exact hlt)]
  change (xmitRest b _ (shortCursor b (.ofQueue q))).2.txq = _
  rw [xmitRest_txq hcount (by simp only [shortCursor]; omega) (nbPkts_le_free b _) hf hrs]
  have hring : restRing b (shortCursor b (.ofQueue q)) =
      fill (fun i => (b.pkt i).desc flags) (prepare b (.ofQueue q)).txq.txTail 0
        (nbPkts b (.ofQueue q)) (prepare b (.ofQueue q)).txq.txRing :=
    descs_eq_fill fun i _ hi => hall i (by simp only [shortCursor] at hi; omega)
  simp only [Cursor.after, hring]
  rfl

end

/-! ## The original vector burst -/

section
variable {b : Burst} {s : Driver}

theorem prepareOriginal_txq (b : Burst) (s : Driver) :
    (prepareOriginal b s).txq = (prepare b s).txq := by
  unfold prepareOriginal prepare
  dsimp only [Driver.emit]
  split
  · rw [ixgbeTxFreeBufs_eq, ixgbeTxFreeBufs_eq]
    dsimp only
    split <;> rfl
  · rfl

theorem xmitRestOriginal_txq {b : Burst} {k tx p c : Nat} {s : Driver} (ht : tx + c < 2 ^ 16)
    (hr : s.txq.txNextRs + s.txq.txRsThresh < 2 ^ 16) :
    (xmitRestOriginal b k tx p c s).2.txq =
      let ring := fill (fun i => (b.pkt i).desc flags) tx p c s.txq.txRing
      { s.txq with
        swRingV := b.backlog tx p c s.txq.swRingV
        txRing :=
          if tx + c > s.txq.txNextRs then
            Function.update ring s.txq.txNextRs (ring s.txq.txNextRs).orRs
          else ring
        txNextRs :=
          if tx + c > s.txq.txNextRs then s.txq.txNextRs + s.txq.txRsThresh else s.txq.txNextRs
        txTail := tx + c } := by
  have hq : (vtxOriginal b flags c tx p (txBacklogEntry b tx p c s)).txq =
      { s.txq with
        swRingV := b.backlog tx p c s.txq.swRingV
        txRing := fill (fun i => (b.pkt i).desc flags) tx p c s.txq.txRing } := by
    rw [vtxOriginal_txq, txBacklogEntry_txq]
    rfl
  simp only [xmitRestOriginal, u16_add ht, hq]
  by_cases hgt : tx + c > s.txq.txNextRs
  · simp only [hgt, if_true, Driver.publish, Driver.reportAtNextRs, Driver.setTxNextRs, hq,
      u16_add hr]
  · simp only [hgt, if_false, Driver.publish, hq]

/-- The packets the original burst takes are those the modified one takes. -/
theorem nbPkts_original (b : Burst) (s : Driver) :
    min (prepareOriginal b s).txq.nbTxFree (min b.nbPkts (prepareOriginal b s).txq.txRsThresh) =
      nbPkts b s := by
  rw [prepareOriginal_txq, (prepare_frame b s).2.2.2.2.2.1]
  rfl

/-- The state in which the original burst starts to send. -/
def takenOriginal (b : Burst) (s : Driver) : Driver :=
  (prepareOriginal b s).setNbTxFree ((prepareOriginal b s).txq.nbTxFree - nbPkts b s)

theorem takenOriginal_txq (hf : (prepare b s).txq.nbTxFree < 2 ^ 16) :
    (takenOriginal b s).txq =
      { (prepare b s).txq with nbTxFree := (prepare b s).txq.nbTxFree - nbPkts b s } := by
  simp only [takenOriginal, Driver.setNbTxFree, prepareOriginal_txq,
    u16_sub (nbPkts_le_free b s) hf]

theorem original_eq (b : Burst) (s : Driver) :
    ixgbeXmitFixedBurstVecOriginal b s =
      if nbPkts b s = 0 then (0, prepareOriginal b s)
      else sendOriginal b (nbPkts b s) (takenOriginal b s) := by
  unfold ixgbeXmitFixedBurstVecOriginal takenOriginal
  dsimp only
  rw [nbPkts_original]

theorem original_fst (b : Burst) (s : Driver) :
    (ixgbeXmitFixedBurstVecOriginal b s).1 = nbPkts b s := by
  rw [original_eq]
  split
  · rename_i h
    exact h.symm
  · unfold sendOriginal
    dsimp only
    split <;> rfl

theorem original_zero (hk : nbPkts b s = 0) :
    (ixgbeXmitFixedBurstVecOriginal b s).2.txq = (prepare b s).txq := by
  rw [original_eq, if_pos hk, prepareOriginal_txq]

theorem original_short (hk : nbPkts b s ≠ 0) (hlt : nbPkts b s < ringLeft (prepare b s).txq)
    (ht : (prepare b s).txq.txTail + nbPkts b s < 2 ^ 16) (hf : (prepare b s).txq.nbTxFree < 2 ^ 16)
    (hr : (prepare b s).txq.txNextRs + (prepare b s).txq.txRsThresh < 2 ^ 16) :
    (ixgbeXmitFixedBurstVecOriginal b s).2.txq =
      (prepare b s).txq.sent b (fun i => (b.pkt i).desc flags) (nbPkts b s) := by
  have hq := takenOriginal_txq hf
  have hge : ¬nbPkts b s ≥ ringLeft (takenOriginal b s).txq := by
    rw [hq]
    exact Nat.not_le_of_lt hlt
  rw [original_eq, if_neg hk, sendOriginal, if_neg hge, hq,
    xmitRestOriginal_txq ht (by rw [hq]; exact hr), hq]
  rfl

/-- A wrapping original burst leaves the tail behind the packets after the wrap. -/
theorem original_long (hk : nbPkts b s ≠ 0) (hge : ringLeft (prepare b s).txq ≤ nbPkts b s)
    (hlt : nbPkts b s < 2 ^ 16) (hf : (prepare b s).txq.nbTxFree < 2 ^ 16)
    (hr : (prepare b s).txq.txRsThresh = 32) :
    (ixgbeXmitFixedBurstVecOriginal b s).2.txq.txTail =
        nbPkts b s - ringLeft (prepare b s).txq ∧
    (ixgbeXmitFixedBurstVecOriginal b s).2.txq.nbTxFree =
        (prepare b s).txq.nbTxFree - nbPkts b s := by
  have hq := takenOriginal_txq hf
  have hleft : ringLeft (takenOriginal b s).txq = ringLeft (prepare b s).txq := by
    rw [hq]
    rfl
  have hend : (xmitRingEndOriginal b (ringLeft (prepare b s).txq) (takenOriginal b s)).txq.txNextRs
      = 31 ∧
      (xmitRingEndOriginal b (ringLeft (prepare b s).txq) (takenOriginal b s)).txq.txRsThresh = 32 ∧
      (xmitRingEndOriginal b (ringLeft (prepare b s).txq) (takenOriginal b s)).txq.nbTxFree =
        (prepare b s).txq.nbTxFree - nbPkts b s := by
    simp only [xmitRingEndOriginal, Driver.setTxNextRs, vtx1, Driver.store, Driver.emit,
      vtxOriginal_txq, txBacklogEntry_txq, IxgbeTxQueue.posted, hq, hr]
    exact ⟨rfl, trivial, trivial⟩
  rw [original_eq, if_neg hk, sendOriginal, hleft, if_pos hge, u16_sub hge hlt,
    xmitRestOriginal_txq (by omega) (by omega)]
  exact ⟨Nat.zero_add _, hend.2.2⟩

end

/-! ## The scalar path -/

section
variable {b : Burst} {s : Driver}

/-- The queue the scalar cleanup leaves: the vector one, with the freed entries cleared. -/
def IxgbeTxQueue.cleared (q p : IxgbeTxQueue) : IxgbeTxQueue :=
  { p with
    swRingV := if q.cleans then fill (fun _ => none) q.firstDd 0 q.txRsThresh q.swRingV
               else q.swRingV }

theorem prepareSimple_txq (b : Burst) (s : Driver) :
    (prepareSimple b s).txq = s.txq.cleared (prepare b s).txq := by
  rw [prepare_txq]
  unfold prepareSimple IxgbeTxQueue.cleared IxgbeTxQueue.cleans ixgbeTxFreeBufsSimple
  by_cases hf : s.txq.nbTxFree < s.txq.txFreeThresh
  · cases hd : (s.txq.txRing s.txq.txNextDd).dd
    · simp [hf]
    · simp only [hf, decide_true, Bool.true_and, if_true, Bool.true_eq_false, if_false,
        Driver.emit, Driver.setNbTxFree, Driver.setTxNextDd, IxgbeTxQueue.cleaned]
      split <;> rename_i hw <;> simp [hw]
  · simp [hf]

theorem scalarBoundary_txq (hr : s.txq.txNextRs + s.txq.txRsThresh < 2 ^ 16)
    (hw : s.txq.txTail > s.txq.txNextRs → s.txq.txNextRs + s.txq.txRsThresh < s.txq.nbTxDesc) :
    (scalarBoundary s).txq =
      { s.txq with
        txRing :=
          if s.txq.txTail > s.txq.txNextRs then
            Function.update s.txq.txRing s.txq.txNextRs (s.txq.txRing s.txq.txNextRs).orRs
          else s.txq.txRing
        txNextRs :=
          if s.txq.txTail > s.txq.txNextRs then s.txq.txNextRs + s.txq.txRsThresh
          else s.txq.txNextRs } := by
  unfold scalarBoundary
  split
  · rename_i hgt
    have hlt := hw hgt
    have hge : ¬s.txq.txNextRs + s.txq.txRsThresh ≥ s.txq.nbTxDesc := by omega
    simp only [Driver.reportAtNextRs, Driver.setTxNextRs, u16_add hr, hge, if_false]
  · rfl

theorem scalarRest_txq {k : Nat} (hlt : s.txq.txTail + k < s.txq.nbTxDesc)
    (hnb : s.txq.nbTxDesc < 2 ^ 16) (hr : s.txq.txNextRs + s.txq.txRsThresh < 2 ^ 16)
    (hw : s.txq.txTail + k > s.txq.txNextRs →
      s.txq.txNextRs + s.txq.txRsThresh < s.txq.nbTxDesc) :
    (scalarRest b 0 k s).2.txq =
      { s.txq.sent b (fun i => (b.pkt i).descSimple) k with nbTxFree := s.txq.nbTxFree } := by
  have hku : u16 ((k : Int) - (0 : Nat)) = k := by
    rw [Int.natCast_zero, Int.sub_zero]
    exact unsigned_natCast (by omega)
  have htu : u16 ((s.txq.txTail : Int) + ((k : Int) - (0 : Nat))) = s.txq.txTail + k := by
    rw [Int.natCast_zero, Int.sub_zero]
    exact u16_add (by omega)
  have hfilled : ((ixgbeTxFillHwRing b 0 k s).setTxTail
      ((ixgbeTxFillHwRing b 0 k s).txq.txTail + ((k : Int) - (0 : Nat)))).txq =
      { s.txq.filled b s.txq.txTail 0 k with txTail := s.txq.txTail + k } := by
    simp only [Driver.setTxTail, ixgbeTxFillHwRing_txq, IxgbeTxQueue.filled, htu]
  have hb := scalarBoundary_txq (s := (ixgbeTxFillHwRing b 0 k s).setTxTail
    ((ixgbeTxFillHwRing b 0 k s).txq.txTail + ((k : Int) - (0 : Nat))))
    (by rw [hfilled]; exact hr) (by rw [hfilled]; exact hw)
  rw [hfilled] at hb
  unfold scalarRest
  dsimp only
  rw [hku, if_neg]
  · simp only [Driver.publish, hb]
    rfl
  · rw [hb]
    exact Nat.not_le_of_lt hlt

/-- The scalar path on packets that end before the last descriptor. -/
theorem scalar_short {n : Nat} (hn : nbPkts b s = min (prepare b s).txq.nbTxFree n)
    (hk : nbPkts b s ≠ 0)
    (hlt : (prepare b s).txq.txTail + nbPkts b s < (prepare b s).txq.nbTxDesc)
    (hnb : (prepare b s).txq.nbTxDesc < 2 ^ 16) (hf : (prepare b s).txq.nbTxFree < 2 ^ 16)
    (hr : (prepare b s).txq.txNextRs + (prepare b s).txq.txRsThresh < 2 ^ 16)
    (hw : (prepare b s).txq.txTail + nbPkts b s > (prepare b s).txq.txNextRs →
      (prepare b s).txq.txNextRs + (prepare b s).txq.txRsThresh < (prepare b s).txq.nbTxDesc) :
    (txXmitPkts b n s).1 = nbPkts b s ∧ (txXmitPkts b n s).2.txq =
      (s.txq.cleared (prepare b s).txq).sent b (fun i => (b.pkt i).descSimple) (nbPkts b s) := by
  have hq := prepareSimple_txq b s
  have hfree : (prepareSimple b s).txq.nbTxFree = (prepare b s).txq.nbTxFree := by
    rw [hq]
    rfl
  have hmin : min (prepareSimple b s).txq.nbTxFree n = nbPkts b s := by rw [hfree, hn]
  have hset : ((prepareSimple b s).setNbTxFree ((prepareSimple b s).txq.nbTxFree -
      nbPkts b s)).txq = { s.txq.cleared (prepare b s).txq with
        nbTxFree := (prepare b s).txq.nbTxFree - nbPkts b s } := by
    simp only [Driver.setNbTxFree, hq, IxgbeTxQueue.cleared, u16_sub (nbPkts_le_free b s) hf]
  unfold txXmitPkts
  dsimp only
  rw [hmin, if_neg hk, if_neg]
  · refine ⟨rfl, ?_⟩
    rw [scalarRest_txq (by rw [hset]; exact hlt) (by rw [hset]; exact hnb)
      (by rw [hset]; exact hr) (by rw [hset]; exact hw), hset]
    rfl
  · rw [hset]
    exact Nat.not_lt_of_le (Nat.le_of_lt hlt)

theorem scalar_zero {n : Nat} (hn : nbPkts b s = min (prepare b s).txq.nbTxFree n)
    (hk : nbPkts b s = 0) :
    (txXmitPkts b n s).1 = nbPkts b s ∧
      (txXmitPkts b n s).2.txq = s.txq.cleared (prepare b s).txq := by
  have hq := prepareSimple_txq b s
  have hfree : (prepareSimple b s).txq.nbTxFree = (prepare b s).txq.nbTxFree := by
    rw [hq]
    rfl
  unfold txXmitPkts
  dsimp only
  rw [hfree, ← hn, if_pos hk]
  exact ⟨hk.symm, hq⟩

end

/-! ## The comparison -/

/-- The modified burst returns what the original vector burst returns, and leaves the same
queue. -/
structure SameVec (b : Burst) (q : IxgbeTxQueue) : Prop where
  ret : (ixgbeXmitFixedBurstVec b (.ofQueue q)).1 =
    (ixgbeXmitFixedBurstVecOriginal b (.ofQueue q)).1
  txq : (afterBurst b q).txq = (ixgbeXmitFixedBurstVecOriginal b (.ofQueue q)).2.txq

/-- The scalar path on the same burst, in the chunk its caller hands it. -/
def afterScalar (b : Burst) (q : IxgbeTxQueue) : Nat × Driver :=
  txXmitPkts b (min b.nbPkts q.txRsThresh) (.ofQueue q)

/-- The modified burst agrees with the scalar path. The scalar cleanup also clears the
entries of buffers it has freed, so the software rings are compared where a descriptor is
outstanding. -/
structure SameScalar (b : Burst) (q : IxgbeTxQueue) : Prop where
  ret : (ixgbeXmitFixedBurstVec b (.ofQueue q)).1 = (afterScalar b q).1
  tail : (afterBurst b q).txq.txTail = (afterScalar b q).2.txq.txTail
  nextRs : (afterBurst b q).txq.txNextRs = (afterScalar b q).2.txq.txNextRs
  free : (afterBurst b q).txq.nbTxFree = (afterScalar b q).2.txq.nbTxFree
  ring : (afterBurst b q).txq.txRing = (afterScalar b q).2.txq.txRing
  swRing : ∀ j < (afterBurst b q).txq.outstanding,
    (afterBurst b q).txq.swRingV (slot q.nbTxDesc (afterBurst b q).txq.firstDd j) =
      (afterScalar b q).2.txq.swRingV (slot q.nbTxDesc (afterBurst b q).txq.firstDd j)

/-- The packet is one segment: its length is that segment's, as far as a descriptor holds it. -/
def RteMbuf.OneSegment (m : RteMbuf) : Prop := m.pktLen.toNat % 2 ^ 18 = m.dataLen.toNat

theorem desc_eq_descSimple (m : RteMbuf) :
    (m.desc flags).olinfoStatus = m.descSimple.olinfoStatus ↔ m.OneSegment := by
  have hd := m.dataLen.toNat_lt
  have hp := m.pktLen.toNat_lt
  simp only [RteMbuf.desc, RteMbuf.descSimple, RteMbuf.OneSegment, IXGBE_ADVTXD_PAYLEN_SHIFT,
    Nat.shiftLeft_eq]
  omega

theorem desc_of_oneSegment {m : RteMbuf} (h : m.OneSegment) : m.desc flags = m.descSimple := by
  have ho := (desc_eq_descSimple m).mpr h
  have he : m.desc flags = ⟨m.descSimple.bufferAddr, m.descSimple.cmdTypeLen,
    (m.desc flags).olinfoStatus⟩ := rfl
  rw [he, ho]

/-- Where the modified burst without drops is the unmodified one. -/
def SendsAsBefore (b : Burst) (q : IxgbeTxQueue) : Prop :=
  let k := nbPkts b (.ofQueue q)
  k = 0 ∨ (k < q.nbTxDesc - q.txTail ∧ prefixReport b.ret k k ≡ k [ZMOD 2 ^ 16] ∧
    ∀ i < k, (b.pkt i).OneSegment)

/-! ## Posting with two kinds of descriptor -/

section
variable {p : IxgbeTxQueue} {b : Burst} {k : Nat}

theorem sent_olinfo {d : Nat → AdvTxDesc} {i : Nat} (hi : i < k) :
    ((p.sent b d k).txRing (p.txTail + i)).olinfoStatus = (d i).olinfoStatus := by
  have hf : fill d p.txTail 0 k p.txRing (p.txTail + i) = d i := by
    rw [fill_at, if_pos hi, Nat.zero_add]
  simp only [IxgbeTxQueue.sent]
  split
  · by_cases he : p.txTail + i = p.txNextRs
    · rw [← he, Function.update_self, hf, orRs_olinfoStatus]
    · rw [Function.update_of_ne he, hf]
  · rw [hf]

theorem sent_congr {d d' : Nat → AdvTxDesc} (h : ∀ i < k, d i = d' i) :
    p.sent b d k = p.sent b d' k := by
  have hf : fill d p.txTail 0 k p.txRing = fill d' p.txTail 0 k p.txRing :=
    fill_congr fun i _ hi => h i (by omega)
  simp only [IxgbeTxQueue.sent, hf]

end

section
variable {b : Burst} {q : IxgbeTxQueue}

/-- The entries the scalar cleanup clears are not outstanding afterwards. -/
theorem cleared_outstanding (hc : q.Conf) (hr : RingFields q) {j : Nat}
    (hj : j < (prepare b (.ofQueue q)).txq.outstanding) :
    (q.cleared (prepare b (.ofQueue q)).txq).swRingV
        (slot q.nbTxDesc (prepare b (.ofQueue q)).txq.firstDd j) =
      (prepare b (.ofQueue q)).txq.swRingV
        (slot q.nbTxDesc (prepare b (.ofQueue q)).txq.firstDd j) := by
  rw [(prepare_frame b _).2.1]
  simp only [IxgbeTxQueue.cleared]
  split
  · rename_i hcl
    have hroom := cleans_room hc hcl
    have htxq : (prepare b (.ofQueue q)).txq = q.cleaned := by
      rw [prepare_txq, if_pos (show (Driver.ofQueue q).txq.cleans = true from hcl)]
      rfl
    rw [htxq] at hj ⊢
    have hn := cleaned_nextDd hc hr.nextDd_lt hr.nextDd_mod
    have ho := cleaned_outstanding hc hr.tail_lt hr.nextDd_lt hr.nextDd_mod
      (by have := hr.outstanding_eq; omega)
    have hO : q.outstanding < q.nbTxDesc := gap_lt (by have := hr.tail_lt; omega) _ _
    obtain ⟨hrs, hdvd, hlo, -, -, -⟩ := hc
    have hm := hr.nextDd_mod
    have hl := hr.nextDd_lt
    rw [hrs] at hm
    have hf : q.firstDd = q.txNextDd - 31 := by rw [IxgbeTxQueue.firstDd, hrs]
    have hf' : q.cleaned.firstDd = q.cleaned.txNextDd - 31 := by
      rw [IxgbeTxQueue.firstDd, show q.cleaned.txRsThresh = 32 from hrs]
    have hfl : q.cleaned.firstDd < q.nbTxDesc := by
      rw [hf', hn]
      split <;> omega
    -- the outstanding slots start behind the 32 cleared ones and end before them
    rcases slot_cases hfl (show j ≤ q.nbTxDesc by omega) with ⟨h1, e⟩ | ⟨h1, e⟩ <;> rw [e]
    · split at hn
      · rw [fill_above (by omega)]
        rfl
      · rw [fill_below (by omega)]
        rfl
    · split at hn
      · rw [fill_below (by omega)]
        rfl
      · omega
  · rfl

/-- Entries of the packets just posted are equal, the other outstanding ones were not cleared. -/
theorem sent_swRing (hc : q.Conf) (hr : RingFields q) {d d' : Nat → AdvTxDesc} {k j : Nat}
    (hlt : q.txTail + k < q.nbTxDesc)
    (hj : j < ((prepare b (.ofQueue q)).txq.sent b d k).outstanding) :
    ((prepare b (.ofQueue q)).txq.sent b d k).swRingV
        (slot q.nbTxDesc (prepare b (.ofQueue q)).txq.firstDd j) =
      ((q.cleared (prepare b (.ofQueue q)).txq).sent b d' k).swRingV
        (slot q.nbTxDesc (prepare b (.ofQueue q)).txq.firstDd j) := by
  have hp := prepare_inv b (ofQueue_inv hc hr)
  obtain ⟨-, -, hnb, ht, -, -, -⟩ := prepare_frame b (.ofQueue q)
  replace ht : (prepare b (.ofQueue q)).txq.txTail = q.txTail := ht
  replace hnb : (prepare b (.ofQueue q)).txq.nbTxDesc = q.nbTxDesc := hnb
  have hcl := fun h => cleared_outstanding (b := b) (j := j) hc hr h
  have hpc := hp.conf
  have hpr := hp.ring
  clear hp
  generalize (prepare b (.ofQueue q)).txq = p at *
  have hfd : p.firstDd < q.nbTxDesc := by
    have := hpr.nextDd_lt
    unfold IxgbeTxQueue.firstDd
    omega
  have hj' : j < gap q.nbTxDesc p.firstDd (q.txTail + k) := by
    have ho : (p.sent b d k).outstanding = gap p.nbTxDesc p.firstDd (p.txTail + k) := rfl
    rwa [ho, hnb, ht] at hj
  have hout : p.outstanding = gap q.nbTxDesc p.firstDd q.txTail := by
    rw [IxgbeTxQueue.outstanding, hnb, ht]
  have hjn : j < q.nbTxDesc := Nat.lt_trans hj' (gap_lt (by omega) _ _)
  have htc : (q.cleared p).txTail = q.txTail := ht
  simp only [IxgbeTxQueue.sent, backlog_eq_fill, ht, htc]
  by_cases hin : j < p.outstanding
  · unfold fill
    rw [hcl hin]
  · have hmem : q.txTail ≤ slot q.nbTxDesc p.firstDd j ∧
        slot q.nbTxDesc p.firstDd j < q.txTail + k := by
      rw [hout] at hin
      rcases gap_cases hfd hlt with ⟨h1, e1⟩ | ⟨h1, e1⟩ <;>
      rcases gap_cases hfd hr.tail_lt with ⟨h2, e2⟩ | ⟨h2, e2⟩ <;>
      rcases slot_cases hfd (Nat.le_of_lt hjn) with ⟨h3, e3⟩ | ⟨h3, e3⟩ <;> omega
    unfold fill
    rw [if_pos (by omega), if_pos (by omega)]

end

/-! ## When the three agree -/

section
variable {b : Burst} {q : IxgbeTxQueue}

/-- The count of a burst without drops that leaves the original tail. -/
theorem count_of_tail (hc : q.Conf) (hr : RingFields q)
    (hall : ∀ i < nbPkts b (.ofQueue q), b.admits i = true) (hk : nbPkts b (.ofQueue q) ≠ 0)
    (hlt : nbPkts b (.ofQueue q) < q.nbTxDesc - q.txTail)
    (h : (afterBurst b q).txq.txTail = q.txTail + nbPkts b (.ofQueue q)) :
    prefixReport b.ret (nbPkts b (.ofQueue q)) (nbPkts b (.ofQueue q)) ≡
      nbPkts b (.ofQueue q) [ZMOD 2 ^ 16] := by
  have hhi := hc.hi
  have hpl : Placed (.ofQueue q) := ⟨hc, hr.tail_lt⟩
  have hpre : b.AdmitsPrefix 0 (nbPkts b (.ofQueue q)) (nbPkts b (.ofQueue q)) := by
    intro i hi
    rw [Nat.zero_add]
    exact iff_of_true (hall i hi) hi
  rw [afterBurst, burst_pos hk, xmitRest_eq] at h
  rcases hpl.cursor_cases hk with ⟨-, -, hcur⟩ | ⟨m, hge, -⟩
  · rw [hcur] at h
    have hs : slot q.nbTxDesc q.txTail (nbPkts b (.ofQueue q)) = q.txTail + nbPkts b (.ofQueue q) :=
      slot_of_lt (by omega)
    exact (tail_short (Nat.le_refl _) (by omega) hhi hpre).mp (h.trans hs.symm)
  · exact absurd hlt (Nat.not_lt_of_le hge)

/-- A burst that wraps never leaves the original tail and free count. -/
theorem long_differs (hc : q.Conf) (hr : RingFields q) (hk : nbPkts b (.ofQueue q) ≠ 0)
    (hge : q.nbTxDesc - q.txTail ≤ nbPkts b (.ofQueue q)) : ¬SameVec b q := by
  intro ⟨_, htxq⟩
  have hhi := hc.hi
  have hpl : Placed (.ofQueue q) := ⟨hc, hr.tail_lt⟩
  have hleft := hpl.left b
  have hk32 := hpl.nbPkts_le b
  obtain ⟨ht, hn, hf, hrs⟩ := prepared_bounds (b := b) hc hr
  have hth := (prepare_inv b (ofQueue_inv hc hr)).conf.rs_eq
  obtain ⟨h1, h2⟩ := original_long hk (by rw [hleft]; exact hge) (by omega) hf hth
  rw [← htxq, hleft, afterBurst, burst_pos hk, xmitRest_eq] at h1
  rw [← htxq, afterBurst, burst_pos hk, xmitRest_eq] at h2
  dsimp only at h1 h2
  have hfree : (cursor b (.ofQueue q)).drv.txq.nbTxFree =
      (prepare b (.ofQueue q)).txq.nbTxFree := by
    rw [cursor_long (by rw [hleft]; exact hge), xmitRingEnd_txq]
  have hid : (cursor b (.ofQueue q)).txId = 0 := by
    rw [cursor_long (by rw [hleft]; exact hge)]
    rfl
  have hkf := nbPkts_le_free b (.ofQueue q)
  -- the tail asks for the count behind the wrap, the free descriptors for all of it
  have m1 := u16_modEq (((cursor b (.ofQueue q)).txId : Int) +
    restNum b (cursor b (.ofQueue q)))
  have m2 := u16_modEq (((cursor b (.ofQueue q)).drv.txq.nbTxFree : Int) -
    restNum b (cursor b (.ofQueue q)))
  rw [restTail] at h1
  rw [h1, hid] at m1
  rw [h2, hfree] at m2
  have ht : q.txTail < q.nbTxDesc := hr.tail_lt
  have hleft0 : (Driver.ofQueue q).txq.nbTxDesc - (Driver.ofQueue q).txq.txTail =
    q.nbTxDesc - q.txTail := rfl
  rw [hleft0] at m1
  simp only [Int.ModEq] at m1 m2
  omega

theorem nbPkts_scalar (b : Burst) (q : IxgbeTxQueue) :
    nbPkts b (.ofQueue q) =
      min (prepare b (.ofQueue q)).txq.nbTxFree (min b.nbPkts q.txRsThresh) := rfl

/-- **Refinement, exactly.** From any queue satisfying the ring invariant and for any burst
whose packets are all admitted, the modified burst agrees with the original vector burst and
with the scalar path if and only if `SendsAsBefore`. -/
theorem same_iff_sendsAsBefore {q : IxgbeTxQueue} (hc : q.Conf) (hr : RingFields q) {b : Burst}
    (hall : ∀ i < nbPkts b (.ofQueue q), b.admits i = true) :
    SameVec b q ∧ SameScalar b q ↔ SendsAsBefore b q := by
  obtain ⟨ht, hn, hf, hrs⟩ := prepared_bounds (b := b) hc hr
  have hleft := Placed.left (s := .ofQueue q) ⟨hc, hr.tail_lt⟩ b
  have hhi := hc.hi
  have hp := prepare_inv b (ofQueue_inv hc hr)
  unfold SendsAsBefore
  by_cases hk : nbPkts b (.ofQueue q) = 0
  · refine iff_of_true ⟨⟨?_, ?_⟩, ?_⟩ (.inl hk)
    · rw [burst_fst, original_fst]
    · rw [afterBurst, burst_zero hk, original_zero hk]
    · obtain ⟨s1, s2⟩ := scalar_zero (nbPkts_scalar b q) hk
      have hb : (afterBurst b q).txq = (prepare b (.ofQueue q)).txq := by
        rw [afterBurst, burst_zero hk]
      have ha : (afterScalar b q).2.txq = q.cleared (prepare b (.ofQueue q)).txq := s2
      refine ⟨by rw [burst_fst]; exact s1.symm, ?_, ?_, ?_, ?_, ?_⟩
      · rw [hb, ha]; rfl
      · rw [hb, ha]; rfl
      · rw [hb, ha]; rfl
      · rw [hb, ha]; rfl
      · intro j hj
        rw [hb] at hj ⊢
        rw [ha, cleared_outstanding hc hr hj]
  rcases Nat.lt_or_ge (nbPkts b (.ofQueue q)) (q.nbTxDesc - q.txTail) with hlt | hge
  · have hnext := hp.ring.nextRs_lt
    have hmod := hp.ring.nextRs_mod
    have hth := hp.conf.rs_eq
    have hdv := hp.conf.dvd
    rw [hth] at hmod
    have hlt' : q.txTail + nbPkts b (.ofQueue q) < q.nbTxDesc := by omega
    obtain ⟨s1, s2⟩ := scalar_short (nbPkts_scalar b q) hk (by omega) (by omega) hf hrs
      (by omega)
    have ha : (afterScalar b q).2.txq = (q.cleared (prepare b (.ofQueue q)).txq).sent b
      (fun i => (b.pkt i).descSimple) (nbPkts b (.ofQueue q)) := s2
    have ho := original_short hk (by rw [hleft]; exact hlt) (by omega) hf hrs
    constructor
    · rintro ⟨hv, hs⟩
      have hcount := count_of_tail hc hr hall hk hlt (by rw [hv.txq, ho, ← ht]; rfl)
      refine .inr ⟨hlt, hcount, ?_⟩
      intro i hi
      have hring := hs.ring
      rw [burst_sent hc hr hall hlt hk hcount, ha] at hring
      have hi1 := sent_olinfo (p := (prepare b (.ofQueue q)).txq) (b := b)
        (d := fun i => (b.pkt i).desc flags) hi
      have hi2 := sent_olinfo (p := q.cleared (prepare b (.ofQueue q)).txq) (b := b)
        (d := fun i => (b.pkt i).descSimple) hi
      rw [← desc_eq_descSimple, ← hi1, ← hi2, hring]
      rfl
    · rintro (h | ⟨-, hcount, hone⟩)
      · exact absurd h hk
      have hb := burst_sent hc hr hall hlt hk hcount
      have hcongr : (q.cleared (prepare b (.ofQueue q)).txq).sent b
          (fun i => (b.pkt i).descSimple) (nbPkts b (.ofQueue q)) =
          (q.cleared (prepare b (.ofQueue q)).txq).sent b
            (fun i => (b.pkt i).desc flags) (nbPkts b (.ofQueue q)) :=
        sent_congr fun i hi => (desc_of_oneSegment (hone i hi)).symm
      rw [hcongr] at ha
      refine ⟨⟨by rw [burst_fst, original_fst], by rw [hb, ho]⟩,
        by rw [burst_fst]; exact s1.symm, ?_, ?_, ?_, ?_, ?_⟩
      · rw [hb, ha]; rfl
      · rw [hb, ha]; rfl
      · rw [hb, ha]; rfl
      · rw [hb, ha]; rfl
      · intro j hj
        rw [hb] at hj ⊢
        rw [ha]
        exact sent_swRing hc hr hlt' hj
  · refine iff_of_false (fun h => long_differs hc hr hk hge h.1) ?_
    rintro (h | ⟨h, -⟩)
    · exact hk h
    · exact absurd h (Nat.not_lt_of_le hge)

end

theorem conf64_fields : RingFields (ixgbeResetTxQueueVec conf64) :=
  (reset_inv (q := conf64) conf64_conf).ring

theorem oneOut_fields : RingFields oneOut := by
  have hs : RingSafe (Driver.reset conf64) (.burst (plainBurst 1 fun _ => some 33)) := by
    refine .inr ⟨?_, ?_, ?_, ?_⟩ <;> decide +kernel
  exact (step_ringInv _ _ (reset_inv conf64_conf) hs).ring

/-- Three packets, with `ret` starting at -1. -/
def threeCounted : Burst := { plainBurst 3 fun _ => some 33 with ret := -1 }

theorem same_iff_sendsAsBefore_oneOut :
    SameVec threeCounted oneOut ∧ SameScalar threeCounted oneOut := by
  refine (same_iff_sendsAsBefore oneOut_conf oneOut_fields fun _ _ => rfl).mpr (.inr ⟨?_, ?_, ?_⟩)
  · decide +kernel
  · decide +kernel
  · exact fun _ _ => rfl

/-- Two admitted packets on a fresh queue: the tail is 3 where the original leaves 2. -/
theorem same_broken :
    RingFields (ixgbeResetTxQueueVec conf64) ∧
      (∀ i, (plainBurst 2 fun _ => some 33).admits i = true) ∧
      ¬(SameVec (plainBurst 2 fun _ => some 33) (ixgbeResetTxQueueVec conf64) ∧
        SameScalar (plainBurst 2 fun _ => some 33) (ixgbeResetTxQueueVec conf64)) := by
  refine ⟨conf64_fields, fun _ => rfl, ?_⟩
  intro h
  have ht := congrArg IxgbeTxQueue.txTail h.1.txq
  revert ht
  decide +kernel

end P4Switch.Ixgbe
