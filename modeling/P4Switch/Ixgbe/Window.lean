import P4Switch.Ixgbe.Posting

/-! # What the NIC is told to send

The window from the old tail to the new one against the packets admitted in the call. The
window is right exactly when the admitted packets come first and the count comes out as
their number; for each of the three ways a burst can meet the end of the ring that is one
congruence on the weighted count. -/
namespace P4Switch.Ixgbe
open P4Switch.Lib.MachineInt P4Switch.Lib.Circular

/-! ## Descriptors and packets -/

/-- The descriptor holds the packet's buffer address and length, with or without RS. -/
structure AdvTxDesc.Carries (d : AdvTxDesc) (m : RteMbuf) : Prop where
  address : d.bufferAddr = (m.bufIova.toNat + m.dataOff.toNat) % 2 ^ 64
  dataLen : d.cmdTypeLen % 2 ^ 16 = m.dataLen.toNat
  payLen : d.olinfoStatus = (m.pktLen.toNat <<< IXGBE_ADVTXD_PAYLEN_SHIFT) % 2 ^ 32

theorem desc_carries (m : RteMbuf) (n i : Nat) : (m.desc (flagsAt n i)).Carries m := by
  refine ⟨rfl, ?_, rfl⟩
  have hf : flagsAt n i % 2 ^ 16 = 0 := by
    unfold flagsAt
    split <;> rfl
  have hm : m.dataLen.toNat % 2 ^ 16 = m.dataLen.toNat := Nat.mod_eq_of_lt m.dataLen.toNat_lt
  simp only [RteMbuf.desc]
  rw [Nat.or_mod_two_pow, hf, hm, Nat.zero_or]

theorem AdvTxDesc.Carries.orRs {d : AdvTxDesc} {m : RteMbuf} (h : d.Carries m) :
    d.orRs.Carries m := by
  refine ⟨h.address, ?_, h.payLen⟩
  have hr : IXGBE_ADVTXD_DCMD_RS % 2 ^ 16 = 0 := rfl
  simp only [AdvTxDesc.orRs]
  rw [Nat.or_mod_two_pow, hr, Nat.or_zero]
  exact h.dataLen

theorem restRs_carries {b : Burst} {c : Cursor} {i : Nat} {m : RteMbuf}
    (h : (restRing b c i).Carries m) : (restRs b c i).Carries m := by
  unfold restRs
  split
  · by_cases hi : i = c.drv.txq.txNextRs
    · rw [hi, Function.update_self]
      exact (hi ▸ h).orRs
    · rw [Function.update_of_ne hi]
      exact h
  · exact h

/-! ## The window -/

/-- The indices handed to the NIC when the tail moves from that of `q` to that of `q'`. -/
def window (q q' : IxgbeTxQueue) : List Nat :=
  span q.nbTxDesc q.txTail (gap q.nbTxDesc q.txTail q'.txTail)

/-- The call tells the NIC the truth: the window holds one descriptor for each packet of the
burst that was admitted, in burst order, each stored by this call, and nothing was stored
outside the window. -/
structure Told (b : Burst) (q : IxgbeTxQueue) : Prop where
  tail_lt : (afterBurst b q).txq.txTail < q.nbTxDesc
  tdt : nbPkts b (.ofQueue q) ≠ 0 → (afterBurst b q).tdt = (afterBurst b q).txq.txTail
  carries : List.Forall₂ (fun i p => ((afterBurst b q).txq.txRing i).Carries (b.pkt p))
    (window q (afterBurst b q).txq) (b.admitted 0 (ixgbeXmitFixedBurstVec b (.ofQueue q)).1)
  fresh : ∀ i ∈ window q (afterBurst b q).txq, ∃ d, Event.store i d ∈ (afterBurst b q).trace
  inside : ∀ i d, Event.store i d ∈ (afterBurst b q).trace → i ∈ window q (afterBurst b q).txq

section
variable {b : Burst} {q : IxgbeTxQueue}

theorem afterBurst_txq (hk : nbPkts b (.ofQueue q) ≠ 0) :
    (afterBurst b q).txq.txTail = restTail b (cursor b (.ofQueue q)) ∧
    (afterBurst b q).txq.txRing = restRs b (cursor b (.ofQueue q)) ∧
    (afterBurst b q).tdt = (afterBurst b q).txq.txTail := by
  unfold afterBurst
  rw [burst_pos hk, xmitRest_eq]
  exact ⟨rfl, rfl, rfl⟩

/-- The slots stored by the call, counted from the old tail. -/
theorem stored_iff (h : Placed (.ofQueue q)) (hk : nbPkts b (.ofQueue q) ≠ 0) {j : Nat}
    (hj : j < q.nbTxDesc) (hp : processed b (.ofQueue q) ≤ q.nbTxDesc) :
    (∃ d, Event.store (slot q.nbTxDesc q.txTail j) d ∈ (afterBurst b q).trace) ↔
      j < processed b (.ofQueue q) ∧ b.admits j = true := by
  have hpost := h.postings hk
  have hnil : postings (Driver.ofQueue q).trace = [] := rfl
  rw [hnil, List.nil_append] at hpost
  constructor
  · rintro ⟨d, hd⟩
    have hm := mem_postings.mpr hd
    rw [afterBurst, hpost] at hm
    obtain ⟨i, hi, he⟩ := List.mem_map.mp hm
    obtain ⟨⟨-, hi⟩, ha⟩ := (b.mem_admitted _ _ _).mp hi
    have hij : i = j := slot_inj h.tail_lt (show i < q.nbTxDesc by omega) hj (Prod.mk.inj he).1
    subst hij
    exact ⟨by omega, ha⟩
  · rintro ⟨hi, ha⟩
    refine ⟨(b.pkt j).desc (flagsAt (q.nbTxDesc - q.txTail) j), mem_postings.mp ?_⟩
    rw [afterBurst, hpost]
    exact List.mem_map.mpr ⟨j, (b.mem_admitted _ _ _).mpr ⟨⟨by omega, by omega⟩, ha⟩, rfl⟩

theorem stored_slot (h : Placed (.ofQueue q)) (hk : nbPkts b (.ofQueue q) ≠ 0) {i : Nat}
    {d : AdvTxDesc} (hd : Event.store i d ∈ (afterBurst b q).trace) :
    ∃ j < processed b (.ofQueue q), b.admits j = true ∧ slot q.nbTxDesc q.txTail j = i := by
  have hm := mem_postings.mpr hd
  rw [afterBurst, h.postings hk] at hm
  obtain ⟨j, hj, he⟩ := List.mem_map.mp hm
  obtain ⟨⟨-, hj⟩, ha⟩ := (b.mem_admitted _ _ _).mp hj
  exact ⟨j, by omega, ha, (Prod.mk.inj he).1⟩

theorem Placed.processed_bounds {s : Driver} (h : Placed s) (hk : nbPkts b s ≠ 0) :
    nbPkts b s ≤ processed b s ∧ processed b s ≤ s.txq.nbTxDesc := by
  have hk32 := h.nbPkts_le b
  have hlo := h.conf.lo
  have ht := h.tail_lt
  rcases h.cursor_cases hk with ⟨hlt, hp, -⟩ | ⟨m, hge, hm, hp, -⟩
  · omega
  · have ha := b.admitted_length_le 0 (s.txq.nbTxDesc - s.txq.txTail)
    omega

/-- The window is right exactly when the admitted packets come first and the tail moves by
their number. -/
theorem told_iff_admitsPrefix (h : Placed (.ofQueue q)) (hk : nbPkts b (.ofQueue q) ≠ 0) :
    Told b q ↔ ∃ a ≤ nbPkts b (.ofQueue q), b.AdmitsPrefix 0 (processed b (.ofQueue q)) a ∧
      restTail b (cursor b (.ofQueue q)) = slot q.nbTxDesc q.txTail a := by
  have hk32 := h.nbPkts_le b
  have hlo : 64 ≤ q.nbTxDesc := h.conf.lo
  have ht : q.txTail < q.nbTxDesc := h.tail_lt
  obtain ⟨hkp, hpn⟩ := h.processed_bounds hk
  obtain ⟨htail, hring, htdt⟩ := afterBurst_txq hk
  constructor
  · rintro ⟨hlt, -, hcar, hfresh, hin⟩
    have hw : gap q.nbTxDesc q.txTail (afterBurst b q).txq.txTail < q.nbTxDesc :=
      gap_lt (by omega) _ _
    refine ⟨gap q.nbTxDesc q.txTail (afterBurst b q).txq.txTail, ?_, ?_, ?_⟩
    · have hlen := hcar.length_eq
      rw [window, span_length, burst_fst] at hlen
      exact hlen ▸ b.admitted_length_le _ _
    · intro i hi
      have hi' : i < q.nbTxDesc := Nat.lt_of_lt_of_le hi hpn
      rw [Nat.zero_add, ← slot_mem_span ht (Nat.le_of_lt hw) hi']
      constructor
      · intro ha
        obtain ⟨d, hd⟩ := (stored_iff h hk hi' hpn).mpr ⟨hi, ha⟩
        exact hin _ _ hd
      · intro hm
        exact ((stored_iff h hk hi' hpn).mp (hfresh _ hm)).2
    · rw [← htail, slot_gap ht hlt]
  · rintro ⟨a, ha, hpre, htl⟩
    have hgap : gap q.nbTxDesc q.txTail (afterBurst b q).txq.txTail = a := by
      rw [htail, htl, gap_slot ht (by omega)]
    have hadm : b.admitted 0 (nbPkts b (.ofQueue q)) = List.range a := by
      rw [List.range_eq_range']
      exact Burst.AdmitsPrefix.admitted_eq (fun i hi => hpre i (by omega)) ha
    refine ⟨?_, fun _ => htdt, ?_, ?_, ?_⟩
    · rw [htail, htl]
      exact slot_lt (by omega) _ _
    · rw [window, hgap, burst_fst, hadm, span, List.forall₂_map_left_iff, List.forall₂_same]
      intro j hj
      have hj : j < a := List.mem_range.mp hj
      rw [hring]
      refine restRs_carries ?_
      have hadj : b.admits j = true := by simpa using (hpre j (by omega)).mpr hj
      have hr := h.ring hk (show j < q.nbTxDesc by omega)
      rw [if_pos ⟨by omega, hadj⟩] at hr
      exact hr ▸ desc_carries _ _ _
    · intro i hi
      rw [window, hgap] at hi
      obtain ⟨j, hj, rfl⟩ := mem_span.mp hi
      have hadj : b.admits j = true := by simpa using (hpre j (by omega)).mpr hj
      exact (stored_iff h hk (by omega) hpn).mpr ⟨by omega, hadj⟩
    · intro i d hd
      obtain ⟨j, hj, hadj, rfl⟩ := stored_slot h hk hd
      rw [window, hgap]
      exact mem_span.mpr ⟨j, by simpa using (hpre j hj).mp (by simpa using hadj), rfl⟩

end

/-! ## The three ways to meet the end of the ring -/

/-- The admitted packets come first, `a` of them, and the count is theirs: on a burst that
ends before the last descriptor; on one that wraps with an admitted packet on the last
descriptor; and on one that wraps with nothing admitted from some packet before the wrap on. -/
def TellsNic (b : Burst) (q : IxgbeTxQueue) : Prop :=
  let k := nbPkts b (.ofQueue q)
  let n := q.nbTxDesc - q.txTail
  k = 0 ∨ ∃ a ≤ k,
    (k < n ∧ b.AdmitsPrefix 0 k a ∧ prefixReport b.ret k a ≡ a [ZMOD 2 ^ 16]) ∨
    (n ≤ a ∧ b.AdmitsPrefix 0 k a ∧
      n + prefixReport b.ret (k - n) (a - n) ≡ (a - n : Nat) [ZMOD 2 ^ 16]) ∨
    (a < n ∧ n ≤ k ∧ b.AdmitsPrefix 0 (n + (k - a)) a ∧
      (k - a : Nat) * b.ret ≡ q.txTail [ZMOD 2 ^ 16])

section
variable {b : Burst} {q : IxgbeTxQueue}

theorem add_modEq_add_left (x y z : Int) : x + y ≡ x + z [ZMOD 2 ^ 16] ↔ y ≡ z [ZMOD 2 ^ 16] :=
  ⟨fun h => h.add_left_cancel' x, fun h => h.add_left x⟩

/-- The tail of a burst that ends before the last descriptor. -/
theorem tail_short {k a : Nat} {p : Driver} (ha : a ≤ k) (hlt : q.txTail + a < q.nbTxDesc)
    (hn : q.nbTxDesc ≤ 4096) (hpre : b.AdmitsPrefix 0 k a) :
    restTail b ⟨q.txTail, 0, k, 0, p⟩ = slot q.nbTxDesc q.txTail a ↔
      prefixReport b.ret k a ≡ a [ZMOD 2 ^ 16] := by
  have hrep := hpre.reported_modEq ha b.ret
  rw [slot_of_lt hlt, restTail_eq_iff (by omega), Int.natCast_add, Int.natCast_zero, zero_add,
    add_modEq_add_left]
  exact ⟨fun h => hrep.symm.trans h, fun h => hrep.trans h⟩

/-- The tail of a burst that wraps with the last descriptor taken by an admitted packet. -/
theorem tail_wrapped {n m a : Nat} {p : Driver} (hn : n = q.nbTxDesc - q.txTail)
    (ht : q.txTail < q.nbTxDesc) (hna : n ≤ a) (ha : a ≤ n + m) (hm : a ≤ q.nbTxDesc)
    (hhi : q.nbTxDesc ≤ 4096) (hpre : b.AdmitsPrefix 0 (n + m) a) :
    restTail b ⟨0, n, m, n, p⟩ = slot q.nbTxDesc q.txTail a ↔
      n + prefixReport b.ret m (a - n) ≡ (a - n : Nat) [ZMOD 2 ^ 16] := by
  have hrep := (hpre.rest.reported_modEq (show a - n ≤ m by omega) b.ret).add_left (n : Int)
  rw [slot_of_ge (by omega) (by omega), restTail_eq_iff (by omega)]
  rw [show q.txTail + a - q.nbTxDesc = a - n by omega, Int.natCast_zero, zero_add]
  exact ⟨fun h => hrep.symm.trans h, fun h => hrep.trans h⟩

/-- The tail of a burst that wraps with nothing admitted from some packet before on. -/
theorem tail_skipped {n m a : Nat} {p : Driver} (hn : n = q.nbTxDesc - q.txTail)
    (hna : a < n) (hhi : q.nbTxDesc ≤ 4096) (hpre : b.AdmitsPrefix 0 (n + m) a) :
    restTail b ⟨0, n, m, a, p⟩ = slot q.nbTxDesc q.txTail a ↔
      m * b.ret ≡ q.txTail [ZMOD 2 ^ 16] := by
  have hrest := hpre.rest
  rw [Nat.sub_eq_zero_of_le (Nat.le_of_lt hna)] at hrest
  have hrep := (hrest.reported_modEq (Nat.zero_le _) b.ret).add_left (a : Int)
  rw [prefixReport_zero] at hrep
  rw [slot_of_lt (by omega), restTail_eq_iff (by omega), Int.natCast_zero, zero_add,
    Int.natCast_add, add_comm (q.txTail : Int) a, ← add_modEq_add_left a (m * b.ret)]
  exact ⟨fun h => hrep.symm.trans h, fun h => hrep.trans h⟩

/-- Where the tail stands, for each of the three ways. -/
theorem tail_of_prefix (h : Placed (.ofQueue q)) (hk : nbPkts b (.ofQueue q) ≠ 0) {a : Nat}
    (ha : a ≤ nbPkts b (.ofQueue q)) :
    (b.AdmitsPrefix 0 (processed b (.ofQueue q)) a ∧
      restTail b (cursor b (.ofQueue q)) = slot q.nbTxDesc q.txTail a) ↔
    let k := nbPkts b (.ofQueue q)
    let n := q.nbTxDesc - q.txTail
    (k < n ∧ b.AdmitsPrefix 0 k a ∧ prefixReport b.ret k a ≡ a [ZMOD 2 ^ 16]) ∨
    (n ≤ a ∧ b.AdmitsPrefix 0 k a ∧
      n + prefixReport b.ret (k - n) (a - n) ≡ (a - n : Nat) [ZMOD 2 ^ 16]) ∨
    (a < n ∧ n ≤ k ∧ b.AdmitsPrefix 0 (n + (k - a)) a ∧
      (k - a : Nat) * b.ret ≡ q.txTail [ZMOD 2 ^ 16]) := by
  have hk32 := h.nbPkts_le b
  have hlo : 64 ≤ q.nbTxDesc := h.conf.lo
  have hhi : q.nbTxDesc ≤ 4096 := h.conf.hi
  have ht : q.txTail < q.nbTxDesc := h.tail_lt
  generalize hkk : nbPkts b (.ofQueue q) = k at ha hk32 ⊢
  dsimp only
  rcases h.cursor_cases hk with ⟨hlt, hp, hc⟩ | ⟨m, hge, hm, hp, hc⟩
  · change nbPkts b (.ofQueue q) < q.nbTxDesc - q.txTail at hlt
    rw [hp, hc, hkk]
    have hno2 : ¬q.nbTxDesc - q.txTail ≤ a := by omega
    have hno3 : ¬q.nbTxDesc - q.txTail ≤ k := by omega
    have hyes : k < q.nbTxDesc - q.txTail := by omega
    simp only [hyes, hno2, hno3, true_and, false_and, and_false, or_false]
    exact and_congr_right fun hpre => tail_short (q := q) ha (by omega) hhi hpre
  · generalize hnn : q.nbTxDesc - q.txTail = n at *
    change q.nbTxDesc - q.txTail ≤ nbPkts b (.ofQueue q) at hge
    change m = nbPkts b (.ofQueue q) - (b.admitted 0 (q.nbTxDesc - q.txTail)).length at hm
    change processed b (.ofQueue q) = q.nbTxDesc - q.txTail + m at hp
    rw [hnn, hkk] at hm
    rw [hnn] at hp
    have hno1 : ¬k < n := by omega
    have hcur : ∀ s1, (b.admitted 0 n).length = s1 →
        cursor b (.ofQueue q) = ⟨0, n, m, s1, (xmitRingEnd b n k
          (prepare b (.ofQueue q))).drv⟩ := by
      rintro s1 rfl
      rw [← hkk, ← hnn]
      exact hc
    rcases Nat.lt_or_ge a n with hna | hna
    · have hno2 : ¬n ≤ a := by omega
      have hnk : n ≤ k := by omega
      simp only [hno1, hno2, hna, hnk, true_and, false_and, false_or]
      have hm' : ∀ c, n ≤ c → b.AdmitsPrefix 0 c a → m = k - a := by
        intro c hnc hpre
        rw [hm, hpre.length_eq hnc, Nat.min_eq_left (by omega)]
      constructor
      · rintro ⟨hpre, htl⟩
        rw [hp] at hpre
        have hlen := hpre.length_eq (Nat.le_add_right n m)
        rw [Nat.min_eq_left (by omega)] at hlen
        have := hm' _ (Nat.le_add_right n m) hpre
        rw [hcur _ hlen, tail_skipped hnn.symm hna hhi hpre] at htl
        rw [← this]
        exact ⟨hpre, htl⟩
      · rintro ⟨hpre, hmod⟩
        have hlen := hpre.length_eq (Nat.le_add_right n (k - a))
        rw [Nat.min_eq_left (by omega)] at hlen
        have := hm' _ (Nat.le_add_right n _) hpre
        rw [← this] at hpre hmod
        rw [hp, hcur _ hlen, tail_skipped hnn.symm hna hhi hpre]
        exact ⟨hpre, hmod⟩
    · have hno3 : ¬a < n := by omega
      simp only [hno1, hno3, hna, true_and, false_and, false_or, or_false]
      have hm' : ∀ c, n ≤ c → b.AdmitsPrefix 0 c a → m = k - n := by
        intro c hnc hpre
        rw [hm, hpre.length_eq hnc, Nat.min_eq_right (by omega)]
      constructor
      · rintro ⟨hpre, htl⟩
        rw [hp] at hpre
        have hlen := hpre.length_eq (Nat.le_add_right n m)
        rw [Nat.min_eq_right (by omega)] at hlen
        have := hm' _ (Nat.le_add_right n m) hpre
        rw [hcur _ hlen, tail_wrapped hnn.symm ht hna (by omega) (by omega) hhi hpre] at htl
        rw [← this]
        rw [show n + m = k by omega] at hpre
        exact ⟨hpre, htl⟩
      · rintro ⟨hpre, hmod⟩
        have hlen := hpre.length_eq (show n ≤ k by omega)
        rw [Nat.min_eq_right (by omega)] at hlen
        have := hm' _ (show n ≤ k by omega) hpre
        rw [← this] at hmod
        rw [show k = n + m by omega] at hpre
        rw [hp, hcur _ hlen, tail_wrapped hnn.symm ht hna (by omega) (by omega) hhi hpre]
        exact ⟨hpre, hmod⟩

end

/-- **What the NIC is told, exactly.** From any queue with the tail inside the ring, the
window published by a burst is right if and only if `TellsNic` holds of the decisions. -/
theorem told_iff_tellsNic {q : IxgbeTxQueue} (hc : q.Conf) (ht : q.txTail < q.nbTxDesc)
    (b : Burst) : Told b q ↔ TellsNic b q := by
  have h : Placed (.ofQueue q) := ⟨hc, ht⟩
  by_cases hk : nbPkts b (.ofQueue q) = 0
  · have htxq : (afterBurst b q).txq.txTail = q.txTail := by
      unfold afterBurst
      rw [burst_zero hk]
      exact (prepare_frame b _).2.2.2.1
    have hgap : gap q.nbTxDesc q.txTail q.txTail = 0 := by
      rcases gap_cases ht ht with ⟨-, e⟩ | ⟨h', -⟩ <;> omega
    have hpost : postings (afterBurst b q).trace = [] := by
      unfold afterBurst
      rw [burst_zero hk, postings_prepare]
      rfl
    refine iff_of_true ⟨htxq ▸ ht, fun h => absurd hk h, ?_, ?_, ?_⟩ (.inl hk)
    · rw [window, htxq, hgap, burst_fst, hk]
      exact .nil
    · rw [window, htxq, hgap]
      intro i hi
      cases hi
    · intro i d hd
      have hm := mem_postings.mpr hd
      rw [hpost] at hm
      cases hm
  · rw [told_iff_admitsPrefix h hk, TellsNic]
    simp only [hk, false_or]
    exact exists_congr fun a => and_congr_right fun ha => tail_of_prefix h hk ha

/-- The queue with one packet outstanding. -/
def oneOut : IxgbeTxQueue :=
  (step (Driver.reset conf64) (.burst (plainBurst 1 fun _ => some 33))).txq

theorem oneOut_conf : oneOut.Conf := step_conf _ conf64_conf

/-- Two packets sent and one dropped behind them, with `ret` starting at -1. -/
def twoAndADrop : Burst :=
  { plainBurst 3 fun i => some (if i = 2 then 0 else 33) with ret := -1 }

theorem told_iff_tellsNic_oneOut :
    oneOut.txTail = 1 ∧ Told twoAndADrop oneOut := by
  refine ⟨by decide +kernel, (told_iff_tellsNic oneOut_conf (by decide +kernel) _).mpr ?_⟩
  refine .inr ⟨2, ?_, .inl ⟨?_, ?_, ?_⟩⟩ <;> decide +kernel

/-- Two admitted packets on a fresh queue: the window covers three descriptors. -/
theorem told_broken :
    ¬Told (plainBurst 2 fun _ => some 33) (ixgbeResetTxQueueVec conf64) := by
  intro h
  have hlen := h.carries.length_eq
  revert hlen
  decide +kernel

/-! ## The count from zero -/

theorem prefixReport_from_zero : ∀ c : Nat, c ≤ 32 → ∀ a : Nat, a ≤ c →
    (a : Int) ≤ prefixReport 0 c a ∧ prefixReport 0 c a < 2 ^ 15 ∧
      (prefixReport 0 c a = a ↔ a = 0 ∨ c = 1) := by
  decide +kernel

/-- When `ret` happens to start at zero, the NIC is told the truth about a burst of one
packet and about one that is dropped whole, and about no other. -/
theorem tellsNic_iff_of_ret_zero {q : IxgbeTxQueue} (hc : q.Conf) (ht : q.txTail < q.nbTxDesc)
    {b : Burst} (hr : b.ret = 0) :
    TellsNic b q ↔ nbPkts b (.ofQueue q) = 0 ∨
      nbPkts b (.ofQueue q) < q.nbTxDesc - q.txTail ∧
        (nbPkts b (.ofQueue q) = 1 ∨ ∀ i < nbPkts b (.ofQueue q), b.admits i = false) := by
  have hk32 : nbPkts b (.ofQueue q) ≤ 32 := Placed.nbPkts_le (s := .ofQueue q) ⟨hc, ht⟩ b
  have hlo := hc.lo
  have hhi := hc.hi
  unfold TellsNic
  generalize nbPkts b (.ofQueue q) = k at hk32 ⊢
  dsimp only
  rw [hr]
  refine or_congr_right ⟨?_, ?_⟩
  · rintro ⟨a, ha, ⟨hkn, hpre, hmod⟩ | ⟨hna, hpre, hmod⟩ | ⟨hna, hnk, -, hmod⟩⟩
    · obtain ⟨h1, h2, h3⟩ := prefixReport_from_zero k hk32 a ha
      have heq : prefixReport 0 k a = a := by
        have := hmod.eq
        rwa [Int.emod_eq_of_lt (by omega) (by omega), Int.emod_eq_of_lt (by omega) (by omega)]
          at this
      refine ⟨hkn, ?_⟩
      rcases h3.mp heq with rfl | h
      · refine .inr fun i hi => Bool.eq_false_iff.mpr fun hadm => ?_
        have := (hpre i hi).mp (by rwa [Nat.zero_add])
        omega
      · exact .inl h
    · obtain ⟨h1, h2, -⟩ := prefixReport_from_zero (k - (q.nbTxDesc - q.txTail)) (by omega)
        (a - (q.nbTxDesc - q.txTail)) (by omega)
      have := hmod.eq
      rw [Int.emod_eq_of_lt (by omega) (by omega), Int.emod_eq_of_lt (by omega) (by omega)] at this
      omega
    · have := hmod.eq
      rw [mul_zero, Int.zero_emod, Int.emod_eq_of_lt (by omega) (by omega)] at this
      omega
  · rintro ⟨hkn, hcase⟩
    by_cases hnone : ∀ i < k, b.admits i = false
    · refine ⟨0, by omega, .inl ⟨hkn, ?_, ?_⟩⟩
      · intro i hi
        simp [hnone i hi]
      · rw [prefixReport_zero, mul_zero]
        exact Int.ModEq.refl _
    · obtain rfl := hcase.resolve_right hnone
      have hadm : b.admits 0 = true := by
        by_contra hno
        refine hnone ?_
        intro i hi
        obtain rfl : i = 0 := by omega
        exact Bool.eq_false_iff.mpr hno
      refine ⟨1, by omega, .inl ⟨hkn, ?_, rfl⟩⟩
      intro i hi
      obtain rfl : i = 0 := by omega
      simp [hadm]

end P4Switch.Ixgbe
