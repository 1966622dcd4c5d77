import P4Switch.Ixgbe.Posting
import P4Switch.Lib.GuardedRun

/-! # The representation invariant of the ring

Which runs keep the five counters of the queue consistent. A burst that does not reach
the last descriptor keeps them whenever the count reported by `vtx` fits; a burst that
reaches it never does, because the packets sent before the wrap stay in the count that
becomes the new tail. -/
namespace P4Switch.Ixgbe
open P4Switch.Lib.MachineInt P4Switch.Lib.Circular P4Switch.Lib.GuardedRun

/-- `(tx_tail - (tx_next_dd - (tx_rs_thresh - 1))) mod nb_tx_desc`. -/
def IxgbeTxQueue.outstanding (q : IxgbeTxQueue) : Nat := gap q.nbTxDesc q.firstDd q.txTail

structure RingFields (q : IxgbeTxQueue) : Prop where
  tail_lt : q.txTail < q.nbTxDesc
  free_le : q.nbTxFree ≤ q.nbTxDesc - 1
  outstanding_eq : q.outstanding = q.nbTxDesc - 1 - q.nbTxFree
  nextRs_lt : q.txNextRs < q.nbTxDesc
  nextRs_mod : q.txNextRs % q.txRsThresh = q.txRsThresh - 1
  nextDd_lt : q.txNextDd < q.nbTxDesc
  nextDd_mod : q.txNextDd % q.txRsThresh = q.txRsThresh - 1

/-- Ring writes stay below `nb`, and 16-bit stores take values of 16 bits. -/
def Event.InRing (nb : Nat) : Event → Prop
  | .store i _ => i < nb
  | .setRs i => i < nb
  | .swStore i _ => i < nb
  | .u16 x => 0 ≤ x ∧ x < 2 ^ 16
  | _ => True

structure RingInv (s : Driver) : Prop where
  conf : s.txq.Conf
  ring : RingFields s.txq
  events : ∀ e ∈ s.trace, e.InRing s.txq.nbTxDesc

theorem RingInv.placed {s : Driver} (h : RingInv s) : Placed s := ⟨h.conf, h.ring.tail_lt⟩

/-! ## The start -/

theorem reset_conf {nbDesc : Nat} {txConf : TxConf} {simd128 : Bool} {q : QueueConf}
    (h : ixgbeDevTxQueueSetup nbDesc txConf = .ok q) (hv : ixgbeSetTxFunction simd128 q = .vec) :
    (Driver.reset q).txq.Conf := setup_vec h hv

theorem reset_fields {q : QueueConf} (hc : (Driver.reset q).txq.Conf) :
    (Driver.reset q).txq.txTail = 0 ∧ (Driver.reset q).txq.nbTxFree = q.nbTxDesc - 1 ∧
    (Driver.reset q).txq.txNextRs = 31 ∧ (Driver.reset q).txq.txNextDd = 31 := by
  change VecConf q.nbTxDesc q.txRsThresh q.txFreeThresh at hc
  obtain ⟨hrs, _, hlo, hhi, _, _⟩ := hc
  have h31 : u16 ((q.txRsThresh : Int) - 1) = 31 := by rw [hrs]; rfl
  exact ⟨rfl, unsigned_sub (b := 1) (by omega) (by omega), h31, h31⟩

theorem reset_inv {q : QueueConf} (hc : (Driver.reset q).txq.Conf) : RingInv (Driver.reset q) := by
  obtain ⟨ht, hf, hr, hd⟩ := reset_fields hc
  refine ⟨hc, ?_, fun e he => by cases he⟩
  have hn : (Driver.reset q).txq.nbTxDesc = q.nbTxDesc := rfl
  obtain ⟨hrs, hdvd, hlo, hhi, _, _⟩ := hc
  rw [hn] at hlo hhi hdvd
  have ho : (Driver.reset q).txq.outstanding = 0 := by
    simp [IxgbeTxQueue.outstanding, IxgbeTxQueue.firstDd, gap, ht, hd, hrs, hn]
  exact ⟨by omega, by omega, by omega, by omega, by rw [hr, hrs], by omega, by rw [hd, hrs]⟩

/-! ## Cleanup -/

/-- The cleaned queue's `tx_next_dd`: the next block of 32, back to the first at the end. -/
theorem cleaned_nextDd {q : IxgbeTxQueue} (hc : q.Conf) (hl : q.txNextDd < q.nbTxDesc)
    (hm : q.txNextDd % q.txRsThresh = q.txRsThresh - 1) :
    q.cleaned.txNextDd =
      if q.txNextDd + 32 < q.nbTxDesc then q.txNextDd + 32 else 31 := by
  obtain ⟨hrs, hdvd, hlo, hhi, _, _⟩ := hc
  rw [hrs] at hm
  have hu : u16 ((q.txNextDd : Int) + q.txRsThresh) = q.txNextDd + 32 := by
    rw [hrs]; exact unsigned_add (by omega)
  have h31 : u16 ((q.txRsThresh : Int) - 1) = 31 := by rw [hrs]; rfl
  simp only [IxgbeTxQueue.cleaned, hu, h31]
  split
  · rw [if_neg (by omega)]
  · rw [if_pos (by omega)]

/-- A cleanup takes 32 descriptors off the outstanding ones. -/
theorem cleaned_outstanding {q : IxgbeTxQueue} (hc : q.Conf) (ht : q.txTail < q.nbTxDesc)
    (hl : q.txNextDd < q.nbTxDesc) (hm : q.txNextDd % q.txRsThresh = q.txRsThresh - 1)
    (ho : 32 ≤ q.outstanding) : q.cleaned.outstanding = q.outstanding - 32 := by
  have hn := cleaned_nextDd hc hl hm
  obtain ⟨hrs, hdvd, hlo, hhi, _, _⟩ := hc
  rw [hrs] at hm
  have hf : q.firstDd = q.txNextDd - 31 := by rw [IxgbeTxQueue.firstDd, hrs]
  have hf' : q.cleaned.firstDd = q.cleaned.txNextDd - 31 := by
    rw [IxgbeTxQueue.firstDd, show q.cleaned.txRsThresh = 32 from hrs]
  unfold IxgbeTxQueue.outstanding at ho ⊢
  rw [hf'] at ⊢
  rw [hf] at ho ⊢
  rw [show q.cleaned.nbTxDesc = q.nbTxDesc from rfl, show q.cleaned.txTail = q.txTail from rfl]
  split at hn <;> rw [hn]
  · rcases gap_cases (a := q.txNextDd - 31) (by omega) ht with ⟨h1, e1⟩ | ⟨h1, e1⟩ <;>
    rcases gap_cases (a := q.txNextDd + 32 - 31) (by omega) ht with ⟨h2, e2⟩ | ⟨h2, e2⟩ <;>
    omega
  · rcases gap_cases (a := q.txNextDd - 31) (by omega) ht with ⟨h1, e1⟩ | ⟨h1, e1⟩ <;>
    rcases gap_cases (a := 31 - 31) (by omega) ht with ⟨h2, e2⟩ | ⟨h2, e2⟩ <;>
    omega

theorem cleaned_ring {q : IxgbeTxQueue} (hc : q.Conf) (hr : RingFields q)
    (h32 : q.nbTxFree + 32 ≤ q.nbTxDesc - 1) : RingFields q.cleaned := by
  obtain ⟨ht, hf, ho, hrl, hrm, hdl, hdm⟩ := hr
  have hn := cleaned_nextDd hc hdl hdm
  have ho' := cleaned_outstanding hc ht hdl hdm (by omega)
  obtain ⟨hrs, hdvd, hlo, hhi, _, _⟩ := hc
  have hfree : q.cleaned.nbTxFree = q.nbTxFree + 32 := by
    simp only [IxgbeTxQueue.cleaned, hrs]; exact unsigned_add (by omega)
  have hnb : q.cleaned.nbTxDesc = q.nbTxDesc := rfl
  have hrs' : q.cleaned.txRsThresh = 32 := hrs
  rw [hrs] at hdm
  refine ⟨ht, by omega, by omega, hrl, hrm, ?_, ?_⟩
  · rw [hn, hnb]; split <;> omega
  · rw [hn, hrs']; split <;> omega

theorem cleanedU16_inRing {q : IxgbeTxQueue} (hc : q.Conf) (hr : RingFields q)
    (h32 : q.nbTxFree + 32 ≤ q.nbTxDesc - 1) {e : Event} (he : e ∈ q.cleanedU16) :
    e.InRing q.nbTxDesc := by
  obtain ⟨hrs, hdvd, hlo, hhi, _, _⟩ := hc
  have hdl := hr.nextDd_lt
  unfold IxgbeTxQueue.cleanedU16 at he
  rcases List.mem_append.mp he with he | he
  · simp only [List.mem_cons, List.not_mem_nil, or_false] at he
    rcases he with rfl | rfl <;> simp only [Event.InRing, hrs] <;> omega
  · split at he
    · simp only [List.mem_cons, List.not_mem_nil, or_false] at he
      subst he
      simp only [Event.InRing, hrs]; omega
    · cases he

theorem isFree_inRing {nb : Nat} {e : Event} (h : e.isFree = true) : e.InRing nb := by
  cases e <;> trivial

theorem cleaned_inv {s : Driver} {es : List Event} (hi : RingInv s)
    (h32 : s.txq.nbTxFree + 32 ≤ s.txq.nbTxDesc - 1)
    (hes : ∀ e ∈ es, e.InRing s.txq.nbTxDesc) :
    RingInv { s with txq := s.txq.cleaned, trace := s.trace ++ es } := by
  refine ⟨hi.conf, cleaned_ring hi.conf hi.ring h32, ?_⟩
  intro e he
  rcases List.mem_append.mp he with he | he
  · exact hi.events e he
  · exact hes e he

theorem cleanup_events {q : IxgbeTxQueue} (hc : q.Conf) (hr : RingFields q)
    (h32 : q.nbTxFree + 32 ≤ q.nbTxDesc - 1) (h : Heap) :
    ∀ e ∈ freeSlots h q.ddSlots ++ q.cleanedU16, e.InRing q.nbTxDesc := by
  intro e he
  rcases List.mem_append.mp he with he | he
  · exact isFree_inRing (freeSlots_isFree he)
  · exact cleanedU16_inRing hc hr h32 he

/-- The driver's own guard leaves at least 32 descriptors outstanding. -/
theorem cleans_room {q : IxgbeTxQueue} (hc : q.Conf) (hcl : q.cleans = true) :
    q.nbTxFree + 32 ≤ q.nbTxDesc - 1 := by
  obtain ⟨_, _, hlo, _, _, hfh⟩ := hc
  simp only [IxgbeTxQueue.cleans, Bool.and_eq_true, decide_eq_true_eq] at hcl
  omega

theorem prepare_inv (b : Burst) {s : Driver} (hi : RingInv s) : RingInv (prepare b s) := by
  rw [prepare_eq]
  split
  · rename_i hcl
    have h32 := cleans_room hi.conf hcl
    refine cleaned_inv hi h32 ?_
    intro e he
    rcases List.mem_cons.mp he with rfl | he
    · trivial
    · exact cleanup_events hi.conf hi.ring h32 _ e he
  · refine ⟨hi.conf, hi.ring, ?_⟩
    intro e he
    rcases List.mem_append.mp he with he | he
    · exact hi.events e he
    · simp only [List.mem_singleton] at he
      subst he; trivial

/-! ## The burst -/

/-- What a step must meet: a burst takes no packet, or it ends before the last descriptor
of the ring and the count that `vtx` reports fits into the free descriptors and into the
ring; a cleanup finds DD clear or 32 descriptors outstanding. -/
def RingSafe (s : Driver) : Op → Prop
  | .burst b =>
    nbPkts b s = 0 ∨
      (nbPkts b s < s.txq.nbTxDesc - s.txq.txTail ∧
        0 ≤ reported b.ret (b.decisions 0 (nbPkts b s)) ∧
        reported b.ret (b.decisions 0 (nbPkts b s)) ≤ (prepare b s).txq.nbTxFree ∧
        s.txq.txTail + reported b.ret (b.decisions 0 (nbPkts b s)) < s.txq.nbTxDesc)
  | .freeBufs _ =>
    (s.txq.txRing s.txq.txNextDd).dd = false ∨ s.txq.nbTxFree + 32 ≤ s.txq.nbTxDesc - 1
  | .nic => True

theorem backlog_inRing {b : Burst} {txep p c nb : Nat} (h : txep + c ≤ nb) {e : Event}
    (he : e ∈ backlogEvents b txep p c) : e.InRing nb := by
  obtain ⟨j, hj, rfl | rfl⟩ := mem_backlogEvents he
  · trivial
  · show txep + j < nb; omega

theorem vtx1s_inRing {b : Burst} {f c txdp p nb : Nat} (h : txdp + c ≤ nb) {e : Event}
    (he : e ∈ vtx1sEvents b f c txdp p) : e.InRing nb := by
  obtain ⟨j, hj, he⟩ := mem_vtx1sEvents he
  rcases mem_vtx1Events he with hf | rfl | rfl | rfl | ⟨g, rfl | rfl | ⟨v, rfl⟩⟩ | ⟨_, rfl⟩
  · exact isFree_inRing hf
  all_goals try trivial
  show txdp + j < nb; omega

/-- The events a burst appends in its second half. -/
theorem rest_events {b : Burst} {k : Nat} {c : Cursor} {nb : Nat} (hfit : c.txId + c.nbCommit ≤ nb)
    (hst : ∀ e ∈ restStores b c, e.InRing nb) (hc : ∀ e ∈ c.drv.trace, e.InRing nb) :
    ∀ e ∈ (xmitRest b k c).2.trace, e.InRing nb := by
  rw [xmitRest_eq]
  intro e he
  simp only [List.mem_append, List.mem_cons, List.not_mem_nil, or_false] at he
  rcases he with he | he | he | he | rfl | rfl
  · exact hc e he
  · exact backlog_inRing hfit he
  · exact vtx1s_inRing hfit he
  · exact hst e he
  · trivial
  · trivial

/-- The cursor of a burst that stays below the last descriptor. -/
def shortCursor (b : Burst) (s : Driver) : Cursor :=
  ⟨(prepare b s).txq.txTail, 0, nbPkts b s, 0, prepare b s⟩

/-- The counters after the rest of a burst, for a count `m` that fits. -/
theorem after_ring {b : Burst} {p : Driver} {pkt k m : Nat} (hc : p.txq.Conf)
    (hr : RingFields p.txq) (hf : m ≤ p.txq.nbTxFree) (ht : p.txq.txTail + m < p.txq.nbTxDesc) :
    RingFields (Cursor.after b ⟨p.txq.txTail, pkt, k, 0, p⟩ m) := by
  obtain ⟨htl, hfl, ho, hrl, hrm, hdl, hdm⟩ := hr
  obtain ⟨hrs, hdvd, hlo, hhi, _, _⟩ := hc
  have hfd : p.txq.firstDd < p.txq.nbTxDesc := by unfold IxgbeTxQueue.firstDd; omega
  have hout : gap p.txq.nbTxDesc p.txq.firstDd (p.txq.txTail + m) =
      p.txq.nbTxDesc - 1 - (p.txq.nbTxFree - m) := by
    unfold IxgbeTxQueue.outstanding at ho
    rcases gap_cases hfd htl with ⟨h1, e1⟩ | ⟨h1, e1⟩ <;>
    rcases gap_cases hfd ht with ⟨h2, e2⟩ | ⟨h2, e2⟩ <;> omega
  rw [hrs] at hrm
  refine ⟨ht, Nat.le_trans (Nat.sub_le _ _) hfl, hout, ?_, ?_, hdl, hdm⟩
  · simp only [Cursor.after]; split <;> omega
  · simp only [Cursor.after, hrs]; split <;> omega

theorem restStores_inRing {b : Burst} {c : Cursor} (nb : Nat)
    (hnum : c.txId + restNum b c < 2 ^ 16) (hfree : restNum b c ≤ c.drv.txq.nbTxFree)
    (hf : c.drv.txq.nbTxFree < 2 ^ 16) (hrl : c.drv.txq.txNextRs < nb)
    (hr : c.drv.txq.txNextRs + c.drv.txq.txRsThresh < 2 ^ 16) :
    ∀ e ∈ restStores b c, e.InRing nb := by
  intro e he
  simp only [restStores, List.mem_cons, List.mem_append] at he
  rcases he with rfl | he | rfl | rfl | he
  · simp only [Event.InRing]; omega
  · split at he
    · simp only [List.mem_cons, List.not_mem_nil, or_false] at he
      rcases he with rfl | rfl <;> simp only [Event.InRing] <;> omega
    · cases he
  · simp only [Event.InRing]; omega
  · trivial
  · cases he

/-- A burst that ends before the last descriptor, with the report it makes as a number. -/
theorem short_inv {b : Burst} {s : Driver} {m : Nat} (hi : RingInv (prepare b s))
    (hk : nbPkts b s < (prepare b s).txq.nbTxDesc - (prepare b s).txq.txTail)
    (hm : reported b.ret (b.decisions 0 (nbPkts b s)) = m)
    (hf : m ≤ (prepare b s).txq.nbTxFree)
    (ht : (prepare b s).txq.txTail + m < (prepare b s).txq.nbTxDesc) :
    RingInv (xmitRest b (nbPkts b s) (shortCursor b s)).2 := by
  obtain ⟨hc, hring, hev⟩ := hi
  have hfl := hring.free_le
  have hrl := hring.nextRs_lt
  have hrs := hc.rs_eq
  have hhi := hc.hi
  have hcount : (shortCursor b s).Counts b m := by
    simp only [Cursor.Counts, shortCursor, hm]
    simp
  have hnum : restNum b (shortCursor b s) = m := by
    simp only [restNum, shortCursor, hm, Int.natCast_zero, Int.zero_add]
    exact unsigned_natCast (by omega)
  have htxq : (xmitRest b (nbPkts b s) (shortCursor b s)).2.txq = (shortCursor b s).after b m :=
    xmitRest_txq hcount (by simp only [shortCursor]; omega) hf (by simp only [shortCursor]; omega)
      (by simp only [shortCursor]; omega)
  have hstores := restStores_inRing (b := b) (c := shortCursor b s) (prepare b s).txq.nbTxDesc
    (by rw [hnum]; simp only [shortCursor]; omega) (by rw [hnum]; exact hf)
    (by simp only [shortCursor]; omega) hrl (by simp only [shortCursor]; omega)
  refine ⟨htxq ▸ hc, htxq ▸ after_ring hc hring hf ht, ?_⟩
  intro e he
  rw [htxq]
  exact rest_events (show (prepare b s).txq.txTail + nbPkts b s ≤ _ by omega) hstores hev e he

/-! ## The step -/

theorem nicComplete_inv {s : Driver} (hi : RingInv s) : RingInv (nicComplete s) := by
  unfold nicComplete
  split
  · exact hi
  · refine ⟨hi.conf, ⟨hi.ring.1, hi.ring.2, hi.ring.3, hi.ring.4, hi.ring.5, hi.ring.6, hi.ring.7⟩,
      ?_⟩
    intro e he
    rcases List.mem_append.mp he with he | he
    · exact hi.events e he
    · simp only [List.mem_singleton] at he
      subst he; trivial

/-- The step lemma: a step that meets the condition keeps the invariant. -/
theorem step_ringInv (s : Driver) (op : Op) (hi : RingInv s) (hok : RingSafe s op) :
    RingInv (step s op) := by
  cases op with
  | burst b =>
    show RingInv (ixgbeXmitFixedBurstVec b s).2
    have hp := prepare_inv b hi
    by_cases hk0 : nbPkts b s = 0
    · rw [burst_zero hk0]; exact hp
    rcases hok with h | ⟨hk, h0, hf, ht⟩
    · exact absurd h hk0
    obtain ⟨m, hm⟩ := Int.eq_ofNat_of_zero_le h0
    obtain ⟨_, _, hn, htl, _, _, _⟩ := prepare_frame b s
    have hleft := hi.placed.left b
    rw [burst_pos hk0, cursor_short (by omega)]
    exact short_inv hp (by omega) hm (by omega) (by omega)
  | freeBufs h =>
    show RingInv (ixgbeTxFreeBufs h s).2
    rw [ixgbeTxFreeBufs_eq]
    split
    · rename_i hdd
      have h32 : s.txq.nbTxFree + 32 ≤ s.txq.nbTxDesc - 1 := by
        rcases hok with h | h
        · rw [hdd] at h; cases h
        · exact h
      exact cleaned_inv hi h32 (cleanup_events hi.conf hi.ring h32 h)
    · exact hi
  | nic => exact nicComplete_inv hi

/-- The stores of the second half stand in the trace of the call. -/
theorem rest_stores_mem {b : Burst} {k : Nat} {c : Cursor} {e : Event} (he : e ∈ restStores b c) :
    e ∈ (xmitRest b k c).2.trace := by
  rw [xmitRest_eq]
  simp only [List.mem_append]
  exact .inr (.inr (.inr (.inl he)))

/-- Once the ring end is reached, no count keeps the outstanding descriptors in step with
the free ones. -/
theorem long_breaks {b : Burst} {s : Driver} (hi : RingInv (prepare b s))
    (hk : (prepare b s).txq.nbTxDesc - (prepare b s).txq.txTail ≤ nbPkts b s)
    (hn : nbPkts b s ≤ 32) :
    ¬RingInv (xmitRest b (nbPkts b s)
      (xmitRingEnd b (ringLeft (prepare b s).txq) (nbPkts b s) (prepare b s))).2 := by
  intro h
  generalize hcur : xmitRingEnd b (ringLeft (prepare b s).txq) (nbPkts b s) (prepare b s) = c at h
  have hq : c.drv.txq = _ := hcur ▸ xmitRingEnd_txq b _ _ (prepare b s)
  have hid : c.txId = 0 := by rw [← hcur]; rfl
  obtain ⟨hc, ⟨htl, hfl, ho, hrl, hrm, hdl, hdm⟩, -⟩ := hi
  obtain ⟨hrs, hdvd, hlo, hhi, -, -⟩ := hc
  have hnb : c.drv.txq.nbTxDesc = (prepare b s).txq.nbTxDesc := by rw [hq]
  have hfr : c.drv.txq.nbTxFree = (prepare b s).txq.nbTxFree := by rw [hq]
  have hdd : c.drv.txq.txNextDd = (prepare b s).txq.txNextDd := by rw [hq]
  have hth : c.drv.txq.txRsThresh = 32 := by rw [hq]; exact hrs
  have hev := h.events
  have htail := h.ring.tail_lt
  have hout := h.ring.outstanding_eq
  have hmem1 : Event.u16 ((c.txId : Int) + restNum b c) ∈ restStores b c := by simp [restStores]
  have hmem2 : Event.u16 ((c.drv.txq.nbTxFree : Int) - restNum b c) ∈ restStores b c := by
    simp [restStores]
  obtain ⟨-, h1⟩ := hev _ (rest_stores_mem hmem1)
  obtain ⟨h2, -⟩ := hev _ (rest_stores_mem hmem2)
  have hte : (xmitRest b (nbPkts b s) c).2.txq.txTail = restNum b c := by
    rw [xmitRest_eq]
    simp only [restTail, hid, Int.natCast_zero, Int.zero_add]
    exact unsigned_natCast (by omega)
  have hfe : (xmitRest b (nbPkts b s) c).2.txq.nbTxFree = c.drv.txq.nbTxFree - restNum b c := by
    rw [xmitRest_eq]; exact unsigned_sub (by omega) (by omega)
  have hne : (xmitRest b (nbPkts b s) c).2.txq.nbTxDesc = c.drv.txq.nbTxDesc := by rw [xmitRest_eq]
  have hde : (xmitRest b (nbPkts b s) c).2.txq.firstDd = (prepare b s).txq.firstDd := by
    rw [xmitRest_eq]; unfold IxgbeTxQueue.firstDd; simp only [hdd, hth, hrs]
  have hfd : (prepare b s).txq.firstDd < (prepare b s).txq.nbTxDesc := by
    unfold IxgbeTxQueue.firstDd; omega
  rw [hte, hne, hnb] at htail
  unfold IxgbeTxQueue.outstanding at ho hout
  rw [hte, hne, hnb, hfe, hfr, hde] at hout
  rw [hfr] at h2
  rcases gap_cases hfd htl with ⟨g1, e1⟩ | ⟨g1, e1⟩ <;>
  rcases gap_cases hfd htail with ⟨g2, e2⟩ | ⟨g2, e2⟩ <;> omega

/-- A step that keeps the invariant meets the condition. -/
theorem ringSafe_of_step (s : Driver) (op : Op) (hi : RingInv s) (h : RingInv (step s op)) :
    RingSafe s op := by
  cases op with
  | nic => trivial
  | freeBufs hp =>
    replace h : RingInv (ixgbeTxFreeBufs hp s).2 := h
    rw [ixgbeTxFreeBufs_eq] at h
    cases hdd : (s.txq.txRing s.txq.txNextDd).dd with
    | false => exact .inl hdd
    | true =>
      right
      rw [hdd, if_pos rfl] at h
      have hle : s.txq.cleaned.nbTxFree ≤ s.txq.nbTxDesc - 1 := h.ring.free_le
      have hfe : s.txq.cleaned.nbTxFree = s.txq.nbTxFree + 32 := by
        have := hi.ring.free_le
        have := hi.conf.hi
        simp only [IxgbeTxQueue.cleaned, hi.conf.rs_eq]
        exact unsigned_add (by omega)
      omega
  | burst b =>
    replace h : RingInv (ixgbeXmitFixedBurstVec b s).2 := h
    by_cases hk0 : nbPkts b s = 0
    · exact .inl hk0
    right
    have hp := prepare_inv b hi
    obtain ⟨_, _, hn, htl, _, _, _⟩ := prepare_frame b s
    have hleft := hi.placed.left b
    have hkt := nbPkts_le_thresh b s
    rw [hi.conf.rs_eq] at hkt
    rw [burst_pos hk0] at h
    by_cases hlt : nbPkts b s < ringLeft (prepare b s).txq
    · rw [cursor_short hlt] at h
      change RingInv (xmitRest b (nbPkts b s) (shortCursor b s)).2 at h
      have hmem1 : Event.u16 (((shortCursor b s).txId : Int) + restNum b (shortCursor b s)) ∈
          restStores b (shortCursor b s) := by simp [restStores]
      have hmem2 : Event.u16 (((shortCursor b s).drv.txq.nbTxFree : Int) -
          restNum b (shortCursor b s)) ∈ restStores b (shortCursor b s) := by simp [restStores]
      obtain ⟨-, h1⟩ := h.events _ (rest_stores_mem hmem1)
      obtain ⟨h2, -⟩ := h.events _ (rest_stores_mem hmem2)
      have hrep : reported b.ret (b.decisions 0 (nbPkts b s)) = restNum b (shortCursor b s) := by
        refine u64_reported (by omega) (by omega) ?_
        simp [restNum, shortCursor]
      have hte : (xmitRest b (nbPkts b s) (shortCursor b s)).2.txq.txTail =
          s.txq.txTail + restNum b (shortCursor b s) := by
        rw [xmitRest_eq, ← htl]; exact unsigned_add (by simp only [shortCursor] at h1 ⊢; omega)
      have hne : (xmitRest b (nbPkts b s) (shortCursor b s)).2.txq.nbTxDesc = s.txq.nbTxDesc := by
        rw [xmitRest_eq]; exact hn
      have htail := h.ring.tail_lt
      simp only [shortCursor] at h2
      refine ⟨by omega, by omega, by simp only [shortCursor] at hrep; omega, by omega⟩
    · rw [cursor_long (by omega)] at h
      exact absurd h (long_breaks hp (by omega) hkt)

/-- **The ring invariant, exactly.** From the reset of any accepted vector queue, the
invariant holds in every state of a run if and only if every step meets `RingSafe`. -/
theorem ringInv_always_iff {nbDesc : Nat} {txConf : TxConf} {simd128 : Bool} {q : QueueConf}
    (h : ixgbeDevTxQueueSetup nbDesc txConf = .ok q) (hv : ixgbeSetTxFunction simd128 q = .vec)
    (ops : List Op) :
    Always step RingInv (Driver.reset q) ops ↔ Meets step RingSafe (Driver.reset q) ops :=
  always_iff_meets (I := RingInv) step_ringInv (fun _ hs => hs) ringSafe_of_step
    (reset_inv (reset_conf h hv)) ops

theorem ringInv_always_iff_conf64 :
    ixgbeDevTxQueueSetup 64 ⟨0, 0, 0, 0⟩ = .ok conf64 ∧ ixgbeSetTxFunction true conf64 = .vec ∧
      Always step RingInv (Driver.reset conf64) mixedBursts := by
  refine ⟨rfl, rfl, (@ringInv_always_iff 64 ⟨0, 0, 0, 0⟩ true conf64 rfl rfl _).mpr ?_⟩
  refine ⟨.inr ⟨?_, ?_, ?_, ?_⟩, trivial, .inr ⟨?_, ?_, ?_, ?_⟩, .inr ⟨?_, ?_, ?_, ?_⟩, trivial,
    trivial⟩ <;> decide +kernel

/-- Eleven admitted packets on a fresh queue of 64 descriptors move the tail to 66. -/
theorem ringInv_broken :
    ¬RingInv (step (Driver.reset conf64) (.burst (plainBurst 11 fun _ => some 33))) := by
  intro h
  have ht := h.ring.tail_lt
  revert ht
  decide +kernel

end P4Switch.Ixgbe
