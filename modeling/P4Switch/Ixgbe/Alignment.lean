import P4Switch.Ixgbe.Frees
import P4Switch.Ixgbe.Handshake
import P4Switch.Ixgbe.Window

/-! # The ring as a queue of the admitted packets

Number the admitted packets from the reset on. Under the condition on bursts, packet `x`
stands at slot `x` modulo the ring size, the first `d` of them have been freed and the first
`c` completed, and the slots between hold their mbufs in order. -/
namespace P4Switch.Ixgbe
open P4Switch.Lib.MachineInt P4Switch.Lib.Circular P4Switch.Lib.Fill

/-- The software ring entries between the first one to free and the tail. -/
def IxgbeTxQueue.live (q : IxgbeTxQueue) : List (Option MbufPtr) :=
  (span q.nbTxDesc q.firstDd q.outstanding).map q.swRingV

/-- The packets `adm` are laid around the ring, `d` of them freed and `c` completed. -/
structure Aligned (s : Driver) (adm : List MbufPtr) (d c : Nat) : Prop where
  hand : HandshakeInv s
  freed : frees .done s.trace = (adm.take d).map some
  freed_le : d ≤ c
  completed_le : c ≤ adm.length
  fits : adm.length < d + s.txq.nbTxDesc
  firstDd : s.txq.firstDd = slot s.txq.nbTxDesc 0 d
  head : s.tdh = slot s.txq.nbTxDesc 0 c
  tail : s.txq.txTail = slot s.txq.nbTxDesc 0 adm.length
  tdt : s.tdt = s.txq.txTail
  live : ∀ x, d ≤ x → x < adm.length → s.txq.swRingV (slot s.txq.nbTxDesc 0 x) = adm[x]?
  posted : ∀ x, d ≤ x → x < adm.length → s.passes.posted (slot s.txq.nbTxDesc 0 x) ≠ none
  done : ∀ x, d ≤ x → x < adm.length →
    (s.passes.done (slot s.txq.nbTxDesc 0 x) = true ↔ x < c)
  stored : stored s.trace = (List.range adm.length).map (slot s.txq.nbTxDesc 0)
  completions : completions s.trace = (List.range c).map (slot s.txq.nbTxDesc 0)

/-- A window of a list, read index by index. -/
theorem getElem?_window {α : Type*} (l : List α) {d w : Nat} (h : d + w ≤ l.length) :
    (List.range w).map (fun j => l[d + j]?) = ((l.drop d).take w).map some := by
  refine List.ext_getElem ?_ ?_
  · simp only [List.length_map, List.length_range, List.length_take, List.length_drop]
    omega
  · intro j hj _
    have hjw : j < w := by simpa using hj
    simp only [List.getElem_map, List.getElem_range, List.getElem_take, List.getElem_drop]
    exact List.getElem?_eq_getElem (by omega)

section
variable {s : Driver} {adm : List MbufPtr} {d c : Nat}

theorem Aligned.outstanding (h : Aligned s adm d c) :
    s.txq.outstanding = adm.length - d := by
  have := h.freed_le.trans h.completed_le
  rw [IxgbeTxQueue.outstanding, h.firstDd, h.tail]
  exact gap_positions this h.fits

/-- The live slots hold the admitted packets that have not been freed. -/
theorem Aligned.live_eq (h : Aligned s adm d c) : s.txq.live = (adm.drop d).map some := by
  have hd := h.freed_le.trans h.completed_le
  have hw := getElem?_window adm (d := d) (w := adm.length - d) (by omega)
  rw [List.take_of_length_le (by rw [List.length_drop])] at hw
  rw [IxgbeTxQueue.live, h.outstanding, h.firstDd, span, List.map_map, ← hw]
  refine List.map_congr_left ?_
  intro j hj
  have hj : j < adm.length - d := List.mem_range.mp hj
  change s.txq.swRingV (slot _ (slot _ 0 d) j) = _
  rw [slot_slot]
  exact h.live (d + j) (by omega) (by omega)

end

/-! ## Cleanup -/

section
variable {s : Driver} {adm : List MbufPtr} {d c : Nat}

/-- `tx_next_dd` is the last of the 32 slots a cleanup frees. -/
theorem Aligned.nextDd (h : Aligned s adm d c) :
    s.txq.txNextDd = slot s.txq.nbTxDesc 0 (d + 31) ∧
      gap s.txq.nbTxDesc s.txq.firstDd s.txq.txNextDd = 31 ∧
      ∀ i < 32, s.txq.firstDd + i = slot s.txq.nbTxDesc 0 (d + i) := by
  have hl := h.hand.nextDd_lt
  have hm := h.hand.nextDd_mod
  have hrs := h.hand.conf.rs_eq
  have hlo := h.hand.conf.lo
  rw [hrs] at hm
  have hf : s.txq.firstDd = s.txq.txNextDd - 31 := by rw [IxgbeTxQueue.firstDd, hrs]
  have hat : ∀ i < 32, s.txq.firstDd + i = slot s.txq.nbTxDesc 0 (d + i) := by
    intro i hi
    rw [← slot_slot, ← h.firstDd, slot_of_lt (by omega)]
  have hn : s.txq.txNextDd = s.txq.firstDd + 31 := by omega
  have hg : gap s.txq.nbTxDesc s.txq.firstDd (slot s.txq.nbTxDesc s.txq.firstDd 31) = 31 :=
    gap_slot (by omega) (by omega)
  rw [slot_of_lt (by omega), ← hn] at hg
  exact ⟨hn.trans (hat 31 (by decide)), hg, hat⟩

/-- DD at `tx_next_dd` says that the NIC has completed the 32 packets in front of it. -/
theorem Aligned.dd_completed (h : Aligned s adm d c) (ho : 32 ≤ s.txq.outstanding)
    (hdd : (s.txq.txRing s.txq.txNextDd).dd = true) : d + 32 ≤ c := by
  obtain ⟨hn, hg, -⟩ := h.nextDd
  have hout : s.txq.Outstanding s.txq.txNextDd := ⟨h.hand.nextDd_lt, by omega⟩
  have hd := h.hand.hand.dd _ hout h.hand.nextDd_mod hdd
  rw [h.outstanding] at ho
  rw [hn] at hd
  have := (h.done (d + 31) (by omega) (by omega)).mp hd
  omega

theorem Aligned.ddSlots (h : Aligned s adm d c) (ho : 32 ≤ s.txq.outstanding) :
    s.txq.ddSlots = ((adm.drop d).take 32).map some := by
  obtain ⟨-, -, hat⟩ := h.nextDd
  rw [h.outstanding] at ho
  have hd := h.freed_le.trans h.completed_le
  rw [← getElem?_window adm (by omega), IxgbeTxQueue.ddSlots, h.hand.conf.rs_eq]
  refine List.map_congr_left ?_
  intro i hi
  have hi : i < 32 := List.mem_range.mp hi
  rw [hat i hi]
  exact h.live (d + i) (by omega) (by omega)

/-- Events that leave the rings alone. -/
theorem stored_unmarked {es : List Event} (h : ∀ e ∈ es, e.isMark = false) : stored es = [] := by
  rw [Ixgbe.stored, postings_unmarked h]
  rfl

theorem stored_append (es fs : List Event) :
    Ixgbe.stored (es ++ fs) = Ixgbe.stored es ++ Ixgbe.stored fs := by
  rw [Ixgbe.stored, postings_append, List.map_append]
  rfl

/-- **A cleanup frees the 32 oldest packets**, all of them completed. -/
theorem Aligned.cleaned (h : Aligned s adm d c) (ho : 32 ≤ s.txq.outstanding)
    (hf : s.txq.nbTxFree + 32 < 2 ^ 16) (hdd : (s.txq.txRing s.txq.txNextDd).dd = true)
    {hp : Heap} {es : List Event} (hes : ∀ e ∈ es, e.isMark = false)
    (hg : givenBack es = freeSlots hp s.txq.ddSlots) :
    Aligned { s with txq := s.txq.cleaned, trace := s.trace ++ es } adm (d + 32) c := by
  have hc := h.dd_completed ho hdd
  have hfd := cleaned_firstDd h.hand.conf h.hand.nextDd_lt h.hand.nextDd_mod
  have hfits := h.fits
  have hp : ({ s with txq := s.txq.cleaned, trace := s.trace ++ es } : Driver).passes = s.passes := by
    unfold Driver.passes
    rw [Passes.after_append, Passes.after_unmarked hes]
  refine ⟨cleaned_handshake h.hand ho hf hes, ?_, hc, h.completed_le, ?_, ?_, h.head, h.tail,
    h.tdt, fun x h1 h2 => h.live x (by omega) h2, ?_, ?_, ?_, ?_⟩
  · rw [frees_append, h.freed, ← frees_givenBack .done es, hg, freeSlots_frees, h.ddSlots ho,
      ← List.map_append, List.take_add]
  · change adm.length < d + 32 + s.txq.nbTxDesc
    omega
  · change s.txq.cleaned.firstDd = slot s.txq.nbTxDesc 0 (d + 32)
    rw [hfd, h.firstDd, slot_slot]
  · intro x h1 h2
    rw [hp]
    exact h.posted x (by omega) h2
  · intro x h1 h2
    rw [hp]
    exact h.done x (by omega) h2
  · rw [stored_append, stored_unmarked hes, List.append_nil]
    exact h.stored
  · rw [completions_append, completions_unmarked hes, List.append_nil]
    exact h.completions

theorem Aligned.emit (h : Aligned s adm d c) {es : List Event} (hes : ∀ e ∈ es, e.isMark = false)
    (hg : givenBack es = []) : Aligned (s.emit es) adm d c := by
  have hp : (s.emit es).passes = s.passes := by
    unfold Driver.passes Driver.emit
    rw [Passes.after_append, Passes.after_unmarked hes]
  refine ⟨emit_handshake h.hand hes, ?_, h.freed_le, h.completed_le, h.fits, h.firstDd, h.head,
    h.tail, h.tdt, h.live, ?_, ?_, ?_, ?_⟩
  · rw [Driver.emit, frees_append, h.freed, ← frees_givenBack .done es, hg]
    exact List.append_nil _
  · intro x h1 h2
    rw [hp]
    exact h.posted x h1 h2
  · intro x h1 h2
    rw [hp]
    exact h.done x h1 h2
  · rw [Driver.emit, stored_append, stored_unmarked hes, List.append_nil]
    exact h.stored
  · rw [Driver.emit, completions_append, completions_unmarked hes, List.append_nil]
    exact h.completions

end

/-- The cleanup in front of a burst. -/
theorem Aligned.prepare {s : Driver} {adm : List MbufPtr} {d c : Nat} (h : Aligned s adm d c)
    (b : Burst) : ∃ d', Aligned (prepare b s) adm d' c := by
  rw [prepare_eq]
  split
  · rename_i hcl
    have hroom := h.hand.room
    simp only [IxgbeTxQueue.cleans, Bool.and_eq_true, decide_eq_true_eq] at hcl
    obtain ⟨-, -, hlo, hhi, hfl, hfh⟩ := h.hand.conf
    have hgiven : givenBack (.fopen :: (freeSlots b.toHeap s.txq.ddSlots ++ s.txq.cleanedU16)) =
        freeSlots b.toHeap s.txq.ddSlots := by
      have hf : givenBack [.fopen] = [] := rfl
      change givenBack ([.fopen] ++ (freeSlots b.toHeap s.txq.ddSlots ++ _)) = _
      rw [givenBack_append, hf, givenBack_append, givenBack_cleanedU16, List.append_nil,
        List.nil_append, givenBack_of_free fun _ he => freeSlots_isFree he]
    refine ⟨d + 32, h.cleaned (by omega) (by omega) hcl.2 (?_) hgiven⟩
    intro e he
    rcases List.mem_cons.mp he with rfl | he
    · rfl
    · exact cleanup_unmarked e he
  · exact ⟨d, h.emit fopen_unmarked rfl⟩

/-! ## The burst -/

/-- What a step must meet. Of the packets a burst takes, the admitted ones come first; the
slots it fills are free ones; and the tail moves by the number of admitted packets, which a
burst that reaches the last descriptor can only do when it admits the packet there. -/
def OwnSafe (s : Driver) : Op → Prop
  | .burst b =>
    let k := nbPkts b s
    let q := (prepare b s).txq
    let n := q.nbTxDesc - q.txTail
    k = 0 ∨ ∃ a ≤ k, b.AdmitsPrefix 0 k a ∧
      q.outstanding + k ≤ q.nbTxDesc ∧ q.outstanding + a < q.nbTxDesc ∧
      ((k < n ∧ prefixReport b.ret k a ≡ a [ZMOD 2 ^ 16]) ∨
        (n ≤ a ∧ n + prefixReport b.ret (k - n) (a - n) ≡ (a - n : Nat) [ZMOD 2 ^ 16]))
  | .freeBufs _ =>
    (s.txq.txRing s.txq.txNextDd).dd = false ∨
      (32 ≤ s.txq.outstanding ∧ s.txq.nbTxFree + 32 < 2 ^ 16)
  | .nic => True

section
variable {b : Burst} {s : Driver}

theorem Burst.AdmitsPrefix.weights_modEq {p c a : Nat} (h : b.AdmitsPrefix p c a) (ha : a ≤ c) :
    c * b.ret + weights (b.decisions p c) ≡ prefixReport b.ret c a [ZMOD 2 ^ 16] := by
  have hw := modEq_of_le (v := 16) (by decide) (Ixgbe.reported_modEq b.ret (b.decisions p c))
  rw [Burst.decisions_length] at hw
  exact hw.symm.trans (h.reported_modEq ha b.ret)

/-- Such a step keeps the completion handshake. -/
theorem OwnSafe.handshakeSafe {op : Op} (hs : HandshakeInv s) (h : OwnSafe s op) :
    HandshakeSafe s op := by
  cases op with
  | nic => trivial
  | freeBufs hp => exact h
  | burst b =>
    have hl : Placed s := ⟨hs.conf, hs.tail_lt⟩
    have hk32 := hl.nbPkts_le b
    have ht := hs.tail_lt
    have hge := hs.nextRs_ge
    obtain ⟨-, -, hnb, htl, -, -, hnr⟩ := prepare_frame b s
    simp only [OwnSafe, hnb, htl] at h
    simp only [HandshakeSafe, hnb, htl, hnr]
    rcases h with h0 | ⟨a, ha, hpre, hfit, hO, ⟨hlt, hcnt⟩ | ⟨hna, hcnt⟩⟩
    · exact .inl h0
    · refine .inr (.inl ⟨hlt, a, (hpre.weights_modEq ha).trans hcnt, hfit, hO, by omega, by omega,
        fun hgt => .inr ⟨by omega, ?_⟩⟩)
      have hi := (hpre (s.txq.txNextRs - s.txq.txTail) (by omega)).mpr (by omega)
      rwa [Nat.zero_add] at hi
    · have hn : 0 < s.txq.nbTxDesc - s.txq.txTail := by omega
      generalize s.txq.nbTxDesc - s.txq.txTail = n at *
      have hadm : (b.admitted 0 n).length = n := by
        rw [hpre.length_eq (by omega), Nat.min_eq_right hna]
      have hrest : b.AdmitsPrefix n (nbPkts b s - n) (a - n) := by
        refine Burst.AdmitsPrefix.rest ?_
        rwa [Nat.add_sub_cancel' (by omega)]
      rw [hadm]
      refine .inr (.inr ⟨by omega, a - n, ?_, by omega, ?_, by omega, by omega⟩)
      · exact ((hrest.weights_modEq (by omega)).add_left n).trans hcnt
      · have hi := (hpre (n - 1) (by omega)).mpr (by omega)
        rwa [Nat.zero_add] at hi

/-- The software ring after a call. -/
theorem Placed.swRing (h : Placed s) (hk : nbPkts b s ≠ 0) {j : Nat} (hj : j < s.txq.nbTxDesc) :
    (ixgbeXmitFixedBurstVec b s).2.txq.swRingV (slot s.txq.nbTxDesc s.txq.txTail j) =
      if j < processed b s then some (b.txPkts j)
      else s.txq.swRingV (slot s.txq.nbTxDesc s.txq.txTail j) := by
  have ht := h.tail_lt
  have hk32 := h.nbPkts_le b
  have hlo := h.conf.lo
  obtain ⟨-, hsw, -, htl, -, -, -⟩ := prepare_frame b s
  rw [burst_pos hk, xmitRest_eq]
  rcases h.cursor_cases hk with ⟨hlt, hp, hc⟩ | ⟨m, hge, hm, hp, hc⟩
  · rw [hp, hc]
    dsimp only
    rw [hsw, backlog_eq_fill]
    rcases slot_cases ht (Nat.le_of_lt hj) with ⟨h1, e⟩ | ⟨h1, e⟩ <;> rw [e]
    · rw [fill_at, Nat.zero_add]
    · rw [fill_below (by omega), if_neg (by omega)]
  · have ha := b.admitted_length_le 0 (s.txq.nbTxDesc - s.txq.txTail)
    rw [hp, hc]
    simp only [xmitRingEnd_txq, hsw, htl, backlog_eq_fill]
    rcases slot_cases ht (Nat.le_of_lt hj) with ⟨h1, e⟩ | ⟨h1, e⟩ <;> rw [e]
    · rw [fill_above (by omega), fill_at, Nat.zero_add, if_pos (by omega), if_pos (by omega)]
    · have h0 := fill_at (fun i => some (b.txPkts i)) 0 (s.txq.nbTxDesc - s.txq.txTail) m
        (s.txq.txTail + j - s.txq.nbTxDesc) (fill (fun i => some (b.txPkts i)) s.txq.txTail 0
          (s.txq.nbTxDesc - s.txq.txTail) s.txq.swRingV)
      have hi : s.txq.nbTxDesc - s.txq.txTail + (s.txq.txTail + j - s.txq.nbTxDesc) = j := by omega
      have hm' : s.txq.txTail + j - s.txq.nbTxDesc < m ↔
          j < s.txq.nbTxDesc - s.txq.txTail + m := by omega
      simp only [Nat.zero_add, hi, hm'] at h0
      rw [h0, fill_below (by omega)]

/-- What a burst that meets the condition does: it handles the packets it takes, the first `a`
of which it admits, and moves the tail behind them. -/
structure Moves (b : Burst) (s : Driver) (a : Nat) : Prop where
  taken : nbPkts b s ≠ 0
  le : a ≤ nbPkts b s
  initial : b.AdmitsPrefix 0 (nbPkts b s) a
  fits : (prepare b s).txq.outstanding + nbPkts b s ≤ s.txq.nbTxDesc
  room : (prepare b s).txq.outstanding + a < s.txq.nbTxDesc
  processed : processed b s = nbPkts b s
  tail : restTail b (cursor b s) = slot s.txq.nbTxDesc s.txq.txTail a

theorem OwnSafe.moves (hs : Placed s) (h : OwnSafe s (.burst b)) (hk : nbPkts b s ≠ 0) :
    ∃ a, Moves b s a := by
  have hk32 := hs.nbPkts_le b
  have ht := hs.tail_lt
  have hlo := hs.conf.lo
  have hhi := hs.conf.hi
  obtain ⟨-, -, hnb, htl, -, -, -⟩ := prepare_frame b s
  simp only [OwnSafe, hnb, htl] at h
  rcases h with h0 | ⟨a, ha, hpre, hfit, hO, hcase⟩
  · exact absurd h0 hk
  refine ⟨a, hk, ha, hpre, hfit, hO, ?_, ?_⟩
  · rcases hs.cursor_cases hk with ⟨-, hp, -⟩ | ⟨m, hge, hm, hp, -⟩
    · exact hp
    · rcases hcase with ⟨hlt, -⟩ | ⟨hna, -⟩
      · exact absurd hlt (Nat.not_lt_of_le hge)
      · rw [hpre.length_eq hge, Nat.min_eq_right hna] at hm
        omega
  · rcases hs.cursor_cases hk with ⟨hlt, -, hc⟩ | ⟨m, hge, hm, -, hc⟩
    · rcases hcase with ⟨-, hcnt⟩ | ⟨hna, -⟩
      · rw [hc]
        exact (tail_short ha (by omega) hhi hpre).mpr hcnt
      · omega
    · rcases hcase with ⟨hlt, -⟩ | ⟨hna, hcnt⟩
      · exact absurd hlt (Nat.not_lt_of_le hge)
      · rw [hpre.length_eq hge, Nat.min_eq_right hna] at hm hc
        rw [hc, hm]
        refine (tail_wrapped rfl ht hna (by omega) (by omega) hhi ?_).mpr hcnt
        rwa [Nat.add_sub_cancel' hge]

/-- The fields that place the window after a call. -/
theorem Placed.after_fields (h : Placed s) (hk : nbPkts b s ≠ 0) :
    (ixgbeXmitFixedBurstVec b s).2.txq.nbTxDesc = s.txq.nbTxDesc ∧
    (ixgbeXmitFixedBurstVec b s).2.txq.firstDd = (prepare b s).txq.firstDd ∧
    (ixgbeXmitFixedBurstVec b s).2.txq.txTail = restTail b (cursor b s) ∧
    (ixgbeXmitFixedBurstVec b s).2.tdt = restTail b (cursor b s) ∧
    (ixgbeXmitFixedBurstVec b s).2.tdh = s.tdh := by
  obtain ⟨-, -, hnb, -, -, -, -⟩ := prepare_frame b s
  obtain ⟨-, -, -, -, hh⟩ := prepare_counters b s
  have hcur : (cursor b s).drv.txq.nbTxDesc = s.txq.nbTxDesc ∧
      (cursor b s).drv.txq.firstDd = (prepare b s).txq.firstDd ∧ (cursor b s).drv.tdh = s.tdh := by
    rcases h.cursor_cases hk with ⟨-, -, hc⟩ | ⟨m, -, -, -, hc⟩
    · rw [hc]
      exact ⟨hnb, rfl, hh⟩
    · rw [hc]
      dsimp only
      rw [xmitRingEnd_txq, (xmitRingEnd_regs _ _ _ _).2]
      exact ⟨hnb, rfl, hh⟩
  have hrh : (restDrv b (cursor b s)).tdh = (cursor b s).drv.tdh := by
    rw [restDrv, (vtx1s_regs _ _ _ _ _ _).2, txBacklogEntry_eq]
  rw [burst_pos hk, xmitRest_eq]
  exact ⟨hcur.1, hcur.2.1, rfl, rfl, hrh.trans hcur.2.2⟩

/-- The admitted packets of such a burst. -/
theorem Moves.admitted {a : Nat} (h : Moves b s a) :
    b.admitted 0 (nbPkts b s) = List.range a := by
  rw [h.initial.admitted_eq h.le, List.range_eq_range']

theorem Moves.admits {a j : Nat} (h : Moves b s a) (hj : j < nbPkts b s) :
    b.admits j = true ↔ j < a := by
  have hi := h.initial j hj
  rwa [Nat.zero_add] at hi

variable {adm : List MbufPtr} {d c : Nat}

/-- A live slot, seen from the tail, lies behind those a burst fills. -/
theorem Aligned.old_slot {a x : Nat} (h : Aligned (Ixgbe.prepare b s) adm d c) (hm : Moves b s a)
    (hd : d ≤ x) (hx : x < adm.length) :
    ∃ j < s.txq.nbTxDesc, nbPkts b s ≤ j ∧
      slot s.txq.nbTxDesc s.txq.txTail j = slot s.txq.nbTxDesc 0 x := by
  obtain ⟨-, -, hnb, htl, -, -, -⟩ := prepare_frame b s
  have hO := h.outstanding
  have hfit := hm.fits
  have hfits := h.fits
  have ht := h.tail
  rw [htl, hnb] at ht
  rw [hnb] at hfits
  refine ⟨x + s.txq.nbTxDesc - adm.length, by omega, by omega, ?_⟩
  rw [ht, slot_slot, show adm.length + (x + s.txq.nbTxDesc - adm.length) = x + s.txq.nbTxDesc by
    omega]
  unfold slot
  rw [← Nat.add_assoc, Nat.add_mod_right]

/-- **A burst appends its admitted packets** and leaves the live ones alone. -/
theorem Aligned.burst {a : Nat} (h : Aligned (Ixgbe.prepare b s) adm d c) (hs : Placed s)
    (hm : Moves b s a) (hi : HandshakeInv (ixgbeXmitFixedBurstVec b s).2) :
    Aligned (ixgbeXmitFixedBurstVec b s).2 (adm ++ (List.range a).map b.txPkts) d c := by
  have hk := hm.taken
  have hproc := hm.processed
  have hle := hm.le
  have hlo := hs.conf.lo
  have hk32 := hs.nbPkts_le b
  obtain ⟨-, hsw, hnb, htl, -, -, -⟩ := prepare_frame b s
  obtain ⟨-, -, -, -, hph⟩ := prepare_counters b s
  obtain ⟨e1, e2, e3, e4, e5⟩ := hs.after_fields hk
  obtain ⟨-, hpass⟩ := hs.passes hk
  have hO := h.outstanding
  have hroom := hm.room
  have htail := h.tail
  have hfits := h.fits
  have hfl := h.freed_le
  have hcl := h.completed_le
  have hlive := h.live
  have hposted := h.posted
  have hdone := h.done
  rw [prepare_passes, hnb] at hposted hdone
  rw [hnb, hsw] at hlive
  rw [hnb, htl] at htail
  rw [hnb] at hfits
  have hlen : (adm ++ (List.range a).map b.txPkts).length = adm.length + a := by simp
  have hslot : ∀ j, slot s.txq.nbTxDesc s.txq.txTail j = slot s.txq.nbTxDesc 0 (adm.length + j) := by
    intro j
    rw [htail, slot_slot]
  -- a position is that of a live packet or of one of the burst
  have hcase : ∀ x, d ≤ x → x < adm.length + a →
      (x < adm.length ∧ ∃ j < s.txq.nbTxDesc, nbPkts b s ≤ j ∧
        slot s.txq.nbTxDesc s.txq.txTail j = slot s.txq.nbTxDesc 0 x) ∨
      ∃ j < a, x = adm.length + j := by
    intro x hd hx
    rcases Nat.lt_or_ge x adm.length with hlt | hge
    · exact .inl ⟨hlt, h.old_slot hm hd hlt⟩
    · exact .inr ⟨x - adm.length, by omega, by omega⟩
  refine ⟨hi, ?_, h.freed_le, by omega, by rw [hlen, e1]; omega, ?_, ?_, ?_, ?_, ?_, ?_, ?_, ?_, ?_⟩
  · rw [← frees_givenBack, hs.givenBack, ← List.append_assoc, ← givenBack_prepare, frees_append,
      frees_givenBack, h.freed, b.drops_frees_ne (by decide) (by decide), List.append_nil,
      List.take_append_of_le_length (by omega)]
  · rw [e1, e2, ← hnb]
    exact h.firstDd
  · rw [e1, e5, ← hph, ← hnb]
    exact h.head
  · rw [e1, e3, hm.tail, hlen, hslot]
  · rw [e3, e4]
  · rw [e1, hlen]
    intro x hd hx
    rcases hcase x hd hx with ⟨hlt, j, hj, hkj, hjx⟩ | ⟨j, hj, rfl⟩
    · rw [← hjx, hs.swRing hk hj, if_neg (by omega), hjx, hlive x hd hlt,
        List.getElem?_append_left hlt]
    · rw [← hslot, hs.swRing hk (by omega), if_pos (by omega),
        List.getElem?_append_right (by omega), Nat.add_sub_cancel_left, List.getElem?_map,
        List.getElem?_range hj]
      rfl
  · rw [e1, hlen]
    intro x hd hx
    rcases hcase x hd hx with ⟨hlt, j, hj, hkj, hjx⟩ | ⟨j, hj, rfl⟩
    · rw [← hjx, ((hpass j hj).2 (by omega)).1, hjx]
      exact hposted x hd hlt
    · rw [← hslot, ((hpass j (by omega)).1 ⟨by omega, (hm.admits (by omega)).mpr hj⟩).1]
      exact Option.some_ne_none _
  · rw [e1, hlen]
    intro x hd hx
    rcases hcase x hd hx with ⟨hlt, j, hj, hkj, hjx⟩ | ⟨j, hj, rfl⟩
    · rw [← hjx, ((hpass j hj).2 (by omega)).2, hjx]
      exact hdone x hd hlt
    · rw [← hslot, ((hpass j (by omega)).1 ⟨by omega, (hm.admits (by omega)).mpr hj⟩).2]
      exact iff_of_false Bool.false_ne_true (by omega)
  · have hst := h.stored
    rw [hnb, Ixgbe.stored, postings_prepare] at hst
    rw [e1, Ixgbe.stored, hs.postings hk, List.map_append, hst, hproc, hm.admitted, hlen,
      List.range_add, List.map_append, List.map_map, List.map_map]
    congr 1
    exact List.map_congr_left fun j _ => hslot j
  · have hc := h.completions
    rw [hnb, prepare_completions] at hc
    rw [e1, burst_completions, hc]

end

/-! ## The NIC and the start -/

theorem nicComplete_trace {s : Driver} (h : s.tdh ≠ s.tdt) :
    (nicComplete s).trace = s.trace ++ [.complete s.tdh] := by
  unfold nicComplete
  rw [if_neg h]

/-- A completion takes the oldest packet not yet completed. -/
theorem Aligned.nic {s : Driver} {adm : List MbufPtr} {d c : Nat} (h : Aligned s adm d c) :
    ∃ c', Aligned (nicComplete s) adm d c' := by
  have hi := nic_handshake h.hand
  have hfits := h.fits
  have hfl := h.freed_le
  by_cases hht : s.tdh = s.tdt
  · refine ⟨c, ?_⟩
    unfold nicComplete
    rw [if_pos hht]
    exact h
  · have hlt : c < adm.length := by
      rcases Nat.lt_or_ge c adm.length with hlt | hge
      · exact hlt
      · have hca : c = adm.length := Nat.le_antisymm h.completed_le hge
        rw [h.tdt, h.head, h.tail, hca] at hht
        exact absurd rfl hht
    have htr := nicComplete_trace hht
    have hg : givenBack [.complete s.tdh] = [] := rfl
    have hp : (nicComplete s).passes = s.passes.next (.complete s.tdh) := by
      unfold Driver.passes
      rw [htr, Passes.after_append]
      rfl
    have htxq : (nicComplete s).txq.swRingV = s.txq.swRingV ∧
        (nicComplete s).txq.nbTxDesc = s.txq.nbTxDesc ∧
        (nicComplete s).txq.firstDd = s.txq.firstDd ∧
        (nicComplete s).txq.txTail = s.txq.txTail ∧ (nicComplete s).tdt = s.tdt ∧
        (nicComplete s).tdh = (s.tdh + 1) % s.txq.nbTxDesc := by
      unfold nicComplete
      rw [if_neg hht]
      exact ⟨rfl, rfl, rfl, rfl, rfl, rfl⟩
    obtain ⟨e1, e2, e3, e4, e5, e6⟩ := htxq
    refine ⟨c + 1, hi, ?_, by omega, hlt, by rw [e2]; exact hfits, ?_, ?_, ?_, ?_, ?_, ?_, ?_, ?_,
      ?_⟩
    · rw [htr, frees_append, ← frees_givenBack .done [.complete s.tdh], hg, h.freed]
      exact List.append_nil _
    · rw [e2, e3]
      exact h.firstDd
    · rw [e2, e6, h.head]
      exact slot_slot _ 0 c 1
    · rw [e2, e4]
      exact h.tail
    · rw [e4, e5]
      exact h.tdt
    · rw [e1, e2]
      exact h.live
    · rw [e2, hp]
      exact h.posted
    · rw [e2, hp]
      intro x hd hx
      by_cases hxc : x = c
      · have hself : (s.passes.next (.complete s.tdh)).done s.tdh = true :=
          Function.update_self ..
        rw [hxc, ← h.head, hself]
        exact iff_of_true rfl (Nat.lt_succ_self c)
      · have hne : slot s.txq.nbTxDesc 0 x ≠ s.tdh := by
          rw [h.head]
          exact fun he => hxc (position_inj ⟨hd, by omega⟩ ⟨hfl, by omega⟩ he)
        have hother : (s.passes.next (.complete s.tdh)).done (slot s.txq.nbTxDesc 0 x) =
            s.passes.done (slot s.txq.nbTxDesc 0 x) := Function.update_of_ne hne ..
        rw [hother, h.done x hd hx]
        omega
    · rw [e2, htr, stored_append, h.stored]
      exact List.append_nil _
    · rw [e2, htr, completions_append, h.completions, List.range_succ, List.map_append, List.map_cons,
        ← h.head]
      rfl

theorem reset_aligned {q : QueueConf} (hc : (Driver.reset q).txq.Conf) :
    Aligned (Driver.reset q) [] 0 0 := by
  obtain ⟨-, hf⟩ : (Driver.reset q).txq.txTail = 0 ∧ (Driver.reset q).txq.firstDd = 0 := by
    obtain ⟨ht, -, -, hd⟩ := reset_fields hc
    refine ⟨ht, ?_⟩
    rw [IxgbeTxQueue.firstDd, hd, hc.rs_eq]
  have hlo := hc.lo
  have h0 : slot (Driver.reset q).txq.nbTxDesc 0 0 = 0 := slot_of_lt (by omega)
  exact ⟨reset_handshake hc, rfl, Nat.le_refl _, Nat.le_refl _, by
    rw [List.length_nil, Nat.zero_add]; omega, hf.trans h0.symm, h0.symm, h0.symm, rfl,
    fun x _ hx => absurd hx (Nat.not_lt_zero x), fun x _ hx => absurd hx (Nat.not_lt_zero x),
    fun x _ hx => absurd hx (Nat.not_lt_zero x), rfl, rfl⟩

end P4Switch.Ixgbe
