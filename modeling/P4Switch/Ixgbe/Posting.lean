import P4Switch.Ixgbe.BurstSpec
import P4Switch.Lib.Circular

/-! # What a burst posts

Packet `i` of a burst has slot `tx_tail + i` of the ring, whatever happened to the packets
before it; a descriptor is stored there when the packet is admitted. The count the burst
ends with is another matter: it is a weighted sum of the decisions. -/
namespace P4Switch.Ixgbe
open P4Switch.Lib.MachineInt P4Switch.Lib.Circular

/-! ## The count -/

/-- An admitted packet is counted once for itself and once for every packet behind it. -/
def weights : List Bool → Int
  | [] => 0
  | a :: as => a.toNat * (as.length + 1) + weights as

theorem reported_modEq (r : Int) (as : List Bool) :
    reported r as ≡ as.length * r + weights as [ZMOD 2 ^ 32] := by
  induction as generalizing r with
  | nil => simp [reported, weights]
  | cons a as ih =>
    have hs : i32 (r + a.toNat) ≡ r + a.toNat [ZMOD 2 ^ 32] := signed_modEq 32 _
    calc reported r (a :: as)
        = i32 (r + a.toNat) + reported (i32 (r + a.toNat)) as := rfl
      _ ≡ i32 (r + a.toNat) + (as.length * i32 (r + a.toNat) + weights as) [ZMOD 2 ^ 32] :=
          (ih _).add_left _
      _ ≡ (r + a.toNat) + (as.length * (r + a.toNat) + weights as) [ZMOD 2 ^ 32] :=
          hs.add ((hs.mul_left _).add_right _)
      _ = (a :: as).length * r + weights (a :: as) := by
          simp only [weights, List.length_cons]; push_cast; ring

/-- The report on `c` packets, counted from `r`, when exactly the first `a` are admitted. -/
def prefixReport (r : Int) (c a : Nat) : Int := c * r + a * (c - a) + a * (a + 1) / 2

theorem prefixReport_zero (r : Int) (c : Nat) : prefixReport r c 0 = c * r := by
  simp [prefixReport]

theorem weights_replicate (a d : Nat) :
    2 * weights (List.replicate a true ++ List.replicate d false) = 2 * (a * d) + a * (a + 1) := by
  induction a with
  | zero =>
    induction d with
    | zero => rfl
    | succ d ih =>
      simp only [List.replicate_succ, List.replicate_zero, List.nil_append, weights] at ih ⊢
      simpa using ih
  | succ a ih =>
    rw [List.replicate_succ, List.cons_append, weights, Int.mul_add, ih]
    simp only [List.length_append, List.length_replicate, Bool.toNat_true]
    push_cast
    ring

/-- Among the first `c` packets from `p` on, exactly the first `a` are admitted. -/
def Burst.AdmitsPrefix (b : Burst) (p c a : Nat) : Prop := ∀ i < c, b.admits (p + i) = true ↔ i < a

instance (b : Burst) (p c a : Nat) : Decidable (b.AdmitsPrefix p c a) :=
  inferInstanceAs (Decidable (∀ i < c, b.admits (p + i) = true ↔ i < a))

theorem Burst.AdmitsPrefix.decisions_eq {b : Burst} {p c a : Nat} (h : b.AdmitsPrefix p c a)
    (ha : a ≤ c) :
    b.decisions p c = List.replicate a true ++ List.replicate (c - a) false := by
  apply List.ext_getElem
  · simp; omega
  intro i hi _
  have hi' : i < c := by simpa using hi
  have hd : (b.decisions p c)[i] = b.admits (p + i) := by simp [Burst.decisions]
  rw [hd, List.getElem_append]
  split <;> rename_i h' <;> rw [List.length_replicate] at h'
  · rw [List.getElem_replicate]; exact (h i hi').mpr h'
  · rw [List.getElem_replicate]
    exact Bool.eq_false_iff.mpr fun he => h' ((h i hi').mp he)

theorem Burst.AdmitsPrefix.admitted_eq {b : Burst} {p c a : Nat} (h : b.AdmitsPrefix p c a)
    (ha : a ≤ c) : b.admitted p c = List.range' p a := by
  obtain ⟨d, rfl⟩ := Nat.exists_eq_add_of_le ha
  rw [Burst.admitted_append]
  have h1 : b.admitted p a = List.range' p a := by
    refine List.filter_eq_self.mpr ?_
    intro i hi
    obtain ⟨hp, hl⟩ := List.mem_range'_1.mp hi
    have := (h (i - p) (by omega)).mpr (by omega)
    rwa [Nat.add_sub_cancel' hp] at this
  have h2 : b.admitted (p + a) d = [] := by
    refine List.filter_eq_nil_iff.mpr ?_
    intro i hi ht
    obtain ⟨hp, hl⟩ := List.mem_range'_1.mp hi
    have := (h (i - p) (by omega)).mp (by rwa [Nat.add_sub_cancel' (by omega)])
    omega
  rw [h1, h2, List.append_nil]

/-- How many of the first `n` packets are admitted. -/
theorem Burst.AdmitsPrefix.length_eq {b : Burst} {c a n : Nat} (h : b.AdmitsPrefix 0 c a)
    (hn : n ≤ c) : (b.admitted 0 n).length = min a n := by
  have h' : b.AdmitsPrefix 0 n (min a n) := by
    intro i hi
    rw [h i (by omega)]
    omega
  rw [h'.admitted_eq (Nat.min_le_right _ _), List.length_range']

/-- The packets from `n` on. -/
theorem Burst.AdmitsPrefix.rest {b : Burst} {n m a : Nat} (h : b.AdmitsPrefix 0 (n + m) a) :
    b.AdmitsPrefix n m (a - n) := by
  intro i hi
  have := h (n + i) (by omega)
  rw [Nat.zero_add] at this
  rw [this]
  omega

theorem Burst.AdmitsPrefix.reported_modEq {b : Burst} {p c a : Nat} (h : b.AdmitsPrefix p c a)
    (ha : a ≤ c) (r : Int) :
    reported r (b.decisions p c) ≡ prefixReport r c a [ZMOD 2 ^ 16] := by
  have hm := modEq_of_le (v := 16) (by decide) (Ixgbe.reported_modEq r (b.decisions p c))
  have hw := weights_replicate a (c - a)
  rw [h.decisions_eq ha] at hm ⊢
  have hc : ((c - a : Nat) : Int) = c - a := by omega
  have hl : (List.replicate a true ++ List.replicate (c - a) false).length = c := by simp; omega
  rw [hc] at hw
  rw [hl] at hm
  have he : prefixReport r c a =
      c * r + weights (List.replicate a true ++ List.replicate (c - a) false) := by
    unfold prefixReport
    generalize (a : Int) * (c - a) = x at hw ⊢
    generalize (a : Int) * (a + 1) = y at hw ⊢
    omega
  rw [he]
  exact hm

/-! ## The stores -/

/-- The descriptor a ring write stores, with its index. -/
def Event.posted : Event → Option (Nat × AdvTxDesc)
  | .store i d => some (i, d)
  | _ => none

/-- The stores into the descriptor ring, in order. -/
def postings (es : List Event) : List (Nat × AdvTxDesc) := es.filterMap Event.posted

@[simp] theorem postings_append (es fs : List Event) :
    postings (es ++ fs) = postings es ++ postings fs := List.filterMap_append

theorem mem_postings {es : List Event} {i : Nat} {d : AdvTxDesc} :
    (i, d) ∈ postings es ↔ Event.store i d ∈ es := by
  simp only [postings, List.mem_filterMap]
  constructor
  · rintro ⟨e, he, hp⟩
    cases e <;> simp only [Event.posted, Option.some.injEq, Prod.mk.injEq, reduceCtorEq] at hp
    obtain ⟨rfl, rfl⟩ := hp
    exact he
  · exact fun h => ⟨_, h, rfl⟩

/-- The events that say where the NIC and the posting stand: stores, wraps, completions. -/
def Event.isMark : Event → Bool
  | .store _ _ => true
  | .wrap => true
  | .complete _ => true
  | _ => false

theorem isFree_unmarked {e : Event} (h : e.isFree = true) : e.isMark = false := by
  cases e <;> first | rfl | cases h

theorem freeSlots_unmarked {h : Heap} {slots : List (Option MbufPtr)} :
    ∀ e ∈ freeSlots h slots, e.isMark = false :=
  fun _ he => isFree_unmarked (freeSlots_isFree he)

theorem cleanedU16_unmarked {q : IxgbeTxQueue} : ∀ e ∈ q.cleanedU16, e.isMark = false := by
  intro e he
  unfold IxgbeTxQueue.cleanedU16 at he
  split at he <;> simp only [List.mem_append, List.mem_cons, List.not_mem_nil, or_false] at he <;>
    rcases he with (rfl | rfl) | rfl <;> rfl

theorem backlog_unmarked {b : Burst} {txep p c : Nat} :
    ∀ e ∈ backlogEvents b txep p c, e.isMark = false := by
  intro e he
  obtain ⟨j, -, rfl | rfl⟩ := mem_backlogEvents he <;> rfl

theorem restStores_unmarked {b : Burst} {c : Cursor} : ∀ e ∈ restStores b c, e.isMark = false := by
  intro e he
  unfold restStores at he
  split at he <;> simp only [List.mem_append, List.mem_cons, List.not_mem_nil, or_false,
    false_or] at he
  · rcases he with rfl | (rfl | rfl) | rfl | rfl <;> rfl
  · rcases he with rfl | rfl | rfl <;> rfl

theorem postings_unmarked {es : List Event} (h : ∀ e ∈ es, e.isMark = false) :
    postings es = [] := by
  refine List.filterMap_eq_nil_iff.mpr ?_
  intro e he
  have hm := h e he
  cases e <;> first | rfl | cases hm

theorem postings_prepare (b : Burst) (s : Driver) :
    postings (prepare b s).trace = postings s.trace := by
  rw [prepare_eq]
  split
  · change postings (s.trace ++ ([.fopen] ++ (freeSlots b.toHeap s.txq.ddSlots ++ _))) = _
    simp only [postings_append, postings_unmarked freeSlots_unmarked,
      postings_unmarked cleanedU16_unmarked]
    simp [postings, Event.posted]
  · simp [Driver.emit, postings, Event.posted]

theorem postings_vtx1 (b : Burst) (f txdp p : Nat) :
    postings (vtx1Events b f txdp p) =
      if b.admits p then [(txdp, (b.pkt p).desc f)] else [] := by
  simp only [vtx1Events, postings_append]
  split
  · rfl
  · rw [postings_unmarked fun _ he => isFree_unmarked (rtePktmbufFree_isFree he)]
    rfl

/-- A loop stores the descriptors of its admitted packets, each at the packet's slot. -/
theorem postings_vtx1s (b : Burst) (f c txdp p : Nat) :
    postings (vtx1sEvents b f c txdp p) =
      (b.admitted p c).map fun i => (txdp + (i - p), (b.pkt i).desc f) := by
  induction c generalizing txdp p with
  | zero => rfl
  | succ c ih =>
    rw [vtx1sEvents, postings_append, ih, postings_vtx1]
    have hm : (b.admitted (p + 1) c).map (fun i => (txdp + 1 + (i - (p + 1)), (b.pkt i).desc f)) =
        (b.admitted (p + 1) c).map (fun i => (txdp + (i - p), (b.pkt i).desc f)) := by
      refine List.map_congr_left ?_
      intro i hi
      have := ((b.mem_admitted _ _ _).mp hi).1.1
      rw [show txdp + 1 + (i - (p + 1)) = txdp + (i - p) by omega]
    rw [hm, Nat.add_comm c 1, Burst.admitted_append, List.map_append]
    congr 1
    cases h : b.admits p <;> simp [Burst.admitted, h]

/-! ## The whole burst -/

/-- The flags packet `i` is posted with: those of the last descriptor for the packet that
lands on it. -/
def flagsAt (n i : Nat) : Nat := if i + 1 = n then rs else flags

theorem flagsAt_of_ne {n i : Nat} (h : i + 1 ≠ n) : flagsAt n i = flags := if_neg h

theorem flagsAt_rs (m : RteMbuf) (n i : Nat) :
    (m.desc (flagsAt n i)).rs = decide (i + 1 = n) := by
  unfold flagsAt
  split <;> rename_i h
  · rw [decide_eq_true h]; exact desc_rs_report m
  · rw [decide_eq_false h]; exact desc_rs_plain m

theorem postings_ringEnd {b : Burst} {n tail r : Nat} (hn : 0 < n) :
    postings (ringEndEvents b n tail r) =
      (b.admitted 0 n).map fun i => (tail + i, (b.pkt i).desc (flagsAt n i)) := by
  obtain ⟨m, rfl⟩ : ∃ m, n = m + 1 := ⟨n - 1, by omega⟩
  simp only [ringEndEvents, postings_append, postings_unmarked backlog_unmarked,
    postings_vtx1s, List.nil_append, Burst.admitted_append, List.map_append, Nat.add_sub_cancel, Nat.zero_add]
  have h0 : postings [.wrap, .u16 ((r : Int) - 1)] = [] := rfl
  rw [h0, List.append_nil]
  congr 1
  · refine List.map_congr_left ?_
    intro i hi
    have hi' := ((b.mem_admitted _ _ _).mp hi).1
    rw [flagsAt_of_ne (by omega), Nat.sub_zero]
  · refine List.map_congr_left ?_
    intro i hi
    have hi' := ((b.mem_admitted _ _ _).mp hi).1
    obtain rfl : i = m := by omega
    rw [flagsAt, if_pos rfl, Nat.sub_self, Nat.add_zero]

section
variable {b : Burst} {s : Driver}

theorem processed_zero (hk : nbPkts b s = 0) : processed b s = 0 := by rw [processed, if_pos hk]

theorem processed_short (hk : nbPkts b s ≠ 0) (h : nbPkts b s < ringLeft (prepare b s).txq) :
    processed b s = nbPkts b s := by
  rw [processed, if_neg hk, cursor_short h]
  exact Nat.zero_add _

/-- A burst that reaches the end of the ring handles one packet more for each packet
dropped before it. -/
theorem processed_long (hn : 0 < ringLeft (prepare b s).txq)
    (h : ringLeft (prepare b s).txq ≤ nbPkts b s) (hk : nbPkts b s < 2 ^ 16) :
    processed b s = ringLeft (prepare b s).txq +
      (nbPkts b s - (b.admitted 0 (ringLeft (prepare b s).txq)).length) := by
  have hr : ringEndPkts (ringLeft (prepare b s).txq) = ringLeft (prepare b s).txq := by
    unfold ringEndPkts; omega
  rw [processed_eq (by omega) hk h, hr]

end

/-! ## The ring after a loop, index by index -/

theorem Burst.descs_at (b : Burst) (f c txdp p j : Nat) (ring : Nat → AdvTxDesc) :
    b.descs f c txdp p ring (txdp + j) =
      if j < c ∧ b.admits (p + j) = true then (b.pkt (p + j)).desc f else ring (txdp + j) := by
  have h1 : txdp ≤ txdp + j := by omega
  have h2 : txdp + j < txdp + c ↔ j < c := by omega
  simp only [Burst.descs, h1, h2, true_and, Nat.add_sub_cancel_left]

theorem Burst.descs_below {b : Burst} {f c txdp p i : Nat} {ring : Nat → AdvTxDesc}
    (h : i < txdp) : b.descs f c txdp p ring i = ring i := by
  unfold Burst.descs
  rw [if_neg]
  omega

theorem Burst.descs_above {b : Burst} {f c txdp p i : Nat} {ring : Nat → AdvTxDesc}
    (h : txdp + c ≤ i) : b.descs f c txdp p ring i = ring i := by
  unfold Burst.descs
  rw [if_neg]
  omega

theorem Burst.ringEndDescs_at {b : Burst} {n tail j : Nat} {ring : Nat → AdvTxDesc} (h : j < n) :
    b.ringEndDescs n tail ring (tail + j) =
      if b.admits j = true then (b.pkt j).desc (flagsAt n j) else ring (tail + j) := by
  unfold Burst.ringEndDescs flagsAt
  rcases Nat.lt_or_ge j (n - 1) with hj | hj
  · rw [descs_below (by omega), descs_at, if_neg (show ¬j + 1 = n by omega)]
    simp only [hj, true_and, Nat.zero_add]
  · obtain rfl : j = n - 1 := by omega
    have h0 : b.descs rs 1 (tail + (n - 1)) (n - 1) (b.descs flags (n - 1) tail 0 ring)
        (tail + (n - 1)) = _ := b.descs_at rs 1 (tail + (n - 1)) (n - 1) 0 _
    rw [h0, Nat.add_zero, Nat.add_zero, descs_above (Nat.le_refl _),
      if_pos (show n - 1 + 1 = n by omega)]
    simp only [Nat.zero_lt_one, true_and]

theorem Burst.ringEndDescs_below {b : Burst} {n tail i : Nat} {ring : Nat → AdvTxDesc}
    (h : i < tail) : b.ringEndDescs n tail ring i = ring i := by
  unfold Burst.ringEndDescs
  rw [descs_below (by omega), descs_below h]

/-- What the facts about posting ask of the queue: accepted thresholds and the tail inside
the ring. -/
structure Placed (s : Driver) : Prop where
  conf : s.txq.Conf
  tail_lt : s.txq.txTail < s.txq.nbTxDesc

section
variable {b : Burst} {s : Driver}

theorem Placed.left (h : Placed s) (b : Burst) :
    ringLeft (prepare b s).txq = s.txq.nbTxDesc - s.txq.txTail := by
  obtain ⟨-, -, hn, ht, -, -, -⟩ := prepare_frame b s
  have := h.tail_lt
  have := h.conf.hi
  rw [ringLeft_eq (by omega) (by omega), hn, ht]

theorem Placed.nbPkts_le (h : Placed s) (b : Burst) : nbPkts b s ≤ 32 :=
  h.conf.rs_eq ▸ nbPkts_le_thresh b s

/-- The two shapes of a call that takes packets: all of them before the last descriptor,
or some on each side of the wrap, `m` behind it. -/
theorem Placed.cursor_cases (h : Placed s) (hk : nbPkts b s ≠ 0) :
    (nbPkts b s < s.txq.nbTxDesc - s.txq.txTail ∧ processed b s = nbPkts b s ∧
      cursor b s = ⟨s.txq.txTail, 0, nbPkts b s, 0, prepare b s⟩) ∨
    ∃ m, s.txq.nbTxDesc - s.txq.txTail ≤ nbPkts b s ∧
      m = nbPkts b s - (b.admitted 0 (s.txq.nbTxDesc - s.txq.txTail)).length ∧
      processed b s = s.txq.nbTxDesc - s.txq.txTail + m ∧
      cursor b s = ⟨0, s.txq.nbTxDesc - s.txq.txTail, m,
        (b.admitted 0 (s.txq.nbTxDesc - s.txq.txTail)).length,
        (xmitRingEnd b (s.txq.nbTxDesc - s.txq.txTail) (nbPkts b s) (prepare b s)).drv⟩ := by
  have hl := h.left b
  have ht := h.tail_lt
  have hk32 := h.nbPkts_le b
  obtain ⟨-, -, -, htl, -, -, -⟩ := prepare_frame b s
  rcases Nat.lt_or_ge (nbPkts b s) (s.txq.nbTxDesc - s.txq.txTail) with hlt | hge
  · refine .inl ⟨hlt, processed_short hk (hl ▸ hlt), ?_⟩
    rw [cursor_short (hl ▸ hlt), htl]
  · have hp := processed_long (b := b) (s := s) (by omega) (by omega) (by omega)
    have hn : s.txq.nbTxDesc - s.txq.txTail < 2 ^ 16 := by omega
    have hr : ringEndPkts (s.txq.nbTxDesc - s.txq.txTail) = s.txq.nbTxDesc - s.txq.txTail := by
      unfold ringEndPkts; omega
    have hnum := xmitRingEnd_num b _ (nbPkts b s) (prepare b s) hn
    have hcom := cursor_long_nbCommit (b := b) (s := s) hk (by omega) (by omega)
    rw [hr] at hnum
    rw [cursor_long (by omega), hl, hr] at hcom
    rw [hl] at hp
    refine .inr ⟨_, hge, rfl, hp, ?_⟩
    rw [cursor_long (by omega), hl, ← hcom, ← hnum]
    have hpkt : (xmitRingEnd b (s.txq.nbTxDesc - s.txq.txTail) (nbPkts b s) (prepare b s)).pkt =
        s.txq.nbTxDesc - s.txq.txTail := hr
    rw [← hpkt]
    rfl

/-- The descriptor ring before the boundary test: the slot of each admitted packet holds its
descriptor, every other one is as it was. -/
theorem Placed.ring (h : Placed s) (hk : nbPkts b s ≠ 0) {j : Nat} (hj : j < s.txq.nbTxDesc) :
    restRing b (cursor b s) (slot s.txq.nbTxDesc s.txq.txTail j) =
      if j < processed b s ∧ b.admits j = true then
        (b.pkt j).desc (flagsAt (s.txq.nbTxDesc - s.txq.txTail) j)
      else s.txq.txRing (slot s.txq.nbTxDesc s.txq.txTail j) := by
  have ht := h.tail_lt
  have hk32 := h.nbPkts_le b
  have hlo := h.conf.lo
  obtain ⟨hring, -, -, htl, -, -, -⟩ := prepare_frame b s
  rcases h.cursor_cases hk with ⟨hlt, hp, hc⟩ | ⟨m, hge, hm, hp, hc⟩
  · rw [hp, hc, restRing]
    rcases slot_cases ht (Nat.le_of_lt hj) with ⟨h1, e⟩ | ⟨h1, e⟩ <;> rw [e]
    · rw [Burst.descs_at, Nat.zero_add, hring]
      by_cases hd : j < nbPkts b s ∧ b.admits j = true
      · rw [if_pos hd, if_pos hd, flagsAt, if_neg (by omega)]
      · rw [if_neg hd, if_neg hd]
    · have hj' : ¬(j < nbPkts b s ∧ b.admits j = true) := by omega
      dsimp only
      rw [Burst.descs_below (by omega), if_neg hj', hring]
  · rw [hp, hc]
    simp only [restRing, xmitRingEnd_txq, hring, htl]
    rcases slot_cases ht (Nat.le_of_lt hj) with ⟨h1, e⟩ | ⟨h1, e⟩ <;> rw [e]
    · have hj' : j < s.txq.nbTxDesc - s.txq.txTail + m := by omega
      rw [Burst.descs_above (by omega), Burst.ringEndDescs_at (by omega)]
      simp only [hj', true_and]
    · have h0 := b.descs_at flags m 0 (s.txq.nbTxDesc - s.txq.txTail)
        (s.txq.txTail + j - s.txq.nbTxDesc)
        (b.ringEndDescs (s.txq.nbTxDesc - s.txq.txTail) s.txq.txTail s.txq.txRing)
      have hi : s.txq.nbTxDesc - s.txq.txTail + (s.txq.txTail + j - s.txq.nbTxDesc) = j := by omega
      have hm' : s.txq.txTail + j - s.txq.nbTxDesc < m ↔
          j < s.txq.nbTxDesc - s.txq.txTail + m := by omega
      simp only [Nat.zero_add, hi, hm'] at h0
      rw [h0, Burst.ringEndDescs_below (by omega), flagsAt_of_ne (by omega)]

/-- The stores of the call, in burst order. -/
theorem Placed.postings (h : Placed s) (hk : nbPkts b s ≠ 0) :
    postings (ixgbeXmitFixedBurstVec b s).2.trace =
      Ixgbe.postings s.trace ++ (b.admitted 0 (processed b s)).map fun i =>
        (slot s.txq.nbTxDesc s.txq.txTail i,
          (b.pkt i).desc (flagsAt (s.txq.nbTxDesc - s.txq.txTail) i)) := by
  have ht := h.tail_lt
  have hk32 := h.nbPkts_le b
  have hlo := h.conf.lo
  obtain ⟨-, -, -, htl, -, -, -⟩ := prepare_frame b s
  have htr : Ixgbe.postings (ixgbeXmitFixedBurstVec b s).2.trace =
      Ixgbe.postings (cursor b s).drv.trace ++ Ixgbe.postings
        (vtx1sEvents b flags (cursor b s).nbCommit (cursor b s).txId (cursor b s).pkt) := by
    rw [burst_eq, if_neg hk, xmitRest_eq]
    simp only [postings_append, postings_unmarked backlog_unmarked,
      postings_unmarked restStores_unmarked]
    simp [Ixgbe.postings, Event.posted]
  rw [htr, postings_vtx1s]
  rcases h.cursor_cases hk with ⟨hlt, hp, hc⟩ | ⟨m, hge, hm, hp, hc⟩
  · rw [hp, hc, postings_prepare]
    congr 1
    refine List.map_congr_left ?_
    intro i hi
    have hi' : (0 ≤ i ∧ i < 0 + nbPkts b s) := ((b.mem_admitted _ _ _).mp hi).1
    dsimp only
    rw [slot_of_lt (by omega), flagsAt_of_ne (by omega), Nat.sub_zero]
  · rw [hp, hc, xmitRingEnd_trace, Burst.admitted_append, List.map_append, postings_append,
      postings_prepare, List.append_assoc, htl, postings_ringEnd (by omega)]
    dsimp only
    congr 2
    · refine List.map_congr_left ?_
      intro i hi
      have hi' := ((b.mem_admitted _ _ _).mp hi).1
      rw [slot_of_lt (by omega)]
    · rw [Nat.zero_add]
      refine List.map_congr_left ?_
      intro i hi
      have hi' := ((b.mem_admitted _ _ _).mp hi).1
      rw [slot_of_ge (by omega) (by omega), flagsAt_of_ne (by omega)]
      congr 1
      omega

end

end P4Switch.Ixgbe
