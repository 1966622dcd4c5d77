import P4Switch.Ixgbe.Accounting
import P4Switch.Ixgbe.Ownership

/-! # The caller's array

Which entries of `tx_pkts` a burst reads, and which packets it hands to `davidis_vtx1`. Both
are the entries below one bound, the number of packets the call handles. -/
namespace P4Switch.Ixgbe
open P4Switch.Lib.MachineInt P4Switch.Lib.GuardedRun

def Event.read : Event → Option Nat
  | .readPkt i => some i
  | _ => none

/-- The entries of `tx_pkts` that are read, by anyone. -/
def reads (es : List Event) : List Nat := es.filterMap Event.read

/-- The packets handed to `davidis_vtx1`: the entries read, but for those `tx_backlog_entry`
copies into the software ring. -/
def handled : List Event → List Nat
  | .readPkt _ :: .swStore _ _ :: es => handled es
  | .readPkt i :: es => i :: handled es
  | _ :: es => handled es
  | [] => []

/-- The call stays inside the caller's array and handles each packet it returns once. -/
structure InArray (b : Burst) (s : Driver) : Prop where
  inside : ∀ i ∈ reads (gained s (ixgbeXmitFixedBurstVec b s).2), i < b.nbPkts
  once : ∀ i < (ixgbeXmitFixedBurstVec b s).1,
    (handled (gained s (ixgbeXmitFixedBurstVec b s).2)).count i = 1

/-- The call ends before the last descriptor, or the packets it does not take make up for
those dropped up to the end of the ring. -/
def StaysInside (b : Burst) (s : Driver) : Prop :=
  nbPkts b s < ringLeft s.txq ∨
    nbPkts b s + (b.dropped 0 (ringLeft s.txq)).length ≤ b.nbPkts

/-! ## The events -/

theorem read_eq_some {e : Event} {i : Nat} : e.read = some i ↔ e = .readPkt i := by
  cases e <;> simp [Event.read]

theorem mem_reads {es : List Event} {i : Nat} : i ∈ reads es ↔ .readPkt i ∈ es := by
  unfold reads
  simp only [List.mem_filterMap, read_eq_some, exists_eq_right]

theorem mem_of_handled {es : List Event} {i : Nat} (h : i ∈ handled es) : .readPkt i ∈ es := by
  fun_induction handled es with
  | case1 j m p es ih => exact List.mem_cons_of_mem _ (List.mem_cons_of_mem _ (ih h))
  | case2 j es hn ih =>
    rcases List.mem_cons.mp h with rfl | h
    · exact List.mem_cons_self
    · exact List.mem_cons_of_mem _ (ih h)
  | case3 e es h1 h2 ih => exact List.mem_cons_of_mem _ (ih h)
  | case4 => simp at h

theorem handled_cons {e : Event} (h : e.read = none) (es : List Event) :
    handled (e :: es) = handled es := by
  cases e <;> first | rfl | simp [Event.read] at h

/-- Events that read nothing do not count. -/
theorem handled_append {es : List Event} (h : ∀ e ∈ es, e.read = none) (fs : List Event) :
    handled (es ++ fs) = handled fs := by
  induction es with
  | nil => rfl
  | cons e es ih =>
    rw [List.cons_append, handled_cons (h e (by simp))]
    exact ih fun e' he' => h e' (List.mem_cons_of_mem _ he')

theorem free_reads {e : Event} (h : e.isFree = true) : e.read = none := by
  cases e <;> first | rfl | simp [Event.isFree] at h

theorem handled_backlog (b : Burst) (txep p c : Nat) (fs : List Event) :
    handled (backlogEvents b txep p c ++ fs) = handled fs := by
  induction c generalizing txep p with
  | zero => rfl
  | succ c ih => exact ih (txep + 1) (p + 1)

theorem handled_vtx1 (b : Burst) (f txdp p : Nat) (fs : List Event) :
    handled (vtx1Events b f txdp p ++ fs) = p :: handled fs := by
  have htail : ∀ es : List Event, (∀ e ∈ es, e.read = none) →
      handled (.readPkt p :: .fopen :: (es ++ fs)) = p :: handled fs := by
    intro es h
    show p :: handled (es ++ fs) = _
    rw [handled_append h]
  unfold vtx1Events
  dsimp only
  split
  · exact htail [.fclose, .fopen, .bufRead _, .fclose, .fopen, .bufTrunc _, .bufWrite _ _, .fclose,
      .store _ _] (by simp [Event.read])
  · refine htail ([.fclose, .fopen, .bufRead _, .fclose] ++ rtePktmbufFree b.toHeap (b.txPkts p)) ?_
    intro e he
    rcases List.mem_append.mp he with he | he
    · simp only [List.mem_cons, List.not_mem_nil, or_false] at he
      rcases he with rfl | rfl | rfl | rfl <;> rfl
    · exact free_reads (rtePktmbufFree_isFree he)

theorem handled_vtx1s (b : Burst) (f c txdp p : Nat) (fs : List Event) :
    handled (vtx1sEvents b f c txdp p ++ fs) = List.range' p c ++ handled fs := by
  induction c generalizing txdp p with
  | zero => rfl
  | succ c ih =>
    rw [vtx1sEvents, List.append_assoc, handled_vtx1, ih, List.range'_succ]
    rfl

theorem read_backlog {b : Burst} {txep p c i : Nat} (h : .readPkt i ∈ backlogEvents b txep p c) :
    i < p + c := by
  obtain ⟨j, hj, he | he⟩ := mem_backlogEvents h
  · obtain rfl := Event.readPkt.inj he
    omega
  · exact absurd he (by simp)

theorem read_vtx1s {b : Burst} {f txdp p c i : Nat} (h : .readPkt i ∈ vtx1sEvents b f c txdp p) :
    i < p + c := by
  obtain ⟨j, hj, he⟩ := mem_vtx1sEvents h
  obtain he | he | he | he | ⟨g, he | he | ⟨v, he⟩⟩ | ⟨-, he⟩ := mem_vtx1Events he
  · exact absurd he (by simp [Event.isFree])
  · obtain rfl := Event.readPkt.inj he
    omega
  all_goals exact absurd he (by simp)

/-! ## The call -/

section
variable {b : Burst} {s : Driver}

/-- The cleanup and the log read nothing. -/
theorem prepare_reads (b : Burst) (s : Driver) :
    ∃ es, (prepare b s).trace = s.trace ++ es ∧ ∀ e ∈ es, e.read = none := by
  rw [prepare_eq]
  split
  · refine ⟨_, rfl, ?_⟩
    intro e he
    rcases List.mem_cons.mp he with rfl | he
    · rfl
    · rcases List.mem_append.mp he with he | he
      · exact free_reads (freeSlots_isFree he)
      · unfold IxgbeTxQueue.cleanedU16 at he
        split at he <;> simp only [List.mem_append, List.mem_cons, List.not_mem_nil, or_false] at he
        · rcases he with (rfl | rfl) | rfl <;> rfl
        · rcases he with rfl | rfl <;> rfl
  · exact ⟨_, rfl, fun e he => List.mem_singleton.mp he ▸ rfl⟩

/-- Up to the cursor. -/
theorem cursor_reads (b : Burst) (s : Driver) :
    ∃ es, (cursor b s).drv.trace = (prepare b s).trace ++ es ∧
      (∀ fs, handled (es ++ fs) = List.range' 0 (cursor b s).pkt ++ handled fs) ∧
      ∀ i, .readPkt i ∈ es → i < (cursor b s).pkt := by
  rcases Nat.lt_or_ge (nbPkts b s) (ringLeft (prepare b s).txq) with hlt | hge
  · rw [cursor_short hlt]
    exact ⟨[], (List.append_nil _).symm, fun fs => rfl, fun i hi => absurd hi (by simp)⟩
  · rw [cursor_long hge]
    refine ⟨_, xmitRingEnd_trace .., ?_, ?_⟩
    · intro fs
      show _ = List.range' 0 (ringLeft (prepare b s).txq - 1 + 1) ++ handled fs
      rw [ringEndEvents, List.append_assoc, handled_backlog, List.append_assoc, handled_vtx1s,
        List.append_assoc, handled_vtx1s,
        handled_append (by simp [Event.read] : ∀ e ∈ [Event.wrap, .u16 _], e.read = none),
        ← List.append_assoc]
      congr 1
      rw [← List.range'_append_1, Nat.zero_add]
    · intro i hi
      show i < ringLeft (prepare b s).txq - 1 + 1
      simp only [ringEndEvents, List.mem_append] at hi
      obtain hi | hi | hi | hi := hi
      · have := read_backlog hi
        omega
      · have := read_vtx1s hi
        omega
      · have := read_vtx1s hi
        omega
      · exact absurd hi (by simp)

/-- **One bound**: the call reads the entries below it and handles each of them once. -/
theorem burst_reads (b : Burst) (s : Driver) :
    handled (gained s (ixgbeXmitFixedBurstVec b s).2) = List.range' 0 (processed b s) ∧
      ∀ i ∈ reads (gained s (ixgbeXmitFixedBurstVec b s).2), i < processed b s := by
  obtain ⟨es, hes, hnone⟩ := prepare_reads b s
  by_cases hk : nbPkts b s = 0
  · rw [burst_zero hk, gained_of_append hes, processed, if_pos hk]
    refine ⟨?_, ?_⟩
    · have h0 := handled_append hnone []
      rwa [List.append_nil] at h0
    · intro i hi
      exact absurd (hnone _ (mem_reads.mp hi)) (by simp [Event.read])
  · obtain ⟨fs, hfs, hhandled, hreads⟩ := cursor_reads b s
    rw [burst_pos hk, xmitRest_eq, processed, if_neg hk]
    have hstores : ∀ e ∈ restStores b (cursor b s) ++
        [.log (restDrv b (cursor b s)).sum_QoS (restDrv b (cursor b s)).skipped
          (restDrv b (cursor b s)).packets_sent, .fclose], e.read = none := by
      intro e he
      unfold restStores at he
      split at he <;>
        simp only [List.mem_append, List.mem_cons, List.not_mem_nil, or_false, false_or] at he
      · rcases he with (rfl | (rfl | rfl) | rfl | rfl) | rfl | rfl <;> rfl
      · rcases he with (rfl | rfl | rfl) | rfl | rfl <;> rfl
    rw [gained_of_append (by rw [hfs, hes, List.append_assoc, List.append_assoc])]
    refine ⟨?_, ?_⟩
    · have h0 := handled_append hstores []
      rw [List.append_nil] at h0
      rw [handled_append hnone, hhandled, handled_backlog, handled_vtx1s, h0, handled,
        List.append_nil, ← List.range'_append_1, Nat.zero_add]
    · intro i hi
      obtain hi | hi | hi | hi | hi := by
        simpa only [List.mem_append] using mem_reads.mp hi
      · exact absurd (hnone _ hi) (by simp [Event.read])
      · exact (hreads i hi).trans_le (Nat.le_add_right _ _)
      · exact read_backlog hi
      · exact read_vtx1s hi
      · exact absurd (hstores _ (by simpa only [List.mem_append] using hi)) (by simp [Event.read])

theorem processed_le_iff (ht : s.txq.txTail < s.txq.nbTxDesc) (hn : s.txq.nbTxDesc < 2 ^ 16)
    (hk : nbPkts b s < 2 ^ 16) : processed b s ≤ b.nbPkts ↔ StaysInside b s := by
  obtain ⟨-, -, hnb, htail, -, -, -⟩ := prepare_frame b s
  have hleft : ringLeft (prepare b s).txq = ringLeft s.txq := by
    unfold ringLeft
    rw [hnb, htail]
  have hpos : 0 < ringLeft s.txq := by
    rw [ringLeft_eq ht hn]
    omega
  have hle : nbPkts b s ≤ b.nbPkts := (Nat.min_le_right _ _).trans (Nat.min_le_left _ _)
  unfold StaysInside
  by_cases hk0 : nbPkts b s = 0
  · rw [processed_zero hk0]
    exact iff_of_true (Nat.zero_le _) (.inl (hk0 ▸ hpos))
  rcases Nat.lt_or_ge (nbPkts b s) (ringLeft s.txq) with hlt | hge
  · rw [processed_short hk0 (hleft ▸ hlt)]
    exact iff_of_true hle (.inl hlt)
  · have hsum := b.admitted_add_dropped 0 (ringLeft s.txq)
    rw [processed_long (hleft ▸ hpos) (hleft ▸ hge) hk, hleft]
    omega

/-- **The exact condition**, for every queue with its tail inside the ring. -/
theorem inArray_iff (ht : s.txq.txTail < s.txq.nbTxDesc) (hn : s.txq.nbTxDesc < 2 ^ 16)
    (hb : b.nbPkts < 2 ^ 16) : InArray b s ↔ StaysInside b s := by
  have hk : nbPkts b s < 2 ^ 16 :=
    ((Nat.min_le_right _ _).trans (Nat.min_le_left _ _)).trans_lt hb
  obtain ⟨hhandled, hreads⟩ := burst_reads b s
  rw [← processed_le_iff ht hn hk]
  constructor
  · intro h
    by_contra hgt
    -- the first entry past the array is handled
    have hmem : b.nbPkts ∈ handled (gained s (ixgbeXmitFixedBurstVec b s).2) := by
      rw [hhandled, List.mem_range'_1]
      omega
    exact Nat.lt_irrefl _ (h.inside _ (mem_reads.mpr (mem_of_handled hmem)))
  · intro hle
    refine ⟨fun i hi => (hreads i hi).trans_le hle, ?_⟩
    intro i hi
    rw [burst_fst] at hi
    rw [hhandled]
    refine List.count_eq_one_of_mem List.nodup_range' ?_
    rw [List.mem_range'_1]
    have := processed_ge hk
    omega

end

/-- With one descriptor left, a burst that wraps. -/
theorem inArray_iff_wrap :
    InArray (plainBurst 2 fun _ => some 33) (run step (Driver.reset conf64) toRingEnd) := by
  refine (inArray_iff ?_ ?_ ?_).mpr (.inr ?_) <;> decide +kernel

/-- With one descriptor left, a burst of two whose first packet is dropped reads a third
entry. -/
theorem inArray_broken :
    ¬∀ (b : Burst) (s : Driver), s.txq.txTail < s.txq.nbTxDesc → InArray b s := by
  intro h
  let b := plainBurst 2 fun i => if i = 0 then none else some 33
  let s := run step (Driver.reset conf64) toRingEnd
  have ht : s.txq.txTail < s.txq.nbTxDesc := by decide +kernel
  have hp : processed b s = 3 := by decide +kernel
  have hmem : 2 ∈ handled (gained s (ixgbeXmitFixedBurstVec b s).2) := by
    rw [(burst_reads b s).1, hp]
    decide
  exact absurd ((h b s ht).inside 2 (mem_reads.mpr (mem_of_handled hmem))) (by decide)

end P4Switch.Ixgbe
