import P4Switch.Ixgbe.BurstSpec
import P4Switch.Lib.GuardedRun

/-! # The experiment's accounts

The three global counters against what the callers were told. `davidis_vtx1` books each
packet it is handed, so the accounts are right as long as a call hands it exactly the
packets it takes on, and as long as no counter overflows. A burst that reaches the end of
the ring with a drop before it hands over more. -/
namespace P4Switch.Ixgbe
open P4Switch.Lib.MachineInt P4Switch.Lib.GuardedRun

/-! ## The counters over a call -/

/-- The counters hold values of their types. -/
structure Driver.InRange (s : Driver) : Prop where
  sum_QoS : i64 s.sum_QoS = s.sum_QoS
  skipped : i64 s.skipped = s.skipped
  packets_sent : i32 s.packets_sent = s.packets_sent

/-- From `s` to `s'` the counters booked the `c` packets of the burst from `p` on. -/
structure Booked (b : Burst) (p c : Nat) (s s' : Driver) : Prop where
  sum_QoS : s'.sum_QoS = i64 (s.sum_QoS + b.qosSum (b.admitted p c))
  skipped : s'.skipped = i64 (s.skipped + (b.dropped p c).length)
  packets_sent : s'.packets_sent = i32 (s.packets_sent + (b.admitted p c).length)

section
variable {b : Burst} {p c d : Nat} {s s' s'' : Driver}

theorem signed_signed (w : Nat) (x : Int) : signed w (signed w x) = signed w x := by
  simpa using signed_add_signed w x 0

theorem Booked.inRange (h : Booked b p c s s') : s'.InRange := by
  refine ⟨?_, ?_, ?_⟩
  · rw [h.sum_QoS]; exact signed_signed 64 _
  · rw [h.skipped]; exact signed_signed 64 _
  · rw [h.packets_sent]; exact signed_signed 32 _

theorem Booked.trans (h : Booked b p c s s') (h' : Booked b (p + c) d s' s'') :
    Booked b p (c + d) s s'' := by
  refine ⟨?_, ?_, ?_⟩
  · rw [h'.sum_QoS, h.sum_QoS, Burst.admitted_append, Burst.qosSum_append, ← add_assoc]
    exact signed_add_signed 64 _ _
  · rw [h'.skipped, h.skipped, Burst.dropped_append, List.length_append, Int.natCast_add,
      ← add_assoc]
    exact signed_add_signed 64 _ _
  · rw [h'.packets_sent, h.packets_sent, Burst.admitted_append, List.length_append,
      Int.natCast_add, ← add_assoc]
    exact signed_add_signed 32 _ _

/-- A state with the same counters stands for the other. -/
theorem Booked.congr_left {t : Driver} (h : Booked b p c t s') (h1 : t.sum_QoS = s.sum_QoS)
    (h2 : t.skipped = s.skipped) (h3 : t.packets_sent = s.packets_sent) : Booked b p c s s' :=
  ⟨h1 ▸ h.sum_QoS, h2 ▸ h.skipped, h3 ▸ h.packets_sent⟩

theorem booked_vtx1s (h : s.InRange) (f txdp : Nat) : Booked b p c s (vtx1s b f c txdp p s) := by
  obtain ⟨h1, h2, h3⟩ := vtx1s_counters b f c txdp p s h.sum_QoS h.skipped h.packets_sent
  exact ⟨h1, h2, h3⟩

theorem booked_backlog_vtx1s (h : s.InRange) (f tx : Nat) (n : Nat) :
    Booked b p c s (vtx1s b f c tx p (txBacklogEntry b tx p n s)) := by
  have ht : (txBacklogEntry b tx p n s).InRange := by
    rw [txBacklogEntry_eq]
    exact ⟨h.sum_QoS, h.skipped, h.packets_sent⟩
  refine (booked_vtx1s ht f tx).congr_left ?_ ?_ ?_ <;> rw [txBacklogEntry_eq]

theorem booked_ringEnd (h : s.InRange) (n k : Nat) :
    Booked b 0 (ringEndPkts n) s (xmitRingEnd b n k s).drv := by
  have h1 : Booked b 0 (n - 1) s
      (vtx1s b flags (n - 1) s.txq.txTail 0 (txBacklogEntry b s.txq.txTail 0 n s)) :=
    booked_backlog_vtx1s h flags s.txq.txTail n
  have h2 := booked_vtx1s (b := b) (p := 0 + (n - 1)) (c := 1) h1.inRange rs
    (s.txq.txTail + (n - 1))
  have h3 := h1.trans h2
  rw [Nat.zero_add] at h3
  rw [xmitRingEnd_drv]
  exact ⟨h3.sum_QoS, h3.skipped, h3.packets_sent⟩

theorem prepare_inRange (b : Burst) (h : s.InRange) : (prepare b s).InRange := by
  obtain ⟨h1, h2, h3, -, -⟩ := prepare_counters b s
  exact ⟨by rw [h1]; exact h.sum_QoS, by rw [h2]; exact h.skipped, by rw [h3]; exact h.packets_sent⟩

/-- The packets before the wrap are booked when the second half starts. -/
theorem booked_cursor (h : s.InRange) : Booked b 0 (cursor b s).pkt s (cursor b s).drv := by
  obtain ⟨h1, h2, h3, -, -⟩ := prepare_counters b s
  have hp := prepare_inRange b h
  unfold cursor
  dsimp only
  split
  · have h0 : Booked b 0 0 (prepare b s) (prepare b s) := booked_vtx1s hp flags 0
    exact h0.congr_left h1 h2 h3
  · exact (booked_ringEnd hp _ _).congr_left h1 h2 h3

/-- **A call books the packets it handles.** -/
theorem booked_burst (h : s.InRange) :
    Booked b 0 (processed b s) s (ixgbeXmitFixedBurstVec b s).2 := by
  by_cases hk : nbPkts b s = 0
  · obtain ⟨h1, h2, h3, -, -⟩ := prepare_counters b s
    have h0 : Booked b 0 0 (prepare b s) (prepare b s) :=
      booked_vtx1s (prepare_inRange b h) flags 0
    rw [burst_zero hk, processed, if_pos hk]
    exact h0.congr_left h1 h2 h3
  · have hc := booked_cursor (b := b) h
    have hr := booked_backlog_vtx1s (b := b) (p := 0 + (cursor b s).pkt)
      (c := (cursor b s).nbCommit) hc.inRange flags (cursor b s).txId (cursor b s).nbCommit
    have ht := hc.trans hr
    rw [Nat.zero_add] at ht
    rw [burst_pos hk, xmitRest_eq, processed, if_neg hk]
    exact ⟨ht.sum_QoS, ht.skipped, ht.packets_sent⟩

end

/-! ## The accounts -/

/-- The driver together with what its callers can add up: the values returned, and the QoS
bytes of the admitted ones among the packets consumed. -/
structure Books where
  drv : Driver
  returned : Int
  consumedQoS : Int

def Books.step (s : Books) : Op → Books
  | .burst b =>
    let k := (ixgbeXmitFixedBurstVec b s.drv).1
    ⟨Ixgbe.step s.drv (.burst b), s.returned + k, s.consumedQoS + b.qosSum (b.admitted 0 k)⟩
  | op => ⟨Ixgbe.step s.drv op, s.returned, s.consumedQoS⟩

/-- The books when a queue has been set up and nothing sent. -/
def Books.opened (q : QueueConf) : Books := ⟨Driver.reset q, 0, 0⟩

/-- The accounts are exact. -/
structure Balanced (s : Books) : Prop where
  packets : s.drv.packets_sent + s.drv.skipped = s.returned
  qos : s.drv.sum_QoS = s.consumedQoS

/-- A call books the packets it returns and no other: it takes none, or ends before the last
descriptor, or admits all packets up to the end of the ring. -/
def BooksOnce (b : Burst) (s : Driver) : Prop :=
  nbPkts b s = 0 ∨ nbPkts b s < ringLeft (prepare b s).txq ∨
    ∀ i < ringEndPkts (ringLeft (prepare b s).txq), b.admits i = true

instance (b : Burst) (s : Driver) : Decidable (BooksOnce b s) :=
  inferInstanceAs (Decidable (_ ∨ _ ∨ _))

/-- What a step must meet: a burst books its packets once, and no counter overflows. -/
def BooksSafe (s : Books) : Op → Prop
  | .burst b =>
    BooksOnce b s.drv ∧
      s.drv.packets_sent + (b.admitted 0 (nbPkts b s.drv)).length < 2 ^ 31 ∧
      s.drv.skipped + (b.dropped 0 (nbPkts b s.drv)).length < 2 ^ 63 ∧
      s.drv.sum_QoS + b.qosSum (b.admitted 0 (nbPkts b s.drv)) < 2 ^ 63
  | _ => True

/-- The invariant: the accounts are exact, and the counters hold what was booked. -/
structure BooksInv (s : Books) : Prop where
  conf : s.drv.txq.Conf
  balanced : Balanced s
  sent : 0 ≤ s.drv.packets_sent ∧ s.drv.packets_sent < 2 ^ 31
  skipped : 0 ≤ s.drv.skipped ∧ s.drv.skipped < 2 ^ 63
  qos : 0 ≤ s.drv.sum_QoS ∧ s.drv.sum_QoS < 2 ^ 63

theorem BooksInv.inRange {s : Books} (h : BooksInv s) : s.drv.InRange :=
  ⟨i64_of_lt h.qos.1 h.qos.2, i64_of_lt h.skipped.1 h.skipped.2, i32_of_lt h.sent.1 h.sent.2⟩

/-! ## The step -/

section
variable {b : Burst} {s : Driver}

theorem processed_ge (hk16 : nbPkts b s < 2 ^ 16) : nbPkts b s ≤ processed b s := by
  by_cases hk : nbPkts b s = 0
  · omega
  rcases Nat.lt_or_ge (nbPkts b s) (ringLeft (prepare b s).txq) with hlt | hge
  · rw [processed, if_neg hk, cursor_short hlt]
    exact Nat.le_add_left _ _
  · have ha := b.admitted_length_le 0 (ringEndPkts (ringLeft (prepare b s).txq))
    rw [processed_eq hk hk16 hge]
    omega

theorem processed_le (hk16 : nbPkts b s < 2 ^ 16) : processed b s ≤ 2 * nbPkts b s := by
  by_cases hk : nbPkts b s = 0
  · rw [processed, if_pos hk]
    exact Nat.zero_le _
  rcases Nat.lt_or_ge (nbPkts b s) (ringLeft (prepare b s).txq) with hlt | hge
  · rw [processed, if_neg hk, cursor_short hlt]
    dsimp only
    omega
  · rw [processed_eq hk hk16 hge]
    unfold ringEndPkts
    omega

/-- The calls that handle exactly the packets they return. -/
theorem processed_eq_iff (hk16 : nbPkts b s < 2 ^ 16) :
    processed b s = nbPkts b s ↔ BooksOnce b s := by
  unfold BooksOnce
  by_cases hk : nbPkts b s = 0
  · refine iff_of_true ?_ (.inl hk)
    rw [processed, if_pos hk, hk]
  rcases Nat.lt_or_ge (nbPkts b s) (ringLeft (prepare b s).txq) with hlt | hge
  · refine iff_of_true ?_ (.inr (.inl hlt))
    rw [processed, if_neg hk, cursor_short hlt]
    exact Nat.zero_add _
  · have hnl := Nat.not_lt_of_le hge
    have ha := b.admitted_length_le 0 (ringEndPkts (ringLeft (prepare b s).txq))
    have hle : ringEndPkts (ringLeft (prepare b s).txq) ≤ nbPkts b s := by
      unfold ringEndPkts
      omega
    have hall := b.admitted_length_eq 0 (ringEndPkts (ringLeft (prepare b s).txq))
    simp only [hk, hnl, false_or]
    have hall' : (∀ i < ringEndPkts (ringLeft (prepare b s).txq), b.admits i = true) ↔
        (b.admitted 0 (ringEndPkts (ringLeft (prepare b s).txq))).length =
          ringEndPkts (ringLeft (prepare b s).txq) := by
      rw [hall]
      exact ⟨fun h i _ hi => h i (by omega), fun h i hi => h i (Nat.zero_le _) (by omega)⟩
    rw [hall', processed_eq hk hk16 hge]
    omega

theorem Burst.qosSum_nonneg (b : Burst) (ps : List Nat) : 0 ≤ b.qosSum ps := by
  unfold Burst.qosSum
  refine List.sum_nonneg ?_
  intro x hx
  obtain ⟨i, -, rfl⟩ := List.mem_map.mp hx
  exact Int.natCast_nonneg _

end

theorem opened_inv {q : QueueConf} (hc : (Driver.reset q).txq.Conf) : BooksInv (Books.opened q) :=
  ⟨hc, ⟨rfl, rfl⟩, ⟨Int.le_refl 0, show (0 : Int) < 2 ^ 31 by decide⟩,
    ⟨Int.le_refl 0, show (0 : Int) < 2 ^ 63 by decide⟩,
    ⟨Int.le_refl 0, show (0 : Int) < 2 ^ 63 by decide⟩⟩

/-- A step that leaves the counters alone. -/
theorem BooksInv.of_counters {s : Books} {d : Driver} (h : BooksInv s) (hc : d.txq.Conf)
    (h1 : d.sum_QoS = s.drv.sum_QoS) (h2 : d.skipped = s.drv.skipped)
    (h3 : d.packets_sent = s.drv.packets_sent) : BooksInv ⟨d, s.returned, s.consumedQoS⟩ := by
  refine ⟨hc, ⟨?_, ?_⟩, ?_, ?_, ?_⟩
  · rw [h2, h3]; exact h.balanced.packets
  · rw [h1]; exact h.balanced.qos
  · rw [h3]; exact h.sent
  · rw [h2]; exact h.skipped
  · rw [h1]; exact h.qos

/-- The step lemma: the accounts stay exact. -/
theorem step_booksInv (s : Books) (op : Op) (hi : BooksInv s) (hok : BooksSafe s op) :
    BooksInv (s.step op) := by
  have hconf := step_conf op hi.conf
  cases op with
  | nic =>
    obtain ⟨h1, h2, h3⟩ := nicComplete_counters s.drv
    exact hi.of_counters hconf h1 h2 h3
  | freeBufs h =>
    obtain ⟨h1, h2, h3⟩ := freeBufs_counters h s.drv
    exact hi.of_counters hconf h1 h2 h3
  | burst b =>
    obtain ⟨honce, hsent, hskip, hqos⟩ := hok
    have hk32 : nbPkts b s.drv ≤ 32 := hi.conf.rs_eq ▸ nbPkts_le_thresh b s.drv
    have hbook := booked_burst (b := b) hi.inRange
    rw [(processed_eq_iff (by omega)).mpr honce] at hbook
    have hsum := b.admitted_add_dropped 0 (nbPkts b s.drv)
    have hq := b.qosSum_nonneg (b.admitted 0 (nbPkts b s.drv))
    obtain ⟨-, ⟨hb1, hb2⟩, h1, h2, h3⟩ := hi
    obtain ⟨e1, e2, e3⟩ := hbook
    rw [i64_of_lt (by omega) hqos] at e1
    rw [i64_of_lt (by omega) hskip] at e2
    rw [i32_of_lt (by omega) hsent] at e3
    have hret : (ixgbeXmitFixedBurstVec b s.drv).1 = nbPkts b s.drv := burst_fst b s.drv
    refine ⟨hconf, ⟨?_, ?_⟩, ?_, ?_, ?_⟩ <;> simp only [Books.step, step, e1, e2, e3, hret] <;>
      omega

/-- A step that keeps the accounts exact meets the condition: an excess of packets booked
cannot be made up for by an overflow. -/
theorem booksSafe_of_step (s : Books) (op : Op) (hi : BooksInv s) (h : Balanced (s.step op)) :
    BooksSafe s op := by
  cases op with
  | nic => trivial
  | freeBufs h => trivial
  | burst b =>
    have hk32 : nbPkts b s.drv ≤ 32 := hi.conf.rs_eq ▸ nbPkts_le_thresh b s.drv
    have hbook := booked_burst (b := b) hi.inRange
    have hm := processed_ge (b := b) (s := s.drv) (by omega)
    have hm64 := processed_le (b := b) (s := s.drv) (by omega)
    have honce := processed_eq_iff (b := b) (s := s.drv) (by omega)
    have hret : (ixgbeXmitFixedBurstVec b s.drv).1 = nbPkts b s.drv := burst_fst b s.drv
    have hsum := b.admitted_add_dropped 0 (processed b s.drv)
    obtain ⟨hp, hq⟩ := h
    simp only [Books.step, step, hret] at hp hq
    obtain ⟨-, ⟨hb1, hb2⟩, h1, h2, h3⟩ := hi
    obtain ⟨e1, e2, e3⟩ := hbook
    rw [e2, e3] at hp
    rw [e1] at hq
    have hpk : processed b s.drv = nbPkts b s.drv ∧
        s.drv.packets_sent + (b.admitted 0 (processed b s.drv)).length < 2 ^ 31 ∧
        s.drv.skipped + (b.dropped 0 (processed b s.drv)).length < 2 ^ 63 := by
      rcases i32_cases (x := s.drv.packets_sent + (b.admitted 0 (processed b s.drv)).length)
        (by omega) (by omega) with ⟨c1, c2⟩ | ⟨c1, c2⟩ <;>
      rcases i64_cases (x := s.drv.skipped + (b.dropped 0 (processed b s.drv)).length)
        (by omega) (by omega) with ⟨d1, d2⟩ | ⟨d1, d2⟩ <;>
      omega
    obtain ⟨hpk, hsent, hskip⟩ := hpk
    rw [hpk] at hq hsent hskip
    have hqn := b.qosSum_nonneg (b.admitted 0 (nbPkts b s.drv))
    refine ⟨honce.mp hpk, hsent, hskip, ?_⟩
    have hlt := i64_bounds (s.drv.sum_QoS + b.qosSum (b.admitted 0 (nbPkts b s.drv)))
    omega

/-- **The accounts, exactly.** From the set-up of any accepted vector queue, the counters
agree with what the callers can add up in every state of a run if and only if every burst
books its packets once and no counter overflows. -/
theorem balanced_always_iff {nbDesc : Nat} {txConf : TxConf} {simd128 : Bool} {q : QueueConf}
    (h : ixgbeDevTxQueueSetup nbDesc txConf = .ok q) (hv : ixgbeSetTxFunction simd128 q = .vec)
    (ops : List Op) :
    Always Books.step Balanced (Books.opened q) ops ↔
      Meets Books.step BooksSafe (Books.opened q) ops :=
  always_iff_meets step_booksInv (fun _ hs => hs.balanced) booksSafe_of_step
    (opened_inv (setup_vec h hv)) ops

theorem balanced_always_iff_conf64 :
    ixgbeDevTxQueueSetup 64 ⟨0, 0, 0, 0⟩ = .ok conf64 ∧ ixgbeSetTxFunction true conf64 = .vec ∧
      Always Books.step Balanced (Books.opened conf64) mixedBursts := by
  refine ⟨rfl, rfl, (@balanced_always_iff 64 ⟨0, 0, 0, 0⟩ true conf64 rfl rfl _).mpr ?_⟩
  refine ⟨⟨?_, ?_, ?_, ?_⟩, trivial, ⟨?_, ?_, ?_, ?_⟩, ⟨?_, ?_, ?_, ?_⟩, trivial, trivial⟩ <;>
    decide +kernel

/-- Sixty-three bursts of one packet, with the NIC completing the first 32 in between. -/
def toRingEnd : List Op :=
  List.replicate 32 (.burst (plainBurst 1 fun _ => some 33)) ++ List.replicate 32 .nic ++
    List.replicate 31 (.burst (plainBurst 1 fun _ => some 33))

/-- At the end of the ring, a burst of two whose first packet is dropped books three. -/
theorem balanced_broken :
    ¬Balanced (run Books.step (Books.opened conf64)
      (toRingEnd ++ [.burst (plainBurst 2 fun i => if i = 0 then none else some 33)])) := by
  intro h
  have hp := h.packets
  revert hp
  decide +kernel

end P4Switch.Ixgbe
