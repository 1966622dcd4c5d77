import P4Switch.Ixgbe.Alignment

/-! # Who owns an mbuf

A ledger of the mbufs handed to the driver, kept beside the driver from the values its
calls return. An mbuf may be handed over again once it is back in its pool, so that the
ledger counts occasions, not addresses. -/
namespace P4Switch.Ixgbe
open P4Switch.Lib.MachineInt P4Switch.Lib.Circular P4Switch.Lib.GuardedRun

/-- The driver, the mbufs it consumed, those among them that it admitted and that it
dropped, and the mbufs whose last reference it has given up, with their pools. -/
structure Ledger where
  drv : Driver
  consumed : List MbufPtr
  admitted : List MbufPtr
  dropped : List MbufPtr
  due : List (Nat × MbufPtr)

/-- What the trace has gained from `s` to `s'`. -/
def gained (s s' : Driver) : List Event := s'.trace.drop s.trace.length

def Ledger.step (l : Ledger) : Op → Ledger
  | .burst b =>
    let (k, s) := ixgbeXmitFixedBurstVec b l.drv
    { drv := s
      consumed := l.consumed ++ (List.range' 0 k).map b.txPkts
      admitted := l.admitted ++ (b.admitted 0 k).map b.txPkts
      dropped := l.dropped ++ (b.dropped 0 k).map b.txPkts
      due := l.due ++ b.toHeap.due (gained l.drv s) }
  | .freeBufs h =>
    let s := (ixgbeTxFreeBufs h l.drv).2
    { l with drv := s, due := l.due ++ h.due (gained l.drv s) }
  | .nic => { l with drv := nicComplete l.drv }

theorem Ledger.step_burst (l : Ledger) (b : Burst) :
    l.step (.burst b) =
      { drv := (ixgbeXmitFixedBurstVec b l.drv).2
        consumed := l.consumed ++ (List.range' 0 (nbPkts b l.drv)).map b.txPkts
        admitted := l.admitted ++ (b.admitted 0 (nbPkts b l.drv)).map b.txPkts
        dropped := l.dropped ++ (b.dropped 0 (nbPkts b l.drv)).map b.txPkts
        due := l.due ++
          b.toHeap.due (gained l.drv (ixgbeXmitFixedBurstVec b l.drv).2) } := by
  rw [← burst_fst b l.drv]
  rfl

/-- The ledger of a queue just set up. -/
def Ledger.opened (q : QueueConf) : Ledger := ⟨Driver.reset q, [], [], [], []⟩

/-- Every mbuf is where it should be: each dropped one was given up at its drop; the admitted
ones were given up in order, none before its descriptor had completed, and those that were
not are in the live slots; each consumed one is in one of these places once, so that one
given up as often as it was handed over is in no live slot; and what is due to the pools is
in them. -/
structure Owned (l : Ledger) : Prop where
  drops : frees .drop l.drv.trace = l.dropped.map some
  fifo : frees .done l.drv.trace ++ l.drv.txq.live = l.admitted.map some
  posted : (stored l.drv.trace).length = l.admitted.length
  inOrder : completions l.drv.trace <+: stored l.drv.trace
  completed : (frees .done l.drv.trace).length ≤ (completions l.drv.trace).length
  once : (frees .drop l.drv.trace ++ frees .done l.drv.trace ++ l.drv.txq.live).Perm
    (l.consumed.map some)
  apart : ∀ m, (frees .drop l.drv.trace ++ frees .done l.drv.trace).count (some m) =
    l.consumed.count m → some m ∉ l.drv.txq.live
  returned : returned l.drv.trace = l.due

/-- A queue has been released: every consumed mbuf was given up exactly once. -/
structure Released (l : Ledger) (h : Heap) (s : Driver) : Prop where
  drops : frees .drop s.trace = l.dropped.map some
  fifo : frees .done s.trace ++ frees .release s.trace = l.admitted.map some
  once : (frees .drop s.trace ++ frees .done s.trace ++ frees .release s.trace).Perm
    (l.consumed.map some)
  returned : returned s.trace = l.due ++ h.due (gained l.drv s)

/-- What has been given up as often as it came is not among the rest. -/
theorem not_mem_rest {xs ys : List (Option MbufPtr)} {zs : List MbufPtr}
    (h : (xs ++ ys).Perm (zs.map some)) {m : MbufPtr} (hm : xs.count (some m) = zs.count m) :
    some m ∉ ys := by
  have hc := h.count_eq (some m)
  have hmap : (zs.map some).count (some m) = zs.count m :=
    List.count_map_of_injective _ _ (Option.some_injective _) m
  rw [List.count_append, hm, hmap] at hc
  exact List.count_eq_zero.mp (by omega)

/-- The invariant: the books agree with the trace, and the admitted packets are laid around
the ring. -/
structure OwnInv (l : Ledger) : Prop where
  aligned : ∃ d c, Aligned l.drv l.admitted d c
  drops : frees .drop l.drv.trace = l.dropped.map some
  unreleased : frees .release l.drv.trace = []
  split : (l.dropped ++ l.admitted).Perm l.consumed
  returned : returned l.drv.trace = l.due

theorem OwnInv.fifo {l : Ledger} (h : OwnInv l) :
    frees .done l.drv.trace ++ l.drv.txq.live = l.admitted.map some := by
  obtain ⟨d, c, ha⟩ := h.aligned
  rw [ha.freed, ha.live_eq, ← List.map_append, List.take_append_drop]

theorem OwnInv.owned {l : Ledger} (h : OwnInv l) : Owned l := by
  obtain ⟨d, c, ha⟩ := h.aligned
  have honce : (frees .drop l.drv.trace ++ frees .done l.drv.trace ++ l.drv.txq.live).Perm
      (l.consumed.map some) := by
    rw [List.append_assoc, h.fifo, h.drops, ← List.map_append]
    exact h.split.map some
  refine ⟨h.drops, h.fifo, ?_, ?_, ?_, honce, fun m => not_mem_rest honce, h.returned⟩
  · rw [ha.stored, List.length_map, List.length_range]
  · rw [ha.stored, ha.completions]
    obtain ⟨w, hw⟩ := Nat.exists_eq_add_of_le ha.completed_le
    rw [hw, List.range_add, List.map_append]
    exact List.prefix_append _ _
  · rw [ha.freed, ha.completions]
    have hd := ha.freed_le
    simp only [List.length_map, List.length_take, List.length_range]
    omega

/-! ## What a step gives back -/

/-- What a stretch of the trace adds. -/
theorem gained_of_append {s s' : Driver} {es : List Event} (h : s'.trace = s.trace ++ es) :
    gained s s' = es := by
  rw [gained, h, List.drop_left]

theorem burst_grows (b : Burst) (s : Driver) :
    ∃ es, (ixgbeXmitFixedBurstVec b s).2.trace = s.trace ++ es := by
  have hp : ∃ es, (prepare b s).trace = s.trace ++ es := by
    rw [prepare_eq]
    split <;> exact ⟨_, rfl⟩
  obtain ⟨es, hes⟩ := hp
  by_cases hk : nbPkts b s = 0
  · exact ⟨es, by rw [burst_zero hk, hes]⟩
  · have hc : ∃ fs, (cursor b s).drv.trace = (prepare b s).trace ++ fs := by
      unfold cursor
      dsimp only
      split
      · exact ⟨[], (List.append_nil _).symm⟩
      · exact ⟨_, xmitRingEnd_trace ..⟩
    obtain ⟨fs, hfs⟩ := hc
    rw [burst_pos hk, xmitRest_eq, hfs, hes]
    simp only [List.append_assoc]
    exact ⟨_, rfl⟩

section
variable {l : Ledger}

/-- The events a call gives mbufs back with. -/
theorem gained_burst {b : Burst} {s : Driver} (h : Placed s) :
    givenBack (gained s (ixgbeXmitFixedBurstVec b s).2) =
      s.txq.cleanupFrees b.toHeap ++ b.drops 0 (processed b s) := by
  obtain ⟨es, hes⟩ := burst_grows b s
  have hg := h.givenBack (b := b)
  rw [hes, givenBack_append] at hg
  rw [gained_of_append hes]
  exact List.append_cancel_left hg

theorem cleanupFrees_returned (q : IxgbeTxQueue) (h : Heap) :
    returned (q.cleanupFrees h) = h.due (q.cleanupFrees h) := by
  unfold IxgbeTxQueue.cleanupFrees
  split
  · exact freeSlots_returned h _
  · rfl

/-- A call puts what is due, whatever it admits. -/
theorem burst_returned {b : Burst} {s : Driver} (h : Placed s) :
    returned (ixgbeXmitFixedBurstVec b s).2.trace =
      returned s.trace ++ b.toHeap.due (gained s (ixgbeXmitFixedBurstVec b s).2) := by
  rw [← returned_givenBack, h.givenBack, returned_append, returned_givenBack, returned_append,
    cleanupFrees_returned, b.drops_returned, ← due_append, ← gained_burst h, due_givenBack]

theorem cleanupFrees_frees_ne (q : IxgbeTxQueue) (h : Heap) {k : FreeKind} (hk : k ≠ .done) :
    frees k (q.cleanupFrees h) = [] := by
  unfold IxgbeTxQueue.cleanupFrees
  split
  · exact freeSlots_frees_ne h hk _
  · rfl

/-- The packets a call takes are those it drops and those it admits. -/
theorem dropped_append_admitted (b : Burst) (k : Nat) :
    (b.dropped 0 k ++ b.admitted 0 k).Perm (List.range' 0 k) := by
  have hf := List.filter_append_perm b.admits (List.range' 0 k)
  exact List.perm_append_comm.trans hf

/-- The step lemma for a burst. -/
theorem OwnInv.burst {b : Burst} (h : OwnInv l) (hok : OwnSafe l.drv (.burst b)) :
    OwnInv (l.step (.burst b)) := by
  obtain ⟨⟨d, c, ha⟩, hdrop, hrel, hsplit, hret⟩ := h
  have hs : Placed l.drv := ⟨ha.hand.conf, ha.hand.tail_lt⟩
  have hi := burst_handshake ha.hand (hok.handshakeSafe ha.hand)
  have hfst := burst_fst b l.drv
  obtain ⟨d', hp⟩ := ha.prepare b
  have hgive := hs.givenBack (b := b)
  have hkinds : ∀ k, k ≠ .done → frees k (ixgbeXmitFixedBurstVec b l.drv).2.trace =
      frees k l.drv.trace ++ frees k (b.drops 0 (processed b l.drv)) := by
    intro k hk
    rw [← frees_givenBack, hgive, frees_append, frees_givenBack, frees_append,
      cleanupFrees_frees_ne _ _ hk, List.nil_append]
  have hproc : processed b l.drv = nbPkts b l.drv := by
    by_cases hk : nbPkts b l.drv = 0
    · rw [processed_zero hk, hk]
    · obtain ⟨a, hm⟩ := hok.moves hs hk
      exact hm.processed
  rw [Ledger.step_burst]
  refine ⟨?_, ?_, ?_, ?_, ?_⟩
  · by_cases hk : nbPkts b l.drv = 0
    · refine ⟨d', c, ?_⟩
      rw [burst_zero hk, hk]
      simpa [Burst.admitted] using hp
    · obtain ⟨a, hm⟩ := hok.moves hs hk
      refine ⟨d', c, ?_⟩
      rw [hm.admitted]
      exact hp.burst hs hm hi
  · dsimp only
    rw [hkinds _ (by decide), hdrop, b.drops_frees, hproc, List.map_append, List.map_map]
    rfl
  · dsimp only
    rw [hkinds _ (by decide), hrel, b.drops_frees_ne (by decide) (by decide)]
    rfl
  · have hnew := (dropped_append_admitted b (nbPkts b l.drv)).map b.txPkts
    rw [List.map_append] at hnew
    refine .trans ?_ (hsplit.append hnew)
    simp only [List.append_assoc]
    refine List.Perm.append_left _ ?_
    simp only [← List.append_assoc]
    exact List.perm_append_comm.append_right _
  · dsimp only
    rw [burst_returned hs, hret]

/-- The step lemma for a cleanup. -/
theorem OwnInv.freeBufs {hp : Heap} (h : OwnInv l) (hok : OwnSafe l.drv (.freeBufs hp)) :
    OwnInv (l.step (.freeBufs hp)) := by
  obtain ⟨⟨d, c, ha⟩, hdrop, hrel, hsplit, hret⟩ := h
  have heq := ixgbeTxFreeBufs_eq hp l.drv
  rcases Bool.eq_false_or_eq_true (l.drv.txq.txRing l.drv.txq.txNextDd).dd with hdd | hdd
  · rw [if_pos hdd] at heq
    have hg : givenBack (freeSlots hp l.drv.txq.ddSlots ++ l.drv.txq.cleanedU16) =
        freeSlots hp l.drv.txq.ddSlots := by
      rw [givenBack_append, givenBack_cleanedU16, List.append_nil,
        givenBack_of_free fun _ he => freeSlots_isFree he]
    have htr : (ixgbeTxFreeBufs hp l.drv).2.trace =
        l.drv.trace ++ (freeSlots hp l.drv.txq.ddSlots ++ l.drv.txq.cleanedU16) := by rw [heq]
    have hkinds : ∀ k, k ≠ .done →
        frees k (ixgbeTxFreeBufs hp l.drv).2.trace = frees k l.drv.trace := by
      intro k hk
      rw [htr, frees_append, ← frees_givenBack k (_ ++ _), hg, freeSlots_frees_ne hp hk,
        List.append_nil]
    refine ⟨?_, ?_, ?_, hsplit, ?_⟩
    · rcases hok with h0 | ⟨ho, hf⟩
      · rw [hdd] at h0
        cases h0
      · refine ⟨d + 32, c, ?_⟩
        change Aligned (ixgbeTxFreeBufs hp l.drv).2 l.admitted _ _
        rw [heq]
        exact ha.cleaned ho hf hdd cleanup_unmarked hg
    · exact (hkinds _ (by decide)).trans hdrop
    · exact (hkinds _ (by decide)).trans hrel
    · change Ixgbe.returned (ixgbeTxFreeBufs hp l.drv).2.trace = l.due ++ hp.due (gained _ _)
      rw [gained_of_append htr, htr, returned_append, hret, ← returned_givenBack (_ ++ _), hg,
        ← due_givenBack hp (_ ++ _), hg, freeSlots_returned]
  · rw [hdd, if_neg Bool.false_ne_true] at heq
    have hst : l.step (.freeBufs hp) = l := by
      change ({ l with drv := _, due := l.due ++ hp.due (gained _ _) } : Ledger) = l
      have hg : gained l.drv l.drv = [] := gained_of_append (List.append_nil _).symm
      rw [heq, hg]
      change ({ l with due := l.due ++ [] } : Ledger) = l
      rw [List.append_nil]
    rw [hst]
    exact ⟨⟨d, c, ha⟩, hdrop, hrel, hsplit, hret⟩

theorem OwnInv.nic (h : OwnInv l) : OwnInv (l.step .nic) := by
  obtain ⟨⟨d, c, ha⟩, hdrop, hrel, hsplit, hret⟩ := h
  by_cases hht : l.drv.tdh = l.drv.tdt
  · have hst : l.step .nic = l := by
      change ({ l with drv := nicComplete l.drv } : Ledger) = l
      unfold nicComplete
      rw [if_pos hht]
    rw [hst]
    exact ⟨⟨d, c, ha⟩, hdrop, hrel, hsplit, hret⟩
  · have htr := nicComplete_trace hht
    have hg : givenBack [.complete l.drv.tdh] = [] := rfl
    have hkinds : ∀ k, frees k (nicComplete l.drv).trace = frees k l.drv.trace := by
      intro k
      rw [htr, frees_append, ← frees_givenBack k [_], hg]
      exact List.append_nil _
    obtain ⟨c', hn⟩ := ha.nic
    refine ⟨⟨d, c', hn⟩, (hkinds _).trans hdrop, (hkinds _).trans hrel, hsplit, ?_⟩
    change Ixgbe.returned (nicComplete l.drv).trace = l.due
    rw [htr, returned_append, hret]
    exact List.append_nil _

theorem step_ownInv (l : Ledger) (op : Op) (h : OwnInv l) (hok : OwnSafe l.drv op) :
    OwnInv (l.step op) := by
  cases op with
  | burst b => exact h.burst hok
  | freeBufs hp => exact h.freeBufs hok
  | nic => exact h.nic

end

/-! ## The release -/

/-- What the release of the queue must find: it returns at once when `nb_tx_free` has its
value from the reset, so that nothing may be outstanding then. -/
def ReleaseSafe (s : Driver) : Prop :=
  s.txq.nbTxFree = s.txq.nbTxDesc - 1 → s.txq.outstanding = 0

/-- **The release gives up what is live**, and with it every consumed mbuf has been. -/
theorem OwnInv.release {l : Ledger} (hl : OwnInv l) (hr : ReleaseSafe l.drv) (h : Heap) :
    ∃ s, ixgbeTxQueueReleaseMbufsVec h l.drv = some s ∧ Released l h s := by
  obtain ⟨d, c, ha⟩ := hl.aligned
  have hlo := ha.hand.conf.lo
  have hhi := ha.hand.conf.hi
  have hfifo := hl.fifo
  have honce := hl.owned.once
  have hmax : u16 ((l.drv.txq.nbTxDesc : Int) - 1) = l.drv.txq.nbTxDesc - 1 :=
    u16_sub (b := 1) (by omega) (by omega)
  unfold ixgbeTxQueueReleaseMbufsVec
  rw [hmax]
  dsimp only
  split
  · rename_i hfree
    have hlive : l.drv.txq.live = [] := by
      rw [IxgbeTxQueue.live, hr hfree]
      rfl
    rw [hlive] at hfifo honce
    refine ⟨l.drv, rfl, hl.drops, ?_, ?_, ?_⟩
    · rw [hl.unreleased]
      exact hfifo
    · rw [hl.unreleased]
      exact honce
    · rw [gained_of_append (List.append_nil _).symm, hl.returned]
      exact (List.append_nil _).symm
  · have hfd : l.drv.txq.firstDd < l.drv.txq.nbTxDesc := firstDd_lt ha.hand.nextDd_lt
    have hO : l.drv.txq.outstanding < l.drv.txq.nbTxDesc := gap_lt (by omega) _ _
    have htail : l.drv.txq.txTail =
        slot l.drv.txq.nbTxDesc l.drv.txq.firstDd l.drv.txq.outstanding :=
      (slot_gap hfd ha.hand.tail_lt).symm
    have hlive : l.drv.txq.live = (l.admitted.drop d).map some := ha.live_eq
    have hloop := releaseLoop_eq h l.drv.txq hfd hO (Nat.le_of_lt hO) htail
    rw [mbufsAt_eq_some.mpr hlive] at hloop
    rw [hlive] at hfifo honce
    rw [releaseStart_eq ha.hand.conf ha.hand.nextDd_lt ha.hand.nextDd_mod, hloop]
    change ∃ s, some _ = some s ∧ _
    refine ⟨_, rfl, ?_, ?_, ?_, ?_⟩ <;> dsimp only
    · rw [frees_append, releaseEvents_frees_ne h (by decide), List.append_nil]
      exact hl.drops
    · rw [frees_append, frees_append, releaseEvents_frees_ne h (by decide), List.append_nil,
        releaseEvents_frees, hl.unreleased, List.nil_append]
      exact hfifo
    · simp only [frees_append, releaseEvents_frees_ne h (k := .drop) (by decide),
        releaseEvents_frees_ne h (k := .done) (by decide), releaseEvents_frees, hl.unreleased,
        List.append_nil, List.nil_append]
      exact honce
    · have hg : gained l.drv { l.drv with
          txq := { l.drv.txq with
            nbTxFree := l.drv.txq.nbTxDesc - 1
            swRingV := fun i => if i < l.drv.txq.nbTxDesc then none else l.drv.txq.swRingV i }
          trace := l.drv.trace ++ releaseEvents h (l.admitted.drop d) } = _ :=
        gained_of_append rfl
      rw [hg, returned_append, hl.returned, releaseEvents_returned]

/-! ## Runs -/

theorem opened_ownInv {q : QueueConf} (hc : (Driver.reset q).txq.Conf) :
    OwnInv (Ledger.opened q) :=
  ⟨⟨0, 0, reset_aligned hc⟩, rfl, rfl, .nil, rfl⟩

/-- **Every mbuf is given back once.** From the set-up of any accepted vector queue, along
every run whose steps meet the condition, the mbufs are where they should be in every state,
and a final release gives back what is left, each mbuf to its own pool. -/
theorem owned_always {nbDesc : Nat} {txConf : TxConf} {simd128 : Bool} {q : QueueConf}
    (h : ixgbeDevTxQueueSetup nbDesc txConf = .ok q) (hv : ixgbeSetTxFunction simd128 q = .vec)
    {ops : List Op} (hm : Meets Ledger.step (fun l => OwnSafe l.drv) (Ledger.opened q) ops) :
    Always Ledger.step Owned (Ledger.opened q) ops ∧
    (ReleaseSafe (run Ledger.step (Ledger.opened q) ops).drv → ∀ hp, ∃ s,
      ixgbeTxQueueReleaseMbufsVec hp (run Ledger.step (Ledger.opened q) ops).drv = some s ∧
      Released (run Ledger.step (Ledger.opened q) ops) hp s) := by
  have h0 := opened_ownInv (reset_conf h hv)
  exact ⟨hm.always step_ownInv (fun _ hs => hs.owned) h0,
    fun hr hp => (hm.invariant step_ownInv h0).release hr hp⟩

/-- A packet sent, one dropped and a completion, then the release. -/
def sentAndDropped : List Op :=
  [.burst (plainBurst 1 fun _ => some 33), .burst (plainBurst 1 fun _ => some 0), .nic]

theorem owned_always_conf64 :
    Always Ledger.step Owned (Ledger.opened conf64) sentAndDropped ∧ ∃ s,
      ixgbeTxQueueReleaseMbufsVec (plainBurst 0 fun _ => none).toHeap
        (run Ledger.step (Ledger.opened conf64) sentAndDropped).drv = some s ∧
      Released (run Ledger.step (Ledger.opened conf64) sentAndDropped)
        (plainBurst 0 fun _ => none).toHeap s := by
  have hm : Meets Ledger.step (fun l => OwnSafe l.drv) (Ledger.opened conf64) sentAndDropped := by
    refine ⟨.inr ⟨1, ?_, ?_, ?_, ?_, .inl ⟨?_, ?_⟩⟩, .inr ⟨0, ?_, ?_, ?_, ?_, .inl ⟨?_, ?_⟩⟩,
      trivial, trivial⟩ <;> decide +kernel
  have ho := @owned_always 64 ⟨0, 0, 0, 0⟩ true conf64 rfl rfl _ hm
  exact ⟨ho.1, ho.2 (by unfold ReleaseSafe; decide +kernel) _⟩

/-- A packet sent and one dropped behind it in one burst: the tail moves over both slots, and
the release gives the dropped mbuf up again. -/
theorem owned_broken :
    ¬∃ s, ixgbeTxQueueReleaseMbufsVec (plainBurst 0 fun _ => none).toHeap
        (run Ledger.step (Ledger.opened conf64)
          [.burst (plainBurst 2 fun i => if i = 0 then some 33 else some 0)]).drv = some s ∧
      Released (run Ledger.step (Ledger.opened conf64)
          [.burst (plainBurst 2 fun i => if i = 0 then some 33 else some 0)])
        (plainBurst 0 fun _ => none).toHeap s := by
  rintro ⟨s, hs, hr⟩
  have hlen := hr.once.length_eq
  have hev : (ixgbeTxQueueReleaseMbufsVec (plainBurst 0 fun _ => none).toHeap
      (run Ledger.step (Ledger.opened conf64)
        [.burst (plainBurst 2 fun i => if i = 0 then some 33 else some 0)]).drv).map
      (fun s => (frees .drop s.trace ++ frees .done s.trace ++ frees .release s.trace).length) =
        some 3 := by decide +kernel
  rw [hs, Option.map_some, Option.some_inj] at hev
  rw [hev] at hlen
  revert hlen
  decide +kernel

end P4Switch.Ixgbe
