import P4Switch.Ixgbe.Frees
import P4Switch.Ixgbe.Ring

/-! # The release loop

The loop stops at the tail and nowhere else, and it does not get past an empty slot. Where it
starts is never in doubt; where the tail goes is up to the count a burst ends with, and which
slots have been filled to the packets the bursts have taken. -/
namespace P4Switch.Ixgbe
open P4Switch.Lib.MachineInt P4Switch.Lib.Circular P4Switch.Lib.GuardedRun

/-- The release of the queue ends: at once, or after at most `nb_tx_desc` steps of the loop,
which starts inside the ring. -/
structure ReleaseEnds (s : Driver) : Prop where
  start_lt : s.txq.releaseStart < s.txq.nbTxDesc
  ends : ∀ h : Heap, (ixgbeTxQueueReleaseMbufsVec h s).isSome

/-- The same of a state that the code reaches. -/
def Releasable (s : Driver) : Prop := ¬s.Faulted → ReleaseEnds s

/-! ## The condition -/

/-- What the release looks at. -/
structure ReleaseView where
  nbTxDesc : Nat
  nbTxFree : Nat
  start : Nat
  txTail : Nat
  filled : Nat → Bool

def IxgbeTxQueue.releaseView (q : IxgbeTxQueue) : ReleaseView where
  nbTxDesc := q.nbTxDesc
  nbTxFree := q.nbTxFree
  start := q.releaseStart
  txTail := q.txTail
  filled := fun i => (q.swRingV i).isSome

namespace ReleaseView

/-- Nothing is to be done, or the tail is in the ring and every slot up to it holds an mbuf. -/
def Returns (v : ReleaseView) : Prop :=
  v.nbTxFree = v.nbTxDesc - 1 ∨
    (v.txTail < v.nbTxDesc ∧
      ∀ i ∈ span v.nbTxDesc v.start (gap v.nbTxDesc v.start v.txTail), v.filled i = true)

instance (v : ReleaseView) : Decidable v.Returns := inferInstanceAs (Decidable (_ ∨ (_ ∧ _)))

/-- A cleanup gives 32 descriptors back. -/
def cleaned (v : ReleaseView) : ReleaseView :=
  { v with nbTxFree := u16 ((v.nbTxFree : Int) + 32), start := slot v.nbTxDesc v.start 32 }

end ReleaseView

/-- What `c` packets from `p` on add to the count: `ret` for each of them, and for each
admitted one itself and the packets behind it. -/
def Burst.counted (b : Burst) (p c : Nat) : Int := c * b.ret + weights (b.decisions p c)

namespace ReleaseView

/-- The count `num` is taken off the free descriptors and is the way of the tail from `txId`
on; the slots in `slots` have been filled. -/
def moved (v : ReleaseView) (txId : Nat) (num : Int) (slots : Nat → Bool) : ReleaseView :=
  { v with
    nbTxFree := u16 (v.nbTxFree - num)
    txTail := u16 (txId + num)
    filled := fun i => v.filled i || slots i }

/-- What a burst of `k` packets makes of it, behind its own cleanup. -/
def sent (v : ReleaseView) (b : Burst) (k : Nat) : ReleaseView :=
  let n := u16 ((v.nbTxDesc : Int) - v.txTail)
  let m := ringEndPkts n
  let a := (b.admitted 0 m).length
  if k = 0 then v
  else if k < n then
    v.moved v.txTail (b.counted 0 k) fun i => v.txTail ≤ i && i < v.txTail + k
  else
    v.moved 0 (a + b.counted m (k - a)) fun i => (v.txTail ≤ i && i < v.txTail + n) || i < k - a

end ReleaseView

/-- What the release will look at after a step. -/
def viewAfter (s : Driver) : Op → ReleaseView
  | .burst b =>
    let v := if s.txq.cleans then s.txq.releaseView.cleaned else s.txq.releaseView
    v.sent b (min v.nbTxFree (min b.nbPkts 32))
  | .freeBufs _ =>
    if (s.txq.txRing s.txq.txNextDd).dd then s.txq.releaseView.cleaned else s.txq.releaseView
  | .nic => s.txq.releaseView

/-- The step crashes or writes past a ring: a cleanup comes upon an empty slot, or a burst
takes packets with the tail outside the ring. With the tail just behind it nothing is stored
there when the first packet is dropped. -/
def Faults (s : Driver) : Op → Prop
  | .burst b =>
    (s.txq.cleans = true ∧ none ∈ s.txq.ddSlots) ∨
      (nbPkts b s ≠ 0 ∧ s.txq.nbTxDesc ≤ s.txq.txTail ∧
        (ringLeft s.txq ≠ 0 ∨ b.admits 0 = true))
  | .freeBufs _ => (s.txq.txRing s.txq.txNextDd).dd = true ∧ none ∈ s.txq.ddSlots
  | .nic => False

/-- The step leaves the release an end, or the code does not get behind the step. -/
def LeavesEnd (s : Driver) (op : Op) : Prop := (viewAfter s op).Returns ∨ Faults s op ∨ s.Faulted

instance (s : Driver) (op : Op) : Decidable (Faults s op) :=
  match op with
  | .burst _ => inferInstanceAs (Decidable ((_ ∧ _) ∨ (_ ∧ _ ∧ _)))
  | .freeBufs _ => inferInstanceAs (Decidable (_ ∧ _))
  | .nic => inferInstanceAs (Decidable False)

instance (s : Driver) (op : Op) : Decidable (LeavesEnd s op) :=
  inferInstanceAs (Decidable (_ ∨ _ ∨ _))

/-! ## The loop -/

section
variable {q : IxgbeTxQueue}

/-- A tail outside the ring is never met. -/
theorem releaseLoop_none (h : Heap) (hq : q.nbTxDesc ≤ q.txTail) (hn : 0 < q.nbTxDesc) (fuel : Nat)
    {i : Nat} (hi : i < q.nbTxDesc) : releaseLoop h q fuel i = none := by
  induction fuel generalizing i with
  | zero =>
    unfold releaseLoop
    rw [if_neg (by omega)]
  | succ fuel ih =>
    unfold releaseLoop
    rw [if_neg (by omega)]
    cases hm : q.swRingV i with
    | none => rfl
    | some m =>
      show (releaseLoop h q fuel ((i + 1) % q.nbTxDesc)).map _ = none
      rw [ih (Nat.mod_lt _ hn)]
      rfl

theorem mbufsAt_isSome (is : List Nat) :
    (q.mbufsAt is).isSome ↔ ∀ i ∈ is, (q.swRingV i).isSome = true := by
  unfold IxgbeTxQueue.mbufsAt
  induction is with
  | nil => simp
  | cons i is ih =>
    rw [List.forall_mem_cons, ← ih]
    cases hi : q.swRingV i <;> cases hm : is.mapM q.swRingV <;> simp [hi, hm]

/-- The loop ends within one turn exactly when it finds the tail and, up to it, mbufs. -/
theorem releaseLoop_isSome (h : Heap) (hs : q.releaseStart < q.nbTxDesc) :
    (releaseLoop h q q.nbTxDesc q.releaseStart).isSome ↔
      q.txTail < q.nbTxDesc ∧
        ∀ i ∈ span q.nbTxDesc q.releaseStart (gap q.nbTxDesc q.releaseStart q.txTail),
          (q.swRingV i).isSome = true := by
  rcases Nat.lt_or_ge q.txTail q.nbTxDesc with ht | ht
  · have hw : gap q.nbTxDesc q.releaseStart q.txTail < q.nbTxDesc := gap_lt (by omega) _ _
    rw [releaseLoop_eq h q hs hw (Nat.le_of_lt hw) (slot_gap hs ht).symm, Option.isSome_map,
      mbufsAt_isSome]
    exact (and_iff_right ht).symm
  · rw [releaseLoop_none h ht (by omega) _ hs]
    exact iff_of_false Bool.false_ne_true fun hc => absurd hc.1 (by omega)

end

/-- The fields the release looks at, but for the tail. -/
structure Walkable (s : Driver) : Prop where
  conf : s.txq.Conf
  nextDd_lt : s.txq.txNextDd < s.txq.nbTxDesc
  nextDd_mod : s.txq.txNextDd % s.txq.txRsThresh = s.txq.txRsThresh - 1

section
variable {s : Driver} {b : Burst}

/-- The loop starts at the first descriptor of a block of 32. -/
theorem Walkable.start_eq (h : Walkable s) : s.txq.releaseStart = s.txq.txNextDd - 31 := by
  rw [releaseStart_eq h.conf h.nextDd_lt h.nextDd_mod, IxgbeTxQueue.firstDd, h.conf.rs_eq]

theorem Walkable.start_lt (h : Walkable s) : s.txq.releaseStart < s.txq.nbTxDesc := by
  have hlt := h.nextDd_lt
  rw [h.start_eq]
  omega

theorem Walkable.releaseEnds_iff (h : Walkable s) :
    ReleaseEnds s ↔ s.txq.releaseView.Returns := by
  have hhi := h.conf.hi
  have hlo := h.conf.lo
  have hmax : u16 ((s.txq.nbTxDesc : Int) - 1) = s.txq.nbTxDesc - 1 :=
    u16_sub (b := 1) (by omega) (by omega)
  have hends : ∀ hp : Heap,
      (ixgbeTxQueueReleaseMbufsVec hp s).isSome ↔ s.txq.releaseView.Returns := by
    intro hp
    unfold ixgbeTxQueueReleaseMbufsVec
    rw [hmax]
    dsimp only
    split
    · rename_i hf
      exact iff_of_true rfl (.inl hf)
    · rename_i hf
      rw [Option.isSome_map, releaseLoop_isSome hp h.start_lt]
      exact (or_iff_right hf).symm
  constructor
  · intro hr
    exact (hends ⟨fun _ => ⟨0, 0, 0, 0, 0, [], fun _ => 0⟩, fun _ => true⟩).mp (hr.ends _)
  · exact fun hr => ⟨h.start_lt, fun hp => (hends hp).mpr hr⟩

theorem cleaned_walkable (h : Walkable s) :
    s.txq.cleaned.txNextDd < s.txq.nbTxDesc ∧
      s.txq.cleaned.txNextDd % s.txq.txRsThresh = s.txq.txRsThresh - 1 := by
  rw [cleaned_nextDd h.conf h.nextDd_lt h.nextDd_mod]
  obtain ⟨⟨hrs, -, hlo, -, -, -⟩, hlt, hmod⟩ := h
  rw [hrs] at hmod ⊢
  split <;> omega

theorem prepare_walkable (b : Burst) (h : Walkable s) : Walkable (prepare b s) := by
  obtain ⟨-, -, hnb, -, -, hrs, -⟩ := prepare_frame b s
  obtain ⟨hlt, hmod⟩ := cleaned_walkable h
  refine ⟨?_, ?_, ?_⟩
  · rw [prepare_txq]
    split <;> exact h.conf
  · rw [hnb, prepare_txq]
    split
    · exact hlt
    · exact h.nextDd_lt
  · rw [hrs, prepare_txq]
    split
    · exact hmod
    · exact h.nextDd_mod

/-- After the cleanup a burst leaves `tx_next_dd`, the ring size and the thresholds alone. -/
theorem burst_walkable (b : Burst) (h : Walkable s) : Walkable (ixgbeXmitFixedBurstVec b s).2 := by
  have hp := prepare_walkable b h
  by_cases hk : nbPkts b s = 0
  · rwa [burst_zero hk]
  · have hcur : Walkable (cursor b s).drv := by
      rcases Nat.lt_or_ge (nbPkts b s) (ringLeft (prepare b s).txq) with hlt | hge
      · rwa [cursor_short hlt]
      · rw [cursor_long hge]
        refine ⟨?_, ?_, ?_⟩ <;> rw [xmitRingEnd_txq]
        · exact hp.conf
        · exact hp.nextDd_lt
        · exact hp.nextDd_mod
    rw [burst_pos hk, xmitRest_eq]
    exact ⟨hcur.conf, hcur.nextDd_lt, hcur.nextDd_mod⟩

theorem step_walkable (op : Op) (h : Walkable s) : Walkable (step s op) := by
  cases op with
  | burst b => exact burst_walkable b h
  | freeBufs hp =>
    show Walkable (ixgbeTxFreeBufs hp s).2
    rw [ixgbeTxFreeBufs_eq]
    split
    · exact ⟨h.conf, (cleaned_walkable h).1, (cleaned_walkable h).2⟩
    · exact h
  | nic =>
    show Walkable (nicComplete s)
    unfold nicComplete
    split
    · exact h
    · exact ⟨h.conf, h.nextDd_lt, h.nextDd_mod⟩

/-! ## What a step leaves the release -/

theorem Walkable.cleaned_view (h : Walkable s) :
    s.txq.cleaned.releaseView = s.txq.releaseView.cleaned := by
  have hc : Walkable { s with txq := s.txq.cleaned } :=
    ⟨h.conf, (cleaned_walkable h).1, (cleaned_walkable h).2⟩
  have hstart : s.txq.cleaned.releaseStart = slot s.txq.nbTxDesc s.txq.releaseStart 32 := by
    rw [hc.start_eq, h.start_eq]
    dsimp only
    rw [cleaned_nextDd h.conf h.nextDd_lt h.nextDd_mod]
    obtain ⟨⟨hrs, hdvd, hlo, -, -, -⟩, hlt, hmod⟩ := h
    rw [hrs] at hmod
    split
    · rw [slot_of_lt (by omega)]
      omega
    · rw [slot_of_ge (by omega) (by omega)]
      omega
  have hfree : s.txq.cleaned.nbTxFree = u16 ((s.txq.nbTxFree : Int) + 32) := by
    simp only [IxgbeTxQueue.cleaned, h.conf.rs_eq]
    rfl
  simp only [IxgbeTxQueue.releaseView, ReleaseView.cleaned, hstart, hfree]
  rfl

theorem Walkable.prepare_view (h : Walkable s) (b : Burst) :
    (prepare b s).txq.releaseView =
      if s.txq.cleans then s.txq.releaseView.cleaned else s.txq.releaseView := by
  rw [prepare_txq]
  split
  · exact h.cleaned_view
  · rfl

theorem restNum_counted (b : Burst) (c : Cursor) :
    (restNum b c : Int) ≡ c.num + b.counted c.pkt c.nbCommit [ZMOD 2 ^ 16] := by
  have hr := modEq_of_le (v := 16) (by decide)
    (reported_modEq b.ret (b.decisions c.pkt c.nbCommit))
  rw [Burst.decisions_length] at hr
  exact (restNum_modEq b c).trans (hr.add_left _)

theorem backlog_isSome (b : Burst) (txep p c : Nat) (ring : Nat → Option MbufPtr) :
    (fun i => (b.backlog txep p c ring i).isSome) =
      fun i => (ring i).isSome || (txep ≤ i && i < txep + c) := by
  funext i
  unfold Burst.backlog
  split <;> rename_i hi <;> simp [hi]

/-- Up to the end of the ring only slots are filled. -/
theorem xmitRingEnd_view (b : Burst) (n k : Nat) (s : Driver) :
    (xmitRingEnd b n k s).drv.txq.releaseView =
      { s.txq.releaseView with
        filled := fun i => (s.txq.swRingV i).isSome ||
          (s.txq.txTail ≤ i && i < s.txq.txTail + n) } := by
  rw [xmitRingEnd_txq]
  simp only [IxgbeTxQueue.releaseView, backlog_isSome]
  rfl

/-- What the second half of a burst makes of it. -/
theorem xmitRest_view (b : Burst) (k : Nat) (c : Cursor) :
    (xmitRest b k c).2.txq.releaseView =
      c.drv.txq.releaseView.moved c.txId (c.num + b.counted c.pkt c.nbCommit)
        fun i => c.txId ≤ i && i < c.txId + c.nbCommit := by
  have hfree : u16 ((c.drv.txq.nbTxFree : Int) - restNum b c) =
      u16 (c.drv.txq.nbTxFree - (c.num + b.counted c.pkt c.nbCommit)) := by
    rw [unsigned_eq_iff]
    exact (restNum_counted b c).sub_left _
  have htail : restTail b c = u16 (c.txId + (c.num + b.counted c.pkt c.nbCommit)) := by
    rw [restTail, unsigned_eq_iff]
    exact (restNum_counted b c).add_left _
  rw [xmitRest_eq]
  simp only [IxgbeTxQueue.releaseView, ReleaseView.moved, hfree, htail, backlog_isSome]
  rfl

theorem Walkable.nbPkts_eq (h : Walkable s) (b : Burst) :
    nbPkts b s = min (prepare b s).txq.nbTxFree (min b.nbPkts 32) := by
  rw [nbPkts, h.conf.rs_eq]

/-- What a burst makes of it. -/
theorem Walkable.burst_view (h : Walkable s) (b : Burst) :
    (ixgbeXmitFixedBurstVec b s).2.txq.releaseView =
      (prepare b s).txq.releaseView.sent b (nbPkts b s) := by
  have hk32 : nbPkts b s ≤ 32 := by
    have hk := h.nbPkts_eq b
    omega
  unfold ReleaseView.sent
  change _ = if nbPkts b s = 0 then _ else if nbPkts b s < ringLeft (prepare b s).txq then _ else
    ReleaseView.moved _ 0
      ((b.admitted 0 (ringEndPkts (ringLeft (prepare b s).txq))).length +
        b.counted (ringEndPkts (ringLeft (prepare b s).txq))
          (nbPkts b s - (b.admitted 0 (ringEndPkts (ringLeft (prepare b s).txq))).length))
      fun i => ((prepare b s).txq.txTail ≤ i &&
        i < (prepare b s).txq.txTail + ringLeft (prepare b s).txq) ||
        i < nbPkts b s - (b.admitted 0 (ringEndPkts (ringLeft (prepare b s).txq))).length
  by_cases hk : nbPkts b s = 0
  · rw [burst_zero hk, if_pos hk]
  rw [if_neg hk, burst_pos hk, xmitRest_view]
  rcases Nat.lt_or_ge (nbPkts b s) (ringLeft (prepare b s).txq) with hlt | hge
  · rw [if_pos hlt, cursor_short hlt]
    simp only [Nat.cast_zero, zero_add]
    rfl
  · have hn := ringLeft_lt (prepare b s).txq
    have hrest := cursor_long_nbCommit (b := b) hk (by omega) hge
    rw [cursor_long hge] at hrest
    rw [if_neg (Nat.not_lt_of_le hge), cursor_long hge, xmitRingEnd_num _ _ _ _ hn,
      hrest, xmitRingEnd_view]
    have ht : (xmitRingEnd b (ringLeft (prepare b s).txq) (nbPkts b s) (prepare b s)).txId = 0 := rfl
    have hp : (xmitRingEnd b (ringLeft (prepare b s).txq) (nbPkts b s) (prepare b s)).pkt =
        ringEndPkts (ringLeft (prepare b s).txq) := rfl
    rw [ht, hp]
    simp only [ReleaseView.moved, Nat.zero_le, decide_true, Bool.true_and, Nat.zero_add,
      ← Bool.or_assoc]
    rfl

theorem Walkable.view_step (h : Walkable s) (op : Op) :
    (step s op).txq.releaseView = viewAfter s op := by
  cases op with
  | burst b =>
    show (ixgbeXmitFixedBurstVec b s).2.txq.releaseView = _
    rw [h.burst_view, h.nbPkts_eq]
    change (prepare b s).txq.releaseView.sent b
      (min (prepare b s).txq.releaseView.nbTxFree (min b.nbPkts 32)) = _
    rw [h.prepare_view]
    rfl
  | freeBufs hp =>
    show (ixgbeTxFreeBufs hp s).2.txq.releaseView = _
    rw [ixgbeTxFreeBufs_eq, viewAfter]
    split
    · exact h.cleaned_view
    · rfl
  | nic =>
    show (nicComplete s).txq.releaseView = _
    unfold nicComplete
    split <;> rfl

theorem burst_nbTxDesc (b : Burst) (s : Driver) :
    (ixgbeXmitFixedBurstVec b s).2.txq.nbTxDesc = s.txq.nbTxDesc := by
  obtain ⟨-, -, hnb, -, -, -, -⟩ := prepare_frame b s
  by_cases hk : nbPkts b s = 0
  · rw [burst_zero hk, hnb]
  · rw [burst_pos hk, xmitRest_eq]
    show (cursor b s).drv.txq.nbTxDesc = _
    rcases Nat.lt_or_ge (nbPkts b s) (ringLeft (prepare b s).txq) with hlt | hge
    · rw [cursor_short hlt, hnb]
    · rw [cursor_long hge, xmitRingEnd_txq, hnb]

/-! ## Faults -/

/-- Among the events that give mbufs back the faults are the `NULL`s given up. -/
theorem isFree_faults {nb : Nat} {es : List Event} (h : ∀ e ∈ es, e.isFree = true) :
    es.any (Event.isFault nb) = true ↔ ∃ k, none ∈ frees k es := by
  rw [List.any_eq_true]
  constructor
  · rintro ⟨e, he, hf⟩
    have hfree := h e he
    cases e with
    | free k m last =>
      cases m with
      | none => exact ⟨k, List.mem_filterMap.mpr ⟨_, he, if_pos rfl⟩⟩
      | some m => cases hf
    | put p ms => cases hf
    | _ => cases hfree
  · rintro ⟨k, hk⟩
    obtain ⟨e, he, hk⟩ := List.mem_filterMap.mp hk
    refine ⟨e, he, ?_⟩
    cases e with
    | free k' m last =>
      rw [Event.freed] at hk
      split at hk
      · rw [Option.some.inj hk]
        rfl
      · cases hk
    | _ => cases hk

theorem freeSlots_faults (h : Heap) (nb : Nat) (slots : List (Option MbufPtr)) :
    (freeSlots h slots).any (Event.isFault nb) = decide (none ∈ slots) := by
  rw [Bool.eq_iff_iff, isFree_faults fun _ he => freeSlots_isFree he, decide_eq_true_eq]
  constructor
  · rintro ⟨k, hk⟩
    by_cases hd : k = .done
    · rwa [hd, freeSlots_frees] at hk
    · rw [freeSlots_frees_ne h hd] at hk
      cases hk
  · intro hn
    refine ⟨.done, ?_⟩
    rwa [freeSlots_frees]

theorem cleanedU16_faults (q : IxgbeTxQueue) (nb : Nat) :
    q.cleanedU16.any (Event.isFault nb) = false := by
  unfold IxgbeTxQueue.cleanedU16
  split <;> rfl

theorem restStores_faults (b : Burst) (c : Cursor) (nb : Nat) :
    (restStores b c).any (Event.isFault nb) = false := by
  unfold restStores
  split <;> rfl

theorem freeSeg_faults (h : Heap) (k : FreeKind) (m : MbufPtr) (nb : Nat) :
    (rtePktmbufFreeSeg h k m).any (Event.isFault nb) = false := by
  unfold rtePktmbufFreeSeg
  split <;> rfl

theorem vtx1_faults (b : Burst) (f txdp p nb : Nat) :
    (vtx1Events b f txdp p).any (Event.isFault nb) = (b.admits p && nb ≤ txdp) := by
  unfold vtx1Events
  rw [List.any_append]
  cases b.admits p
  · rw [if_neg Bool.false_ne_true, rtePktmbufFree, List.any_append, freeSeg_faults]
    simp [List.any_flatMap, freeSeg_faults, Event.isFault]
  · simp [Event.isFault]

/-- With the descriptors inside the ring nothing is stored past it. -/
theorem vtx1s_faults {b : Burst} {f c txdp p nb : Nat} (h : txdp + c ≤ nb) :
    (vtx1sEvents b f c txdp p).any (Event.isFault nb) = false := by
  induction c generalizing txdp p with
  | zero => rfl
  | succ c ih =>
    rw [vtx1sEvents, List.any_append, vtx1_faults, ih (by omega)]
    simp only [Bool.or_false, Bool.and_eq_false_imp, decide_eq_false_iff_not]
    omega

theorem backlog_faults {b : Burst} {txep p c nb : Nat} :
    (backlogEvents b txep p c).any (Event.isFault nb) = decide (c ≠ 0 ∧ nb < txep + c) := by
  induction c generalizing txep p with
  | zero => rfl
  | succ c ih =>
    rw [backlogEvents, List.any_append, ih, Bool.eq_iff_iff]
    simp only [List.any_cons, List.any_nil, Event.isFault, Bool.false_or, Bool.or_false,
      Bool.or_eq_true, decide_eq_true_eq]
    omega

theorem prepare_faults (b : Burst) (s : Driver) (nb : Nat) :
    (prepare b s).trace.any (Event.isFault nb) =
      (s.trace.any (Event.isFault nb) || (s.txq.cleans && decide (none ∈ s.txq.ddSlots))) := by
  rw [prepare_eq]
  cases s.txq.cleans
  · rw [if_neg Bool.false_ne_true, Driver.emit, List.any_append]
    rfl
  · rw [if_pos rfl]
    dsimp only
    rw [List.any_append, List.any_cons, List.any_append, freeSlots_faults, cleanedU16_faults]
    simp [Event.isFault]

/-- The second half of a burst adds the faults of its entries and its descriptors. -/
theorem xmitRest_faults (b : Burst) (k : Nat) (c : Cursor) (nb : Nat) :
    (xmitRest b k c).2.trace.any (Event.isFault nb) =
      (c.drv.trace.any (Event.isFault nb) ||
        ((backlogEvents b c.txId c.pkt c.nbCommit).any (Event.isFault nb) ||
          (vtx1sEvents b flags c.nbCommit c.txId c.pkt).any (Event.isFault nb))) := by
  rw [xmitRest_eq]
  dsimp only
  rw [List.any_append, List.any_append, List.any_append, List.any_append, restStores_faults]
  simp [Event.isFault]

/-- The part up to the end of the ring: with `n = 0` only the last packet can be stored. -/
theorem ringEnd_faults (b : Burst) (n tail r nb : Nat) :
    (ringEndEvents b n tail r).any (Event.isFault nb) =
      (decide (n ≠ 0 ∧ nb < tail + n) ||
        ((vtx1sEvents b flags (n - 1) tail 0).any (Event.isFault nb) ||
          (b.admits (n - 1) && nb ≤ tail + (n - 1)))) := by
  unfold ringEndEvents
  simp only [List.any_append, backlog_faults, vtx1sEvents, vtx1_faults]
  simp [Event.isFault]

/-- With packets taken, a burst writes past a ring exactly when the tail is outside it, but for
a first packet dropped at the place just behind. -/
theorem Walkable.stores_faults (h : Walkable s) (hk : nbPkts b s ≠ 0) :
    (xmitRest b (nbPkts b s) (cursor b s)).2.trace.any (Event.isFault s.txq.nbTxDesc) =
      ((prepare b s).trace.any (Event.isFault s.txq.nbTxDesc) ||
        decide (s.txq.nbTxDesc ≤ s.txq.txTail ∧ (ringLeft s.txq ≠ 0 ∨ b.admits 0 = true))) := by
  obtain ⟨-, -, hnb, ht, -, hrs, -⟩ := prepare_frame b s
  have hlo := h.conf.lo
  have hhi := h.conf.hi
  have hk32 := nbPkts_le_thresh b s
  rw [h.conf.rs_eq] at hk32
  have hleft : ringLeft (prepare b s).txq = ringLeft s.txq := by rw [ringLeft, hnb, ht, ringLeft]
  have hin : s.txq.txTail < s.txq.nbTxDesc → ringLeft s.txq = s.txq.nbTxDesc - s.txq.txTail :=
    fun hlt => ringLeft_eq hlt (by omega)
  rw [xmitRest_faults, backlog_faults]
  rcases Nat.lt_or_ge (nbPkts b s) (ringLeft (prepare b s).txq) with hlt | hge
  · rw [cursor_short hlt]
    dsimp only
    rw [hleft] at hlt
    rw [ht]
    congr 1
    rcases Nat.lt_or_ge s.txq.txTail s.txq.nbTxDesc with hq | hq
    · have hn := hin hq
      rw [vtx1s_faults (by omega), Bool.or_false]
      exact decide_eq_decide.mpr (by omega)
    · have hs : nbPkts b s ≠ 0 ∧ s.txq.nbTxDesc < s.txq.txTail + nbPkts b s := by omega
      have hf : s.txq.nbTxDesc ≤ s.txq.txTail ∧ (ringLeft s.txq ≠ 0 ∨ b.admits 0 = true) :=
        ⟨hq, .inl (by omega)⟩
      rw [decide_eq_true hs, decide_eq_true hf, Bool.true_or]
  · have hcommit := cursor_long_nbCommit (b := b) hk (by omega) hge
    have htx : (cursor b s).txId = 0 := by rw [cursor_long hge]; rfl
    have hnone : ¬((cursor b s).nbCommit ≠ 0 ∧
        s.txq.nbTxDesc < (cursor b s).txId + (cursor b s).nbCommit) := by omega
    rw [decide_eq_false hnone, vtx1s_faults (by omega), Bool.or_false, Bool.or_false,
      cursor_long hge, xmitRingEnd_trace, List.any_append, ringEnd_faults, ht, hleft]
    congr 1
    rcases Nat.lt_or_ge s.txq.txTail s.txq.nbTxDesc with hq | hq
    · have hn := hin hq
      have h1 : ¬(ringLeft s.txq ≠ 0 ∧ s.txq.nbTxDesc < s.txq.txTail + ringLeft s.txq) := by omega
      have h2 : ¬s.txq.nbTxDesc ≤ s.txq.txTail + (ringLeft s.txq - 1) := by omega
      have h3 : ¬(s.txq.nbTxDesc ≤ s.txq.txTail ∧
          (ringLeft s.txq ≠ 0 ∨ b.admits 0 = true)) := by omega
      rw [decide_eq_false h1, decide_eq_false h2, decide_eq_false h3, vtx1s_faults (by omega),
        Bool.and_false]
      rfl
    · rcases Nat.eq_zero_or_pos (ringLeft s.txq) with hn | hn
      · rw [hn]
        simp [hq, vtx1sEvents]
      · have h1 : ringLeft s.txq ≠ 0 ∧ s.txq.nbTxDesc < s.txq.txTail + ringLeft s.txq := by omega
        have h2 : s.txq.nbTxDesc ≤ s.txq.txTail ∧
            (ringLeft s.txq ≠ 0 ∨ b.admits 0 = true) := ⟨hq, .inl h1.1⟩
        rw [decide_eq_true h1, decide_eq_true h2, Bool.true_or]

/-- Where a step faults. -/
theorem Walkable.faulted_step (h : Walkable s) (op : Op) :
    (step s op).Faulted ↔ s.Faulted ∨ Faults s op := by
  cases op with
  | burst b =>
    show (ixgbeXmitFixedBurstVec b s).2.Faulted ↔ _
    unfold Driver.Faulted
    rw [burst_nbTxDesc]
    have hp := prepare_faults b s s.txq.nbTxDesc
    by_cases hk : nbPkts b s = 0
    · rw [burst_zero hk, hp]
      simp [Faults, hk]
    · rw [burst_pos hk, h.stores_faults hk, hp]
      simp [Faults, hk, or_assoc]
  | freeBufs hp =>
    show (ixgbeTxFreeBufs hp s).2.Faulted ↔ _
    rw [ixgbeTxFreeBufs_eq]
    unfold Driver.Faulted Faults
    split
    · rename_i hdd
      change (s.trace ++ _).any (Event.isFault s.txq.nbTxDesc) = true ↔ _
      rw [List.any_append, List.any_append, freeSlots_faults, cleanedU16_faults]
      simp [hdd]
    · rename_i hdd
      simp [hdd]
  | nic =>
    show (nicComplete s).Faulted ↔ _
    unfold nicComplete Faults
    split
    · exact (or_iff_left not_false).symm
    · change (s.trace ++ [Event.complete s.tdh]).any (Event.isFault s.txq.nbTxDesc) = true ↔ _
      rw [List.any_append]
      simp [Event.isFault, Driver.Faulted]

/-! ## Runs -/

/-- The invariant. -/
structure Stoppable (s : Driver) : Prop where
  walkable : Walkable s
  releasable : Releasable s

/-- What a step leaves is releasable exactly when the condition was met. -/
theorem Walkable.releasable_step (h : Walkable s) (op : Op) :
    Releasable (step s op) ↔ LeavesEnd s op := by
  rw [Releasable, h.faulted_step, (step_walkable op h).releaseEnds_iff, h.view_step, LeavesEnd]
  tauto

/-- A run none of whose steps faults. -/
theorem Walkable.not_faulted (h : Walkable s) (hf : ¬s.Faulted) {ops : List Op}
    (hm : Meets step (fun s op => ¬Faults s op) s ops) : ¬(run step s ops).Faulted := by
  have hstep : ∀ s op, Walkable s ∧ ¬s.Faulted → ¬Faults s op →
      Walkable (step s op) ∧ ¬(step s op).Faulted := by
    intro s op hs hop
    exact ⟨step_walkable op hs.1, fun hc => ((hs.1.faulted_step op).mp hc).elim hs.2 hop⟩
  exact (hm.invariant hstep ⟨h, hf⟩).2

theorem step_stoppable (s : Driver) (op : Op) (h : Stoppable s) (hok : LeavesEnd s op) :
    Stoppable (step s op) :=
  ⟨step_walkable op h.walkable, (h.walkable.releasable_step op).mpr hok⟩

end

theorem reset_walkable {q : QueueConf} (hc : (Driver.reset q).txq.Conf) :
    Walkable (Driver.reset q) := by
  have hr := (reset_inv hc).ring
  exact ⟨hc, hr.nextDd_lt, hr.nextDd_mod⟩

theorem reset_stoppable {q : QueueConf} (hc : (Driver.reset q).txq.Conf) :
    Stoppable (Driver.reset q) :=
  ⟨reset_walkable hc, fun _ => (reset_walkable hc).releaseEnds_iff.mpr (.inl (reset_fields hc).2.1)⟩

/-- **The release ends** in every state that the code reaches in a run exactly when every step
of the run leaves it an end. -/
theorem releaseEnds_always_iff {nbDesc : Nat} {txConf : TxConf} {simd128 : Bool} {q : QueueConf}
    (h : ixgbeDevTxQueueSetup nbDesc txConf = .ok q) (hv : ixgbeSetTxFunction simd128 q = .vec)
    (ops : List Op) :
    Always step Releasable (Driver.reset q) ops ↔ Meets step LeavesEnd (Driver.reset q) ops :=
  always_iff_meets step_stoppable (fun _ hs => hs.releasable)
    (fun _ op hs => (hs.walkable.releasable_step op).mp) (reset_stoppable (reset_conf h hv)) ops

/-- A block of 32 descriptors sent and completed, a burst that is dropped, and another block
begun behind the cleanup of the first. -/
def twoBlocks : List Op :=
  [.burst { plainBurst 31 fun _ => some 33 with ret := -15 }, .burst (plainBurst 1 fun _ => some 33)]
    ++ List.replicate 32 .nic ++
    [.burst (plainBurst 3 fun _ => some 0), .burst (plainBurst 2 fun i => some (33 - 33 * i))]

theorem releaseEnds_always_iff_conf64 :
    ixgbeDevTxQueueSetup 64 ⟨0, 0, 0, 0⟩ = .ok conf64 ∧ ixgbeSetTxFunction true conf64 = .vec ∧
      Always step Releasable (Driver.reset conf64) twoBlocks := by
  refine ⟨rfl, rfl, ?_⟩
  exact (@releaseEnds_always_iff 64 ⟨0, 0, 0, 0⟩ true conf64 rfl rfl _).mpr (by decide +kernel)

/-- Sixty-four bursts of one admitted packet, with the completions of the first half behind
them: the last of them reaches the end of the ring and leaves the tail at 1. -/
def lap : List Op :=
  List.replicate 32 (.burst (plainBurst 1 fun _ => some 33)) ++ List.replicate 32 .nic ++
    List.replicate 32 (.burst (plainBurst 1 fun _ => some 33))

/-- Eleven admitted packets behind a lap put the tail at 67 in a ring of 64. -/
theorem releaseEnds_broken :
    ¬∀ ops, Always step Releasable (Driver.reset conf64) ops := by
  intro h
  have hr := h (lap ++ [.burst (plainBurst 11 fun _ => some 33)]) _ (List.prefix_refl _)
  have hm : Meets step (fun s op => ¬Faults s op) (Driver.reset conf64)
      (lap ++ [.burst (plainBurst 11 fun _ => some 33)]) := by decide +kernel
  have hreached := (reset_walkable conf64_conf).not_faulted (by decide +kernel) hm
  have hends := (hr hreached).ends (plainBurst 11 fun _ => some 33).toHeap
  revert hends
  decide +kernel

/-- No slot is empty there: it is the tail alone that the loop misses. -/
example : ∀ i < 64, ((run step (Driver.reset conf64)
    (lap ++ [.burst (plainBurst 11 fun _ => some 33)])).txq.swRingV i).isSome = true := by
  decide +kernel

end P4Switch.Ixgbe
