import P4Switch.Ixgbe.BurstSpec
import P4Switch.Lib.GuardedRun

/-! # Open files

Every `fopen` on the transmit path has its `fclose`, but for the log of a call that takes no
packet: it returns between the two. -/
namespace P4Switch.Ixgbe
open P4Switch.Lib.MachineInt P4Switch.Lib.GuardedRun

/-- How many more files the events open than they close. -/
def openHandles (es : List Event) : Int := es.count .fopen - es.count .fclose

/-- `nb_tx_free` when the call clips its burst. -/
def IxgbeTxQueue.freeAfterCleanup (q : IxgbeTxQueue) : Nat :=
  if q.cleans then u16 ((q.nbTxFree : Int) + q.txRsThresh) else q.nbTxFree

/-- The call takes a packet: there is one, and a descriptor is free for it. -/
def HasRoom (b : Burst) (s : Driver) : Prop :=
  b.nbPkts ≠ 0 ∧ s.txq.txRsThresh ≠ 0 ∧ s.txq.freeAfterCleanup ≠ 0

instance (b : Burst) (s : Driver) : Decidable (HasRoom b s) := inferInstanceAs (Decidable (_ ∧ _))

/-- Every call of the run has room. -/
def CallsHaveRoom (s : Driver) : Op → Prop
  | .burst b => HasRoom b s
  | _ => True

/-! ## Balanced events -/

@[simp] theorem openHandles_append (es fs : List Event) :
    openHandles (es ++ fs) = openHandles es + openHandles fs := by
  unfold openHandles
  rw [List.count_append, List.count_append]
  push_cast
  ring

/-- The event is neither an open nor a close. -/
def Event.isStdio : Event → Bool
  | .fopen => true
  | .fclose => true
  | _ => false

theorem openHandles_none {es : List Event} (h : ∀ e ∈ es, e.isStdio = false) :
    openHandles es = 0 := by
  have ho : es.count .fopen = 0 := List.count_eq_zero.mpr fun hm => Bool.noConfusion (h _ hm)
  have hc : es.count .fclose = 0 := List.count_eq_zero.mpr fun hm => Bool.noConfusion (h _ hm)
  rw [openHandles, ho, hc]
  rfl

theorem free_stdio {e : Event} (h : e.isFree = true) : e.isStdio = false := by
  cases e <;> first | rfl | simp [Event.isFree] at h

theorem openHandles_vtx1 (b : Burst) (f txdp p : Nat) :
    openHandles (vtx1Events b f txdp p) = 0 := by
  unfold vtx1Events
  dsimp only
  rw [openHandles_append]
  split
  · simp [openHandles]
  · rw [openHandles_none fun e he => free_stdio (rtePktmbufFree_isFree he)]
    simp [openHandles]

theorem openHandles_vtx1s (b : Burst) (f c txdp p : Nat) :
    openHandles (vtx1sEvents b f c txdp p) = 0 := by
  induction c generalizing txdp p with
  | zero => rfl
  | succ c ih => rw [vtx1sEvents, openHandles_append, openHandles_vtx1, ih, Int.add_zero]

theorem openHandles_backlog (b : Burst) (txep p c : Nat) :
    openHandles (backlogEvents b txep p c) = 0 := by
  refine openHandles_none ?_
  intro e he
  obtain ⟨j, -, rfl | rfl⟩ := mem_backlogEvents he <;> rfl

theorem openHandles_cleanup (h : Heap) (q : IxgbeTxQueue) :
    openHandles (freeSlots h q.ddSlots ++ q.cleanedU16) = 0 := by
  rw [openHandles_append, openHandles_none fun e he => free_stdio (freeSlots_isFree he)]
  unfold IxgbeTxQueue.cleanedU16
  split <;> simp [openHandles]

theorem openHandles_stores (b : Burst) (c : Cursor) : openHandles (restStores b c) = 0 := by
  unfold restStores
  split <;> simp [openHandles]

/-! ## The call -/

section
variable {b : Burst} {s : Driver}

/-- The log is open when the burst is clipped. -/
theorem openHandles_prepare (b : Burst) (s : Driver) :
    openHandles (prepare b s).trace = openHandles s.trace + 1 := by
  rw [prepare_eq]
  split
  · show openHandles (s.trace ++ ([.fopen] ++ (freeSlots b.toHeap s.txq.ddSlots ++
      s.txq.cleanedU16))) = _
    rw [openHandles_append, openHandles_append, openHandles_cleanup]
    rfl
  · exact openHandles_append ..

theorem openHandles_cursor (b : Burst) (s : Driver) :
    openHandles (cursor b s).drv.trace = openHandles (prepare b s).trace := by
  rcases Nat.lt_or_ge (nbPkts b s) (ringLeft (prepare b s).txq) with hlt | hge
  · rw [cursor_short hlt]
  · rw [cursor_long hge, xmitRingEnd_trace, ringEndEvents]
    simp only [openHandles_append, openHandles_backlog, openHandles_vtx1s]
    simp [openHandles]

theorem hasRoom_iff : HasRoom b s ↔ nbPkts b s ≠ 0 := by
  have hfree : (prepare b s).txq.nbTxFree = s.txq.freeAfterCleanup := by
    rw [prepare_txq]
    unfold IxgbeTxQueue.freeAfterCleanup
    split <;> rfl
  unfold HasRoom nbPkts
  rw [hfree]
  omega

/-- **A call leaves one handle open when it has no room**, and none otherwise. -/
theorem openHandles_burst (b : Burst) (s : Driver) :
    openHandles (ixgbeXmitFixedBurstVec b s).2.trace =
      openHandles s.trace + if HasRoom b s then 0 else 1 := by
  by_cases hr : HasRoom b s
  · rw [if_pos hr, burst_pos (hasRoom_iff.mp hr), xmitRest_eq]
    simp only [openHandles_append, openHandles_cursor, openHandles_prepare, openHandles_backlog,
      openHandles_vtx1s, openHandles_stores]
    simp [openHandles]
  · rw [if_neg hr, burst_zero (not_not.mp (mt hasRoom_iff.mpr hr)), openHandles_prepare]

end

/-! ## Runs -/

theorem openHandles_step (s : Driver) (op : Op) :
    openHandles (step s op).trace = openHandles s.trace ↔ CallsHaveRoom s op := by
  cases op with
  | burst b =>
    show openHandles (ixgbeXmitFixedBurstVec b s).2.trace = _ ↔ HasRoom b s
    rw [openHandles_burst]
    split <;> simp [*]
  | freeBufs h =>
    refine iff_of_true ?_ trivial
    show openHandles (ixgbeTxFreeBufs h s).2.trace = _
    rw [ixgbeTxFreeBufs_eq]
    split
    · rw [openHandles_append, openHandles_cleanup, Int.add_zero]
    · rfl
  | nic =>
    refine iff_of_true ?_ trivial
    show openHandles (nicComplete s).trace = _
    unfold nicComplete
    split
    · rfl
    · exact (openHandles_append ..).trans (Int.add_zero _)

/-! ## The writer's retry loop -/

/-- A burst with the array and the count of the call at hand. -/
def Burst.call (b : Burst) (pkts : Nat → MbufPtr) (off num : Nat) : Burst :=
  { b with txPkts := fun i => pkts (off + i), nbPkts := num }

/-- `__writer_flush` of `n_pkts` packets with `sent` of them out, one call of the driver for
each burst of the list: `ixgbe_xmit_pkts_vec` offers at most `tx_rs_thresh` at a time and
comes back after a short count, and the flush calls it again with what is left. -/
def writerFlush (pkts : Nat → MbufPtr) (n_pkts : Nat) : List Burst → Nat → Driver → Nat × Driver
  | [], sent, s => (sent, s)
  | b :: bs, sent, s =>
    if sent = n_pkts then (sent, s)
    else
      let (ret, s) := ixgbeXmitFixedBurstVec
        (b.call pkts sent (min (n_pkts - sent) s.txq.txRsThresh)) s
      writerFlush pkts n_pkts bs (sent + ret) s

/-- The flush is a run of calls. -/
theorem writerFlush_run (pkts : Nat → MbufPtr) (n_pkts : Nat) (bs : List Burst) (sent : Nat)
    (s : Driver) :
    ∃ calls : List Burst, (writerFlush pkts n_pkts bs sent s).2 = run step s (calls.map .burst) := by
  induction bs generalizing sent s with
  | nil => exact ⟨[], rfl⟩
  | cons b bs ih =>
    unfold writerFlush
    split
    · exact ⟨[], rfl⟩
    · obtain ⟨calls, hcalls⟩ := ih _ (ixgbeXmitFixedBurstVec
        (b.call pkts sent (min (n_pkts - sent) s.txq.txRsThresh)) s).2
      exact ⟨b.call pkts sent (min (n_pkts - sent) s.txq.txRsThresh) :: calls, hcalls⟩

/-- On a full ring the flush goes on, and every round of it leaves another handle open. -/
theorem writerFlush_leaks {s : Driver} (hf : s.txq.nbTxFree = 0)
    (hd : (s.txq.txRing s.txq.txNextDd).dd = false) (pkts : Nat → MbufPtr) {n_pkts sent : Nat}
    (hn : sent ≠ n_pkts) (bs : List Burst) :
    (writerFlush pkts n_pkts bs sent s).1 = sent ∧
      openHandles (writerFlush pkts n_pkts bs sent s).2.trace =
        openHandles s.trace + bs.length := by
  induction bs generalizing s with
  | nil => exact ⟨rfl, (Int.add_zero _).symm⟩
  | cons b bs ih =>
    have hcl : s.txq.cleans = false := by simp [IxgbeTxQueue.cleans, hd]
    have hroom : ∀ b, nbPkts b s = 0 := by
      intro b
      refine not_not.mp (mt hasRoom_iff.mpr fun hr => hr.2.2 ?_)
      simp [IxgbeTxQueue.freeAfterCleanup, hcl, hf]
    have hcall : ∀ b, ixgbeXmitFixedBurstVec b s = (0, s.emit [.fopen]) := by
      intro b
      rw [burst_eq, if_pos (hroom b), prepare_eq, if_neg (by simp [hcl])]
    have hone : openHandles (s.emit [.fopen]).trace = openHandles s.trace + 1 :=
      openHandles_append ..
    unfold writerFlush
    rw [if_neg hn, hcall]
    obtain ⟨h1, h2⟩ := ih (s := s.emit [.fopen]) hf hd
    refine ⟨h1, h2.trans ?_⟩
    rw [hone, List.length_cons]
    push_cast
    ring

/-! ## The exact condition -/

/-- **Balanced calls**: along any run the number of open handles stays what it was if and only
if every call has room for a packet. A flush of the writer is such a run, and on a full ring
each of its rounds opens one more. -/
theorem handles_always_iff (s : Driver) (ops : List Op) :
    (Always step (fun s' => openHandles s'.trace = openHandles s.trace) s ops ↔
      Meets step CallsHaveRoom s ops) ∧
    ∀ pkts n_pkts bs sent,
      (∃ calls : List Burst,
        (writerFlush pkts n_pkts bs sent s).2 = run step s (calls.map .burst)) ∧
      (s.txq.nbTxFree = 0 → (s.txq.txRing s.txq.txNextDd).dd = false → sent ≠ n_pkts →
        openHandles (writerFlush pkts n_pkts bs sent s).2.trace =
          openHandles s.trace + bs.length) := by
  refine ⟨?_, fun pkts n_pkts bs sent => ⟨writerFlush_run pkts n_pkts bs sent s, ?_⟩⟩
  · exact always_iff_meets (I := fun s' => openHandles s'.trace = openHandles s.trace)
      (fun s' op hi hok => ((openHandles_step s' op).mpr hok).trans hi) (fun _ hi => hi)
      (fun s' op hi hp => (openHandles_step s' op).mp (hp.trans hi.symm)) rfl ops
  · exact fun hf hd hn => (writerFlush_leaks hf hd pkts hn bs).2

/-- Sixty-three packets with the NIC asleep fill the ring. -/
def fillRing : List Op := List.replicate 63 (.burst (plainBurst 1 fun _ => some 33))

/-- The call after them leaves its log open. -/
theorem handles_broken :
    ¬∀ ops, Always step
      (fun s => openHandles s.trace = openHandles (Driver.reset conf64).trace)
      (Driver.reset conf64) ops := by
  intro h
  let op : Op := .burst (plainBurst 1 fun _ => some 33)
  have hfull := h (fillRing ++ [op]) fillRing (List.prefix_append _ _)
  have hnext := h (fillRing ++ [op]) _ (List.prefix_refl _)
  rw [run_append, run_cons, run_nil, ← hfull] at hnext
  have hroom : HasRoom (plainBurst 1 fun _ => some 33)
      (run step (Driver.reset conf64) fillRing) :=
    (openHandles_step _ op).mp hnext
  revert hroom
  decide +kernel

end P4Switch.Ixgbe
