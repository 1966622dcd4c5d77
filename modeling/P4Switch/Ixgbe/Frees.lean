import P4Switch.Ixgbe.Passes

/-! # What a call gives back

The mbufs given up in a stretch of the trace, by reason, and the mbufs put into pools. Each
cleanup and each drop puts exactly the mbufs whose last reference it gives up, every one
into its own pool. -/
namespace P4Switch.Ixgbe
open P4Switch.Lib.MachineInt P4Switch.Lib.Circular

/-! ## Reading the trace -/

def Event.freed (k : FreeKind) : Event → Option (Option MbufPtr)
  | .free k' m _ => if k' = k then some m else none
  | _ => none

/-- The mbufs given up for the reason `k`, in order; a `NULL` among them is `none`. -/
def frees (k : FreeKind) (es : List Event) : List (Option MbufPtr) := es.filterMap (Event.freed k)

def Event.returned : Event → List (Nat × MbufPtr)
  | .put pool ms => ms.map fun m => (pool, m)
  | _ => []

/-- The mbufs put into pools, each with the pool it went to. -/
def returned (es : List Event) : List (Nat × MbufPtr) := es.flatMap Event.returned

/-- An mbuf with the pool it belongs to. -/
def Heap.home (h : Heap) (m : MbufPtr) : Nat × MbufPtr := ((h.mbuf m).pool, m)

def Heap.due1 (h : Heap) : Event → Option (Nat × MbufPtr)
  | .free _ (some m) true => some (h.home m)
  | _ => none

/-- The mbufs whose last reference is given up, each with the pool it belongs to. -/
def Heap.due (h : Heap) (es : List Event) : List (Nat × MbufPtr) := es.filterMap h.due1

def Event.completed : Event → Option Nat
  | .complete i => some i
  | _ => none

/-- The indices of the descriptors the NIC has completed, in order. -/
def completions (es : List Event) : List Nat := es.filterMap Event.completed

/-- The events that give mbufs back. -/
def givenBack (es : List Event) : List Event := es.filter Event.isFree

section
variable (k : FreeKind) (h : Heap) (es fs : List Event)

@[simp] theorem frees_append : frees k (es ++ fs) = frees k es ++ frees k fs :=
  List.filterMap_append

@[simp] theorem returned_append : returned (es ++ fs) = returned es ++ returned fs :=
  List.flatMap_append

@[simp] theorem due_append : h.due (es ++ fs) = h.due es ++ h.due fs := List.filterMap_append

@[simp] theorem completions_append : completions (es ++ fs) = completions es ++ completions fs :=
  List.filterMap_append

@[simp] theorem givenBack_append : givenBack (es ++ fs) = givenBack es ++ givenBack fs :=
  List.filter_append ..

end

/-- Only the events that give mbufs back matter. -/
theorem frees_givenBack (k : FreeKind) (es : List Event) : frees k (givenBack es) = frees k es := by
  induction es with
  | nil => rfl
  | cons e es ih =>
    cases e with
    | free k' m last =>
      change frees k ([.free k' m last] ++ givenBack es) = frees k ([.free k' m last] ++ es)
      rw [frees_append, frees_append, ih]
    | _ => exact ih

theorem returned_givenBack (es : List Event) : returned (givenBack es) = returned es := by
  induction es with
  | nil => rfl
  | cons e es ih =>
    cases e with
    | put p ms =>
      change returned ([.put p ms] ++ givenBack es) = returned ([.put p ms] ++ es)
      rw [returned_append, returned_append, ih]
    | _ => exact ih

theorem due_givenBack (h : Heap) (es : List Event) : h.due (givenBack es) = h.due es := by
  induction es with
  | nil => rfl
  | cons e es ih =>
    cases e with
    | free k' m last =>
      change h.due ([.free k' m last] ++ givenBack es) = h.due ([.free k' m last] ++ es)
      rw [due_append, due_append, ih]
    | _ => exact ih

theorem givenBack_of_free {es : List Event} (h : ∀ e ∈ es, e.isFree = true) : givenBack es = es :=
  List.filter_eq_self.mpr h

theorem givenBack_of_not {es : List Event} (h : ∀ e ∈ es, e.isFree = false) :
    givenBack es = [] := by
  refine List.filter_eq_nil_iff.mpr ?_
  intro e he
  rw [h e he]
  exact Bool.false_ne_true

theorem completions_unmarked {es : List Event} (h : ∀ e ∈ es, e.isMark = false) :
    completions es = [] := by
  refine List.filterMap_eq_nil_iff.mpr ?_
  intro e he
  have hm := h e he
  cases e <;> first | rfl | cases hm

/-! ## A slot of the software ring -/

/-- The event of a slot: nothing is due for `NULL` or while another reference is left. -/
theorem due_freeEvent (h : Heap) (k : FreeKind) (slot : Option MbufPtr) (es : List Event) :
    h.due (freeEvent h k slot :: es) =
      ((prefreeSeg h slot).map h.home).toList ++ h.due es := by
  cases slot with
  | none => rfl
  | some m =>
    cases hl : h.lastRef m
    · have hp : prefreeSeg h (some m) = none := by simp [prefreeSeg, Option.filter, hl]
      have he : freeEvent h k (some m) = .free k (some m) false := by simp [freeEvent, hl]
      rw [hp, he]
      rfl
    · have hp : prefreeSeg h (some m) = some m := by simp [prefreeSeg, Option.filter, hl]
      have he : freeEvent h k (some m) = .free k (some m) true := by simp [freeEvent, hl]
      rw [hp, he]
      rfl

theorem frees_freeEvent (h : Heap) (k : FreeKind) (slot : Option MbufPtr) (es : List Event) :
    frees k (freeEvent h k slot :: es) = slot :: frees k es := by
  simp [frees, freeEvent, Event.freed]

theorem frees_freeEvent_ne (h : Heap) {k k' : FreeKind} (hk : k' ≠ k) (slot : Option MbufPtr)
    (es : List Event) : frees k (freeEvent h k' slot :: es) = frees k es := by
  simp [frees, freeEvent, Event.freed, hk]

@[simp] theorem frees_put (k : FreeKind) (p : Nat) (ms : List MbufPtr) (es : List Event) :
    frees k (.put p ms :: es) = frees k es := rfl

@[simp] theorem due_put (h : Heap) (p : Nat) (ms : List MbufPtr) (es : List Event) :
    h.due (.put p ms :: es) = h.due es := rfl

@[simp] theorem returned_put (p : Nat) (ms : List MbufPtr) (es : List Event) :
    returned (.put p ms :: es) = ms.map (fun m => (p, m)) ++ returned es := rfl

@[simp] theorem returned_freeEvent (h : Heap) (k : FreeKind) (slot : Option MbufPtr)
    (es : List Event) : returned (freeEvent h k slot :: es) = returned es := rfl

/-! ## The cleanup -/

theorem singleLoop_frees (h : Heap) (slots : List (Option MbufPtr)) :
    frees .done (singleLoop h slots) = slots := by
  induction slots with
  | nil => rfl
  | cons slot slots ih =>
    rw [singleLoop, frees_freeEvent]
    split
    · rw [ih]
    · rw [frees_put, ih]

theorem bulkLoop_frees (h : Heap) (hd : MbufPtr) (acc : List MbufPtr)
    (slots : List (Option MbufPtr)) : frees .done (bulkLoop h hd acc slots) = slots := by
  induction slots generalizing hd acc with
  | nil => rfl
  | cons slot slots ih =>
    rw [bulkLoop, frees_freeEvent]
    split
    · rw [ih]
    · split
      · rw [ih]
      · rw [frees_put, ih]

/-- The cleanup gives up its slots in ring order. -/
theorem freeSlots_frees (h : Heap) (slots : List (Option MbufPtr)) :
    frees .done (freeSlots h slots) = slots := by
  cases slots with
  | nil => rfl
  | cons slot slots =>
    rw [freeSlots, frees_freeEvent]
    split
    · rw [bulkLoop_frees]
    · rw [singleLoop_frees]

theorem singleLoop_returned (h : Heap) (slots : List (Option MbufPtr)) :
    returned (singleLoop h slots) = h.due (singleLoop h slots) := by
  induction slots with
  | nil => rfl
  | cons slot slots ih =>
    rw [singleLoop, due_freeEvent, returned_freeEvent]
    cases hp : prefreeSeg h slot with
    | none => exact ih
    | some m =>
      dsimp only
      rw [returned_put, due_put, ih]
      rfl

/-- The bulk loop puts what it has gathered and what is due behind it; what it gathers
belongs to one pool. -/
theorem bulkLoop_returned (h : Heap) (hd : MbufPtr) (acc : List MbufPtr)
    (hacc : ∀ m ∈ acc, (h.mbuf m).pool = (h.mbuf hd).pool) (slots : List (Option MbufPtr)) :
    returned (bulkLoop h hd acc slots) =
      (hd :: acc).map h.home ++ h.due (bulkLoop h hd acc slots) := by
  have hput : ∀ (d : MbufPtr) (ms : List MbufPtr),
      (∀ m ∈ ms, (h.mbuf m).pool = (h.mbuf d).pool) →
      (d :: ms).map (fun m => ((h.mbuf d).pool, m)) = (d :: ms).map h.home := by
    intro d ms hms
    refine List.map_congr_left ?_
    intro m hm
    rcases List.mem_cons.mp hm with rfl | hm
    · rfl
    · rw [Heap.home, hms m hm]
  induction slots generalizing hd acc with
  | nil =>
    rw [bulkLoop, returned_put, hput hd acc hacc]
    rfl
  | cons slot slots ih =>
    rw [bulkLoop, due_freeEvent, returned_freeEvent]
    cases hp : prefreeSeg h slot with
    | none => exact ih hd acc hacc
    | some m =>
      dsimp only
      split
      · rename_i hpool
        have hacc' : ∀ x ∈ acc ++ [m], (h.mbuf x).pool = (h.mbuf hd).pool := by
          intro x hx
          rcases List.mem_append.mp hx with hx | hx
          · exact hacc x hx
          · rw [List.mem_singleton.mp hx, hpool]
        rw [ih hd (acc ++ [m]) hacc']
        simp
      · rw [returned_put, due_put, hput hd acc hacc,
          ih m [] fun x hx => absurd hx List.not_mem_nil]
        simp

/-- **The cleanup returns what is due**, mbuf by mbuf, each to its own pool. -/
theorem freeSlots_returned (h : Heap) (slots : List (Option MbufPtr)) :
    returned (freeSlots h slots) = h.due (freeSlots h slots) := by
  cases slots with
  | nil => rfl
  | cons slot slots =>
    rw [freeSlots, due_freeEvent, returned_freeEvent]
    cases hp : prefreeSeg h slot with
    | none => exact singleLoop_returned h slots
    | some m =>
      dsimp only
      rw [bulkLoop_returned h m [] fun x hx => absurd hx List.not_mem_nil]
      rfl

/-- The cleanup gives up nothing for another reason. -/
theorem freeSlots_frees_ne (h : Heap) {k : FreeKind} (hk : k ≠ .done)
    (slots : List (Option MbufPtr)) : frees k (freeSlots h slots) = [] := by
  have hs : ∀ slots, frees k (singleLoop h slots) = [] := by
    intro slots
    induction slots with
    | nil => rfl
    | cons slot slots ih =>
      rw [singleLoop, frees_freeEvent_ne h hk.symm]
      split
      · exact ih
      · exact ih
  have hb : ∀ slots hd acc, frees k (bulkLoop h hd acc slots) = [] := by
    intro slots
    induction slots with
    | nil => exact fun _ _ => rfl
    | cons slot slots ih =>
      intro hd acc
      rw [bulkLoop, frees_freeEvent_ne h hk.symm]
      split
      · exact ih hd acc
      · split
        · exact ih hd _
        · exact ih _ []
  cases slots with
  | nil => rfl
  | cons slot slots =>
    rw [freeSlots, frees_freeEvent_ne h hk.symm]
    split
    · exact hb slots _ []
    · exact hs slots

/-! ## The drop -/

theorem freeSeg_returned (h : Heap) (k : FreeKind) (m : MbufPtr) :
    returned (rtePktmbufFreeSeg h k m) = h.due (rtePktmbufFreeSeg h k m) := by
  unfold rtePktmbufFreeSeg
  cases h.lastRef m <;> rfl

theorem freeSeg_frees (h : Heap) (k k' : FreeKind) (m : MbufPtr) :
    frees k (rtePktmbufFreeSeg h k' m) = if k' = k then [some m] else [] := by
  unfold rtePktmbufFreeSeg
  split <;> split <;> rename_i h1 h2 <;> simp [frees, Event.freed, h2]

/-- A drop returns what is due: the packet's mbuf and its further segments. -/
theorem rtePktmbufFree_returned (h : Heap) (m : MbufPtr) :
    returned (rtePktmbufFree h m) = h.due (rtePktmbufFree h m) := by
  rw [rtePktmbufFree, returned_append, due_append, freeSeg_returned]
  congr 1
  induction (h.mbuf m).next with
  | nil => rfl
  | cons x xs ih => rw [List.flatMap_cons, returned_append, due_append, freeSeg_returned, ih]

theorem rtePktmbufFree_frees (h : Heap) {k : FreeKind} (hk : k ≠ .seg) (m : MbufPtr) :
    frees k (rtePktmbufFree h m) = if k = .drop then [some m] else [] := by
  have hseg : frees k ((h.mbuf m).next.flatMap (rtePktmbufFreeSeg h .seg)) = [] := by
    induction (h.mbuf m).next with
    | nil => rfl
    | cons x xs ih =>
      rw [List.flatMap_cons, frees_append, freeSeg_frees, ih, if_neg hk.symm, List.append_nil]
  rw [rtePktmbufFree, frees_append, freeSeg_frees, hseg, List.append_nil]
  simp only [eq_comm]

/-! ## The call -/

/-- The drops among the `c` packets from `p` on. -/
def Burst.drops (b : Burst) (p c : Nat) : List Event :=
  (b.dropped p c).flatMap fun i => rtePktmbufFree b.toHeap (b.txPkts i)

theorem Burst.drops_append (b : Burst) (p c d : Nat) :
    b.drops p (c + d) = b.drops p c ++ b.drops (p + c) d := by
  rw [Burst.drops, Burst.dropped_append, List.flatMap_append]
  rfl

theorem Burst.drops_returned (b : Burst) (p c : Nat) :
    returned (b.drops p c) = b.toHeap.due (b.drops p c) := by
  unfold Burst.drops
  induction b.dropped p c with
  | nil => rfl
  | cons i is ih =>
    rw [List.flatMap_cons, returned_append, due_append, rtePktmbufFree_returned, ih]

theorem Burst.drops_frees (b : Burst) (p c : Nat) :
    frees .drop (b.drops p c) = (b.dropped p c).map fun i => some (b.txPkts i) := by
  unfold Burst.drops
  induction b.dropped p c with
  | nil => rfl
  | cons i is ih =>
    rw [List.flatMap_cons, frees_append, rtePktmbufFree_frees _ (by decide), if_pos rfl, ih]
    rfl

theorem Burst.drops_frees_ne (b : Burst) {k : FreeKind} (hd : k ≠ .drop) (hs : k ≠ .seg)
    (p c : Nat) : frees k (b.drops p c) = [] := by
  unfold Burst.drops
  induction b.dropped p c with
  | nil => rfl
  | cons i is ih =>
    rw [List.flatMap_cons, frees_append, rtePktmbufFree_frees _ hs, if_neg hd, ih]
    rfl

theorem givenBack_vtx1s (b : Burst) (f c txdp p : Nat) :
    givenBack (vtx1sEvents b f c txdp p) = b.drops p c := by
  induction c generalizing txdp p with
  | zero => rfl
  | succ c ih =>
    have h1 : givenBack (vtx1Events b f txdp p) = b.drops p 1 := by
      have hd : b.dropped p 1 = if b.admits p then [] else [p] := by
        cases h : b.admits p <;> simp [Burst.dropped, h]
      rw [Burst.drops, hd, vtx1Events, givenBack_append]
      split
      · rfl
      · rw [givenBack_of_free fun _ he => rtePktmbufFree_isFree he]
        simp [givenBack, Event.isFree]
    rw [vtx1sEvents, givenBack_append, ih, h1, Nat.add_comm c 1, Burst.drops_append]

theorem givenBack_backlog (b : Burst) (txep p c : Nat) :
    givenBack (backlogEvents b txep p c) = [] := by
  refine givenBack_of_not ?_
  intro e he
  obtain ⟨j, -, rfl | rfl⟩ := mem_backlogEvents he <;> rfl

theorem givenBack_cleanedU16 (q : IxgbeTxQueue) : givenBack q.cleanedU16 = [] := by
  unfold IxgbeTxQueue.cleanedU16
  split <;> rfl

theorem givenBack_restStores (b : Burst) (c : Cursor) : givenBack (restStores b c) = [] := by
  unfold restStores
  split <;> rfl

/-- What the cleanup in front of a burst gives back. -/
def IxgbeTxQueue.cleanupFrees (q : IxgbeTxQueue) (h : Heap) : List Event :=
  if q.cleans then freeSlots h q.ddSlots else []

theorem givenBack_prepare (b : Burst) (s : Driver) :
    givenBack (prepare b s).trace = givenBack s.trace ++ s.txq.cleanupFrees b.toHeap := by
  have hf : givenBack [.fopen] = [] := rfl
  rw [prepare_eq, IxgbeTxQueue.cleanupFrees]
  split
  · change givenBack (s.trace ++ ([.fopen] ++ (freeSlots b.toHeap s.txq.ddSlots ++ _))) = _
    simp only [givenBack_append, hf, givenBack_cleanedU16, List.append_nil, List.nil_append]
    rw [givenBack_of_free fun _ he => freeSlots_isFree he]
  · simp only [Driver.emit, givenBack_append, hf]

/-- The drops of the part before the wrap. -/
theorem givenBack_ringEnd (b : Burst) {n : Nat} (hn : 0 < n) (tail r : Nat) :
    givenBack (ringEndEvents b n tail r) = b.drops 0 n := by
  obtain ⟨m, rfl⟩ : ∃ m, n = m + 1 := ⟨n - 1, by omega⟩
  have h0 : givenBack [.wrap, .u16 ((r : Int) - 1)] = [] := rfl
  simp only [ringEndEvents, givenBack_append, givenBack_backlog, givenBack_vtx1s, h0,
    List.append_nil, List.nil_append, Nat.add_sub_cancel]
  rw [Burst.drops_append, Nat.zero_add]

/-- **What a call gives back**: the slots of its cleanup, then the packets it drops, among
all it handles. -/
theorem Placed.givenBack {b : Burst} {s : Driver} (h : Placed s) :
    givenBack (ixgbeXmitFixedBurstVec b s).2.trace =
      Ixgbe.givenBack s.trace ++
        (s.txq.cleanupFrees b.toHeap ++ b.drops 0 (processed b s)) := by
  have ht := h.tail_lt
  by_cases hk : nbPkts b s = 0
  · rw [burst_zero hk, givenBack_prepare, processed_zero hk]
    simp [Burst.drops, Burst.dropped]
  have htr : Ixgbe.givenBack (ixgbeXmitFixedBurstVec b s).2.trace =
      Ixgbe.givenBack (cursor b s).drv.trace ++
        b.drops (cursor b s).pkt (cursor b s).nbCommit := by
    rw [burst_pos hk, xmitRest_eq]
    simp only [givenBack_append, givenBack_backlog, givenBack_restStores, givenBack_vtx1s]
    simp [Ixgbe.givenBack, Event.isFree]
  rw [htr]
  rcases h.cursor_cases hk with ⟨hlt, hp, hc⟩ | ⟨m, hge, hm, hp, hc⟩
  · rw [hp, hc, givenBack_prepare, List.append_assoc]
  · rw [hp, hc]
    dsimp only
    rw [xmitRingEnd_trace, givenBack_append, givenBack_prepare, givenBack_ringEnd b (by omega),
      Burst.drops_append, Nat.zero_add]
    simp only [List.append_assoc]

theorem prepare_completions (b : Burst) (s : Driver) :
    completions (prepare b s).trace = completions s.trace := by
  rw [prepare_eq]
  split
  · change completions (s.trace ++ ([.fopen] ++ (freeSlots b.toHeap s.txq.ddSlots ++ _))) = _
    simp only [completions_append, completions_unmarked freeSlots_unmarked,
      completions_unmarked cleanedU16_unmarked]
    simp [completions, Event.completed]
  · simp [Driver.emit, completions, Event.completed]

/-- A call completes no descriptor; that is the NIC's part. -/
theorem burst_completions (b : Burst) (s : Driver) :
    completions (ixgbeXmitFixedBurstVec b s).2.trace = completions s.trace := by
  have hprep := prepare_completions b s
  have hvtx : ∀ f c txdp p, completions (vtx1sEvents b f c txdp p) = [] := by
    intro f c txdp p
    refine List.filterMap_eq_nil_iff.mpr ?_
    intro e he
    have hs := vtx1s_onlyStores b f c txdp p e he
    cases e with
    | complete i => cases hs rfl
    | _ => rfl
  have hcur : completions (cursor b s).drv.trace = completions s.trace := by
    unfold cursor
    dsimp only
    split
    · exact hprep
    · rw [xmitRingEnd_trace, ringEndEvents]
      simp only [completions_append, completions_unmarked backlog_unmarked, hvtx, hprep]
      simp [completions, Event.completed]
  by_cases hk : nbPkts b s = 0
  · rw [burst_zero hk, hprep]
  · rw [burst_pos hk, xmitRest_eq]
    simp only [completions_append, completions_unmarked backlog_unmarked, hvtx,
      completions_unmarked restStores_unmarked, hcur]
    simp [completions, Event.completed]

/-! ## The release -/

/-- The events of releasing mbufs one after the other. -/
def releaseEvents (h : Heap) (ms : List MbufPtr) : List Event :=
  ms.flatMap (rtePktmbufFreeSeg h .release)

theorem releaseEvents_frees (h : Heap) (ms : List MbufPtr) :
    frees .release (releaseEvents h ms) = ms.map some := by
  unfold releaseEvents
  induction ms with
  | nil => rfl
  | cons m ms ih =>
    rw [List.flatMap_cons, frees_append, freeSeg_frees, ih]
    rfl

theorem releaseEvents_frees_ne (h : Heap) {k : FreeKind} (hk : k ≠ .release)
    (ms : List MbufPtr) : frees k (releaseEvents h ms) = [] := by
  unfold releaseEvents
  induction ms with
  | nil => rfl
  | cons m ms ih =>
    rw [List.flatMap_cons, frees_append, freeSeg_frees, ih, if_neg hk.symm]
    rfl

theorem releaseEvents_returned (h : Heap) (ms : List MbufPtr) :
    returned (releaseEvents h ms) = h.due (releaseEvents h ms) := by
  unfold releaseEvents
  induction ms with
  | nil => rfl
  | cons m ms ih => rw [List.flatMap_cons, returned_append, due_append, freeSeg_returned, ih]

/-- With `tx_next_dd` at the end of a block of 32 the release starts at the first buffer to
free. -/
theorem releaseStart_eq {q : IxgbeTxQueue} (hc : q.Conf) (hl : q.txNextDd < q.nbTxDesc)
    (hm : q.txNextDd % q.txRsThresh = q.txRsThresh - 1) : q.releaseStart = q.firstDd := by
  obtain ⟨hrs, -, -, hhi, -, -⟩ := hc
  rw [IxgbeTxQueue.firstDd]
  rw [hrs] at hm ⊢
  have he : (q.txNextDd : Int) - ((q.txRsThresh : Int) - 1) = ((q.txNextDd - 31 : Nat) : Int) := by
    omega
  rw [IxgbeTxQueue.releaseStart, he, unsigned_natCast (by omega)]

/-- The mbufs in these slots, if there is one in each. -/
def IxgbeTxQueue.mbufsAt (q : IxgbeTxQueue) (is : List Nat) : Option (List MbufPtr) :=
  is.mapM q.swRingV

theorem mbufsAt_eq_some {q : IxgbeTxQueue} {is : List Nat} {ms : List MbufPtr} :
    q.mbufsAt is = some ms ↔ is.map q.swRingV = ms.map some := by
  unfold IxgbeTxQueue.mbufsAt
  induction is generalizing ms with
  | nil => cases ms <;> simp
  | cons i is ih =>
    cases hi : q.swRingV i <;> cases ms <;> simp [hi, ← ih, Option.bind_eq_some_iff, and_comm]

/-- The walk ends at the tail, `w` slots further on, having released the mbuf in each of
them once; it does not get past a `NULL`. -/
theorem releaseLoop_eq (h : Heap) (q : IxgbeTxQueue) {w fuel t : Nat} (ht : t < q.nbTxDesc)
    (hw : w < q.nbTxDesc) (hf : w ≤ fuel) (hq : q.txTail = slot q.nbTxDesc t w) :
    releaseLoop h q fuel t = (q.mbufsAt (span q.nbTxDesc t w)).map (releaseEvents h) := by
  induction w generalizing t fuel with
  | zero =>
    have hqt : t = q.txTail := by rw [hq, slot_of_lt (by omega)]; rfl
    unfold releaseLoop
    rw [if_pos hqt]
    rfl
  | succ w ih =>
    have hne : t ≠ q.txTail := by
      intro he
      have h0 : slot q.nbTxDesc t 0 = slot q.nbTxDesc t (w + 1) := by
        rw [← hq, ← he, slot_of_lt (by omega)]
        rfl
      exact absurd (slot_inj ht (by omega) hw h0) (by omega)
    obtain ⟨fuel, rfl⟩ : ∃ f, fuel = f + 1 := ⟨fuel - 1, by omega⟩
    have hnext : slot q.nbTxDesc (slot q.nbTxDesc t 1) w = q.txTail := by
      rw [slot_slot, Nat.add_comm 1 w, hq]
    have hih := ih (slot_lt (by omega) t 1) (by omega) (show w ≤ fuel by omega) hnext.symm
    unfold releaseLoop
    rw [if_neg hne, span_succ ht w]
    cases hm : q.swRingV t with
    | none => simp [IxgbeTxQueue.mbufsAt, hm]
    | some m =>
      change Option.map _ (releaseLoop h q fuel (slot q.nbTxDesc t 1)) = _
      rw [hih]
      simp only [IxgbeTxQueue.mbufsAt, List.mapM_cons, hm]
      cases (span q.nbTxDesc (slot q.nbTxDesc t 1) w).mapM q.swRingV <;> rfl

end P4Switch.Ixgbe
