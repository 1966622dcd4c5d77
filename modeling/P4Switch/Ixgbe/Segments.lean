import P4Switch.Ixgbe.Ownership

/-! # Frames of more than one mbuf

A frame that does not fit one buffer arrives as a chain. `davidis_vtx1` posts one descriptor
for the first mbuf, with the length of the whole chain as payload length, and the software
ring, which the cleanup and the release go by, records the first mbuf alone. -/
namespace P4Switch.Ixgbe
open P4Switch.Lib.GuardedRun

/-! ## What is on the wire -/

/-- The addresses of the bytes of an mbuf. -/
def RteMbuf.bytes (m : RteMbuf) : List Nat :=
  (List.range m.dataLen.toNat).map fun k => (m.bufIova.toNat + m.dataOff.toNat + k) % 2 ^ 64

/-- `DTALEN`, the low 16 bits. -/
def AdvTxDesc.length (d : AdvTxDesc) : Nat := d.cmdTypeLen % 2 ^ 16

/-- `PAYLEN`, the high 18 bits. -/
def AdvTxDesc.payLen (d : AdvTxDesc) : Nat := d.olinfoStatus >>> IXGBE_ADVTXD_PAYLEN_SHIFT

/-- The addresses of the bytes the NIC fetches for a descriptor. -/
def AdvTxDesc.bytes (d : AdvTxDesc) : List Nat :=
  (List.range d.length).map fun k => (d.bufferAddr + k) % 2 ^ 64

/-- The mbufs of the frame at `m`. -/
def Heap.chain (h : Heap) (m : MbufPtr) : List MbufPtr := m :: (h.mbuf m).next

/-- A frame as the receive path hands it over: distinct mbufs, those behind the first not
empty, and `pkt_len` their total, which fits `PAYLEN`. -/
structure Received (h : Heap) (m : MbufPtr) : Prop where
  nodup : (h.chain m).Nodup
  filled : ∀ x ∈ (h.mbuf m).next, 0 < (h.mbuf x).dataLen.toNat
  pktLen : (h.mbuf m).pktLen.toNat = ((h.chain m).map fun x => (h.mbuf x).dataLen.toNat).sum
  pktLen_lt : (h.mbuf m).pktLen.toNat < 2 ^ 18

/-- The descriptors that `davidis_vtx1` posts for the packet at `tx_pkts[p]`. -/
def Burst.descsFor (b : Burst) (f txdp p : Nat) : List AdvTxDesc :=
  (postings (vtx1Events b f txdp p)).map Prod.snd

/-- The frame is transmitted whole: the descriptors cover its bytes in order, their payload
length is the sum of the lengths posted, and when its slot is cleaned up every mbuf of the
chain goes back to its pool. -/
structure SentWhole (b : Burst) (f txdp p : Nat) : Prop where
  covers : (b.descsFor f txdp p).flatMap AdvTxDesc.bytes =
    (b.chain (b.txPkts p)).flatMap fun x => (b.mbuf x).bytes
  payload : ∀ d ∈ b.descsFor f txdp p,
    d.payLen = ((b.descsFor f txdp p).map AdvTxDesc.length).sum
  returned : ∀ h : Heap, (∀ x ∈ b.chain (b.txPkts p), h.lastRef x = true) →
    ∀ x ∈ b.chain (b.txPkts p), h.home x ∈ returned (freeSlots h [some (b.txPkts p)])

section
variable {b : Burst} {f txdp p : Nat}

theorem length_desc (m : RteMbuf) (hf : f = flags ∨ f = rs) :
    (m.desc f).length = m.dataLen.toNat := by
  have hlow : f % 2 ^ 16 = 0 := by rcases hf with rfl | rfl <;> rfl
  unfold AdvTxDesc.length RteMbuf.desc
  rw [Nat.or_mod_two_pow, hlow, Nat.zero_or, Nat.mod_eq_of_lt m.dataLen.toNat_lt]

theorem payLen_desc {m : RteMbuf} (h : m.pktLen.toNat < 2 ^ 18) :
    (m.desc f).payLen = m.pktLen.toNat := by
  unfold AdvTxDesc.payLen RteMbuf.desc IXGBE_ADVTXD_PAYLEN_SHIFT
  simp only [Nat.shiftLeft_eq, Nat.shiftRight_eq_div_pow]
  omega

theorem bytes_desc (m : RteMbuf) (hf : f = flags ∨ f = rs) : (m.desc f).bytes = m.bytes := by
  unfold AdvTxDesc.bytes RteMbuf.bytes
  rw [length_desc m hf]
  refine List.map_congr_left ?_
  intro k _
  exact Nat.mod_add_mod _ _ _

theorem descsFor_admitted (ha : b.admits p = true) :
    b.descsFor f txdp p = [(b.pkt p).desc f] := by
  rw [Burst.descsFor, postings_vtx1, if_pos ha]
  rfl

/-- A frame with a second mbuf is longer than its first. -/
theorem Received.dataLen_lt {h : Heap} {m : MbufPtr} (hr : Received h m)
    (hn : (h.mbuf m).next ≠ []) : (h.mbuf m).dataLen.toNat < (h.mbuf m).pktLen.toNat := by
  obtain ⟨x, xs, hx⟩ := List.exists_cons_of_ne_nil hn
  have hpos := hr.filled x (by rw [hx]; exact List.mem_cons_self ..)
  rw [hr.pktLen, Heap.chain, hx]
  simp only [List.map_cons, List.sum_cons]
  omega

theorem returned_slot {h : Heap} {m : MbufPtr} (hl : h.lastRef m = true) :
    returned (freeSlots h [some m]) = [h.home m] := by
  have hp : prefreeSeg h (some m) = some m := by simp [prefreeSeg, Option.filter, hl]
  rw [freeSlots, hp]
  rfl

theorem Received.pkt_payLen (hr : Received b.toHeap (b.txPkts p)) :
    ((b.pkt p).desc f).payLen = (b.pkt p).pktLen.toNat := payLen_desc hr.pktLen_lt

theorem single_whole (hr : Received b.toHeap (b.txPkts p)) (ha : b.admits p = true)
    (hf : f = flags ∨ f = rs) (hn : (b.pkt p).next = []) : SentWhole b f txdp p := by
  have hchain : b.chain (b.txPkts p) = [b.txPkts p] := congrArg (b.txPkts p :: ·) hn
  have hlen : (b.pkt p).pktLen.toNat = (b.pkt p).dataLen.toNat := by
    have hs := hr.pktLen
    rw [hchain, List.map_singleton, List.sum_singleton] at hs
    exact hs
  refine ⟨?_, ?_, ?_⟩
  · rw [descsFor_admitted ha, hchain]
    simp only [List.flatMap_singleton, bytes_desc _ hf]
    rfl
  · rw [descsFor_admitted ha]
    intro d hd
    rw [List.mem_singleton.mp hd, List.map_singleton, List.sum_singleton, length_desc _ hf,
      hr.pkt_payLen, hlen]
  · intro h hl x hx
    rw [hchain] at hx hl
    rw [List.mem_singleton.mp hx, returned_slot (hl _ (List.mem_singleton_self _))]
    exact List.mem_singleton_self _

/-- A chain is announced with a payload longer than what is posted. -/
theorem chain_not_whole (hr : Received b.toHeap (b.txPkts p)) (ha : b.admits p = true)
    (hf : f = flags ∨ f = rs) (hn : (b.pkt p).next ≠ []) : ¬SentWhole b f txdp p := by
  intro hw
  have hmem : (b.pkt p).desc f ∈ b.descsFor f txdp p := by
    rw [descsFor_admitted ha]
    exact List.mem_singleton_self _
  have hlen := hw.payload _ hmem
  rw [descsFor_admitted ha, List.map_singleton, List.sum_singleton, length_desc _ hf,
    hr.pkt_payLen] at hlen
  exact Nat.ne_of_gt (hr.dataLen_lt hn) hlen

end

/-! ## What becomes of the further mbufs -/

/-- The event gives up a reference to `x` or puts it into a pool. -/
def Event.gives (x : MbufPtr) : Event → Bool
  | .free _ m _ => m = some x
  | .put _ ms => x ∈ ms
  | _ => false

/-- No event of the stretch gives `x` back. -/
def Keeps (x : MbufPtr) (es : List Event) : Prop := ∀ e ∈ es, e.gives x = false

/-- The software ring holds no pointer to `x`. -/
def Unreferenced (x : MbufPtr) (s : Driver) : Prop := ∀ i, s.txq.swRingV i ≠ some x

/-- `x` is not handed to the driver by itself, and no packet it is a further mbuf of is
dropped. -/
def OnlyBehind (x : MbufPtr) : Op → Prop
  | .burst b => ∀ i, b.txPkts i ≠ x ∧ (x ∈ (b.pkt i).next → b.admits i = true)
  | _ => True

section
variable {x : MbufPtr} {es fs : List Event}

theorem Keeps.append (he : Keeps x es) (hf : Keeps x fs) : Keeps x (es ++ fs) :=
  List.forall_mem_append.mpr ⟨he, hf⟩

theorem Keeps.cons {e : Event} (he : e.gives x = false) (hf : Keeps x fs) : Keeps x (e :: fs) :=
  List.forall_mem_cons.mpr ⟨he, hf⟩

theorem keeps_nil : Keeps x [] := fun _ h => absurd h List.not_mem_nil

theorem freeEvent_gives {h : Heap} {k : FreeKind} {slot : Option MbufPtr} (hs : slot ≠ some x) :
    (freeEvent h k slot).gives x = false := decide_eq_false hs

theorem prefreeSeg_eq_some {h : Heap} {slot : Option MbufPtr} {m : MbufPtr}
    (hp : prefreeSeg h slot = some m) : slot = some m := by
  unfold prefreeSeg at hp
  exact (Option.filter_eq_some_iff.mp hp).1

theorem singleLoop_keeps {h : Heap} {slots : List (Option MbufPtr)}
    (hs : ∀ m ∈ slots, m ≠ some x) : Keeps x (singleLoop h slots) := by
  induction slots with
  | nil => exact keeps_nil
  | cons slot slots ih =>
    have hslot := hs slot (List.mem_cons_self ..)
    have hrest := ih fun m hm => hs m (List.mem_cons_of_mem _ hm)
    rw [singleLoop]
    refine .cons (freeEvent_gives hslot) ?_
    cases hp : prefreeSeg h slot with
    | none => exact hrest
    | some m =>
      refine .cons (decide_eq_false ?_) hrest
      rw [List.mem_singleton]
      rintro rfl
      exact hslot (prefreeSeg_eq_some hp)

theorem bulkLoop_keeps {h : Heap} {hd : MbufPtr} {acc : List MbufPtr}
    {slots : List (Option MbufPtr)} (hs : ∀ m ∈ slots, m ≠ some x) (hacc : x ∉ hd :: acc) :
    Keeps x (bulkLoop h hd acc slots) := by
  induction slots generalizing hd acc with
  | nil => exact .cons (decide_eq_false hacc) keeps_nil
  | cons slot slots ih =>
    have hslot := hs slot (List.mem_cons_self ..)
    have hrest : ∀ m ∈ slots, m ≠ some x := fun m hm => hs m (List.mem_cons_of_mem _ hm)
    rw [bulkLoop]
    refine .cons (freeEvent_gives hslot) ?_
    cases hp : prefreeSeg h slot with
    | none => exact ih hrest hacc
    | some m =>
      have hm : x ≠ m := by
        rintro rfl
        exact hslot (prefreeSeg_eq_some hp)
      dsimp only
      split
      · refine ih hrest ?_
        rw [← List.cons_append, List.mem_append, List.mem_singleton]
        exact fun h => h.elim hacc hm
      · refine .cons (decide_eq_false hacc) (ih hrest ?_)
        rw [List.mem_singleton]
        exact hm

theorem freeSlots_keeps {h : Heap} {slots : List (Option MbufPtr)}
    (hs : ∀ m ∈ slots, m ≠ some x) : Keeps x (freeSlots h slots) := by
  cases slots with
  | nil => exact keeps_nil
  | cons slot slots =>
    have hslot := hs slot (List.mem_cons_self ..)
    have hrest : ∀ m ∈ slots, m ≠ some x := fun m hm => hs m (List.mem_cons_of_mem _ hm)
    rw [freeSlots]
    refine .cons (freeEvent_gives hslot) ?_
    cases hp : prefreeSeg h slot with
    | none => exact singleLoop_keeps hrest
    | some m =>
      refine bulkLoop_keeps hrest ?_
      rw [List.mem_singleton]
      rintro rfl
      exact hslot (prefreeSeg_eq_some hp)

theorem keeps_of_not_free (h : ∀ e ∈ es, e.isFree = false) : Keeps x es := by
  intro e he
  have hf := h e he
  cases e <;> first | rfl | cases hf

theorem cleanedU16_keeps (q : IxgbeTxQueue) : Keeps x q.cleanedU16 := by
  unfold IxgbeTxQueue.cleanedU16
  split <;> exact keeps_of_not_free (by simp [Event.isFree])

theorem backlog_keeps (b : Burst) (txep p c : Nat) : Keeps x (backlogEvents b txep p c) := by
  intro e he
  obtain ⟨j, -, rfl | rfl⟩ := mem_backlogEvents he <;> rfl

theorem rtePktmbufFreeSeg_keeps {h : Heap} {k : FreeKind} {m : MbufPtr} (hm : m ≠ x) :
    Keeps x (rtePktmbufFreeSeg h k m) := by
  unfold rtePktmbufFreeSeg
  refine .cons (decide_eq_false fun he => hm (Option.some.inj he)) ?_
  split
  · refine .cons (decide_eq_false ?_) keeps_nil
    rw [List.mem_singleton]
    exact hm.symm
  · exact keeps_nil

theorem vtx1_keeps {b : Burst} (hb : OnlyBehind x (.burst b)) (f txdp p : Nat) :
    Keeps x (vtx1Events b f txdp p) := by
  obtain ⟨hne, hnext⟩ := hb p
  unfold vtx1Events
  refine .append (keeps_of_not_free (by simp [Event.isFree])) ?_
  split
  · exact keeps_of_not_free (by simp [Event.isFree])
  · rename_i ha
    refine .append (rtePktmbufFreeSeg_keeps hne) ?_
    intro e he
    obtain ⟨y, hy, he⟩ := List.mem_flatMap.mp he
    refine rtePktmbufFreeSeg_keeps ?_ e he
    rintro rfl
    exact ha (hnext hy)

theorem vtx1s_keeps {b : Burst} (hb : OnlyBehind x (.burst b)) (f c txdp p : Nat) :
    Keeps x (vtx1sEvents b f c txdp p) := by
  intro e he
  obtain ⟨j, -, he⟩ := mem_vtx1sEvents he
  exact vtx1_keeps hb _ _ _ e he

theorem backlog_unreferenced {b : Burst} (hb : OnlyBehind x (.burst b))
    {ring : Nat → Option MbufPtr} (hr : ∀ i, ring i ≠ some x) (txep p c : Nat) :
    ∀ i, b.backlog txep p c ring i ≠ some x := by
  intro i
  unfold Burst.backlog
  split
  · exact fun he => (hb _).1 (Option.some.inj he)
  · exact hr i

end

/-- From `s` on nothing has given `x` back, and the software ring does not hold it. -/
structure Forgotten (x : MbufPtr) (s s' : Driver) : Prop where
  ring : Unreferenced x s'
  grows : ∃ es, s'.trace = s.trace ++ es ∧ Keeps x es

section
variable {x : MbufPtr} {s s' : Driver}

theorem Forgotten.trans {s'' : Driver} (h : Forgotten x s s') (h' : Forgotten x s' s'') :
    Forgotten x s s'' := by
  obtain ⟨es, hes, hk⟩ := h.grows
  obtain ⟨fs, hfs, hk'⟩ := h'.grows
  exact ⟨h'.ring, es ++ fs, by rw [hfs, hes, List.append_assoc], hk.append hk'⟩

theorem ddSlots_ne (h : Unreferenced x s) : ∀ m ∈ s.txq.ddSlots, m ≠ some x := by
  intro m hm
  obtain ⟨i, -, rfl⟩ := List.mem_map.mp hm
  exact h _

theorem freeBufs_forgotten (h : Unreferenced x s) (hp : Heap) :
    Forgotten x s (ixgbeTxFreeBufs hp s).2 := by
  rw [ixgbeTxFreeBufs_eq]
  split
  · exact ⟨h, _, rfl, (freeSlots_keeps (ddSlots_ne h)).append (cleanedU16_keeps _)⟩
  · exact ⟨h, [], (List.append_nil _).symm, keeps_nil⟩

theorem prepare_forgotten (h : Unreferenced x s) (b : Burst) : Forgotten x s (prepare b s) := by
  rw [prepare_eq]
  split
  · exact ⟨h, _, rfl, .cons rfl ((freeSlots_keeps (ddSlots_ne h)).append (cleanedU16_keeps _))⟩
  · exact ⟨h, _, rfl, .cons rfl keeps_nil⟩

theorem cursor_forgotten {b : Burst} (hb : OnlyBehind x (.burst b)) (h : Unreferenced x s) :
    Forgotten x (prepare b s) (cursor b s).drv := by
  have hp := (prepare_forgotten h b).ring
  rcases Nat.lt_or_ge (nbPkts b s) (ringLeft (prepare b s).txq) with hlt | hge
  · rw [cursor_short hlt]
    exact ⟨hp, [], (List.append_nil _).symm, keeps_nil⟩
  · rw [cursor_long hge]
    refine ⟨?_, _, xmitRingEnd_trace .., ?_⟩
    · intro i
      rw [xmitRingEnd_txq]
      exact backlog_unreferenced hb hp _ _ _ i
    · refine .append (backlog_keeps b _ _ _) (.append (vtx1s_keeps hb _ _ _ _) ?_)
      exact .append (vtx1s_keeps hb _ _ _ _) (keeps_of_not_free (by simp [Event.isFree]))

theorem restStores_keeps (b : Burst) (c : Cursor) : Keeps x (restStores b c) := by
  unfold restStores
  split <;> exact keeps_of_not_free (by simp [Event.isFree])

theorem burst_forgotten {b : Burst} (hb : OnlyBehind x (.burst b)) (h : Unreferenced x s) :
    Forgotten x s (ixgbeXmitFixedBurstVec b s).2 := by
  have hp := prepare_forgotten h b
  by_cases hk : nbPkts b s = 0
  · rw [burst_zero hk]
    exact hp
  · have hc := hp.trans (cursor_forgotten hb h)
    refine hc.trans ?_
    rw [burst_pos hk, xmitRest_eq]
    refine ⟨backlog_unreferenced hb hc.ring _ _ _, _, rfl, ?_⟩
    refine .append (backlog_keeps b _ _ _) (.append (vtx1s_keeps hb _ _ _ _) ?_)
    exact .append (restStores_keeps b _) (keeps_of_not_free (by simp [Event.isFree]))

/-- The step lemma. -/
theorem step_forgotten (h : Unreferenced x s) {op : Op} (hop : OnlyBehind x op) :
    Forgotten x s (step s op) := by
  cases op with
  | burst b => exact burst_forgotten hop h
  | freeBufs hp => exact freeBufs_forgotten h hp
  | nic =>
    show Forgotten x s (nicComplete s)
    unfold nicComplete
    split
    · exact ⟨h, [], (List.append_nil _).symm, keeps_nil⟩
    · exact ⟨h, _, rfl, .cons rfl keeps_nil⟩

theorem run_forgotten (h : Unreferenced x s) {ops : List Op} (hops : ∀ op ∈ ops, OnlyBehind x op) :
    Forgotten x s (run step s ops) := by
  induction ops generalizing s with
  | nil => exact ⟨h, [], (List.append_nil _).symm, keeps_nil⟩
  | cons op ops ih =>
    have hstep := step_forgotten h (hops op (List.mem_cons_self ..))
    exact hstep.trans (ih hstep.ring fun o ho => hops o (List.mem_cons_of_mem _ ho))

theorem releaseLoop_keeps {h : Heap} {q : IxgbeTxQueue} (hq : ∀ i, q.swRingV i ≠ some x)
    {fuel i : Nat} {es : List Event} (he : releaseLoop h q fuel i = some es) : Keeps x es := by
  induction fuel generalizing i es with
  | zero =>
    unfold releaseLoop at he
    split at he
    · cases he
      exact keeps_nil
    · cases he
  | succ fuel ih =>
    unfold releaseLoop at he
    split at he
    · cases he
      exact keeps_nil
    · cases hm : q.swRingV i with
      | none =>
        rw [hm] at he
        cases he
      | some m =>
        rw [hm] at he
        obtain ⟨fs, hfs, rfl⟩ := Option.map_eq_some_iff.mp he
        have hne : m ≠ x := fun hx => hq i (hm.trans (congrArg some hx))
        exact .append (rtePktmbufFreeSeg_keeps hne) (ih hfs)

theorem release_forgotten (h : Unreferenced x s) {hp : Heap}
    (hr : ixgbeTxQueueReleaseMbufsVec hp s = some s') : Forgotten x s s' := by
  unfold ixgbeTxQueueReleaseMbufsVec at hr
  dsimp only at hr
  split at hr
  · cases hr
    exact ⟨h, [], (List.append_nil _).symm, keeps_nil⟩
  · obtain ⟨es, hes, rfl⟩ := Option.map_eq_some_iff.mp hr
    refine ⟨?_, es, rfl, releaseLoop_keeps h hes⟩
    intro i
    dsimp only
    split
    · exact fun he => by cases he
    · exact h i

end

/-- **A frame is transmitted whole exactly when it fits one buffer.** The further mbufs of any
other frame stay out of their pool: no run that does not hand them over once more gives them
back, nor does the release of the queue after it. -/
theorem sentWhole_iff {b : Burst} {p f : Nat} (hr : Received b.toHeap (b.txPkts p))
    (ha : b.admits p = true) (hf : f = flags ∨ f = rs) (txdp : Nat) :
    (SentWhole b f txdp p ↔ (b.pkt p).next = []) ∧
      ∀ x ∈ (b.pkt p).next, ∀ s, Unreferenced x s → ∀ ops, (∀ op ∈ ops, OnlyBehind x op) →
        Forgotten x s (run step s ops) ∧
          ∀ h s', ixgbeTxQueueReleaseMbufsVec h (run step s ops) = some s' → Forgotten x s s' := by
  refine ⟨⟨?_, single_whole hr ha hf⟩, ?_⟩
  · intro hw
    by_contra hn
    exact chain_not_whole hr ha hf hn hw
  · intro x _ s hs ops hops
    have hrun := run_forgotten hs hops
    refine ⟨hrun, ?_⟩
    intro h s' hrel
    exact hrun.trans (release_forgotten hrun.ring hrel)

/-- A frame of 3000 bytes in two buffers of 2048. -/
def jumbo : Burst where
  mbuf := fun m =>
    if m = 1 then ⟨4096, 128, 3000, 2048, 0, [2], fun _ => 0⟩
    else ⟨8192, 128, 952, 952, 0, [], fun _ => 0⟩
  lastRef := fun _ => true
  txPkts := fun i => 2 * i + 1
  nbPkts := 1
  policy := fun _ => some false
  scan := fun _ => some 33
  ret := 0

theorem jumbo_received : Received jumbo.toHeap (jumbo.txPkts 0) :=
  ⟨by decide, by decide, by decide, by decide⟩

theorem sentWhole_iff_jumbo :
    (SentWhole jumbo flags 0 0 ↔ (jumbo.pkt 0).next = []) ∧
      Forgotten 2 (Driver.reset conf64) (step (Driver.reset conf64) (.burst jumbo)) := by
  obtain ⟨hiff, hlost⟩ := sentWhole_iff jumbo_received (by decide) (.inl rfl) 0
  refine ⟨hiff, (hlost 2 (by decide) (Driver.reset conf64) ?_ [.burst jumbo] ?_).1⟩
  · intro i hi
    cases hi
  · intro op hop
    rw [List.mem_singleton.mp hop]
    intro i
    refine ⟨?_, fun _ => rfl⟩
    show 2 * i + 1 ≠ 2
    omega

/-- The chain is admitted, and 2048 bytes are posted with a payload length of 3000. -/
theorem sentWhole_broken :
    ¬∀ (b : Burst) (p : Nat), Received b.toHeap (b.txPkts p) → b.admits p = true →
      SentWhole b flags 0 p := by
  intro h
  have hp := (h jumbo 0 jumbo_received (by decide)).payload ((jumbo.pkt 0).desc flags)
  exact absurd (hp (by decide +kernel)) (by decide +kernel)

end P4Switch.Ixgbe
