import P4Switch.Ixgbe.Posting

/-! # Passes over the ring

The trace tells in which pass over the ring a descriptor was last stored, and whether the
NIC has completed it since. A call stores the descriptors of its admitted packets in the
pass before the wrap or in the one behind it. -/
namespace P4Switch.Ixgbe
open P4Switch.Lib.Circular

/-- The number of wraps so far; the pass in which each descriptor was last stored; whether
the NIC has completed it since. -/
structure Passes where
  pass : Nat
  posted : Nat → Option Nat
  done : Nat → Bool

def Passes.next (c : Passes) : Event → Passes
  | .store i _ =>
    { c with posted := Function.update c.posted i (some c.pass)
             done := Function.update c.done i false }
  | .wrap => { c with pass := c.pass + 1 }
  | .complete i => { c with done := Function.update c.done i true }
  | _ => c

def Passes.after (c : Passes) (es : List Event) : Passes := es.foldl Passes.next c

def Driver.passes (s : Driver) : Passes :=
  Passes.after ⟨0, fun _ => none, fun _ => false⟩ s.trace

theorem Passes.after_append (c : Passes) (es fs : List Event) :
    c.after (es ++ fs) = (c.after es).after fs := List.foldl_append

theorem Passes.after_unmarked {es : List Event} (h : ∀ e ∈ es, e.isMark = false) (c : Passes) :
    c.after es = c := by
  induction es generalizing c with
  | nil => rfl
  | cons e es ih =>
    have he : c.next e = c := by
      have hm := h e (List.mem_cons_self ..)
      cases e <;> first | rfl | cases hm
    change (c.next e).after es = c
    rw [he]
    exact ih (fun e he => h e (List.mem_cons_of_mem _ he)) c

/-- The only marks among the events are stores. -/
def OnlyStores (es : List Event) : Prop := ∀ e ∈ es, e.isMark = true → e.posted.isSome = true

/-- The indices stored to. -/
def stored (es : List Event) : List Nat := (postings es).map Prod.fst

/-- Stores move their descriptors to the current pass and leave the others alone. -/
theorem Passes.after_stores {es : List Event} (h : OnlyStores es) (c : Passes) :
    (c.after es).pass = c.pass ∧
    (∀ i ∈ stored es, (c.after es).posted i = some c.pass ∧ (c.after es).done i = false) ∧
    (∀ i ∉ stored es, (c.after es).posted i = c.posted i ∧ (c.after es).done i = c.done i) := by
  induction es generalizing c with
  | nil => exact ⟨rfl, fun i hi => absurd hi List.not_mem_nil, fun i _ => ⟨rfl, rfl⟩⟩
  | cons e es ih =>
    have htl : OnlyStores es := fun e he => h e (List.mem_cons_of_mem _ he)
    have hhd := h e (List.mem_cons_self ..)
    have hc : c.after (e :: es) = (c.next e).after es := rfl
    obtain ⟨h1, h2, h3⟩ := ih htl (c.next e)
    rw [hc]
    by_cases hm : e.isMark = true
    · cases e with
      | store j d =>
        have hs : stored (.store j d :: es) = j :: stored es := rfl
        refine ⟨h1, ?_, ?_⟩
        · intro i hi
          by_cases hin : i ∈ stored es
          · exact h2 i hin
          · have hij : i = j := by
              rcases List.mem_cons.mp (hs ▸ hi) with hij | hin'
              · exact hij
              · exact absurd hin' hin
            obtain ⟨h4, h5⟩ := h3 i hin
            rw [h4, h5, hij]
            exact ⟨Function.update_self .., Function.update_self ..⟩
        · intro i hi
          rw [hs, List.mem_cons, not_or] at hi
          obtain ⟨h4, h5⟩ := h3 i hi.2
          rw [h4, h5]
          exact ⟨Function.update_of_ne hi.1 .., Function.update_of_ne hi.1 ..⟩
      | wrap => cases hhd rfl
      | complete j => cases hhd rfl
      | _ => cases hm
    · have hn : c.next e = c := by cases e <;> first | rfl | exact absurd rfl hm
      have hp : stored (e :: es) = stored es := by
        cases e <;> first | rfl | exact absurd rfl hm
      rw [hn] at h1 h2 h3 ⊢
      rw [hp]
      exact ⟨h1, h2, h3⟩

theorem vtx1s_onlyStores (b : Burst) (f c txdp p : Nat) :
    OnlyStores (vtx1sEvents b f c txdp p) := by
  intro e he hm
  obtain ⟨j, -, hj⟩ := mem_vtx1sEvents he
  rcases mem_vtx1Events hj with hf | rfl | rfl | rfl | ⟨g, rfl | rfl | ⟨v, rfl⟩⟩ | ⟨-, rfl⟩
  · rw [isFree_unmarked hf] at hm
    cases hm
  all_goals first | rfl | cases hm

theorem mem_stored_vtx1s {b : Burst} {f c tx p i : Nat} :
    i ∈ stored (vtx1sEvents b f c tx p) ↔ ∃ j < c, b.admits (p + j) = true ∧ tx + j = i := by
  rw [stored, postings_vtx1s, List.map_map, List.mem_map]
  constructor
  · rintro ⟨x, hx, rfl⟩
    obtain ⟨⟨h1, h2⟩, ha⟩ := (b.mem_admitted _ _ _).mp hx
    refine ⟨x - p, by omega, ?_, rfl⟩
    rwa [Nat.add_sub_cancel' h1]
  · rintro ⟨j, hj, ha, rfl⟩
    refine ⟨p + j, (b.mem_admitted _ _ _).mpr ⟨⟨by omega, by omega⟩, ha⟩, ?_⟩
    change tx + (p + j - p) = tx + j
    rw [Nat.add_sub_cancel_left]

/-! ## The passes over a call -/

theorem prepare_passes (b : Burst) (s : Driver) : (prepare b s).passes = s.passes := by
  have hf : ∀ e ∈ [Event.fopen], e.isMark = false := by
    intro e he
    rw [List.mem_singleton] at he
    rw [he]
    rfl
  rw [prepare_eq]
  split
  · change Passes.after _ (s.trace ++ ([.fopen] ++ (freeSlots b.toHeap s.txq.ddSlots ++ _))) = _
    rw [Passes.after_append, Passes.after_append, Passes.after_append, Passes.after_unmarked hf,
      Passes.after_unmarked freeSlots_unmarked, Passes.after_unmarked cleanedU16_unmarked]
    rfl
  · change Passes.after _ (s.trace ++ [.fopen]) = _
    rw [Passes.after_append, Passes.after_unmarked hf]
    rfl

theorem xmitRest_passes (b : Burst) (k : Nat) (c : Cursor) :
    (xmitRest b k c).2.passes =
      c.drv.passes.after (vtx1sEvents b flags c.nbCommit c.txId c.pkt) := by
  have hl : ∀ e ∈ [Event.log (restDrv b c).sum_QoS (restDrv b c).skipped
      (restDrv b c).packets_sent, .fclose], e.isMark = false := by
    intro e he
    simp only [List.mem_cons, List.not_mem_nil, or_false] at he
    rcases he with rfl | rfl <;> rfl
  unfold Driver.passes
  rw [xmitRest_eq]
  simp only [Passes.after_append, Passes.after_unmarked backlog_unmarked,
    Passes.after_unmarked restStores_unmarked, Passes.after_unmarked hl]

/-- The stores before the wrap, then the wrap. -/
theorem xmitRingEnd_passes (b : Burst) (n k : Nat) (s : Driver) :
    (xmitRingEnd b n k s).drv.passes =
      ((s.passes.after (vtx1sEvents b flags (n - 1) s.txq.txTail 0 ++
        vtx1sEvents b rs 1 (s.txq.txTail + (n - 1)) (n - 1))).next .wrap) := by
  unfold Driver.passes
  rw [xmitRingEnd_trace, ringEndEvents, Passes.after_append, Passes.after_append,
    Passes.after_unmarked backlog_unmarked]
  simp only [Passes.after_append]
  rfl

section
variable {b : Burst} {s : Driver}

theorem xmitRingEnd_posted {n k : Nat} (hn : 0 < n) :
    (xmitRingEnd b n k s).drv.passes.pass = s.passes.pass + 1 ∧ ∀ i,
      ((∃ j < n, b.admits j = true ∧ s.txq.txTail + j = i) →
        (xmitRingEnd b n k s).drv.passes.posted i = some s.passes.pass ∧
        (xmitRingEnd b n k s).drv.passes.done i = false) ∧
      ((¬∃ j < n, b.admits j = true ∧ s.txq.txTail + j = i) →
        (xmitRingEnd b n k s).drv.passes.posted i = s.passes.posted i ∧
        (xmitRingEnd b n k s).drv.passes.done i = s.passes.done i) := by
  have ho : OnlyStores (vtx1sEvents b flags (n - 1) s.txq.txTail 0 ++
      vtx1sEvents b rs 1 (s.txq.txTail + (n - 1)) (n - 1)) := by
    intro e he
    rcases List.mem_append.mp he with he | he
    · exact vtx1s_onlyStores _ _ _ _ _ e he
    · exact vtx1s_onlyStores _ _ _ _ _ e he
  have hmem : ∀ i, i ∈ stored (vtx1sEvents b flags (n - 1) s.txq.txTail 0 ++
      vtx1sEvents b rs 1 (s.txq.txTail + (n - 1)) (n - 1)) ↔
      ∃ j < n, b.admits j = true ∧ s.txq.txTail + j = i := by
    intro i
    have hs : ∀ es fs : List Event, stored (es ++ fs) = stored es ++ stored fs := by
      intro es fs
      rw [stored, postings_append, List.map_append]
      rfl
    rw [hs, List.mem_append, mem_stored_vtx1s, mem_stored_vtx1s]
    constructor
    · rintro (⟨j, hj, ha, rfl⟩ | ⟨j, hj, ha, rfl⟩)
      · exact ⟨j, by omega, by rwa [Nat.zero_add] at ha, rfl⟩
      · exact ⟨n - 1 + j, by omega, ha, by omega⟩
    · rintro ⟨j, hj, ha, rfl⟩
      rcases Nat.lt_or_ge j (n - 1) with h | h
      · exact .inl ⟨j, h, by rwa [Nat.zero_add], rfl⟩
      · refine .inr ⟨0, by omega, ?_, by omega⟩
        rwa [show n - 1 + 0 = j by omega]
  obtain ⟨h1, h2, h3⟩ := Passes.after_stores ho s.passes
  rw [xmitRingEnd_passes]
  refine ⟨congrArg (· + 1) h1, fun i => ⟨fun hi => h2 i ((hmem i).mpr hi), fun hi => h3 i ?_⟩⟩
  exact fun hm => hi ((hmem i).mp hm)

/-- What a call does to the passes: each admitted packet's slot is stored in the pass before
the wrap or in the one behind it, the other slots keep what they had. -/
theorem Placed.passes (h : Placed s) (hk : nbPkts b s ≠ 0) :
    ((ixgbeXmitFixedBurstVec b s).2.passes.pass = s.passes.pass +
      if nbPkts b s < s.txq.nbTxDesc - s.txq.txTail then 0 else 1) ∧ ∀ j < s.txq.nbTxDesc,
      (j < processed b s ∧ b.admits j = true →
        (ixgbeXmitFixedBurstVec b s).2.passes.posted (slot s.txq.nbTxDesc s.txq.txTail j) =
          some (s.passes.pass + if j < s.txq.nbTxDesc - s.txq.txTail then 0 else 1) ∧
        (ixgbeXmitFixedBurstVec b s).2.passes.done (slot s.txq.nbTxDesc s.txq.txTail j) = false) ∧
      (¬(j < processed b s ∧ b.admits j = true) →
        (ixgbeXmitFixedBurstVec b s).2.passes.posted (slot s.txq.nbTxDesc s.txq.txTail j) =
          s.passes.posted (slot s.txq.nbTxDesc s.txq.txTail j) ∧
        (ixgbeXmitFixedBurstVec b s).2.passes.done (slot s.txq.nbTxDesc s.txq.txTail j) =
          s.passes.done (slot s.txq.nbTxDesc s.txq.txTail j)) := by
  have ht := h.tail_lt
  have hk32 := h.nbPkts_le b
  have hlo := h.conf.lo
  obtain ⟨-, -, -, htl, -, -, -⟩ := prepare_frame b s
  rw [burst_pos hk, xmitRest_passes]
  obtain ⟨h1, h2, h3⟩ := Passes.after_stores (vtx1s_onlyStores b flags (cursor b s).nbCommit
    (cursor b s).txId (cursor b s).pkt) (cursor b s).drv.passes
  simp only [mem_stored_vtx1s] at h2 h3
  rcases h.cursor_cases hk with ⟨hlt, hp, hc⟩ | ⟨m, hge, hm, hp, hc⟩
  · rw [hc] at h1 h2 h3 ⊢
    simp only [prepare_passes, Nat.zero_add] at h1 h2 h3 ⊢
    rw [if_pos hlt, hp]
    refine ⟨h1, fun j hj => ⟨fun ⟨hjk, ha⟩ => ?_, fun hno => h3 _ ?_⟩⟩
    · rw [slot_of_lt (by omega), if_pos (by omega)]
      exact h2 _ ⟨j, hjk, ha, rfl⟩
    · rintro ⟨i, hi, ha, he⟩
      rcases slot_cases ht (Nat.le_of_lt hj) with ⟨h4, e⟩ | ⟨h4, e⟩
      · obtain rfl : i = j := by omega
        exact hno ⟨hi, ha⟩
      · omega
  · obtain ⟨e1, e2⟩ := xmitRingEnd_posted (b := b) (s := prepare b s) (k := nbPkts b s)
      (show 0 < s.txq.nbTxDesc - s.txq.txTail by omega)
    rw [hc] at h1 h2 h3 ⊢
    simp only [prepare_passes, htl, Nat.zero_add] at h1 h2 h3 e1 e2 ⊢
    rw [if_neg (by omega), hp]
    refine ⟨h1.trans e1, ?_⟩
    intro j hj
    rcases slot_cases ht (Nat.le_of_lt hj) with ⟨h4, e⟩ | ⟨h4, e⟩ <;> rw [e]
    · -- before the wrap
      have hnot : ¬∃ i < m, b.admits (s.txq.nbTxDesc - s.txq.txTail + i) = true ∧
          i = s.txq.txTail + j := by
        rintro ⟨i, hi, -, rfl⟩
        omega
      obtain ⟨h5, h6⟩ := h3 _ hnot
      rw [h5, h6, if_pos (by omega)]
      refine ⟨fun ⟨_, ha⟩ => (e2 _).1 ⟨j, by omega, ha, rfl⟩, fun hno => (e2 _).2 ?_⟩
      rintro ⟨i, hi, ha, he⟩
      obtain rfl : i = j := by omega
      exact hno ⟨by omega, ha⟩
    · -- behind it
      have hj' : s.txq.nbTxDesc - s.txq.txTail + (s.txq.txTail + j - s.txq.nbTxDesc) = j := by
        omega
      rw [if_neg (by omega), ← e1]
      refine ⟨fun ⟨hjm, ha⟩ => h2 _ ⟨_, by omega, by rwa [hj'], rfl⟩, ?_⟩
      intro hno
      have hnot : ¬∃ i < m, b.admits (s.txq.nbTxDesc - s.txq.txTail + i) = true ∧
          i = s.txq.txTail + j - s.txq.nbTxDesc := by
        rintro ⟨i, hi, ha, rfl⟩
        exact hno ⟨by omega, by rwa [hj'] at ha⟩
      obtain ⟨h5, h6⟩ := h3 _ hnot
      rw [h5, h6]
      refine (e2 _).2 ?_
      rintro ⟨i, hi, ha, he⟩
      omega

end

end P4Switch.Ixgbe
