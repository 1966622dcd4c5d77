import P4Switch.Ixgbe.Passes
import P4Switch.Ixgbe.Ring

/-! # The completion handshake

The driver waits for DD on every 32nd descriptor, so each of these must have been posted
with RS in the pass over the ring that is under way. The condition on a burst asks that
the descriptor it marks is one it has posted, and that it passes at most one such
descriptor. -/
namespace P4Switch.Ixgbe
open P4Switch.Lib.MachineInt P4Switch.Lib.Circular P4Switch.Lib.GuardedRun

/-- The descriptor is between the first one to free and the tail. -/
def IxgbeTxQueue.Outstanding (q : IxgbeTxQueue) (i : Nat) : Prop :=
  i < q.nbTxDesc ∧ gap q.nbTxDesc q.firstDd i < q.outstanding

/-- The pass an outstanding descriptor belongs to: the present one below the tail, the one
before it from the tail on. -/
def Driver.passAt (s : Driver) (i : Nat) : Nat :=
  if i < s.txq.txTail then s.passes.pass else s.passes.pass - 1

/-- Every outstanding threshold descriptor was posted in its pass with RS, and DD on it
comes from the NIC in that pass. -/
structure Handshake (s : Driver) : Prop where
  rs : ∀ i, s.txq.Outstanding i → i % s.txq.txRsThresh = s.txq.txRsThresh - 1 →
    (s.txq.txRing i).rs = true
  posted : ∀ i, s.txq.Outstanding i → i % s.txq.txRsThresh = s.txq.txRsThresh - 1 →
    s.passes.posted i = some (s.passAt i)
  dd : ∀ i, s.txq.Outstanding i → i % s.txq.txRsThresh = s.txq.txRsThresh - 1 →
    (s.txq.txRing i).dd = true → s.passes.done i = true

/-- The invariant. After a wrap fewer descriptors are outstanding than `nb_tx_free` leaves
room for, never more. -/
structure HandshakeInv (s : Driver) : Prop where
  conf : s.txq.Conf
  tail_lt : s.txq.txTail < s.txq.nbTxDesc
  nextDd_lt : s.txq.txNextDd < s.txq.nbTxDesc
  nextDd_mod : s.txq.txNextDd % s.txq.txRsThresh = s.txq.txRsThresh - 1
  nextRs_mod : s.txq.txNextRs % 32 = 31
  nextRs_ge : s.txq.txTail ≤ s.txq.txNextRs
  nextRs_lt : s.txq.txNextRs < s.txq.txTail + 32
  free_lt : s.txq.nbTxFree < 2 ^ 16
  room : s.txq.nbTxDesc - 1 ≤ s.txq.nbTxFree + s.txq.outstanding
  hand : Handshake s
  done : ∀ i < s.txq.nbTxDesc, s.passes.posted i ≠ none → (s.txq.txRing i).dd = true →
    s.passes.done i = true

/-- What a step must meet. A burst that takes packets and ends before the last descriptor
counts `m` of them (modulo 2^16): it must stay off the outstanding descriptors, pass at most
one threshold descriptor, and pass it only when a packet was posted there. A burst that
reaches the last descriptor must admit the packet that lands on it and publish less than one
threshold distance behind the wrap. -/
def HandshakeSafe (s : Driver) : Op → Prop
  | .burst b =>
    let k := nbPkts b s
    let q := (prepare b s).txq
    let n := q.nbTxDesc - q.txTail
    let a := (b.admitted 0 n).length
    k = 0 ∨
    (k < n ∧ ∃ m : Nat, k * b.ret + weights (b.decisions 0 k) ≡ m [ZMOD 2 ^ 16] ∧
      q.outstanding + k ≤ q.nbTxDesc ∧ q.outstanding + m < q.nbTxDesc ∧
      q.txTail + m < q.nbTxDesc ∧ q.txTail + m ≤ q.txNextRs + 32 ∧
      (q.txNextRs < q.txTail + m → s.passes.posted q.txNextRs = some s.passes.pass ∨
        (q.txNextRs - q.txTail < k ∧ b.admits (q.txNextRs - q.txTail) = true))) ∨
    (n ≤ k ∧ ∃ m : Nat, a + ((k - a : Nat) * b.ret + weights (b.decisions n (k - a))) ≡
        m [ZMOD 2 ^ 16] ∧
      m ≤ 31 ∧ b.admits (n - 1) = true ∧ q.outstanding + n + (k - a) ≤ q.nbTxDesc ∧
      q.outstanding + n + m < q.nbTxDesc)
  | .freeBufs _ =>
    (s.txq.txRing s.txq.txNextDd).dd = false ∨
      (32 ≤ s.txq.outstanding ∧ s.txq.nbTxFree + 32 < 2 ^ 16)
  | .nic => True

/-! ## Cleanup -/

section
variable {q : IxgbeTxQueue}

theorem firstDd_lt (hl : q.txNextDd < q.nbTxDesc) : q.firstDd < q.nbTxDesc := by
  unfold IxgbeTxQueue.firstDd
  omega

theorem cleaned_firstDd (hc : q.Conf) (hl : q.txNextDd < q.nbTxDesc)
    (hm : q.txNextDd % q.txRsThresh = q.txRsThresh - 1) :
    q.cleaned.firstDd = slot q.nbTxDesc q.firstDd 32 := by
  have hn := cleaned_nextDd hc hl hm
  obtain ⟨hrs, hdvd, hlo, -, -, -⟩ := hc
  rw [hrs] at hm
  have hf : q.firstDd = q.txNextDd - 31 := by rw [IxgbeTxQueue.firstDd, hrs]
  have hf' : q.cleaned.firstDd = q.cleaned.txNextDd - 31 := by
    rw [IxgbeTxQueue.firstDd, show q.cleaned.txRsThresh = 32 from hrs]
  rw [hf', hn, hf]
  rcases slot_cases (a := q.txNextDd - 31) (show _ < q.nbTxDesc by omega)
    (show 32 ≤ q.nbTxDesc by omega) with ⟨h1, e⟩ | ⟨h1, e⟩ <;> rw [e] <;> split <;> omega

/-- What is outstanding after a cleanup was so before. -/
theorem cleaned_outstanding_of (hc : q.Conf) (ht : q.txTail < q.nbTxDesc)
    (hl : q.txNextDd < q.nbTxDesc) (hm : q.txNextDd % q.txRsThresh = q.txRsThresh - 1)
    (ho : 32 ≤ q.outstanding) {i : Nat} (hi : q.cleaned.Outstanding i) : q.Outstanding i := by
  obtain ⟨hin, hg⟩ := hi
  change i < q.nbTxDesc at hin
  change gap q.nbTxDesc q.cleaned.firstDd i < _ at hg
  rw [cleaned_outstanding hc ht hl hm ho, cleaned_firstDd hc hl hm] at hg
  have hf := firstDd_lt hl
  have hlo := hc.lo
  have hO : q.outstanding < q.nbTxDesc := gap_lt (by omega) _ _
  have hf' := slot_lt (show 0 < q.nbTxDesc by omega) q.firstDd 32
  refine ⟨hin, ?_⟩
  rw [← slot_gap hf' hin]
  have hg32 : gap q.nbTxDesc q.firstDd (slot q.nbTxDesc q.firstDd 32) = 32 :=
    gap_slot hf (by omega)
  rcases gap_slot_cases hf hf' (gap_lt (show 0 < q.nbTxDesc by omega)
    (slot q.nbTxDesc q.firstDd 32) i) with ⟨h1, e⟩ | ⟨h1, e⟩ <;> omega

end

/-- A cleanup keeps the invariant when 32 descriptors are outstanding. -/
theorem cleaned_handshake {s : Driver} {es : List Event} (hi : HandshakeInv s)
    (ho : 32 ≤ s.txq.outstanding) (hf : s.txq.nbTxFree + 32 < 2 ^ 16)
    (hes : ∀ e ∈ es, e.isMark = false) :
    HandshakeInv { s with txq := s.txq.cleaned, trace := s.trace ++ es } := by
  have hn := cleaned_nextDd hi.conf hi.nextDd_lt hi.nextDd_mod
  have hout := cleaned_outstanding hi.conf hi.tail_lt hi.nextDd_lt hi.nextDd_mod ho
  have hsub := fun i => cleaned_outstanding_of (i := i) hi.conf hi.tail_lt hi.nextDd_lt
    hi.nextDd_mod ho
  have hp : ({ s with txq := s.txq.cleaned, trace := s.trace ++ es } : Driver).passes = s.passes := by
    unfold Driver.passes
    rw [Passes.after_append, Passes.after_unmarked hes]
  have hfree : s.txq.cleaned.nbTxFree = s.txq.nbTxFree + 32 := by
    simp only [IxgbeTxQueue.cleaned, hi.conf.rs_eq]
    exact u16_add (by omega)
  have hm := hi.nextDd_mod
  have hl := hi.nextDd_lt
  obtain ⟨hrs, hdvd, hlo, -, -, -⟩ := hi.conf
  rw [hrs] at hm
  refine ⟨hi.conf, hi.tail_lt, ?_, ?_, hi.nextRs_mod, hi.nextRs_ge, hi.nextRs_lt, ?_, ?_, ?_, ?_⟩
  · change s.txq.cleaned.txNextDd < s.txq.nbTxDesc
    rw [hn]
    split <;> omega
  · change s.txq.cleaned.txNextDd % s.txq.txRsThresh = s.txq.txRsThresh - 1
    rw [hn, hrs]
    split <;> omega
  · change s.txq.cleaned.nbTxFree < 2 ^ 16
    omega
  · have := hi.room
    change s.txq.nbTxDesc - 1 ≤ s.txq.cleaned.nbTxFree + s.txq.cleaned.outstanding
    omega
  · refine ⟨fun i h1 => hi.hand.rs i (hsub i h1), ?_, ?_⟩
    · intro i h1 h2
      rw [Driver.passAt, hp]
      exact hi.hand.posted i (hsub i h1) h2
    · intro i h1 h2
      rw [hp]
      exact hi.hand.dd i (hsub i h1) h2
  · rw [hp]
    exact hi.done

theorem emit_handshake {s : Driver} {es : List Event} (hi : HandshakeInv s)
    (hes : ∀ e ∈ es, e.isMark = false) : HandshakeInv (s.emit es) := by
  have hp : (s.emit es).passes = s.passes := by
    unfold Driver.passes Driver.emit
    rw [Passes.after_append, Passes.after_unmarked hes]
  refine ⟨hi.conf, hi.tail_lt, hi.nextDd_lt, hi.nextDd_mod, hi.nextRs_mod, hi.nextRs_ge,
    hi.nextRs_lt, hi.free_lt, hi.room, ⟨hi.hand.rs, ?_, ?_⟩, ?_⟩
  · intro i h1 h2
    rw [Driver.passAt, hp]
    exact hi.hand.posted i h1 h2
  · intro i h1 h2
    rw [hp]
    exact hi.hand.dd i h1 h2
  · rw [hp]
    exact hi.done

theorem cleanup_unmarked {q : IxgbeTxQueue} {h : Heap} :
    ∀ e ∈ freeSlots h q.ddSlots ++ q.cleanedU16, e.isMark = false := by
  intro e he
  rcases List.mem_append.mp he with he | he
  · exact freeSlots_unmarked e he
  · exact cleanedU16_unmarked e he

theorem fopen_unmarked : ∀ e ∈ [Event.fopen], e.isMark = false := by
  intro e he
  rw [List.mem_singleton] at he
  rw [he]
  rfl

/-- The driver's own guard finds enough descriptors outstanding. -/
theorem prepare_handshake (b : Burst) {s : Driver} (hi : HandshakeInv s) :
    HandshakeInv (prepare b s) := by
  rw [prepare_eq]
  split
  · rename_i hcl
    have hroom := hi.room
    have hc := hi.conf
    simp only [IxgbeTxQueue.cleans, Bool.and_eq_true, decide_eq_true_eq] at hcl
    obtain ⟨-, -, hlo, hhi, hfl, hfh⟩ := hc
    refine cleaned_handshake hi (by omega) (by omega) ?_
    intro e he
    rcases List.mem_cons.mp he with rfl | he
    · rfl
    · exact cleanup_unmarked e he
  · exact emit_handshake hi fopen_unmarked

/-! ## The burst -/

theorem restRs_dd (b : Burst) (c : Cursor) (i : Nat) :
    (restRs b c i).dd = (restRing b c i).dd := by
  unfold restRs
  split
  · by_cases hi : i = c.drv.txq.txNextRs
    · rw [hi, Function.update_self, orRs_dd]
    · rw [Function.update_of_ne hi]
  · rfl

theorem restRs_rs {b : Burst} {c : Cursor} {i : Nat} (h : (restRing b c i).rs = true) :
    (restRs b c i).rs = true := by
  unfold restRs
  split
  · by_cases hi : i = c.drv.txq.txNextRs
    · rw [hi, Function.update_self, orRs_rs]
    · rw [Function.update_of_ne hi]
      exact h
  · exact h

section
variable {b : Burst} {s : Driver}

/-- The state after a call that takes packets, with `m` for its count. -/
structure Counted (b : Burst) (s : Driver) (m : Nat) : Prop where
  taken : nbPkts b s ≠ 0
  counts : (cursor b s).Counts b m
  tail : (cursor b s).txId + m < 2 ^ 16
  free : m ≤ (prepare b s).txq.nbTxFree
  free_lt : (prepare b s).txq.nbTxFree < 2 ^ 16
  nextRs : (cursor b s).drv.txq.txNextRs + (prepare b s).txq.txRsThresh < 2 ^ 16

/-- The fields the handshake is about. -/
theorem Counted.txq {m : Nat} (h : Counted b s m) (hl : Placed s) :
    let q := (ixgbeXmitFixedBurstVec b s).2.txq
    q.nbTxDesc = s.txq.nbTxDesc ∧ q.txRsThresh = s.txq.txRsThresh ∧
    q.txFreeThresh = s.txq.txFreeThresh ∧ q.txNextDd = (prepare b s).txq.txNextDd ∧
    q.txTail = (cursor b s).txId + m ∧ q.nbTxFree = (prepare b s).txq.nbTxFree - m ∧
    q.txRing = restRs b (cursor b s) ∧
    q.txNextRs = (if (cursor b s).txId + m > (cursor b s).drv.txq.txNextRs then
      (cursor b s).drv.txq.txNextRs + s.txq.txRsThresh else (cursor b s).drv.txq.txNextRs) := by
  obtain ⟨-, -, hnb, -, hft, hth, -⟩ := prepare_frame b s
  have hcur : (cursor b s).drv.txq.nbTxDesc = (prepare b s).txq.nbTxDesc ∧
      (cursor b s).drv.txq.txRsThresh = (prepare b s).txq.txRsThresh ∧
      (cursor b s).drv.txq.txFreeThresh = (prepare b s).txq.txFreeThresh ∧
      (cursor b s).drv.txq.txNextDd = (prepare b s).txq.txNextDd ∧
      (cursor b s).drv.txq.nbTxFree = (prepare b s).txq.nbTxFree := by
    rcases hl.cursor_cases h.taken with ⟨-, -, hc⟩ | ⟨m', -, -, -, hc⟩
    · rw [hc]; exact ⟨rfl, rfl, rfl, rfl, rfl⟩
    · rw [hc, xmitRingEnd_txq]; exact ⟨rfl, rfl, rfl, rfl, rfl⟩
  obtain ⟨h1, h2, h3, h4, h5⟩ := hcur
  have hq : (ixgbeXmitFixedBurstVec b s).2.txq = (cursor b s).after b m := by
    rw [burst_pos h.taken]
    exact xmitRest_txq h.counts h.tail (by rw [h5]; exact h.free) (by rw [h5]; exact h.free_lt)
      (by rw [h2]; exact h.nextRs)
  have hring : (ixgbeXmitFixedBurstVec b s).2.txq.txRing = restRs b (cursor b s) := by
    rw [burst_pos h.taken, xmitRest_eq]
  refine ⟨?_, ?_, ?_, ?_, ?_, ?_, hring, ?_⟩ <;> rw [hq] <;> simp only [Cursor.after]
  · rw [h1, hnb]
  · rw [h2, hth]
  · rw [h3, hft]
  · rw [h4]
  · rw [h5]
  · rw [h2, hth]

/-- A descriptor that is still outstanding from before the call is not touched, but for an
RS bit it may gain. -/
theorem Placed.untouched (hl : Placed s) (hk : nbPkts b s ≠ 0) {O j : Nat}
    (hj : j < s.txq.nbTxDesc) (hold : s.txq.nbTxDesc ≤ O + j)
    (hfit : O + processed b s ≤ s.txq.nbTxDesc) :
    restRing b (cursor b s) (slot s.txq.nbTxDesc s.txq.txTail j) =
      s.txq.txRing (slot s.txq.nbTxDesc s.txq.txTail j) ∧
    (ixgbeXmitFixedBurstVec b s).2.passes.posted (slot s.txq.nbTxDesc s.txq.txTail j) =
      s.passes.posted (slot s.txq.nbTxDesc s.txq.txTail j) := by
  have hno : ¬(j < processed b s ∧ b.admits j = true) := by omega
  refine ⟨?_, (((hl.passes hk).2 j hj).2 hno).1⟩
  rw [hl.ring hk hj, if_neg hno]

/-- DD on a posted descriptor stays the NIC's: a store clears it. -/
theorem burst_done (hl : Placed s) (hk : nbPkts b s ≠ 0)
    (h : ∀ i < s.txq.nbTxDesc, s.passes.posted i ≠ none → (s.txq.txRing i).dd = true →
      s.passes.done i = true) :
    ∀ i < s.txq.nbTxDesc, (ixgbeXmitFixedBurstVec b s).2.passes.posted i ≠ none →
      (restRs b (cursor b s) i).dd = true →
      (ixgbeXmitFixedBurstVec b s).2.passes.done i = true := by
  intro i hi hp hd
  have hj := gap_lt (show 0 < s.txq.nbTxDesc by omega) s.txq.txTail i
  have hpass := (hl.passes hk).2 _ hj
  have hring := hl.ring hk hj
  rw [slot_gap hl.tail_lt hi] at hpass hring
  rw [restRs_dd, hring] at hd
  split at hd
  · rw [desc_dd] at hd
    cases hd
  · rename_i hno
    rw [(hpass.2 hno).1] at hp
    rw [(hpass.2 hno).2]
    exact h i hi hp hd

/-- What a call must leave at the outstanding threshold descriptors. -/
def Kept (s : Driver) : Prop :=
  ∀ i, s.txq.Outstanding i → i % 32 = 31 →
    (s.txq.txRing i).rs = true ∧ s.passes.posted i = some (s.passAt i)

/-- The invariant after a call, from its parts. -/
theorem Counted.handshake {m : Nat} (h : Counted b s m) (hs : HandshakeInv s)
    (hp : HandshakeInv (prepare b s)) (htl : (cursor b s).txId + m < s.txq.nbTxDesc)
    (hmod : (ixgbeXmitFixedBurstVec b s).2.txq.txNextRs % 32 = 31)
    (hge : (cursor b s).txId + m ≤ (ixgbeXmitFixedBurstVec b s).2.txq.txNextRs)
    (hlt : (ixgbeXmitFixedBurstVec b s).2.txq.txNextRs < (cursor b s).txId + m + 32)
    (hroom : (prepare b s).txq.outstanding + m ≤ (ixgbeXmitFixedBurstVec b s).2.txq.outstanding)
    (hkept : Kept (ixgbeXmitFixedBurstVec b s).2) :
    HandshakeInv (ixgbeXmitFixedBurstVec b s).2 := by
  have hl : Placed s := ⟨hs.conf, hs.tail_lt⟩
  obtain ⟨q1, q2, q3, q4, q5, q6, q7, -⟩ := h.txq hl
  obtain ⟨-, -, hnb, -, -, hth, -⟩ := prepare_frame b s
  have hdone := burst_done hl h.taken hs.done
  have hrs32 := hs.conf.rs_eq
  refine ⟨?_, ?_, ?_, ?_, hmod, ?_, ?_, ?_, ?_, ⟨?_, ?_, ?_⟩, ?_⟩
  · rw [IxgbeTxQueue.Conf, q1, q2, q3]
    exact hs.conf
  · rw [q1, q5]
    exact htl
  · rw [q1, q4, ← hnb]
    exact hp.nextDd_lt
  · rw [q2, q4, ← hth]
    exact hp.nextDd_mod
  · rw [q5]
    exact hge
  · rw [q5]
    exact hlt
  · have := h.free_lt
    rw [q6]
    omega
  · have h1 := hp.room
    have h2 := h.free
    rw [q1, q6]
    omega
  · rw [q2, hrs32]
    exact fun i h1 h2 => (hkept i h1 h2).1
  · rw [q2, hrs32]
    exact fun i h1 h2 => (hkept i h1 h2).2
  · rw [q2, hrs32]
    intro i h1 h2 hd
    rw [q7] at hd
    refine hdone i (q1 ▸ h1.1) ?_ hd
    rw [(hkept i h1 h2).2]
    exact Option.some_ne_none _
  · rw [q1, q7]
    exact hdone

/-- Where the outstanding descriptors begin in a call, and how many there are. -/
theorem prepared_outstanding (hp : HandshakeInv (prepare b s)) :
    (prepare b s).txq.firstDd < s.txq.nbTxDesc ∧
      (prepare b s).txq.outstanding =
        gap s.txq.nbTxDesc (prepare b s).txq.firstDd s.txq.txTail := by
  obtain ⟨-, -, hnb, htl, -⟩ := prepare_frame b s
  refine ⟨hnb ▸ firstDd_lt hp.nextDd_lt, ?_⟩
  rw [IxgbeTxQueue.outstanding, hnb, htl]

/-- The call leaves the first of them where it is. -/
theorem Counted.firstDd {m : Nat} (h : Counted b s m) (hl : Placed s) :
    (ixgbeXmitFixedBurstVec b s).2.txq.firstDd = (prepare b s).txq.firstDd := by
  obtain ⟨-, -, -, -, -, hth, -⟩ := prepare_frame b s
  obtain ⟨-, q2, -, q4, -⟩ := h.txq hl
  rw [IxgbeTxQueue.firstDd, IxgbeTxQueue.firstDd, q4, q2, hth]

/-- What was outstanding before the call, slot by slot, with the pass it is in. -/
theorem kept_old (hs : HandshakeInv s) (hp : HandshakeInv (prepare b s)) (hk : nbPkts b s ≠ 0)
    (hfit : (prepare b s).txq.outstanding + processed b s ≤ s.txq.nbTxDesc) {i j : Nat}
    (hij : slot s.txq.nbTxDesc s.txq.txTail j = i) (hj : j < s.txq.nbTxDesc)
    (hold : s.txq.nbTxDesc ≤ (prepare b s).txq.outstanding + j) (hi31 : i % 32 = 31) :
    (restRs b (cursor b s) i).rs = true ∧
    (ixgbeXmitFixedBurstVec b s).2.passes.posted i = some (s.passAt i) := by
  have hl : Placed s := ⟨hs.conf, hs.tail_lt⟩
  obtain ⟨hring, -, hnb, htl, -, hth, -⟩ := prepare_frame b s
  obtain ⟨hfd, hO⟩ := prepared_outstanding hp
  have hout : (prepare b s).txq.Outstanding i := by
    refine ⟨?_, ?_⟩
    · rw [hnb, ← hij]
      exact slot_lt (by omega) _ _
    · rw [hnb, ← hij]
      rcases gap_slot_cases hfd hl.tail_lt hj with ⟨h1, e⟩ | ⟨h1, e⟩ <;> omega
  obtain ⟨hu1, hu2⟩ := hl.untouched hk hj hold hfit
  rw [hij] at hu1 hu2
  have hth31 : i % (prepare b s).txq.txRsThresh = (prepare b s).txq.txRsThresh - 1 := by
    rw [hth, hs.conf.rs_eq]
    exact hi31
  have hpo := hp.hand.posted i hout hth31
  have hpr := hp.hand.rs i hout hth31
  rw [Driver.passAt, prepare_passes, htl] at hpo
  rw [hring] at hpr
  exact ⟨restRs_rs (hu1 ▸ hpr), hu2.trans hpo⟩

/-- How far the outstanding descriptors reach when the tail moves by `d` slots. -/
theorem outstanding_after {p q : IxgbeTxQueue} {nb t d : Nat} (hn : q.nbTxDesc = nb)
    (hf : q.firstDd = p.firstDd) (hfd : p.firstDd < nb) (ht : t < nb)
    (hO : p.outstanding = gap nb p.firstDd t) (hq : q.txTail = slot nb t d)
    (hd : p.outstanding + d < nb) : q.outstanding = p.outstanding + d := by
  rw [IxgbeTxQueue.outstanding, hn, hf, hq]
  rcases gap_slot_cases hfd ht (show d < nb by omega) with ⟨-, e⟩ | ⟨h1, -⟩
  · rw [e, hO]
  · omega

/-- A burst that ends before the last descriptor. -/
theorem short_handshake {m : Nat} (hs : HandshakeInv s) (hp : HandshakeInv (prepare b s))
    (h : Counted b s m) (hlt : nbPkts b s < s.txq.nbTxDesc - s.txq.txTail)
    (hfit : (prepare b s).txq.outstanding + nbPkts b s ≤ s.txq.nbTxDesc)
    (hO : (prepare b s).txq.outstanding + m < s.txq.nbTxDesc)
    (htm : s.txq.txTail + m < s.txq.nbTxDesc) (hone : s.txq.txTail + m ≤ s.txq.txNextRs + 32)
    (hpost : s.txq.txNextRs < s.txq.txTail + m →
      s.passes.posted s.txq.txNextRs = some s.passes.pass ∨
        (s.txq.txNextRs - s.txq.txTail < nbPkts b s ∧
          b.admits (s.txq.txNextRs - s.txq.txTail) = true)) :
    HandshakeInv (ixgbeXmitFixedBurstVec b s).2 := by
  have hl : Placed s := ⟨hs.conf, hs.tail_lt⟩
  have ht := hs.tail_lt
  obtain ⟨-, -, -, -, -, -, hnr⟩ := prepare_frame b s
  obtain ⟨q1, -, -, -, q5, -, q7, q8⟩ := h.txq hl
  obtain ⟨hpass, hslots⟩ := hl.passes h.taken
  obtain ⟨hproc, hcur⟩ : processed b s = nbPkts b s ∧
      cursor b s = ⟨s.txq.txTail, 0, nbPkts b s, 0, prepare b s⟩ := by
    rcases hl.cursor_cases h.taken with ⟨-, h1, h2⟩ | ⟨m', h1, -, -, -⟩
    · exact ⟨h1, h2⟩
    · exact absurd hlt (Nat.not_lt_of_le h1)
  have hid : (cursor b s).txId = s.txq.txTail := by rw [hcur]
  have hcnr : (cursor b s).drv.txq.txNextRs = s.txq.txNextRs := by
    rw [hcur]
    exact hnr
  rw [hid, hcnr, hs.conf.rs_eq] at q8
  rw [hid] at q5
  rw [if_pos hlt, Nat.add_zero] at hpass
  have hmod := hs.nextRs_mod
  have hge := hs.nextRs_ge
  have hnlt := hs.nextRs_lt
  obtain ⟨hfd, hO0⟩ := prepared_outstanding hp
  have hfd' := h.firstDd hl
  have hout := outstanding_after q1 hfd' hfd ht hO0 (q5.trans (slot_of_lt htm).symm) hO
  refine h.handshake hs hp (by omega) (by rw [q8]; split <;> omega)
    (by rw [q8]; split <;> omega) (by rw [q8]; split <;> omega) (by omega) ?_
  rintro i ⟨hi, hg⟩ hi31
  rw [q1] at hi hg
  rw [hfd', hout] at hg
  have hj := gap_lt (show 0 < s.txq.nbTxDesc by omega) s.txq.txTail i
  have hij := slot_gap ht hi
  rw [Driver.passAt, q5, q7, hpass]
  generalize gap s.txq.nbTxDesc s.txq.txTail i = j at hj hij
  rcases gap_slot_cases hfd ht hj with ⟨h1, e⟩ | ⟨h1, e⟩ <;> rw [hij, ← hO0] at e
  · -- newly outstanding: it is the descriptor the call marks
    have hslot : i = s.txq.txTail + j := by rw [← hij, slot_of_lt (by omega)]
    have hir : i = s.txq.txNextRs := by omega
    refine ⟨?_, ?_⟩
    · have hgt : restTail b (cursor b s) > (cursor b s).drv.txq.txNextRs := by
        rw [restTail_eq h.counts h.tail, hid, hcnr]
        omega
      rw [restRs, if_pos hgt, hcnr, hir, Function.update_self, orRs_rs]
    · have hsl := hslots j hj
      rw [hij] at hsl
      rw [if_pos (by omega)]
      by_cases hst : j < processed b s ∧ b.admits j = true
      · rw [(hsl.1 hst).1, if_pos (by omega), Nat.add_zero]
      · rw [(hsl.2 hst).1, hir]
        rcases hpost (by omega) with hpo | ⟨h2, h3⟩
        · exact hpo
        · exact absurd ⟨by omega, by rwa [show j = s.txq.txNextRs - s.txq.txTail by omega]⟩ hst
  · -- outstanding from before
    obtain ⟨hr, hpo⟩ := kept_old hs hp h.taken (by omega) hij hj (hO0 ▸ h1) hi31
    have hlt' : i < s.txq.txTail + m ↔ i < s.txq.txTail := by
      rcases slot_cases ht (Nat.le_of_lt hj) with ⟨h2, e2⟩ | ⟨h2, e2⟩ <;> omega
    simp only [hlt']
    exact ⟨hr, hpo⟩

/-- A burst that reaches the last descriptor, which carries RS from the start. -/
theorem long_handshake {m : Nat} (hs : HandshakeInv s) (hp : HandshakeInv (prepare b s))
    (h : Counted b s m) (hge : s.txq.nbTxDesc - s.txq.txTail ≤ nbPkts b s) (hm : m ≤ 31)
    (hlast : b.admits (s.txq.nbTxDesc - s.txq.txTail - 1) = true)
    (hfit : (prepare b s).txq.outstanding + processed b s ≤ s.txq.nbTxDesc)
    (hO : (prepare b s).txq.outstanding + (s.txq.nbTxDesc - s.txq.txTail) + m < s.txq.nbTxDesc) :
    HandshakeInv (ixgbeXmitFixedBurstVec b s).2 := by
  have hl : Placed s := ⟨hs.conf, hs.tail_lt⟩
  have ht := hs.tail_lt
  have hlo := hs.conf.lo
  have hdv := hs.conf.dvd
  have hk32 := hl.nbPkts_le b
  obtain ⟨-, -, -, -, -, hth, -⟩ := prepare_frame b s
  obtain ⟨q1, -, -, -, q5, -, q7, q8⟩ := h.txq hl
  obtain ⟨hpass, hslots⟩ := hl.passes h.taken
  obtain ⟨hproc, hid, hcnr⟩ : s.txq.nbTxDesc - s.txq.txTail ≤ processed b s ∧
      (cursor b s).txId = 0 ∧ (cursor b s).drv.txq.txNextRs = 31 := by
    rcases hl.cursor_cases h.taken with ⟨h1, -, -⟩ | ⟨m', -, -, h2, h3⟩
    · exact absurd h1 (Nat.not_lt_of_le hge)
    · refine ⟨by omega, by rw [h3], ?_⟩
      rw [h3]
      dsimp only
      rw [xmitRingEnd_txq, hth, hs.conf.rs_eq]
      rfl
  rw [hid, Nat.zero_add] at q5
  rw [hid, hcnr, if_neg (by omega)] at q8
  rw [if_neg (by omega)] at hpass
  obtain ⟨hfd, hO0⟩ := prepared_outstanding hp
  have hfd' := h.firstDd hl
  have hm' : m = slot s.txq.nbTxDesc s.txq.txTail (s.txq.nbTxDesc - s.txq.txTail + m) := by
    rw [slot_of_ge (by omega) (by omega)]
    omega
  have hout := outstanding_after q1 hfd' hfd ht hO0 (q5.trans hm') (by omega)
  refine h.handshake hs hp (by omega) (by rw [q8]) (by omega) (by omega) (by omega) ?_
  rintro i ⟨hi, hg⟩ hi31
  rw [q1] at hi hg
  rw [hfd', hout] at hg
  have hj := gap_lt (show 0 < s.txq.nbTxDesc by omega) s.txq.txTail i
  have hij := slot_gap ht hi
  rw [Driver.passAt, q5, q7, hpass]
  generalize gap s.txq.nbTxDesc s.txq.txTail i = j at hj hij
  rcases gap_slot_cases hfd ht hj with ⟨h1, e⟩ | ⟨h1, e⟩ <;> rw [hij, ← hO0] at e
  · -- newly outstanding: behind the wrap there is no threshold descriptor, before it only
    -- the last one of the ring
    have hnext := hs.nextRs_ge
    have hnext' := hs.nextRs_lt
    have hmod := hs.nextRs_mod
    rcases slot_cases ht (Nat.le_of_lt hj) with ⟨h2, e2⟩ | ⟨h2, e2⟩
    · have hlastj : j = s.txq.nbTxDesc - s.txq.txTail - 1 := by omega
      have hst : j < processed b s ∧ b.admits j = true := ⟨by omega, hlastj ▸ hlast⟩
      have hsl := (hslots j hj).1 hst
      have hr := hl.ring h.taken hj
      rw [if_pos hst, hij] at hr
      rw [hij] at hsl
      refine ⟨restRs_rs ?_, ?_⟩
      · rw [hr, flagsAt_rs]
        exact decide_eq_true (by omega)
      · rw [hsl.1, if_pos (by omega), if_neg (by omega)]
        rfl
    · omega
  · -- outstanding from before
    obtain ⟨hr, hpo⟩ := kept_old hs hp h.taken hfit hij hj (hO0 ▸ h1) hi31
    have h2 : i < s.txq.txTail ∧ ¬i < m := by
      rcases slot_cases ht (Nat.le_of_lt hj) with ⟨h2, e2⟩ | ⟨h2, e2⟩ <;> omega
    rw [Driver.passAt, if_pos h2.1] at hpo
    rw [if_neg h2.2]
    exact ⟨hr, hpo⟩

/-- The weighted decisions are what the second half of the call counts. -/
theorem counts_of_weights {c : Cursor} {m : Nat}
    (h : c.num + (c.nbCommit * b.ret + weights (b.decisions c.pkt c.nbCommit)) ≡
      m [ZMOD 2 ^ 16]) : c.Counts b m := by
  have hr := modEq_of_le (v := 16) (by decide)
    (reported_modEq b.ret (b.decisions c.pkt c.nbCommit))
  rw [Burst.decisions_length] at hr
  exact (hr.add_left _).trans h

theorem burst_handshake (hs : HandshakeInv s) (hok : HandshakeSafe s (.burst b)) :
    HandshakeInv (ixgbeXmitFixedBurstVec b s).2 := by
  have hp := prepare_handshake b hs
  have hl : Placed s := ⟨hs.conf, hs.tail_lt⟩
  obtain ⟨-, -, hnb, htl, -, hth, hnr⟩ := prepare_frame b s
  have hroom := hp.room
  have hrs := hs.conf.rs_eq
  have hhi := hs.conf.hi
  have hnlt := hs.nextRs_lt
  have ht := hs.tail_lt
  simp only [HandshakeSafe, hnb, htl, hnr] at hok
  by_cases hk : nbPkts b s = 0
  · rw [burst_zero hk]
    exact hp
  rcases hok with h0 | ⟨hlt, m, hcount, hfit, hO, htm, hone, hpost⟩ |
    ⟨hge, m, hcount, hm, hlast, hfit, hO⟩
  · exact absurd h0 hk
  · rcases hl.cursor_cases hk with ⟨-, -, hc⟩ | ⟨m', h1, -, -, -⟩
    · have hcnt : Counted b s m := by
        refine ⟨hk, counts_of_weights ?_, ?_, by omega, hp.free_lt, ?_⟩
        · rw [hc]
          simpa using hcount
        · rw [hc]
          dsimp only
          omega
        · rw [hc, hth]
          dsimp only
          omega
      exact short_handshake hs hp hcnt hlt hfit hO htm hone hpost
    · exact absurd hlt (Nat.not_lt_of_le h1)
  · rcases hl.cursor_cases hk with ⟨h1, -, -⟩ | ⟨m', -, hm', hproc, hc⟩
    · exact absurd h1 (Nat.not_lt_of_le hge)
    · have hcnr : (cursor b s).drv.txq.txNextRs = 31 := by
        rw [hc]
        dsimp only
        rw [xmitRingEnd_txq, hth, hrs]
        rfl
      have hid : (cursor b s).txId = 0 := by rw [hc]
      have hcnt : Counted b s m := by
        refine ⟨hk, counts_of_weights ?_, by omega, by omega, hp.free_lt, by omega⟩
        rw [hc]
        dsimp only
        rw [hm']
        exact hcount
      exact long_handshake hs hp hcnt hge hm hlast (by omega) (by omega)

end

/-! ## Runs -/

theorem reset_handshake {q : QueueConf} (hc : (Driver.reset q).txq.Conf) :
    HandshakeInv (Driver.reset q) := by
  obtain ⟨ht, hf, hr, hd⟩ := reset_fields hc
  obtain ⟨-, hring, -⟩ := reset_inv hc
  have hO : (Driver.reset q).txq.outstanding = 0 := by
    rw [hring.outstanding_eq, hf]
    exact Nat.sub_self _
  have hno : ∀ i, ¬(Driver.reset q).txq.Outstanding i := by
    rintro i ⟨-, hi⟩
    omega
  have hhi : q.nbTxDesc ≤ 4096 := hc.hi
  refine ⟨hc, hring.tail_lt, hring.nextDd_lt, hring.nextDd_mod, by rw [hr], by omega, by omega,
    by omega, ?_, ⟨fun i h => absurd h (hno i), fun i h => absurd h (hno i),
      fun i h => absurd h (hno i)⟩, fun i _ h => absurd rfl h⟩
  rw [hf, hO]
  exact Nat.le_refl _

theorem nic_handshake {s : Driver} (hs : HandshakeInv s) : HandshakeInv (nicComplete s) := by
  unfold nicComplete
  split
  · exact hs
  · have hp : Passes.after ⟨0, fun _ => none, fun _ => false⟩ (s.trace ++ [.complete s.tdh]) =
        s.passes.next (.complete s.tdh) := by
      rw [Passes.after_append]
      rfl
    have hrs : ∀ i, ((if (s.txq.txRing s.tdh).rs then
        Function.update s.txq.txRing s.tdh (s.txq.txRing s.tdh).orDd else s.txq.txRing) i).rs =
        (s.txq.txRing i).rs := by
      intro i
      split
      · by_cases hi : i = s.tdh
        · rw [hi, Function.update_self, orDd_rs]
        · rw [Function.update_of_ne hi]
      · rfl
    have hdone : ∀ i < s.txq.nbTxDesc, s.passes.posted i ≠ none →
        ((if (s.txq.txRing s.tdh).rs then
          Function.update s.txq.txRing s.tdh (s.txq.txRing s.tdh).orDd
          else s.txq.txRing) i).dd = true →
        (s.passes.next (.complete s.tdh)).done i = true := by
      intro i hi hpo hd
      by_cases hij : i = s.tdh
      · rw [hij]
        exact Function.update_self ..
      · have hn : (s.passes.next (.complete s.tdh)).done i = s.passes.done i :=
          Function.update_of_ne hij ..
        rw [hn]
        refine hs.done i hi hpo ?_
        split at hd
        · rwa [Function.update_of_ne hij] at hd
        · exact hd
    have hpo : (s.passes.next (.complete s.tdh)).posted = s.passes.posted := rfl
    refine ⟨hs.conf, hs.tail_lt, hs.nextDd_lt, hs.nextDd_mod, hs.nextRs_mod, hs.nextRs_ge,
      hs.nextRs_lt, hs.free_lt, hs.room, ⟨?_, ?_,
      ?_⟩, ?_⟩
    · intro i h1 h2
      exact (hrs i).trans (hs.hand.rs i h1 h2)
    · intro i h1 h2
      rw [Driver.passAt, Driver.passes, hp]
      exact hs.hand.posted i h1 h2
    · intro i h1 h2 hd
      rw [Driver.passes, hp]
      refine hdone i h1.1 ?_ hd
      rw [hs.hand.posted i h1 h2]
      exact Option.some_ne_none _
    · intro i h1 h2 hd
      rw [Driver.passes, hp] at h2 ⊢
      exact hdone i h1 (hpo ▸ h2) hd

/-- The step lemma. -/
theorem step_handshake (s : Driver) (op : Op) (hs : HandshakeInv s) (hok : HandshakeSafe s op) :
    HandshakeInv (step s op) := by
  cases op with
  | burst b => exact burst_handshake hs hok
  | freeBufs h =>
    change HandshakeInv (ixgbeTxFreeBufs h s).2
    rw [ixgbeTxFreeBufs_eq]
    split
    · rename_i hdd
      rcases hok with h0 | ⟨ho, hf⟩
      · rw [hdd] at h0
        cases h0
      · exact cleaned_handshake hs ho hf cleanup_unmarked
    · exact hs
  | nic => exact nic_handshake hs

/-- **The handshake holds along every run whose steps meet the condition.** -/
theorem handshake_always {nbDesc : Nat} {txConf : TxConf} {simd128 : Bool} {q : QueueConf}
    (h : ixgbeDevTxQueueSetup nbDesc txConf = .ok q) (hv : ixgbeSetTxFunction simd128 q = .vec)
    {ops : List Op} (hm : Meets step HandshakeSafe (Driver.reset q) ops) :
    Always step Handshake (Driver.reset q) ops :=
  hm.always step_handshake (fun _ hs => hs.hand) (reset_handshake (reset_conf h hv))

/-- Thirty-one packets, counted right from -15 on, and one more: the threshold descriptor 31 is
outstanding with RS set while the NIC is at work. -/
def toThreshold : List Op :=
  [.burst { plainBurst 31 fun _ => some 33 with ret := -15 }, .burst (plainBurst 1 fun _ => some 33),
    .nic]

theorem handshake_always_conf64 :
    Always step Handshake (Driver.reset conf64) toThreshold := by
  refine @handshake_always 64 ⟨0, 0, 0, 0⟩ true conf64 rfl rfl _
    ⟨.inr (.inl ?_), .inr (.inl ?_), trivial, trivial⟩
  · refine ⟨by decide +kernel, 31, ?_, ?_, ?_, ?_, ?_, fun h => absurd h ?_⟩ <;> decide +kernel
  · refine ⟨by decide +kernel, 1, ?_, ?_, ?_, ?_, ?_, fun _ => .inr ⟨?_, ?_⟩⟩ <;> decide +kernel

/-- Nine admitted packets on a fresh queue: RS goes to descriptor 31, which nobody posted. -/
theorem handshake_broken :
    ¬Handshake (step (Driver.reset conf64) (.burst (plainBurst 9 fun _ => some 33))) := by
  intro h
  have hout : (step (Driver.reset conf64)
      (.burst (plainBurst 9 fun _ => some 33))).txq.Outstanding 31 := by
    constructor <;> decide +kernel
  have hp := h.posted 31 hout (by decide +kernel)
  revert hp
  decide +kernel

end P4Switch.Ixgbe
