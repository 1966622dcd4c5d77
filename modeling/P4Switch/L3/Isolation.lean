import P4Switch.L3.Forwarding

/-! # Isolation of frames

The header pointers of a thread survive `rx`. A frame without an IPv4 header is looked up,
and rewritten, through the pointer an earlier frame of the thread left behind. As long as
no such lookup ends with `send`, every frame's fate is a function of the frame and the
table. -/
namespace P4Switch.L3
open P4Switch.Lib.Memory P4Switch.Lib.GuardedRun P4Switch.Ixgbe

section
variable {tbl : Ipv4Host} {s : Engine} {i : ThreadId} {n : Nat}

/-- What isolation asks of a state: each fate is the value of `f` at the frame, a frame
that does not reach `parse_ipv4` is dropped and has nothing rewritten, and no store leaves
the buffer of the frame it is made for. -/
structure Isolated (f : List UInt8 → Verdict) (s : Engine) : Prop where
  verdict : ∀ d ∈ s.done, d.outcome.verdict = f (frameOf d.pkt.mbuf)
  dropped : ∀ d ∈ s.done, ¬ Ipv4Reached (frameOf d.pkt.mbuf) → d.outcome.verdict = .drop
  ownBuffer : ∀ st ∈ s.stores, st.ptr.region = .mbuf st.pkt.handle
  rewritten : ∀ st ∈ s.stores, Ipv4Reached (frameOf st.pkt.mbuf)

/-- The frame reaches `parse_ipv4`. -/
def Reaches (m : RteMbuf) : Prop := Ipv4Reached (frameOf m)

/-- A frame that does not reach `parse_ipv4` finds no `send` entry behind the stale
header pointer. -/
def StaleKeyMisses (tbl : Ipv4Host) (s : Engine) : Op → Prop
  | .exec i => OwnKey tbl Reaches s i
  | .rx _ _ _ => True

instance : DecidablePred Reaches := fun m => inferInstanceAs (Decidable (Ipv4Reached (frameOf m)))

def Action.isSend : Action → Bool
  | .send _ _ => true
  | _ => false

instance (tbl : Ipv4Host) (s : Engine) (op : Op) : Decidable (StaleKeyMisses tbl s op) :=
  match op with
  | .exec i => decidable_of_iff
      ((s.threads i).ip = 10 → 2 ≤ (s.threads i).mailbox.state →
        (s.lookupResult tbl i).isSend → Reaches (s.threads i).pkt.mbuf)
      ⟨fun h _ _ hip hst hr => h hip hst (by rw [hr]; rfl), fun h hip hst hs => by
        cases hr : s.lookupResult tbl i with
        | send port class_ => exact h port class_ hip hst hr
        | noAction => rw [hr] at hs; contradiction
        | drop_1 => rw [hr] at hs; contradiction⟩
  | .rx _ _ _ => inferInstanceAs (Decidable True)

/-- The invariant: every thread at work knows where it stands, and no two of them hold the
same buffer. -/
structure Inv (n : Nat) (tbl : Ipv4Host) (s : Engine) : Prop where
  ports : s.nPortsOut = n
  tracks : ∀ i, (s.threads i).ip ≠ 0 → Tracks tbl Reaches s.mem (s.threads i)
  idle : MailboxIdle s
  distinct : ∀ i j, (s.threads i).ip ≠ 0 → (s.threads j).ip ≠ 0 →
    (s.threads i).pkt.handle = (s.threads j).pkt.handle → i = j
  done : ∀ d ∈ s.done, Meant n tbl Reaches d.pkt.mbuf d.outcome
  stores : ∀ st ∈ s.stores, st.ptr.region = .mbuf st.pkt.handle ∧ Reaches st.pkt.mbuf

theorem inv_build (nPorts : Nat) (tbl : Ipv4Host) : Inv (nPorts + 1) tbl (Engine.build nPorts) where
  ports := rfl
  tracks _ h := (h rfl).elim
  idle _ _ := rfl
  distinct _ _ h := (h rfl).elim
  done d hd := by cases hd
  stores st hs := by cases hs

theorem Reaches.ipv4 {m : RteMbuf} (h : Reaches m) : .ipv4 ∈ parsePath (byteOf m) :=
  ((ipv4Reached_iff m).mp h).1

theorem Meant.verdict {m : RteMbuf} {o : Outcome} (h : Meant n tbl Reaches m o) :
    o.verdict = (l3 tbl (frameOf m)).onPorts n := by
  by_cases hr : Reaches m
  · rw [h.1 hr, Outcome.onPorts_verdict, l3Mbuf_verdict hr]
  · have hl : l3 tbl (frameOf m) = .drop := if_neg hr
    rw [h.2 hr, hl]
    rfl

theorem Inv.isolated (h : Inv n tbl s) : Isolated (fun frame => (l3 tbl frame).onPorts n) s where
  verdict d hd := (h.done d hd).verdict
  dropped d hd hn := by rw [(h.done d hd).2 hn]; rfl
  ownBuffer st hs := (h.stores st hs).1
  rewritten st hs := (h.stores st hs).2

/-- The other threads' part of the invariant when thread `i` has executed an instruction. -/
theorem Inv.keep {s' : Engine} (h : Inv n tbl s) (hk : Keeps Reaches s s' i)
    (hip : (s.threads i).ip ≠ 0) {j : ThreadId} (hj : j ≠ i) (hjip : (s'.threads j).ip ≠ 0) :
    Tracks tbl Reaches s'.mem (s'.threads j) := by
  rw [hk.others j hj] at hjip ⊢
  refine (h.tracks j hjip).frame fun k => hk.mem _ fun he => hj ?_
  exact h.distinct j i hjip hip (Region.mbuf.inj he)

theorem Inv.keep_distinct {s' : Engine} (h : Inv n tbl s) (hk : Keeps Reaches s s' i)
    (hip : (s.threads i).ip ≠ 0) (j k : ThreadId) (hj : (s'.threads j).ip ≠ 0)
    (hk' : (s'.threads k).ip ≠ 0)
    (he : (s'.threads j).pkt.handle = (s'.threads k).pkt.handle) : j = k := by
  have hold : ∀ l, (s'.threads l).ip ≠ 0 → (s.threads l).ip ≠ 0 ∧
      (s'.threads l).pkt.handle = (s.threads l).pkt.handle := by
    intro l hl
    by_cases hli : l = i
    · subst hli
      exact ⟨hip, hk.handle⟩
    · rw [hk.others l hli] at hl ⊢
      exact ⟨hl, rfl⟩
  obtain ⟨hj0, hjh⟩ := hold j hj
  obtain ⟨hk0, hkh⟩ := hold k hk'
  exact h.distinct j k hj0 hk0 (by rw [← hjh, ← hkh, he])

theorem Inv.keep_stores {s' : Engine} (h : Inv n tbl s) (hk : Keeps Reaches s s' i) :
    ∀ st ∈ s'.stores, st.ptr.region = .mbuf st.pkt.handle ∧ Reaches st.pkt.mbuf := by
  obtain e | ⟨st, e, hr, ho⟩ := hk.stores
  · rw [e]
    exact h.stores
  · rw [e]
    intro st' hs
    cases hs with
    | head => exact ⟨hr, ho⟩
    | tail _ hs => exact h.stores st' hs

theorem Inv.exec (h : Inv n tbl s) (hok : OwnKey tbl Reaches s i) : Inv n tbl (s.exec tbl i) := by
  by_cases hip : (s.threads i).ip = 0
  · have : s.exec tbl i = s := by
      rw [exec_of_fetch (c := .rx) (by rw [hip]; rfl)]
      rfl
    rwa [this]
  · cases (h.tracks i hip).advance (fun _ => Reaches.ipv4) hok with
    | next keeps tracks left done =>
      refine ⟨keeps.ports.trans h.ports, ?_, h.idle.exec i, h.keep_distinct keeps hip,
        by rw [done]; exact h.done, h.keep_stores keeps⟩
      intro j hj
      by_cases hji : j = i
      · subst hji
        exact tracks
      · exact h.keep keeps hip hji hj
    | sent keeps idle mailbox left o meant pkt same done =>
      refine ⟨keeps.ports.trans h.ports, ?_, h.idle.exec i, h.keep_distinct keeps hip, ?_,
        h.keep_stores keeps⟩
      · intro j hj
        by_cases hji : j = i
        · subst hji
          exact (hj idle).elim
        · exact h.keep keeps hip hji hj
      · rw [done]
        intro d hd
        cases hd with
        | head => exact same.2 ▸ h.ports ▸ meant
        | tail _ hd => exact h.done d hd

theorem Inv.rx (h : Inv n tbl s) (i : ThreadId) (port : UInt32) (p : Option (MbufPtr × RteMbuf)) :
    Inv n tbl (s.rx i port p) := by
  have hidle := h.idle.rx i port p
  have hports := (rx_ports s i port p).trans h.ports
  obtain e | ⟨t, e, h0, ht0, -⟩ | ⟨handle, m, -, h0, hfree, e⟩ := rx_cases s i port p
  · rwa [e]
  · have hj : ∀ j, ((s.rx i port p).threads j).ip ≠ 0 →
        (s.rx i port p).threads j = s.threads j := by
      intro j hj
      rw [e] at hj ⊢
      by_cases hji : j = i
      · subst hji
        rw [setThread_same] at hj
        exact (hj ht0).elim
      · exact setThread_other s t hji
    refine ⟨hports, ?_, hidle, ?_, by rw [e]; exact h.done, by rw [e]; exact h.stores⟩
    · intro j hjip
      have hmem : (s.rx i port p).mem = s.mem := by rw [e]; rfl
      have hjt := hj j hjip
      rw [hjt] at hjip
      rw [hmem, hjt]
      exact h.tracks j hjip
    · intro j k hjip hkip heq
      have hjt := hj j hjip
      have hkt := hj k hkip
      rw [hjt] at hjip heq
      rw [hkt] at hkip heq
      exact h.distinct j k hjip hkip heq
  · have hi : (s.rx i port p).threads i = (s.threads i).received port handle m := by
      rw [e]; exact setThread_same s i _
    have hj : ∀ j, j ≠ i → (s.rx i port p).threads j = s.threads j := by
      intro j hji
      rw [e]
      exact setThread_other s _ hji
    -- nobody at work holds the buffer that was received
    have hne : ∀ j, j ≠ i → (s.threads j).ip ≠ 0 → (s.threads j).pkt.handle ≠ handle :=
      fun j _ hjip he => hfree ⟨j, hjip, he⟩
    refine ⟨hports, ?_, hidle, ?_, by rw [e]; exact h.done, by rw [e]; exact h.stores⟩
    · intro j hjip
      by_cases hji : j = i
      · subst hji
        rw [hi]
        refine tracks_received (h.idle j (by omega)) port handle m ?_
        intro k
        rw [e]
        exact if_pos rfl
      · rw [hj j hji] at hjip ⊢
        refine (h.tracks j hjip).frame ?_
        intro k
        rw [e]
        exact if_neg fun he => hne j hji hjip (Region.mbuf.inj he)
    · intro j k hjip hkip heq
      by_cases hji : j = i <;> by_cases hki : k = i
      · rw [hji, hki]
      · subst hji
        rw [hj k hki] at hkip heq
        rw [hi] at heq
        exact (hne k hki hkip heq.symm).elim
      · subst hki
        rw [hj j hji] at hjip heq
        rw [hi] at heq
        exact (hne j hji hjip heq).elim
      · rw [hj j hji] at hjip heq
        rw [hj k hki] at hkip heq
        exact h.distinct j k hjip hkip heq

theorem Inv.step (s : Engine) (op : Op) (h : Inv n tbl s) (hok : StaleKeyMisses tbl s op) :
    Inv n tbl (s.step tbl op) := by
  cases op with
  | rx i port p => exact h.rx i port p
  | exec i => exact h.exec hok

/-- Isolation along every run in which no stale lookup ends with `send`: every fate is
that of `l3` on the frame and the table, put on the ports. -/
theorem isolated_always (nPorts : Nat) (tbl : Ipv4Host) (ops : List Op)
    (h : Meets (Engine.step tbl) (StaleKeyMisses tbl) (Engine.build nPorts) ops) :
    Always (Engine.step tbl) (Isolated fun frame => (l3 tbl frame).onPorts (nPorts + 1))
      (Engine.build nPorts) ops :=
  h.always Inv.step (fun _ => Inv.isolated) (inv_build nPorts tbl)

/-- An IPv4 frame and an ARP frame on two threads that take turns. -/
def twoThreads : List Op :=
  .rx 0 0 (some (7, mbufOf (ethernetHeader 8 0 ++ ipv4Packet 8))) ::
  .rx 1 1 (some (8, mbufOf (ethernetHeader 8 6 ++ List.replicate 46 0))) ::
    (List.replicate 10 [Op.exec 0, Op.exec 1]).flatten

theorem isolated_always_twoThreads :
    Always (Engine.step oneEntry) (Isolated fun frame => (l3 oneEntry frame).onPorts 3)
      (Engine.build 2) twoThreads :=
  isolated_always 2 oneEntry twoThreads (by decide +kernel)

/-- An IPv4 frame with a `send` entry followed by an ARP frame, on one thread. -/
def ipv4ThenArp : List Op :=
  .rx 0 0 (some (7, mbufOf (ethernetHeader 8 0 ++ ipv4Packet 8))) :: List.replicate 10 (.exec 0) ++
  .rx 0 0 (some (8, mbufOf (ethernetHeader 8 6 ++ List.replicate 46 0))) ::
    List.replicate 10 (.exec 0)

def arpOnly : List Op :=
  .rx 0 0 (some (8, mbufOf (ethernetHeader 8 6 ++ List.replicate 46 0))) ::
    List.replicate 10 (.exec 0)

/-- The fates of the frames of a run, latest first. -/
def fates (s : Engine) : List (List UInt8 × Verdict) :=
  s.done.map fun d => (frameOf d.pkt.mbuf, d.outcome.verdict)

theorem Isolated.fate {f : List UInt8 → Verdict} (h : Isolated f s) (frame : List UInt8)
    (v : Verdict) (hm : (frame, v) ∈ fates s) : v = f frame := by
  obtain ⟨d, hd, he⟩ := List.mem_map.mp hm
  rw [Prod.mk.injEq] at he
  rw [← he.1, ← he.2]
  exact h.verdict d hd

/-- The ARP frame alone is dropped; behind the IPv4 frame it is sent out on port 1. No
function of frame and table gives both. -/
theorem isolated_broken : ¬ ∀ tbl : Ipv4Host, ∃ f : List UInt8 → Verdict, ∀ ops : List Op,
    Always (Engine.step tbl) (Isolated f) (Engine.build 2) ops := by
  intro hall
  obtain ⟨f, hf⟩ := hall oneEntry
  have halone := (hf arpOnly _ (List.prefix_refl _)).fate
    (ethernetHeader 8 6 ++ List.replicate 46 0) .drop (by decide +kernel)
  have hbehind := (hf ipv4ThenArp _ (List.prefix_refl _)).fate
    (ethernetHeader 8 6 ++ List.replicate 46 0)
    (.tx 1 (ethernetHeader 8 6 ++ List.replicate 46 0)) (by decide +kernel)
  rw [← halone] at hbehind
  contradiction

/-- The ARP frame in buffer 8 was also given a source address, in buffer 7. -/
example : (run (Engine.step oneEntry) (Engine.build 2) ipv4ThenArp).stores.map
    (fun st => (st.pkt.handle, st.ptr.region)) = [(8, .mbuf 7), (7, .mbuf 7)] := by
  decide +kernel

end

end P4Switch.L3
