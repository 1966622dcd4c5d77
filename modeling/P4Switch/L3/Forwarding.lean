import P4Switch.L3.Effects
import P4Switch.L3.Meaning
import P4Switch.L3.Steps

/-! # The l3 program on IPv4 traffic

A thread that receives a frame whose parser path ends in an IPv4 header sends it on, or
drops it, as the table says for the frame's own destination, whatever the pipeline has
processed before and whatever other threads do meanwhile outside the frame's buffer. -/
namespace P4Switch.L3
open P4Switch.Lib.Memory P4Switch.Lib.GuardedRun P4Switch.Ixgbe

section
variable {tbl : Ipv4Host} {s : Engine} {i j : ThreadId} {handle : MbufPtr} {m : RteMbuf}
  {D : List Done} {n nPorts : Nat}

def Op.isExec (i : ThreadId) : Op → Bool
  | .exec j => j = i
  | .rx _ _ _ => false

/-- The frames thread `i` has sent on or dropped. -/
def doneBy (i : ThreadId) (s : Engine) : List Done := s.done.filter fun d => d.thread = i

/-- The step is thread `i`'s own, or it leaves the buffer's bytes as they are. -/
def Undisturbed (tbl : Ipv4Host) (i : ThreadId) (handle : MbufPtr) (s : Engine) : Op → Prop
  | .exec j => j = i ∨ ∀ k, (s.exec tbl j).mem ⟨.mbuf handle, k⟩ = s.mem ⟨.mbuf handle, k⟩
  | .rx _ _ _ => True

/-- The instructions an IPv4 frame takes from `rx` to the end. -/
def blockLength (m : RteMbuf) : Nat := 10 + if be16 (byteOf m) 12 = 0x8100 then 1 else 0

/-- The frame has an IPv4 header. -/
def IsIpv4 (m : RteMbuf) : Prop := .ipv4 ∈ parsePath (byteOf m)

/-- Thread `i` is `n` instructions away from sending on the frame `m`; at zero it has. -/
def Progress (tbl : Ipv4Host) (i : ThreadId) (handle : MbufPtr) (m : RteMbuf) (D : List Done) :
    Nat → Engine → Prop
  | 0, s => ∃ pkt o, Meant s.nPortsOut tbl IsIpv4 m o ∧ pkt.handle = handle ∧ pkt.mbuf = m ∧
      doneBy i s = ⟨i, pkt, o⟩ :: D
  | n + 1, s => Tracks tbl IsIpv4 s.mem (s.threads i) ∧ (s.threads i).left = n + 1 ∧
      (s.threads i).pkt.handle = handle ∧ (s.threads i).pkt.mbuf = m ∧ doneBy i s = D

theorem Progress.own (h : Progress tbl i handle m D (n + 1) s) (hm : IsIpv4 m) :
    Progress tbl i handle m D n (s.exec tbl i) := by
  obtain ⟨ht, hl, hh, hb, hd⟩ := h
  have hown : OwnKey tbl IsIpv4 s i := fun _ _ _ _ _ => by rw [hb]; exact hm
  cases ht.advance (fun _ hm => hm) hown with
  | next keeps tracks left done =>
    have hl' : ((s.exec tbl i).threads i).left = n := by omega
    cases n with
    | zero =>
      have hpos : 0 < ((s.exec tbl i).threads i).left := tracks.left_pos
      omega
    | succ n =>
      exact ⟨tracks, hl', keeps.handle.trans hh, keeps.mbuf.trans hb,
        by rw [← hd, doneBy, doneBy, done]⟩
  | sent keeps idle mailbox left o meant pkt same done =>
    have hn : n = 0 := by omega
    subst hn
    exact ⟨pkt, o, keeps.ports ▸ hb ▸ meant, same.1.trans hh, same.2.trans hb,
      by simp [doneBy, done, ← hd]⟩

/-- The other thread may look at another table. -/
theorem Progress.other {tbl' : Ipv4Host} (h : Progress tbl i handle m D n s) (hj : j ≠ i)
    (hm : ∀ k, (s.exec tbl' j).mem ⟨.mbuf handle, k⟩ = s.mem ⟨.mbuf handle, k⟩) :
    Progress tbl i handle m D n (s.exec tbl' j) := by
  have he := effect_exec tbl' s j
  have hd : doneBy i (s.exec tbl' j) = doneBy i s := by
    obtain hd | ⟨pkt, o, hd⟩ := he.done
    · rw [doneBy, doneBy, hd]
    · simp [doneBy, hd, hj]
  cases n with
  | zero =>
    obtain ⟨pkt, o, hmeant, hh, hb, hdone⟩ := h
    exact ⟨pkt, o, he.ports ▸ hmeant, hh, hb, hd.trans hdone⟩
  | succ n =>
    obtain ⟨ht, hl, hh, hb, hdone⟩ := h
    have hi := he.others i hj.symm
    refine ⟨?_, by rwa [hi], by rwa [hi], by rwa [hi], hd.trans hdone⟩
    rw [hi]
    exact ht.frame fun k => by rw [hh]; exact hm k

theorem Progress.rx (h : Progress tbl i handle m D n s) (j : ThreadId) (port : UInt32)
    (p : Option (MbufPtr × RteMbuf)) : Progress tbl i handle m D n (s.rx j port p) := by
  cases n with
  | zero =>
    obtain ⟨pkt, o, hmeant, hh, hb, hdone⟩ := h
    refine ⟨pkt, o, (rx_ports s j port p).symm ▸ hmeant, hh, hb, ?_⟩
    obtain e | ⟨t, e, -⟩ | ⟨handle', m', -, -, -, e⟩ := rx_cases s j port p <;>
      rw [e] <;> exact hdone
  | succ n =>
    obtain ⟨ht, hl, hh, hb, hdone⟩ := h
    have hip := ht.at_.ip_ne_zero
    -- the thread in flight is not the one that receives
    have hji : (s.threads j).ip = 0 → i ≠ j := fun h0 he => hip (he ▸ h0)
    obtain e | ⟨t, e, h0, -⟩ | ⟨handle', m', -, h0, hfree, e⟩ := rx_cases s j port p
    · rw [e]
      exact ⟨ht, hl, hh, hb, hdone⟩
    · have hi : (s.rx j port p).threads i = s.threads i := by
        rw [e]; exact setThread_other s t (hji h0)
      have hmem : (s.rx j port p).mem = s.mem := by rw [e]; rfl
      have hd : (s.rx j port p).done = s.done := by rw [e]; rfl
      refine ⟨by rwa [hi, hmem], by rwa [hi], by rwa [hi], by rwa [hi], by rwa [doneBy, hd]⟩
    · have hi : (s.rx j port p).threads i = s.threads i := by
        rw [e]; exact setThread_other s _ (hji h0)
      have hd : (s.rx j port p).done = s.done := by rw [e]; rfl
      have hne : (s.threads i).pkt.handle ≠ handle' := fun he => hfree ⟨i, hip, he⟩
      refine ⟨?_, by rwa [hi], by rwa [hi], by rwa [hi], by rwa [doneBy, hd]⟩
      rw [hi]
      refine ht.frame ?_
      intro k
      rw [e]
      exact if_neg fun he => hne (Region.mbuf.inj he)

/-- The run lemma: as many instructions of the thread as the frame takes. -/
theorem Progress.run (hm : IsIpv4 m) {ops : List Op} (h : Progress tbl i handle m D n s)
    (hu : Meets (Engine.step tbl) (Undisturbed tbl i handle) s ops)
    (hn : ops.countP (Op.isExec i) = n) :
    Progress tbl i handle m D 0 (run (Engine.step tbl) s ops) := by
  induction ops generalizing s n with
  | nil =>
    subst hn
    exact h
  | cons op ops ih =>
    cases op with
    | rx j port p => exact ih (h.rx j port p) hu.2 (by simpa [Op.isExec] using hn)
    | exec j =>
      by_cases hj : j = i
      · subst hj
        obtain ⟨k, rfl⟩ : ∃ k, n = k + 1 := ⟨ops.countP (Op.isExec j), by
          rw [← hn]; simp [Op.isExec]⟩
        exact ih (h.own hm) hu.2 (by simpa [Op.isExec] using hn)
      · exact ih (h.other hj (hu.1.resolve_left hj)) hu.2 (by simpa [Op.isExec, hj] using hn)

/-- Receiving the frame. -/
theorem progress_rx (hmail : (s.threads i).mailbox.state = 0) (port : UInt32)
    (hidle : (s.threads i).ip = 0) (hfree : ¬ s.InFlight handle) :
    Progress tbl i handle m (doneBy i s) (blockLength m) (s.rx i port (some (handle, m))) := by
  have hblock : blockLength m = (9 + if be16 (byteOf m) 12 = 0x8100 then 1 else 0) + 1 := by
    unfold blockLength; omega
  have he : s.rx i port (some (handle, m)) = { s.setThread i ((s.threads i).received port handle m) with
      mem := fun q => if q.region = .mbuf handle then m.buf q.off else s.mem q } :=
    if_pos (And.intro hidle hfree)
  rw [hblock, he]
  refine ⟨?_, ?_, ?_, ?_, rfl⟩
  · show Tracks tbl IsIpv4 _ ((s.setThread i _).threads i)
    rw [setThread_same]
    exact tracks_received (s := { s with mem := _ }) hmail port handle m fun k => if_pos rfl
  · show ((s.setThread i _).threads i).left = _
    rw [setThread_same, ← hblock]
    rfl
  · show ((s.setThread i _).threads i).pkt.handle = handle
    rw [setThread_same]
    rfl
  · show ((s.setThread i _).threads i).pkt.mbuf = m
    rw [setThread_same]
    rfl

/-- Receiving the frame after any earlier traffic. -/
theorem progress_received (before : List Op) (port : UInt32)
    (hidle : ((run (Engine.step tbl) (Engine.build nPorts) before).threads i).ip = 0)
    (hfree : ¬ (run (Engine.step tbl) (Engine.build nPorts) before).InFlight handle) :
    Progress tbl i handle m (doneBy i (run (Engine.step tbl) (Engine.build nPorts) before))
      (blockLength m)
      ((run (Engine.step tbl) (Engine.build nPorts) before).rx i port (some (handle, m))) :=
  progress_rx (mailboxIdle_run tbl nPorts before i (by omega)) port hidle hfree

/-- With no other thread at work in between there is nothing to disturb the frame. -/
theorem undisturbed_alone (n : Nat) (s : Engine) :
    Meets (Engine.step tbl) (Undisturbed tbl i handle) s (List.replicate n (.exec i)) := by
  induction n generalizing s with
  | zero => trivial
  | succ n ih => exact ⟨.inl rfl, ih _⟩

theorem l3Mbuf_of_send {port class_ : UInt32} (hm : IsIpv4 m)
    (h : tbl.lookup (dstAddr (byteOf m)) = .send port class_) :
    l3Mbuf tbl m = .tx port (setSrcAddr m class_) := by
  have he : sendEntry tbl (byteOf m) = some (port, class_) := by
    have hm' : .ipv4 ∈ parsePath (byteOf m) := hm
    simp [sendEntry, hm', h]
  simp [l3Mbuf, he]

theorem l3Mbuf_of_not_send (h : ∀ port class_, tbl.lookup (dstAddr (byteOf m)) ≠ .send port class_) :
    l3Mbuf tbl m = .drop := by
  simp [l3Mbuf, sendEntry_eq_none fun port class_ _ => h port class_]

/-- `send` to a configured port. -/
theorem onPorts_of_lt {port : UInt32} {m : RteMbuf} (h : port.toNat < nPorts) :
    (Outcome.tx port m).onPorts (nPorts + 1) = .tx port m := if_pos (by omega)

/-- `send` to the last port. -/
theorem onPorts_of_eq {port : UInt32} {m : RteMbuf} (h : port.toNat = nPorts) :
    (Outcome.tx port m).onPorts (nPorts + 1) = .drop :=
  (if_neg (by omega)).trans (if_pos (by omega))

/-- What is sent out leaves on the port it was sent to. -/
theorem portOutTx_eq_tx {k : Nat} {port out : UInt32} {m m' : RteMbuf}
    (h : portOutTx k port m = .tx out m') : out = port ∧ m' = m := by
  unfold portOutTx at h
  split at h
  · cases h
    exact ⟨rfl, rfl⟩
  · split at h <;> cases h

/-- The outcome `o` of the frame `m` on `nPorts` configured ports: a `send` entry for one of them
sends it out there with the class as its source address and everything else unchanged, one for
the drop sink and any other action drop it, and it is what `l3.p4` computes, on these ports. -/
structure Forwarded (nPorts : Nat) (tbl : Ipv4Host) (unspecified : UInt32) (m : RteMbuf)
    (o : Outcome) : Prop where
  sent : ∀ out class_, tbl.lookup (dstAddr (byteOf m)) = .send out class_ → out.toNat < nPorts →
    ∃ m', o = .tx out m' ∧ SentWith class_ m m'
  sunk : ∀ out class_, tbl.lookup (dstAddr (byteOf m)) = .send out class_ → out.toNat = nPorts →
    o = .drop
  dropped : (∀ out class_, tbl.lookup (dstAddr (byteOf m)) ≠ .send out class_) → o = .drop
  program : (pipe tbl unspecified (frameOf m)).map (Verdict.onPorts (nPorts + 1)) = some o.verdict

theorem forwarded_l3Mbuf (nPorts : Nat) (tbl : Ipv4Host) (unspecified : UInt32)
    (hip : Ipv4Reached (frameOf m)) :
    Forwarded nPorts tbl unspecified m ((l3Mbuf tbl m).onPorts (nPorts + 1)) := by
  have hm : IsIpv4 m := ((ipv4Reached_iff m).mp hip).1
  constructor
  case sent =>
    intro out class_ hs hlt
    rw [l3Mbuf_of_send hm hs]
    exact ⟨_, onPorts_of_lt hlt, sentWith_setSrcAddr m class_⟩
  case sunk =>
    intro out class_ hs heq
    rw [l3Mbuf_of_send hm hs]
    exact onPorts_of_eq heq
  case dropped =>
    intro hns
    rw [l3Mbuf_of_not_send hns]
    rfl
  case program =>
    rw [pipe_eq_l3 unspecified hip, Outcome.onPorts_verdict, l3Mbuf_verdict hip]
    rfl

/-- The ports when the frame has gone its way. -/
theorem ports_received (before ops : List Op) (port : UInt32) (p : Option (MbufPtr × RteMbuf)) :
    (run (Engine.step tbl)
      ((run (Engine.step tbl) (Engine.build nPorts) before).rx i port p) ops).nPortsOut =
        nPorts + 1 := by
  rw [run_ports, rx_ports, run_ports]
  rfl

/-- The frame has been sent on or dropped as the program means it. -/
theorem sent_on {before ops : List Op} {port : UInt32}
    (hidle : ((run (Engine.step tbl) (Engine.build nPorts) before).threads i).ip = 0)
    (hfree : ¬ (run (Engine.step tbl) (Engine.build nPorts) before).InFlight handle)
    (hm : IsIpv4 m)
    (hu : Meets (Engine.step tbl) (Undisturbed tbl i handle)
      ((run (Engine.step tbl) (Engine.build nPorts) before).rx i port (some (handle, m))) ops)
    (hn : ops.countP (Op.isExec i) = blockLength m) :
    ∃ pkt, pkt.handle = handle ∧ pkt.mbuf = m ∧
      doneBy i (run (Engine.step tbl)
        ((run (Engine.step tbl) (Engine.build nPorts) before).rx i port (some (handle, m))) ops) =
          ⟨i, pkt, (l3Mbuf tbl m).onPorts (nPorts + 1)⟩ ::
            doneBy i (run (Engine.step tbl) (Engine.build nPorts) before) := by
  obtain ⟨pkt, o, hmeant, hh, hb, hd⟩ := (progress_received before port hidle hfree).run hm hu hn
  rw [ports_received] at hmeant
  exact ⟨pkt, hh, hb, by rw [hd, hmeant.1 hm]⟩

/-- With entries for ports that exist, an IPv4 frame is forwarded as its entry says, and no frame
of the run is handed past the last port. -/
theorem ipv4_endToEnd (nPorts : Nat) (tbl : Ipv4Host) (unspecified : UInt32) (before ops : List Op)
    (i : ThreadId) (port : UInt32) (handle : MbufPtr) (m : RteMbuf)
    (hports : tbl.PortsExist nPorts)
    (hidle : ((run (Engine.step tbl) (Engine.build nPorts) before).threads i).ip = 0)
    (hfree : ¬ (run (Engine.step tbl) (Engine.build nPorts) before).InFlight handle)
    (hip : Ipv4Reached (frameOf m))
    (hu : Meets (Engine.step tbl) (Undisturbed tbl i handle)
      ((run (Engine.step tbl) (Engine.build nPorts) before).rx i port (some (handle, m))) ops)
    (hn : ops.countP (Op.isExec i) = blockLength m) :
    ∃ pkt o, pkt.handle = handle ∧ pkt.mbuf = m ∧
      doneBy i (run (Engine.step tbl)
        ((run (Engine.step tbl) (Engine.build nPorts) before).rx i port (some (handle, m))) ops) =
          ⟨i, pkt, o⟩ :: doneBy i (run (Engine.step tbl) (Engine.build nPorts) before) ∧
      Forwarded nPorts tbl unspecified m o ∧
      ∀ d ∈ (run (Engine.step tbl)
        ((run (Engine.step tbl) (Engine.build nPorts) before).rx i port (some (handle, m))) ops).done,
        ∀ out, d.outcome ≠ .fault out := by
  have hm : IsIpv4 m := ((ipv4Reached_iff m).mp hip).1
  have hfit := portsFit_run hports ((portsFit_run hports (portsFit_build nPorts) before).rx i port
    (some (handle, m))) ops
  obtain ⟨pkt, hh, hb, hd⟩ := sent_on hidle hfree hm hu hn
  exact ⟨pkt, _, hh, hb, hd, forwarded_l3Mbuf nPorts tbl unspecified hip, hfit.done⟩

/-- The table after `match 0x00000008 action send port 0x1 class 276`. -/
def oneEntry : Ipv4Host where
  entry := fun key => if key = 8 then some (.send 1 276) else none
  sameBucket := fun _ _ => false

/-- Traffic the thread has seen before: an ARP frame and an IPv4 frame with no entry. -/
def earlierTraffic : List Op :=
  .rx 0 0 (some (7, mbufOf (ethernetHeader 8 6 ++ List.replicate 46 0))) ::
    List.replicate 10 (.exec 0) ++
  .rx 0 0 (some (8, mbufOf (ethernetHeader 8 0 ++ ipv4Packet 2))) :: List.replicate 10 (.exec 0)

theorem oneEntry_ports : oneEntry.PortsExist 2 := by
  intro dst
  unfold Ipv4Host.lookup oneEntry
  dsimp only
  split
  · exact (by decide : Action.PortExists 2 (.send 1 276))
  · trivial

theorem ipv4_endToEnd_tagged :
    ∃ pkt o, pkt.handle = 7 ∧
      doneBy 0 (run (Engine.step oneEntry)
        ((run (Engine.step oneEntry) (Engine.build 2) earlierTraffic).rx 0 0
          (some (7, mbufOf (ethernetHeader 0x81 0 ++ [0, 5, 8, 0] ++ ipv4Packet 8))))
        (List.replicate 11 (.exec 0))) =
          ⟨0, pkt, o⟩ :: doneBy 0 (run (Engine.step oneEntry) (Engine.build 2) earlierTraffic) ∧
      ∃ m', o = .tx 1 m' ∧
        SentWith 276 (mbufOf (ethernetHeader 0x81 0 ++ [0, 5, 8, 0] ++ ipv4Packet 8)) m' := by
  obtain ⟨pkt, o, hh, -, hd, hf, -⟩ := ipv4_endToEnd 2 oneEntry 0 earlierTraffic
    (List.replicate 11 (.exec 0)) 0 0 7
    (mbufOf (ethernetHeader 0x81 0 ++ [0, 5, 8, 0] ++ ipv4Packet 8)) oneEntry_ports
    (by decide +kernel) (by decide +kernel) (by decide +kernel) (undisturbed_alone 11 _)
    (by decide +kernel)
  exact ⟨pkt, o, hh, hd, hf.sent 1 276 (by decide +kernel) (by decide)⟩

/-- Every IPv4 frame with a `send` entry is sent out on the entry's port. -/
def SendsOnPort (tbl : Ipv4Host) (s : Engine) : Prop :=
  ∀ d ∈ s.done, Ipv4Reached (frameOf d.pkt.mbuf) →
    ∀ port class_, tbl.lookup (dstAddr (byteOf d.pkt.mbuf)) = .send port class_ →
      ∃ m', d.outcome = .tx port m'

/-- The table after `match 0x00000008 action send port 0x2 class 276`. -/
def sinkEntry : Ipv4Host where
  entry := fun key => if key = 8 then some (.send 2 276) else none
  sameBucket := fun _ _ => false

def Outcome.isDrop : Outcome → Bool
  | .drop => true
  | _ => false

/-- On the two ports of the shipped script port 2 is the drop sink. -/
theorem ipv4_endToEnd_broken : ¬ ∀ (tbl : Ipv4Host) (ops : List Op),
    SendsOnPort tbl (run (Engine.step tbl) (Engine.build 2) ops) := by
  intro hall
  have hs := hall sinkEntry (.rx 0 0 (some (7, mbufOf (ethernetHeader 8 0 ++ ipv4Packet 8))) ::
    List.replicate 10 (.exec 0))
  obtain ⟨d, hd, hr, he, hdrop⟩ : ∃ d ∈ (run (Engine.step sinkEntry) (Engine.build 2)
      (.rx 0 0 (some (7, mbufOf (ethernetHeader 8 0 ++ ipv4Packet 8))) ::
        List.replicate 10 (.exec 0))).done,
      Ipv4Reached (frameOf d.pkt.mbuf) ∧
        sinkEntry.lookup (dstAddr (byteOf d.pkt.mbuf)) = .send 2 276 ∧ d.outcome.isDrop := by
    decide +kernel
  obtain ⟨m', ho⟩ := hs d hd hr 2 276 he
  rw [ho] at hdrop
  cases hdrop

end

end P4Switch.L3
