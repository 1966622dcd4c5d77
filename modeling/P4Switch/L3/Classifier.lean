import P4Switch.L3.Forwarding

/-! # The class in the frame and the QoS in the driver

The `send` action leaves the class in the four bytes of the source address; the driver
reads one byte at a fixed offset from the start of the frame. -/
namespace P4Switch.L3
open P4Switch.Lib.Memory P4Switch.Lib.GuardedRun P4Switch.QosBuffer P4Switch.Ixgbe

section
variable {tbl : Ipv4Host} {i : ThreadId} {handle : MbufPtr} {m : RteMbuf} {class_ : UInt32}

/-- The frame carries an 802.1Q tag. -/
def Tagged (m : RteMbuf) : Prop := be16 (byteOf m) 12 = 0x8100

instance (m : RteMbuf) : Decidable (Tagged m) := inferInstanceAs (Decidable (_ = _))

/-- When the byte at `CoS_OFFSET` is the class: in an untagged frame it is the last byte of
the class, in a tagged one the low byte of the IPv4 checksum. -/
def QosReadsClass (m : RteMbuf) (class_ : UInt32) : Prop :=
  if Tagged m then (byteOf m CoS_OFFSET).toNat = class_.toNat else class_.toNat < 256

theorem currentQoS_eq (m : RteMbuf) : m.currentQoS = (byteOf m CoS_OFFSET).toNat := rfl

theorem currentQoS_untagged (h : ¬ Tagged m) :
    (setSrcAddr m class_).currentQoS = (class_.toNat % 256 : Nat) := by
  have hs : ipv4Start (byteOf m) = 14 := if_neg h
  rw [currentQoS_eq, byteOf_setSrcAddr, hs]
  simp [overwriteAddr, CoS_OFFSET, beBytes]

theorem currentQoS_tagged (h : Tagged m) :
    (setSrcAddr m class_).currentQoS = (byteOf m CoS_OFFSET).toNat := by
  have hs : ipv4Start (byteOf m) = 18 := if_pos h
  rw [currentQoS_eq, byteOf_setSrcAddr, hs, overwriteAddr, if_neg (by decide)]

theorem currentQoS_iff (m : RteMbuf) (class_ : UInt32) :
    (setSrcAddr m class_).currentQoS = class_.toNat ↔ QosReadsClass m class_ := by
  unfold QosReadsClass
  split
  · rename_i h
    rw [currentQoS_tagged h]
    exact Int.natCast_inj
  · rename_i h
    rw [currentQoS_untagged h]
    omega

/-- A frame forwarded with a `send` entry leaves with its class as QoS if and only if it is
untagged and the class is below 256, or the byte of a tagged frame happens to equal it. -/
theorem currentQoS_eq_class_iff (nPorts : Nat) (tbl : Ipv4Host) (before ops : List Op)
    (i : ThreadId) (port out class_ : UInt32) (handle : MbufPtr) (m : RteMbuf)
    (hidle : ((run (Engine.step tbl) (Engine.build nPorts) before).threads i).ip = 0)
    (hfree : ¬ (run (Engine.step tbl) (Engine.build nPorts) before).InFlight handle)
    (hip : Ipv4Reached (frameOf m))
    (hsend : tbl.lookup (dstAddr (byteOf m)) = .send out class_)
    (hu : Meets (Engine.step tbl) (Undisturbed tbl i handle)
      ((run (Engine.step tbl) (Engine.build nPorts) before).rx i port (some (handle, m))) ops)
    (hn : ops.countP (Op.isExec i) = blockLength m) :
    ∃ pkt o, pkt.handle = handle ∧ pkt.mbuf = m ∧
      doneBy i (run (Engine.step tbl)
        ((run (Engine.step tbl) (Engine.build nPorts) before).rx i port (some (handle, m))) ops) =
          ⟨i, pkt, o⟩ :: doneBy i (run (Engine.step tbl) (Engine.build nPorts) before) ∧
      (out.toNat < nPorts → ∃ m', o = .tx out m') ∧
      ∀ out' m', o = .tx out' m' → (m'.currentQoS = class_.toNat ↔ QosReadsClass m class_) := by
  have hm : IsIpv4 m := ((ipv4Reached_iff m).mp hip).1
  obtain ⟨pkt, hh, hb, hd⟩ := sent_on hidle hfree hm hu hn
  rw [l3Mbuf_of_send hm hsend] at hd
  refine ⟨pkt, _, hh, hb, hd, fun hlt => ⟨_, onPorts_of_lt hlt⟩, ?_⟩
  intro out' m' ho
  rw [(portOutTx_eq_tx ho).2]
  exact currentQoS_iff m class_

theorem currentQoS_eq_class_iff_entry8 :
    ∃ pkt m', pkt.handle = 7 ∧
      doneBy 0 (run (Engine.step oneEntry)
        ((run (Engine.step oneEntry) (Engine.build 2) earlierTraffic).rx 0 0
          (some (7, mbufOf (ethernetHeader 8 0 ++ ipv4Packet 8)))) (List.replicate 10 (.exec 0))) =
          ⟨0, pkt, .tx 1 m'⟩ ::
            doneBy 0 (run (Engine.step oneEntry) (Engine.build 2) earlierTraffic) ∧
      (m'.currentQoS = 276 ↔
        QosReadsClass (mbufOf (ethernetHeader 8 0 ++ ipv4Packet 8)) 276) := by
  obtain ⟨pkt, o, hh, -, hd, hsent, hq⟩ := currentQoS_eq_class_iff 2 oneEntry earlierTraffic
    (List.replicate 10 (.exec 0)) 0 0 1 276 7 (mbufOf (ethernetHeader 8 0 ++ ipv4Packet 8))
    (by decide +kernel) (by decide +kernel) (by decide +kernel) (by decide +kernel)
    (undisturbed_alone 10 _) (by decide +kernel)
  obtain ⟨m', ho⟩ := hsent (by decide)
  exact ⟨pkt, m', hh, by rw [hd, ho], hq 1 m' ho⟩

/-- Every IPv4 frame forwarded with an entry carries the entry's class as its QoS. -/
def QosIsClass (tbl : Ipv4Host) (s : Engine) : Prop :=
  ∀ d ∈ s.done, Ipv4Reached (frameOf d.pkt.mbuf) →
    ∀ port class_ out m', tbl.lookup (dstAddr (byteOf d.pkt.mbuf)) = .send port class_ →
      d.outcome = .tx out m' → m'.currentQoS = class_.toNat

/-- The QoS the driver reads from a frame that was sent on. -/
def Outcome.qos : Outcome → Option Int
  | .tx _ m => some m.currentQoS
  | _ => none

/-- The shipped entry for 0.0.0.8 has class 276; the driver reads 20. -/
theorem currentQoS_broken : ¬ ∀ (tbl : Ipv4Host) (ops : List Op),
    QosIsClass tbl (run (Engine.step tbl) (Engine.build 2) ops) := by
  intro hall
  have hq := hall oneEntry (.rx 0 0 (some (7, mbufOf (ethernetHeader 8 0 ++ ipv4Packet 8))) ::
    List.replicate 10 (.exec 0))
  obtain ⟨d, hd, hr, he, h20⟩ : ∃ d ∈ (run (Engine.step oneEntry) (Engine.build 2)
      (.rx 0 0 (some (7, mbufOf (ethernetHeader 8 0 ++ ipv4Packet 8))) ::
        List.replicate 10 (.exec 0))).done,
      Ipv4Reached (frameOf d.pkt.mbuf) ∧
        oneEntry.lookup (dstAddr (byteOf d.pkt.mbuf)) = .send 1 276 ∧ d.outcome.qos = some 20 := by
    decide +kernel
  cases ho : d.outcome with
  | drop | fault _ => rw [ho] at h20; contradiction
  | tx out m' =>
    have h276 : m'.currentQoS = (276 : UInt32).toNat := hq d hd hr 1 276 out m' he ho
    rw [ho] at h20
    have : some m'.currentQoS = some 20 := h20
    rw [h276] at this
    contradiction

end

end P4Switch.L3
