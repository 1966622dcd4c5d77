import P4Switch.Ixgbe.Queue

/-! # Inverse-linear admission

`bufferManagementInverseLinear` works out a QoS threshold from the free space and then
compares the packet's QoS with zero. The quotient in the threshold is one of integers: it is
one when the free space is 1 and zero at every other free space. -/
namespace P4Switch.Ixgbe

/-- `qos_threshold` for the free space read. -/
def qosThreshold (FIFO_SIZE : Int) : Int :=
  let qos_threshold := 1000 * Int.tdiv 1 (|FIFO_SIZE - 1| + 1)
  if qos_threshold > 150 then 120 else qos_threshold

/-- The decision, and what is left in `current_QoS`. `scan` is what `fscanf` finds in the
file, `fifo` what the uninitialised `FIFO_SIZE` happens to hold. -/
def bufferManagementInverseLinear (pkt : RteMbuf) (scan : Option Int) (fifo : Int) : Bool × Int :=
  let packet_QoS := pkt.currentQoS
  let _qos_threshold := qosThreshold (scan.getD fifo)
  if packet_QoS > 0 then (true, packet_QoS) else (false, packet_QoS)

section
variable {F F' : Int} (fifo : Int) (pkt : RteMbuf) (scan : Option Int)

theorem qosThreshold_one : qosThreshold 1 = 120 := by decide

theorem qosThreshold_of_ne (h : F ≠ 1) : qosThreshold F = 0 := by
  have hpos : 0 < |F - 1| := abs_pos.mpr (sub_ne_zero.mpr h)
  have hq : Int.tdiv 1 (|F - 1| + 1) = 0 := Int.tdiv_eq_zero_of_lt (by decide) (by omega)
  unfold qosThreshold
  rw [hq]
  rfl

theorem qosThreshold_nonneg (F : Int) : 0 ≤ qosThreshold F := by
  by_cases h : F = 1
  · rw [h, qosThreshold_one]
    decide
  · rw [qosThreshold_of_ne h]

theorem currentQoS_nonneg : 0 ≤ pkt.currentQoS := Int.natCast_nonneg _

/-- What is read from the file does not matter. -/
theorem inverseLinear_send :
    (bufferManagementInverseLinear pkt scan fifo).1 = true ↔ 0 < pkt.currentQoS := by
  unfold bufferManagementInverseLinear
  dsimp only
  split
  · rename_i h
    exact iff_of_true rfl h
  · rename_i h
    exact iff_of_false Bool.false_ne_true h

/-- The threshold falls as the free space grows, except from 0 to 1. -/
theorem qosThreshold_antitone (h0 : 0 ≤ F) (hle : F ≤ F') :
    qosThreshold F' ≤ qosThreshold F ↔ ¬(F = 0 ∧ F' = 1) := by
  by_cases h1 : F' = 1
  · subst h1
    rw [qosThreshold_one]
    by_cases hF : F = 1
    · subst hF
      exact iff_of_true (le_of_eq qosThreshold_one.symm) (by decide)
    · rw [qosThreshold_of_ne hF]
      exact iff_of_false (by decide) (not_not_intro ⟨by omega, rfl⟩)
  · rw [qosThreshold_of_ne h1]
    exact iff_of_true (qosThreshold_nonneg F) (fun h => h1 h.2)

/-- The decision is the threshold's when no packet lies between zero and the threshold. -/
theorem send_iff_threshold :
    ((bufferManagementInverseLinear pkt (some F) fifo).1 = true ↔
      qosThreshold F < pkt.currentQoS) ↔
    (F = 1 → pkt.currentQoS = 0 ∨ 120 < pkt.currentQoS) := by
  have hq := currentQoS_nonneg pkt
  rw [inverseLinear_send]
  by_cases h : F = 1
  · subst h
    rw [qosThreshold_one]
    constructor
    · intro hiff _
      by_cases hz : pkt.currentQoS = 0
      · exact .inl hz
      · exact .inr (hiff.mp (by omega))
    · intro himp
      obtain hz | hgt := himp rfl
      · rw [hz]
        decide
      · exact iff_of_true (by omega) hgt
  · rw [qosThreshold_of_ne h]
    exact iff_of_true Iff.rfl (fun h1 => absurd h1 h)

end

/-- Admission by a QoS threshold that falls from free space `F` to free space `F'`. -/
structure ByThreshold (F F' : Int) (pkt : RteMbuf) (fifo : Int) : Prop where
  decision : (bufferManagementInverseLinear pkt (some F) fifo).1 = true ↔
    qosThreshold F < pkt.currentQoS
  antitone : qosThreshold F' ≤ qosThreshold F
  space : (bufferManagementInverseLinear pkt (some F) fifo).1 = true →
    (bufferManagementInverseLinear pkt (some F') fifo).1 = true
  qos : ∀ pkt' : RteMbuf, pkt.currentQoS ≤ pkt'.currentQoS →
    (bufferManagementInverseLinear pkt (some F) fifo).1 = true →
    (bufferManagementInverseLinear pkt' (some F) fifo).1 = true

/-- **Inverse-linear admission goes by its threshold** except at free space 1, for a QoS
between 1 and 120, and from free space 0 to free space 1. -/
theorem byThreshold_iff {F F' : Int} (h0 : 0 ≤ F) (hle : F ≤ F') (pkt : RteMbuf) (fifo : Int) :
    ByThreshold F F' pkt fifo ↔
      (F = 1 → pkt.currentQoS = 0 ∨ 120 < pkt.currentQoS) ∧ ¬(F = 0 ∧ F' = 1) := by
  rw [← send_iff_threshold fifo pkt, ← qosThreshold_antitone h0 hle]
  constructor
  · intro h
    exact ⟨h.decision, h.antitone⟩
  · rintro ⟨hd, ha⟩
    refine ⟨hd, ha, ?_, ?_⟩
    · intro hs
      exact (inverseLinear_send ..).mpr ((inverseLinear_send ..).mp hs)
    · intro pkt' hle' hs
      exact (inverseLinear_send ..).mpr (((inverseLinear_send ..).mp hs).trans_le hle')

/-- A packet with this QoS byte. -/
def qosPacket (qos : UInt8) : RteMbuf := ⟨0, 0, 60, 60, 0, [], fun _ => qos⟩

theorem byThreshold_iff_between :
    ByThreshold 5 7 (qosPacket 50) 0 ↔
      ((5 : Int) = 1 → (qosPacket 50).currentQoS = 0 ∨ 120 < (qosPacket 50).currentQoS) ∧
        ¬((5 : Int) = 0 ∧ (7 : Int) = 1) :=
  byThreshold_iff (by decide) (by decide) (qosPacket 50) 0

/-- At free space 1 the threshold is 120, and a packet with QoS 50 is let through. -/
theorem byThreshold_broken :
    ¬∀ (F F' : Int) (pkt : RteMbuf) (fifo : Int), 0 ≤ F → F ≤ F' → ByThreshold F F' pkt fifo := by
  intro h
  have hd := (h 1 1 (qosPacket 50) 0 (by decide) (by decide)).decision
  revert hd
  decide

end P4Switch.Ixgbe
