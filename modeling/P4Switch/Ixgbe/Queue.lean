import P4Switch.QosBuffer
import P4Switch.Lib.MachineInt

/-! # The transmit queue and its set-up

The fields of `struct ixgbe_tx_queue` that the transmit path reads, the descriptors, and
the checks by which `ixgbe_dev_tx_queue_setup` accepts a queue and
`ixgbe_set_tx_function` chooses the vector path. A ring is a function of the index, so
that an access past `nb_tx_desc` reads and writes the memory behind the ring, as in C. -/
namespace P4Switch.Ixgbe
open P4Switch.QosBuffer P4Switch.Lib.MachineInt

/-! ## Packets and descriptors -/

/-- The address of an mbuf. `NULL` is `none` wherever it can occur. -/
abbrev MbufPtr := Nat

/-- The fields of `struct rte_mbuf` that the transmit path reads. `next` lists the
segments chained behind this one. -/
structure RteMbuf where
  bufIova : UInt64
  dataOff : UInt16
  pktLen : UInt32
  dataLen : UInt16
  pool : Nat
  next : List MbufPtr
  buf : Nat → UInt8

/-- `union ixgbe_adv_tx_desc`, read format. `wb.status` overlays `olinfo_status`. -/
structure AdvTxDesc where
  bufferAddr : Nat
  cmdTypeLen : Nat
  olinfoStatus : Nat
  deriving DecidableEq, Repr

def AdvTxDesc.status (d : AdvTxDesc) : Nat := d.olinfoStatus

def IXGBE_ADVTXD_STAT_DD : Nat := 0x00000001
def IXGBE_ADVTXD_DCMD_RS : Nat := 0x08000000
/-- `IXGBE_ADVTXD_DTYP_DATA | DCMD_IFCS | DCMD_DEXT | DCMD_EOP`. -/
def DCMD_DTYP_FLAGS : Nat := 0x00300000 ||| 0x02000000 ||| 0x20000000 ||| 0x01000000
def IXGBE_ADVTXD_PAYLEN_SHIFT : Nat := 14

/-- The RS bit of a posted descriptor. -/
def AdvTxDesc.rs (d : AdvTxDesc) : Bool := d.cmdTypeLen.testBit 27

/-- The DD bit of a descriptor. -/
def AdvTxDesc.dd (d : AdvTxDesc) : Bool := d.status.testBit 0

def AdvTxDesc.orRs (d : AdvTxDesc) : AdvTxDesc :=
  { d with cmdTypeLen := d.cmdTypeLen ||| IXGBE_ADVTXD_DCMD_RS }

def AdvTxDesc.orDd (d : AdvTxDesc) : AdvTxDesc :=
  { d with olinfoStatus := d.olinfoStatus ||| IXGBE_ADVTXD_STAT_DD }

/-- `_mm_set_epi64x(pkt_len << 46 | flags | data_len, buf_iova + data_off)`, cut into the
three fields of the descriptor. -/
def RteMbuf.desc (m : RteMbuf) (flags : Nat) : AdvTxDesc where
  bufferAddr := (m.bufIova.toNat + m.dataOff.toNat) % 2 ^ 64
  cmdTypeLen := flags ||| m.dataLen.toNat
  olinfoStatus := (m.pktLen.toNat <<< IXGBE_ADVTXD_PAYLEN_SHIFT) % 2 ^ 32

@[simp] theorem orRs_rs (d : AdvTxDesc) : d.orRs.rs = true := by
  simp only [AdvTxDesc.orRs, AdvTxDesc.rs, Nat.testBit_or, Bool.or_eq_true]
  exact .inr (by decide)

@[simp] theorem orDd_rs (d : AdvTxDesc) : d.orDd.rs = d.rs := rfl

@[simp] theorem orRs_dd (d : AdvTxDesc) : d.orRs.dd = d.dd := rfl

@[simp] theorem orRs_olinfoStatus (d : AdvTxDesc) : d.orRs.olinfoStatus = d.olinfoStatus := rfl

theorem testBit_dataLen (m : RteMbuf) : m.dataLen.toNat.testBit 27 = false :=
  Nat.testBit_lt_two_pow (Nat.lt_of_lt_of_le m.dataLen.toNat_lt (by decide))

/-- A descriptor stored with the plain flags does not ask for a report. -/
@[simp] theorem desc_rs_plain (m : RteMbuf) : (m.desc DCMD_DTYP_FLAGS).rs = false := by
  simp only [RteMbuf.desc, AdvTxDesc.rs, Nat.testBit_or, testBit_dataLen, Bool.or_false]
  decide

@[simp] theorem desc_rs_report (m : RteMbuf) :
    (m.desc (IXGBE_ADVTXD_DCMD_RS ||| DCMD_DTYP_FLAGS)).rs = true := by
  simp only [RteMbuf.desc, AdvTxDesc.rs, Nat.testBit_or, testBit_dataLen, Bool.or_false]
  decide

/-- Storing a descriptor clears DD: the payload length starts at bit 14. -/
@[simp] theorem desc_dd (m : RteMbuf) (flags : Nat) : (m.desc flags).dd = false := by
  simp [RteMbuf.desc, AdvTxDesc.dd, AdvTxDesc.status, IXGBE_ADVTXD_PAYLEN_SHIFT]

/-- The integer `current_QoS` the driver reads from the frame. -/
def RteMbuf.currentQoS (m : RteMbuf) : Int := (m.buf (m.dataOff.toNat + CoS_OFFSET)).toNat

/-! ## The queue -/

/-- The fields of `struct ixgbe_tx_queue` used on the vector path. -/
structure IxgbeTxQueue where
  txRing : Nat → AdvTxDesc
  swRingV : Nat → Option MbufPtr
  nbTxDesc : Nat
  txTail : Nat
  txFreeThresh : Nat
  txRsThresh : Nat
  nbTxFree : Nat
  txNextDd : Nat
  txNextRs : Nat

/-! ## Set-up -/

/-- The fields of `struct rte_eth_txconf` the set-up looks at, with the port's transmit
offloads already OR-ed in. -/
structure TxConf where
  txRsThresh : Nat
  txFreeThresh : Nat
  wthresh : Nat
  offloads : Nat

inductive Errno where
  | einval
  deriving DecidableEq, Repr

/-- What the set-up writes into the queue before it is reset. -/
structure QueueConf where
  nbTxDesc : Nat
  txRsThresh : Nat
  txFreeThresh : Nat
  offloads : Nat
  deriving DecidableEq, Repr

def IXGBE_TXD_ALIGN : Nat := 128 / 16
def IXGBE_MIN_RING_DESC : Nat := 32
def IXGBE_MAX_RING_DESC : Nat := 4096
def DEFAULT_TX_RS_THRESH : Nat := 32
def DEFAULT_TX_FREE_THRESH : Nat := 32
def RTE_PMD_IXGBE_TX_MAX_BURST : Nat := 32
def RTE_IXGBE_TX_MAX_FREE_BUF_SZ : Nat := 64

/-- The parameter checks of `ixgbe_dev_tx_queue_setup`, in its order; the allocations
are taken to succeed. -/
def ixgbeDevTxQueueSetup (nbDesc : Nat) (txConf : TxConf) : Except Errno QueueConf :=
  if nbDesc % IXGBE_TXD_ALIGN ≠ 0 ∨ nbDesc > IXGBE_MAX_RING_DESC ∨
      nbDesc < IXGBE_MIN_RING_DESC then .error .einval
  else
    let txFreeThresh :=
      if txConf.txFreeThresh ≠ 0 then txConf.txFreeThresh else DEFAULT_TX_FREE_THRESH
    let txRsThresh :=
      if DEFAULT_TX_RS_THRESH + txFreeThresh > nbDesc then u16 ((nbDesc : Int) - txFreeThresh)
      else DEFAULT_TX_RS_THRESH
    let txRsThresh := if txConf.txRsThresh > 0 then txConf.txRsThresh else txRsThresh
    if txRsThresh + txFreeThresh > nbDesc then .error .einval
    else if (txRsThresh : Int) ≥ (nbDesc : Int) - 2 then .error .einval
    else if txRsThresh > DEFAULT_TX_RS_THRESH then .error .einval
    else if (txFreeThresh : Int) ≥ (nbDesc : Int) - 3 then .error .einval
    else if txRsThresh > txFreeThresh then .error .einval
    else if nbDesc % txRsThresh ≠ 0 then .error .einval
    else if txRsThresh > 1 ∧ txConf.wthresh ≠ 0 then .error .einval
    else .ok ⟨nbDesc, txRsThresh, txFreeThresh, txConf.offloads⟩

inductive TxPath where
  | vec
  | simple
  | full
  deriving DecidableEq, Repr

/-- `ixgbe_set_tx_function`; `simd128` is the outcome of the SIMD bit width test. The
vector set-up of a primary process succeeds, as the software ring has been allocated. -/
def ixgbeSetTxFunction (simd128 : Bool) (q : QueueConf) : TxPath :=
  if q.offloads = 0 ∧ q.txRsThresh ≥ RTE_PMD_IXGBE_TX_MAX_BURST then
    if q.txRsThresh ≤ RTE_IXGBE_TX_MAX_FREE_BUF_SZ ∧ simd128 then .vec else .simple
  else .full

/-- A queue configuration on the vector path. -/
structure VecConf (nb rs free : Nat) : Prop where
  rs_eq : rs = 32
  dvd : nb % 32 = 0
  lo : 64 ≤ nb
  hi : nb ≤ 4096
  free_lo : 32 ≤ free
  free_hi : free + 32 ≤ nb

/-- The thresholds are those of an accepted vector queue. -/
def IxgbeTxQueue.Conf (q : IxgbeTxQueue) : Prop := VecConf q.nbTxDesc q.txRsThresh q.txFreeThresh

theorem check_passed {ε α : Type} {p : Prop} [Decidable p] {e : ε} {x : Except ε α} {a : α} :
    (if p then .error e else x) = .ok a ↔ ¬p ∧ x = .ok a := by
  split <;> simp_all

/-- The accepted configurations that select the vector path: the thresholds leave room
for exactly one RS distance, 32, which divides a ring of at least 64 descriptors. -/
theorem setup_vec {nbDesc : Nat} {txConf : TxConf} {simd128 : Bool} {q : QueueConf}
    (h : ixgbeDevTxQueueSetup nbDesc txConf = .ok q)
    (hv : ixgbeSetTxFunction simd128 q = .vec) :
    VecConf q.nbTxDesc q.txRsThresh q.txFreeThresh := by
  have hrs : 32 ≤ q.txRsThresh := by
    unfold ixgbeSetTxFunction at hv
    split at hv
    · rename_i hc; exact hc.2
    · contradiction
  simp only [ixgbeDevTxQueueSetup, check_passed] at h
  simp only [IXGBE_TXD_ALIGN, IXGBE_MAX_RING_DESC, IXGBE_MIN_RING_DESC] at h
  generalize (if txConf.txFreeThresh ≠ 0 then txConf.txFreeThresh else DEFAULT_TX_FREE_THRESH)
    = free at h
  generalize (if txConf.txRsThresh > 0 then txConf.txRsThresh else _) = rs at h
  obtain ⟨hd, hsum, _, hmax, _, hle, hdvd, _, hq⟩ := h
  have hq := Except.ok.inj hq
  subst hq
  simp only [DEFAULT_TX_RS_THRESH] at hrs hmax ⊢
  have hrs' : rs = 32 := by omega
  subst hrs'
  exact ⟨rfl, by omega, by omega, by omega, by omega, by omega⟩

/-- `_ixgbe_reset_tx_queue_vec`: zeroed descriptors with DD set, empty software ring. -/
def ixgbeResetTxQueueVec (q : QueueConf) : IxgbeTxQueue where
  txRing := fun i => if i < q.nbTxDesc then ⟨0, 0, IXGBE_ADVTXD_STAT_DD⟩ else ⟨0, 0, 0⟩
  swRingV := fun _ => none
  nbTxDesc := q.nbTxDesc
  txFreeThresh := q.txFreeThresh
  txRsThresh := q.txRsThresh
  txNextDd := u16 ((q.txRsThresh : Int) - 1)
  txNextRs := u16 ((q.txRsThresh : Int) - 1)
  txTail := 0
  nbTxFree := u16 ((q.nbTxDesc : Int) - 1)

/-- The set-up of the shipped script: 64 descriptors, everything else at its default. -/
def conf64 : QueueConf := ⟨64, 32, 32, 0⟩

theorem conf64_conf : (ixgbeResetTxQueueVec conf64).Conf := by
  refine ⟨rfl, rfl, ?_, ?_, ?_, ?_⟩ <;> decide

end P4Switch.Ixgbe
