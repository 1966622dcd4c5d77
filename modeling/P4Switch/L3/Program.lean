import P4Switch.L3.Engine

/-! # The source program and what it means

`l3.p4` as parser, control and deparser over whole frames, next to the meaning of the
program in one line: a frame whose ether types lead to an IPv4 header with a `send` entry
leaves on that port with the class in its source address; any other frame is dropped. -/
namespace P4Switch.L3
open P4Switch.Lib.Memory P4Switch.Ixgbe

/-- The fate of a frame: dropped, or these bytes on that port, or a port that is not there. -/
inductive Verdict where
  | drop
  | tx (port : UInt32) (frame : List UInt8)
  | fault (port : UInt32)
  deriving DecidableEq, Repr

/-! ## `l3.p4` -/

/-- `my_ingress_headers_t`; a header that was not extracted is invalid. -/
structure Headers where
  ethernet : Option (List UInt8)
  vlanTag : Option (List UInt8)
  ipv4 : Option (List UInt8)

/-- `psa_ingress_output_metadata_t`. -/
structure OutputMetadata where
  drop : Bool
  egressPort : UInt32

/-- `pkt.extract`: `none` is the error `PacketTooShort`. -/
def extract (pkt : List UInt8) (n : Nat) : Option (List UInt8 × List UInt8) :=
  if n ≤ pkt.length then some (pkt.splitAt n) else none

def parseIpv4 (hdr : Headers) (pkt : List UInt8) : Option (Headers × List UInt8) := do
  let (h, rest) ← extract pkt 20
  pure ({ hdr with ipv4 := some h }, rest)

def parseVlanTag (hdr : Headers) (pkt : List UInt8) : Option (Headers × List UInt8) := do
  let (h, rest) ← extract pkt 4
  let hdr := { hdr with vlanTag := some h }
  if be16 (h.getD · 0) 2 = 0x0800 then parseIpv4 hdr rest else pure (hdr, rest)

def parseEthernet (pkt : List UInt8) : Option (Headers × List UInt8) := do
  let (h, rest) ← extract pkt 14
  let hdr : Headers := ⟨some h, none, none⟩
  if be16 (h.getD · 0) 12 = 0x8100 then parseVlanTag hdr rest
  else if be16 (h.getD · 0) 12 = 0x0800 then parseIpv4 hdr rest
  else pure (hdr, rest)

/-- `send`, `drop` and `NoAction` of the control. -/
def Action.run (hdr : Headers) (ostd : OutputMetadata) : Action → Headers × OutputMetadata
  | .noAction => (hdr, ostd)
  | .send port class_ =>
    -- a write to a header that is not valid has no effect
    ({ hdr with ipv4 := hdr.ipv4.map fun h => h.take 12 ++ beBytes class_ ++ h.drop 16 },
      { drop := false, egressPort := port })
  | .drop_1 => (hdr, { ostd with drop := true })

/-- `ipv4_host.apply()`. A field of a header that is not valid has an unspecified value. -/
def ingress (tbl : Ipv4Host) (unspecified : UInt32) (hdr : Headers) (ostd : OutputMetadata) :
    Headers × OutputMetadata :=
  let dst_addr := match hdr.ipv4 with
    | some h => be32 (h.getD · 0) 16
    | none => unspecified
  (tbl.lookup dst_addr).run hdr ostd

/-- `pkt.emit(hdr)`, in front of what the parser left. -/
def deparser (hdr : Headers) (rest : List UInt8) : List UInt8 :=
  hdr.ethernet.getD [] ++ hdr.vlanTag.getD [] ++ hdr.ipv4.getD [] ++ rest

/-- `IngressPipeline`: the architecture presets `drop`. -/
def pipe (tbl : Ipv4Host) (unspecified : UInt32) (frame : List UInt8) : Option Verdict := do
  let (hdr, rest) ← parseEthernet frame
  let (hdr, ostd) := ingress tbl unspecified hdr ⟨true, 0⟩
  pure (if ostd.drop then .drop else .tx ostd.egressPort (deparser hdr rest))

/-! ## The meaning -/

def headerBytes (hs : List Header) : Nat := (hs.map Header.nBytes).sum

/-- The headers the ether types of a frame lead to. -/
def parsePath (f : Nat → UInt8) : List Header :=
  if be16 f 12 = 0x8100 then
    if be16 f 16 = 0x800 then [.ethernet, .vlanTag, .ipv4] else [.ethernet, .vlanTag]
  else if be16 f 12 = 0x800 then [.ethernet, .ipv4]
  else [.ethernet]

/-- The start of the IPv4 header, behind the tag if there is one. -/
def ipv4Start (f : Nat → UInt8) : Nat := if be16 f 12 = 0x8100 then 18 else 14

def dstAddr (f : Nat → UInt8) : UInt32 := be32 f (ipv4Start f + 16)

/-- The `send` entry a frame meets. -/
def sendEntry (tbl : Ipv4Host) (f : Nat → UInt8) : Option (UInt32 × UInt32) :=
  if .ipv4 ∈ parsePath f then
    match tbl.lookup (dstAddr f) with
    | .send port class_ => some (port, class_)
    | _ => none
  else none

/-- The four bytes at `start` replaced by `x` in network byte order. -/
def overwriteAddr (f : Nat → UInt8) (start : Nat) (x : UInt32) (k : Nat) : UInt8 :=
  if start ≤ k ∧ k < start + 4 then (beBytes x).getD (k - start) 0 else f k

/-- `parse_ipv4` is reached within the frame. -/
def Ipv4Reached (frame : List UInt8) : Prop :=
  .ipv4 ∈ parsePath (frame.getD · 0) ∧ headerBytes (parsePath (frame.getD · 0)) ≤ frame.length

instance (frame : List UInt8) : Decidable (Ipv4Reached frame) :=
  inferInstanceAs (Decidable (_ ∧ _))

/-- What the program does to a frame. -/
def l3 (tbl : Ipv4Host) (frame : List UInt8) : Verdict :=
  if Ipv4Reached frame then
    match sendEntry tbl (frame.getD · 0) with
    | none => .drop
    | some (port, class_) =>
      .tx port ((List.range frame.length).map
        (overwriteAddr (frame.getD · 0) (ipv4Start (frame.getD · 0) + 12) class_))
  else .drop

/-! ## The same on buffers -/

/-- Byte `k` of the frame in its buffer. -/
def byteOf (m : RteMbuf) (k : Nat) : UInt8 := m.buf (m.dataOff.toNat + k)

/-- The bytes of the frame's first segment; the engine touches no other. -/
def frameOf (m : RteMbuf) : List UInt8 := (List.range m.dataLen.toNat).map (byteOf m)

/-- The buffer with the class in the source address. -/
def setSrcAddr (m : RteMbuf) (class_ : UInt32) : RteMbuf :=
  { m with
    buf := overwriteAddr m.buf (m.dataOff.toNat + (ipv4Start (byteOf m) + 12)) class_ }

/-- What the program does to a frame in its buffer. -/
def l3Mbuf (tbl : Ipv4Host) (m : RteMbuf) : Outcome :=
  match sendEntry tbl (byteOf m) with
  | none => .drop
  | some (port, class_) => .tx port (setSrcAddr m class_)

def Outcome.verdict : Outcome → Verdict
  | .drop => .drop
  | .tx port m => .tx port (frameOf m)
  | .fault port => .fault port

/-! ## The ports

`send` names a port; what becomes of the frame there is up to the `n` output ports of the
pipeline. -/

def Verdict.onPorts (n : Nat) : Verdict → Verdict
  | .tx port frame =>
    if port.toNat + 1 < n then .tx port frame
    else if port.toNat + 1 = n then .drop
    else .fault port
  | v => v

def Outcome.onPorts (n : Nat) : Outcome → Outcome
  | .tx port m => portOutTx n port m
  | o => o

/-- `send` names one of the configured ports or the drop sink behind them. -/
def Action.PortExists (nPorts : Nat) : Action → Prop
  | .send port _ => port.toNat ≤ nPorts
  | _ => True

instance Action.PortExists.decidable (nPorts : Nat) : ∀ a, Decidable (Action.PortExists nPorts a)
  | .noAction => inferInstanceAs (Decidable True)
  | .send port _ => inferInstanceAs (Decidable (port.toNat ≤ nPorts))
  | .drop_1 => inferInstanceAs (Decidable True)

/-- Every entry names a port that exists. -/
def Ipv4Host.PortsExist (tbl : Ipv4Host) (nPorts : Nat) : Prop :=
  ∀ dst, (tbl.lookup dst).PortExists nPorts

/-- A frame of one segment, behind the headroom of its buffer. -/
def mbufOf (frame : List UInt8) : RteMbuf where
  bufIova := 0
  dataOff := 128
  pktLen := UInt32.ofNat frame.length
  dataLen := UInt16.ofNat frame.length
  pool := 0
  next := []
  buf := fun k => if 128 ≤ k then frame.getD (k - 128) 0 else 0

/-- Ethernet addresses and an ether type. -/
def ethernetHeader (hi lo : UInt8) : List UInt8 := [2, 0, 0, 0, 0, 1, 2, 0, 0, 0, 0, 2, hi, lo]

/-- An IPv4 header from 10.0.0.9 to 0.0.0.`dst` and 26 bytes of payload. -/
def ipv4Packet (dst : UInt8) : List UInt8 :=
  [0x45, 0, 0, 46, 0, 0, 0, 0, 64, 17, 0x70, 0xb4, 10, 0, 0, 9, 0, 0, 0, dst] ++
    List.replicate 26 7

end P4Switch.L3
