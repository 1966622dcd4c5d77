import P4Switch.L3.Program

/-! # What a thread knows at each instruction

`Tracks` says, for each instruction, which headers the thread has extracted, where they
lie and what the jumps have told it about the frame. Each instruction of the thread keeps
it, and no instruction of another thread touches it, as long as nobody stores into the
frame's buffer. -/
namespace P4Switch.L3
open P4Switch.Lib.Memory P4Switch.Ixgbe

section
variable {tbl : Ipv4Host} {ok : RteMbuf → Prop} {mem : Mem Region} {t : Thread} {s : Engine}
  {i : ThreadId}

/-- The first byte of the frame. -/
def Pkt.base (p : Pkt) : Addr := ⟨.mbuf p.handle, p.mbuf.dataOff.toNat⟩

/-- The bytes in front of header `h`. -/
def headerStart (hs : List Header) (h : Header) : Nat := headerBytes (hs.takeWhile (· ≠ h))

theorem headerStart_old {hs : List Header} {h : Header} (hm : h ∈ hs) (l : List Header) :
    headerStart (hs ++ l) h = headerStart hs h := by
  induction hs with
  | nil => cases hm
  | cons a hs ih =>
    by_cases ha : a = h
    · simp [headerStart, ha]
    · have hm' : h ∈ hs := (List.mem_cons.mp hm).resolve_left (Ne.symm ha)
      simpa [headerStart, ha, headerBytes] using ih hm'

theorem headerStart_new {hs : List Header} {h : Header} (hm : h ∉ hs) :
    headerStart (hs ++ [h]) h = headerBytes hs := by
  unfold headerStart
  rw [List.takeWhile_append_of_pos (fun a ha => by simpa using ne_of_mem_of_not_mem ha hm)]
  simp

/-- The thread has extracted the headers `hs`, one behind the other. -/
structure Extracted (t : Thread) (hs : List Header) : Prop where
  valid : ∀ h, t.validHeaders h = decide (h ∈ hs)
  structs : ∀ h ∈ hs, t.structs h = t.pkt.base.add (headerStart hs h)
  ptr : t.ptr = t.pkt.base.add (headerBytes hs)
  offset : t.pkt.offset = t.pkt.mbuf.dataOff.toUInt32 + UInt32.ofNat (headerBytes hs)
  length : t.pkt.length = t.pkt.mbuf.pktLen - UInt32.ofNat (headerBytes hs)

/-- The buffer holds what was received. -/
def Clean (mem : Mem Region) (p : Pkt) : Prop := ∀ k, mem ⟨.mbuf p.handle, k⟩ = p.mbuf.buf k

/-- The parser at work: `drop` is preset and the buffer untouched. -/
structure Parsing (mem : Mem Region) (t : Thread) (hs : List Header) : Prop where
  extracted : Extracted t hs
  clean : Clean mem t.pkt
  metaDrop : t.metaDrop = 1

/-- The table has been applied: either it led to a `send`, or the frame is dropped. -/
inductive Resolved (tbl : Ipv4Host) (ok : RteMbuf → Prop) (mem : Mem Region) (t : Thread) : Prop
  | send (port class_ : UInt32) (entry : sendEntry tbl (byteOf t.pkt.mbuf) = some (port, class_))
      (ok : ok t.pkt.mbuf) (metaDrop : t.metaDrop = 0) (egressPort : t.egressPort = port)
      (buf : ∀ k, mem ⟨.mbuf t.pkt.handle, k⟩ = (setSrcAddr t.pkt.mbuf class_).buf k)
  | drop (entry : ok t.pkt.mbuf → sendEntry tbl (byteOf t.pkt.mbuf) = none)
      (metaDrop : t.metaDrop = 1)

/-- The facts at each instruction, by the name of the instruction. -/
inductive AtInstr (tbl : Ipv4Host) (ok : RteMbuf → Prop) (mem : Mem Region) (t : Thread) : Prop
  | movDrop (ip : t.ip = 1) (extracted : Extracted t []) (clean : Clean mem t.pkt)
  | extractEthernet (ip : t.ip = 2) (parsing : Parsing mem t [])
  | jmpVlanTag (ip : t.ip = 3) (parsing : Parsing mem t [.ethernet])
  | jmpIpv4 (ip : t.ip = 4) (parsing : Parsing mem t [.ethernet])
      (untagged : be16 (byteOf t.pkt.mbuf) 12 ≠ 0x8100)
  | jmpAccept (ip : t.ip = 5) (parsing : Parsing mem t [.ethernet])
      (untagged : be16 (byteOf t.pkt.mbuf) 12 ≠ 0x8100)
      (other : be16 (byteOf t.pkt.mbuf) 12 ≠ 0x800)
  | extractVlanTag (ip : t.ip = 6) (parsing : Parsing mem t [.ethernet])
      (tagged : be16 (byteOf t.pkt.mbuf) 12 = 0x8100)
  | jmpTaggedIpv4 (ip : t.ip = 7) (parsing : Parsing mem t [.ethernet, .vlanTag])
      (tagged : be16 (byteOf t.pkt.mbuf) 12 = 0x8100)
  | jmpTaggedAccept (ip : t.ip = 8) (parsing : Parsing mem t [.ethernet, .vlanTag])
      (tagged : be16 (byteOf t.pkt.mbuf) 12 = 0x8100)
      (other : be16 (byteOf t.pkt.mbuf) 16 ≠ 0x800)
  | extractIpv4 (ip : t.ip = 9) (hs : List Header) (parsing : Parsing mem t hs)
      (path : hs ++ [.ipv4] = parsePath (byteOf t.pkt.mbuf))
  | table (ip : t.ip = 10) (parsing : Parsing mem t (parsePath (byteOf t.pkt.mbuf)))
      (key : .ipv4 ∈ parsePath (byteOf t.pkt.mbuf) → t.mailbox.state ≠ 0 →
        t.mailbox.key = dstAddr (byteOf t.pkt.mbuf))
  | jmpDrop (ip : t.ip = 11) (extracted : Extracted t (parsePath (byteOf t.pkt.mbuf)))
      (resolved : Resolved tbl ok mem t)
  | emitTx (ip : t.ip = 12) (extracted : Extracted t (parsePath (byteOf t.pkt.mbuf)))
      (resolved : Resolved tbl ok mem t) (metaDrop : t.metaDrop = 0)
  | drop (ip : t.ip = 13) (resolved : Resolved tbl ok mem t) (metaDrop : t.metaDrop ≠ 0)

/-- The thread knows where it stands; it has emitted nothing yet, and between lookups the
mailbox is at its first visit. -/
structure Tracks (tbl : Ipv4Host) (ok : RteMbuf → Prop) (mem : Mem Region) (t : Thread) : Prop where
  at_ : AtInstr tbl ok mem t
  headersOut : t.headersOut = []
  mailbox : t.ip ≠ 10 → t.mailbox.state = 0

/-! ## Reading the frame -/

theorem Clean.byte {p : Pkt} (h : Clean mem p) (k : Nat) : mem (p.base.add k) = byteOf p.mbuf k :=
  h _

theorem Clean.be16 {p : Pkt} (h : Clean mem p) (k : Nat) :
    mem.be16 (p.base.add k) = Lib.Memory.be16 (byteOf p.mbuf) k := by
  apply be16_congr
  intro d _
  rw [Ptr.add_add, Nat.zero_add]
  exact h.byte (k + d)

theorem Clean.be32 {p : Pkt} (h : Clean mem p) (k : Nat) :
    mem.be32 (p.base.add k) = Lib.Memory.be32 (byteOf p.mbuf) k := by
  apply be32_congr
  intro d _
  rw [Ptr.add_add, Nat.zero_add]
  exact h.byte (k + d)

/-- The ways through the parser. -/
theorem parsePath_cases (f : Nat → UInt8) :
    (be16 f 12 = 0x8100 ∧ be16 f 16 = 0x800 ∧ parsePath f = [.ethernet, .vlanTag, .ipv4]) ∨
    (be16 f 12 = 0x8100 ∧ be16 f 16 ≠ 0x800 ∧ parsePath f = [.ethernet, .vlanTag]) ∨
    (be16 f 12 ≠ 0x8100 ∧ be16 f 12 = 0x800 ∧ parsePath f = [.ethernet, .ipv4]) ∨
    (be16 f 12 ≠ 0x8100 ∧ be16 f 12 ≠ 0x800 ∧ parsePath f = [.ethernet]) := by
  unfold parsePath
  split <;> split <;> simp_all

theorem parsePath_nodup (f : Nat → UInt8) : (parsePath f).Nodup := by
  rcases parsePath_cases f with ⟨-, -, e⟩ | ⟨-, -, e⟩ | ⟨-, -, e⟩ | ⟨-, -, e⟩ <;> rw [e] <;> decide

/-- The IPv4 header starts behind all the others. -/
theorem ipv4Start_eq {f : Nat → UInt8} (h : .ipv4 ∈ parsePath f) :
    headerStart (parsePath f) .ipv4 = ipv4Start f := by
  unfold ipv4Start
  rcases parsePath_cases f with ⟨ht, -, e⟩ | ⟨ht, -, e⟩ | ⟨ht, -, e⟩ | ⟨ht, -, e⟩
  · simp [ht, e, headerStart, headerBytes, Header.nBytes]
  · simp [e] at h
  · simp [ht, e, headerStart, headerBytes, Header.nBytes]
  · simp [e] at h

/-! ## One header -/

theorem Extracted.extract {hs : List Header} (x : Extracted t hs) {h : Header} (hn : h ∉ hs) :
    Extracted (t.next.extract h) (hs ++ [h]) := by
  have hb : headerBytes (hs ++ [h]) = headerBytes hs + h.nBytes := by simp [headerBytes]
  constructor
  · intro h'
    simp only [Thread.extract, Thread.next, x.valid, List.mem_append, List.mem_singleton]
    by_cases he : h' = h <;> simp [he]
  · intro h' hm
    show (if h' = h then t.ptr else t.structs h') = t.pkt.base.add (headerStart (hs ++ [h]) h')
    by_cases he : h' = h
    · subst he
      rw [if_pos rfl, headerStart_new hn, x.ptr]
    · have hm' : h' ∈ hs := by simpa [he] using hm
      rw [if_neg he, headerStart_old hm', x.structs h' hm']
  · show t.ptr.add h.nBytes = t.pkt.base.add (headerBytes (hs ++ [h]))
    rw [x.ptr, Ptr.add_add, hb]
  · show t.pkt.offset + UInt32.ofNat h.nBytes = _
    rw [x.offset, hb, UInt32.ofNat_add, UInt32.add_assoc]
    rfl
  · show t.pkt.length - UInt32.ofNat h.nBytes = _
    rw [x.length, hb, UInt32.ofNat_add]
    show _ = t.pkt.mbuf.pktLen - _
    grind

/-- The three headers the program emits, of those a parser path left valid, are one block
from the start of the frame. -/
theorem Extracted.emitMany {f : Nat → UInt8} (x : Extracted t (parsePath f))
    (ho : t.headersOut = []) :
    ((t.emitMany i [.ethernet, .vlanTag, .ipv4]).headersOut).map
      (fun o => (o.ptr, o.nBytes)) = [(t.pkt.base, headerBytes (parsePath f))] := by
  obtain ⟨v, st, -, -, -⟩ := x
  rcases parsePath_cases f with ⟨-, -, e⟩ | ⟨-, -, e⟩ | ⟨-, -, e⟩ | ⟨-, -, e⟩ <;> rw [e] at v st ⊢ <;>
    simp [Thread.emitMany, ho, emitHeader, v, st, headerStart, headerBytes, Header.nBytes]

/-- Putting the extracted bytes back restores the frame's start and lengths. -/
theorem Extracted.tx_grow {hs : List Header} (x : Extracted t hs) :
    (t.pkt.grow (headerBytes hs)).tx mem =
      { t.pkt.mbuf with buf := fun k => mem ⟨.mbuf t.pkt.handle, k⟩ } := by
  have ho : t.pkt.offset - UInt32.ofNat (headerBytes hs) = t.pkt.mbuf.dataOff.toUInt32 := by
    rw [x.offset, UInt32.add_sub_cancel]
  have hl : t.pkt.length + UInt32.ofNat (headerBytes hs) = t.pkt.mbuf.pktLen := by
    rw [x.length, UInt32.sub_add_cancel]
  have hd : t.pkt.mbuf.pktLen + t.pkt.mbuf.dataLen.toUInt32 - t.pkt.mbuf.pktLen =
      t.pkt.mbuf.dataLen.toUInt32 := by grind
  simp only [Pkt.grow, Pkt.tx, ho, hl, hd, UInt16.toUInt16_toUInt32]

/-- The fused `emit`s and `tx` after the parser: nothing is stored, the frame leaves as it
stands in its buffer. -/
theorem emitTx_eq {f : Nat → UInt8} (x : Extracted (s.threads i) (parsePath f))
    (ho : (s.threads i).headersOut = []) :
    s.emitTx i [.ethernet, .vlanTag, .ipv4] =
      (s.setThread i ((s.threads i).emitMany i [.ethernet, .vlanTag, .ipv4])).finish i
        (portOutTx s.nPortsOut (s.threads i).egressPort { (s.threads i).pkt.mbuf with
          buf := fun k => s.mem ⟨.mbuf (s.threads i).pkt.handle, k⟩ }) := by
  have hm := x.emitMany (i := i) ho
  obtain ⟨h0, hh⟩ : ∃ h0, ((s.threads i).emitMany i [.ethernet, .vlanTag, .ipv4]).headersOut = [h0] :=
    List.length_eq_one_iff.mp (by simpa using congrArg List.length hm)
  rw [hh] at hm
  simp only [List.map_cons, List.map_nil, List.cons.injEq, Prod.mk.injEq, and_true] at hm
  have hh' : ((s.threads i).emitMany i [.ethernet, .vlanTag, .ipv4]).emitHandler s.mem =
      (none, (s.threads i).pkt.grow (headerBytes (parsePath f))) := by
    unfold Thread.emitHandler
    rw [hh]
    simp only [hm.1, hm.2]
    exact if_pos x.ptr.symm
  unfold Engine.emitTx
  simp only [hh', setThread_mem, x.tx_grow]
  rfl

end

end P4Switch.L3
