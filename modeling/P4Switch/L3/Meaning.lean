import P4Switch.L3.Tracks

/-! # The source program, frames and buffers

The meaning of a frame depends on its own bytes only, so it is the same in a buffer that
holds more behind the frame; and on frames whose IPv4 header the parser reaches it is what
parser, control and deparser of `l3.p4` compute. -/
namespace P4Switch.L3
open P4Switch.Lib.Memory P4Switch.Ixgbe

section
variable {tbl : Ipv4Host} {f g : Nat → UInt8} {n : Nat}

/-! ## The bytes the parser looks at -/

theorem headerBytes_ge (f : Nat → UInt8) : 14 ≤ headerBytes (parsePath f) := by
  rcases parsePath_cases f with ⟨-, -, e⟩ | ⟨-, -, e⟩ | ⟨-, -, e⟩ | ⟨-, -, e⟩ <;> rw [e] <;> decide

theorem headerBytes_tagged (h : be16 f 12 = 0x8100) : 18 ≤ headerBytes (parsePath f) := by
  rcases parsePath_cases f with ⟨-, -, e⟩ | ⟨-, -, e⟩ | ⟨hn, -, -⟩ | ⟨hn, -, -⟩
  · rw [e]; decide
  · rw [e]; decide
  · exact (hn h).elim
  · exact (hn h).elim

theorem headerBytes_ipv4 (h : .ipv4 ∈ parsePath f) :
    ipv4Start f + 20 = headerBytes (parsePath f) := by
  rw [← ipv4Start_eq h]
  rcases parsePath_cases f with ⟨-, -, e⟩ | ⟨-, -, e⟩ | ⟨-, -, e⟩ | ⟨-, -, e⟩ <;> rw [e] at h ⊢
  · decide
  · simp at h
  · decide
  · simp at h

theorem be16_agree (h : ∀ k < n, f k = g k) {j : Nat} (hj : j + 2 ≤ n) : be16 f j = be16 g j :=
  be16_congr fun d hd => h (j + d) (by omega)

theorem be32_agree (h : ∀ k < n, f k = g k) {j : Nat} (hj : j + 4 ≤ n) : be32 f j = be32 g j :=
  be32_congr fun d hd => h (j + d) (by omega)

/-- Frames that agree on the headers of one of them are parsed alike. -/
theorem parsePath_congr (h : ∀ k < n, f k = g k) (hn : headerBytes (parsePath f) ≤ n) :
    parsePath f = parsePath g := by
  have h12 : be16 f 12 = be16 g 12 := be16_agree h (by have := headerBytes_ge f; omega)
  unfold parsePath
  rw [← h12]
  by_cases ht : be16 f 12 = 0x8100
  · have h16 : be16 f 16 = be16 g 16 := be16_agree h (by have := headerBytes_tagged ht; omega)
    rw [← h16]
  · simp only [if_neg ht]

theorem ipv4Start_congr (h : ∀ k < n, f k = g k) (hn : headerBytes (parsePath f) ≤ n) :
    ipv4Start f = ipv4Start g := by
  have h12 : be16 f 12 = be16 g 12 := be16_agree h (by have := headerBytes_ge f; omega)
  simp only [ipv4Start, h12]

theorem sendEntry_congr (h : ∀ k < n, f k = g k) (hn : headerBytes (parsePath f) ≤ n) :
    sendEntry tbl f = sendEntry tbl g := by
  unfold sendEntry
  rw [← parsePath_congr h hn]
  by_cases hm : .ipv4 ∈ parsePath f
  · have hs := headerBytes_ipv4 hm
    have hd : dstAddr f = dstAddr g := by
      unfold dstAddr
      rw [← ipv4Start_congr h hn]
      exact be32_agree h (by omega)
    simp only [hd]
  · simp only [if_neg hm]

/-! ## Frames in their buffers -/

theorem frameOf_length (m : RteMbuf) : (frameOf m).length = m.dataLen.toNat := by simp [frameOf]

theorem frameOf_getD {m : RteMbuf} {k : Nat} (h : k < m.dataLen.toNat) :
    (frameOf m).getD k 0 = byteOf m k := by
  simp [frameOf, List.getD_eq_getElem?_getD, h]

/-- The frame reaches `parse_ipv4` if and only if its buffer does with room for the header. -/
theorem ipv4Reached_iff (m : RteMbuf) : Ipv4Reached (frameOf m) ↔
    .ipv4 ∈ parsePath (byteOf m) ∧ headerBytes (parsePath (byteOf m)) ≤ m.dataLen.toNat := by
  have h : ∀ k < m.dataLen.toNat, (frameOf m).getD k 0 = byteOf m k := fun _ hk => frameOf_getD hk
  unfold Ipv4Reached
  rw [frameOf_length]
  constructor
  · rintro ⟨hm, hl⟩
    rw [← parsePath_congr h hl]
    exact ⟨hm, hl⟩
  · rintro ⟨hm, hl⟩
    rw [← parsePath_congr (fun k hk => (h k hk).symm) hl]
    exact ⟨hm, hl⟩

theorem byteOf_setSrcAddr (m : RteMbuf) (class_ : UInt32) (k : Nat) :
    byteOf (setSrcAddr m class_) k =
      overwriteAddr (byteOf m) (ipv4Start (byteOf m) + 12) class_ k := by
  simp only [byteOf, setSrcAddr, overwriteAddr, Nat.add_le_add_iff_left, Nat.add_assoc,
    Nat.add_lt_add_iff_left, Nat.add_sub_add_left]

/-- The frame that left differs from the one received in its IPv4 source address, which
holds the class in network byte order; start and lengths are the same. -/
structure SentWith (class_ : UInt32) (m m' : RteMbuf) : Prop where
  start : m'.dataOff = m.dataOff
  pktLen : m'.pktLen = m.pktLen
  dataLen : m'.dataLen = m.dataLen
  next : m'.next = m.next
  srcAddr : be32 (byteOf m') (ipv4Start (byteOf m) + 12) = class_
  others : ∀ k, ¬ (m.dataOff.toNat + (ipv4Start (byteOf m) + 12) ≤ k ∧
    k < m.dataOff.toNat + (ipv4Start (byteOf m) + 12) + 4) → m'.buf k = m.buf k

theorem sentWith_setSrcAddr (m : RteMbuf) (class_ : UInt32) :
    SentWith class_ m (setSrcAddr m class_) where
  start := rfl
  pktLen := rfl
  dataLen := rfl
  next := rfl
  srcAddr := by
    rw [← be32_beBytes class_]
    refine be32_congr ?_
    intro d hd
    rw [byteOf_setSrcAddr, be32_beBytes, overwriteAddr, if_pos (by omega)]
    congr 1
    omega
  others _ hk := if_neg hk

/-- On a frame that reaches `parse_ipv4`, the outcome in the buffer is the frame's. -/
theorem l3Mbuf_verdict {m : RteMbuf} (h : Ipv4Reached (frameOf m)) :
    (l3Mbuf tbl m).verdict = l3 tbl (frameOf m) := by
  have hb : ∀ k < m.dataLen.toNat, (frameOf m).getD k 0 = byteOf m k := fun _ hk => frameOf_getD hk
  have hn : headerBytes (parsePath ((frameOf m).getD · 0)) ≤ m.dataLen.toNat := by
    rw [← frameOf_length]; exact h.2
  unfold l3 l3Mbuf
  rw [if_pos h, sendEntry_congr hb hn]
  cases sendEntry tbl (byteOf m) with
  | none => rfl
  | some e =>
    obtain ⟨port, class_⟩ := e
    show Verdict.tx port (frameOf (setSrcAddr m class_)) = _
    congr 1
    rw [frameOf_length, ipv4Start_congr hb hn]
    apply List.map_congr_left
    intro k hk
    rw [byteOf_setSrcAddr]
    unfold overwriteAddr
    split
    · rfl
    · exact (hb k (List.mem_range.mp hk)).symm

/-- The ports treat a frame and its buffer alike. -/
theorem Outcome.onPorts_verdict (n : Nat) (o : Outcome) :
    (o.onPorts n).verdict = o.verdict.onPorts n := by
  cases o with
  | tx port m =>
    simp only [Outcome.onPorts, portOutTx, apply_ite Outcome.verdict]
    rfl
  | _ => rfl

/-! ## What `l3.p4` computes -/

theorem extract_of_le {pkt : List UInt8} {n : Nat} (h : n ≤ pkt.length) :
    extract pkt n = some (pkt.take n, pkt.drop n) := by
  simp [extract, h, List.splitAt_eq]

theorem getD_take {l : List UInt8} {n k : Nat} (h : k < n) : (l.take n).getD k 0 = l.getD k 0 := by
  simp [List.getD_eq_getElem?_getD, h]

theorem getD_drop (l : List UInt8) (n k : Nat) : (l.drop n).getD k 0 = l.getD (n + k) 0 := by
  simp [List.getD_eq_getElem?_getD, List.getElem?_drop]

/-- The valid headers, end to end, are the front of the frame. -/
theorem parseEthernet_of_reached {frame : List UInt8} (h : Ipv4Reached frame) :
    ∃ hdr : Headers,
      parseEthernet frame = some (hdr, frame.drop (ipv4Start (frame.getD · 0) + 20)) ∧
      hdr.ethernet.getD [] ++ hdr.vlanTag.getD [] = frame.take (ipv4Start (frame.getD · 0)) ∧
      hdr.ipv4 = some ((frame.drop (ipv4Start (frame.getD · 0))).take 20) := by
  obtain ⟨hm, hl⟩ := h
  have h20 := headerBytes_ipv4 hm
  have h14 : 14 ≤ frame.length := by have := headerBytes_ge (frame.getD · 0); omega
  have he : be16 ((frame.take 14).getD · 0) 12 = be16 (frame.getD · 0) 12 :=
    be16_congr fun d hd => getD_take (by omega)
  obtain ⟨ht, hv, e⟩ | ⟨-, -, e⟩ | ⟨hu, hv, e⟩ | ⟨-, -, e⟩ := parsePath_cases (frame.getD · 0)
  · have hs : ipv4Start (frame.getD · 0) = 18 := if_pos ht
    have he' : be16 (((frame.drop 14).take 4).getD · 0) 2 = be16 (frame.getD · 0) 16 := by
      refine be16_congr ?_
      intro d hd
      rw [getD_take (by omega), getD_drop, ← Nat.add_assoc]
    rw [hs] at h20 ⊢
    refine ⟨⟨some (frame.take 14), some ((frame.drop 14).take 4), some ((frame.drop 18).take 20)⟩,
      ?_, ?_, rfl⟩
    · simp only [parseEthernet, extract_of_le h14, Option.bind_eq_bind, Option.bind_some, he, ht,
        if_pos, parseVlanTag, extract_of_le (show 4 ≤ (frame.drop 14).length by simp; omega), he', hv,
        parseIpv4, List.drop_drop,
        extract_of_le (show 20 ≤ (frame.drop 18).length by simp; omega)]
      rfl
    · show frame.take 14 ++ (frame.drop 14).take 4 = frame.take 18
      rw [← List.take_add]
  · rw [e] at hm; simp at hm
  · have hs : ipv4Start (frame.getD · 0) = 14 := if_neg hu
    rw [hs] at h20 ⊢
    refine ⟨⟨some (frame.take 14), none, some ((frame.drop 14).take 20)⟩, ?_, ?_, rfl⟩
    · simp only [parseEthernet, extract_of_le h14, Option.bind_eq_bind, Option.bind_some, he, hv,
        parseIpv4, List.drop_drop,
        extract_of_le (show 20 ≤ (frame.drop 14).length by simp; omega)]
      rfl
    · exact List.append_nil _
  · rw [e] at hm; simp at hm

theorem overwriteAddr_list {frame : List UInt8} {n : Nat} (h : n + 4 ≤ frame.length) (x : UInt32) :
    (List.range frame.length).map (overwriteAddr (frame.getD · 0) n x) =
      frame.take n ++ beBytes x ++ frame.drop (n + 4) := by
  have hb : (beBytes x).length = 4 := rfl
  rw [List.append_assoc]
  refine List.ext_getElem (by simp [hb]; omega) ?_
  intro k h1 h2
  have hk : k < frame.length := by simpa using h1
  simp only [List.getElem_map, List.getElem_range, overwriteAddr]
  rcases lt_or_ge k n with hlo | hlo
  · rw [if_neg (by omega), List.getElem_append_left (by simp; omega)]
    simp [List.getD_eq_getElem?_getD, hk]
  · rw [List.getElem_append_right (by simp; omega)]
    have hn : k - (frame.take n).length = k - n := by simp; omega
    rcases lt_or_ge k (n + 4) with hhi | hhi
    · rw [if_pos ⟨hlo, hhi⟩, List.getElem_append_left (by simp [hb]; omega)]
      simp only [hn, List.getD_eq_getElem?_getD,
        List.getElem?_eq_getElem (show k - n < (beBytes x).length by rw [hb]; omega), Option.getD_some]
    · rw [if_neg (by omega), List.getElem_append_right (by simp [hb]; omega)]
      have hk' : n + 4 + (k - n - 4) = k := by omega
      simp only [hn, hb, List.getElem_drop, hk', List.getD_eq_getElem?_getD,
        List.getElem?_eq_getElem hk, Option.getD_some]

/-- The address rewritten inside the extracted header, between the bytes around it. -/
theorem splice_ipv4 (frame x : List UInt8) (n : Nat) :
    frame.take n ++ (((frame.drop n).take 20).take 12 ++ x ++ ((frame.drop n).take 20).drop 16) ++
      frame.drop (n + 20) = frame.take (n + 12) ++ x ++ frame.drop (n + 16) := by
  have hd : ((frame.drop n).take 20).drop 16 ++ frame.drop (n + 20) = frame.drop (n + 16) := by
    rw [List.drop_take, List.drop_drop]
    have := List.take_append_drop 4 (frame.drop (n + 16))
    rwa [List.drop_drop, Nat.add_assoc] at this
  rw [List.take_take, Nat.min_eq_left (by decide), List.take_add, ← hd]
  simp only [List.append_assoc]

/-- Parser, control and deparser of `l3.p4` mean `l3` on frames that reach `parse_ipv4`. -/
theorem pipe_eq_l3 {frame : List UInt8} (unspecified : UInt32) (h : Ipv4Reached frame) :
    pipe tbl unspecified frame = some (l3 tbl frame) := by
  obtain ⟨hdr, hp, hfront, hip⟩ := parseEthernet_of_reached h
  have hlen : ipv4Start (frame.getD · 0) + 12 + 4 ≤ frame.length := by
    have := headerBytes_ipv4 h.1
    have := h.2
    omega
  have hkey : be32 (((frame.drop (ipv4Start (frame.getD · 0))).take 20).getD · 0) 16 =
      dstAddr (frame.getD · 0) := by
    refine be32_congr ?_
    intro d hd
    rw [getD_take (by omega), getD_drop, ← Nat.add_assoc]
  simp only [pipe, hp, Option.bind_eq_bind, Option.bind_some, ingress, hip, hkey, l3, if_pos h,
    sendEntry, if_pos h.1]
  cases tbl.lookup (dstAddr (frame.getD · 0)) with
  | noAction => rfl
  | drop_1 => rfl
  | send port class_ =>
    simp only [Action.run, deparser, Option.map_some, Option.getD_some, hip, hfront,
      overwriteAddr_list hlen, splice_ipv4, Nat.add_assoc]
    rfl

end

end P4Switch.L3
