import P4Switch.L3.Tracks

/-! # One instruction of a thread

What an instruction keeps of the pipeline, and that it takes the thread one step nearer
to sending its frame on, with the outcome the program means. -/
namespace P4Switch.L3
open P4Switch.Lib.Memory P4Switch.Ixgbe

section
variable {tbl : Ipv4Host} {ok : RteMbuf → Prop} {s s' : Engine} {i : ThreadId}

/-- A lookup that is about to find a `send` entry does so for a frame that may have one. -/
def OwnKey (tbl : Ipv4Host) (ok : RteMbuf → Prop) (s : Engine) (i : ThreadId) : Prop :=
  ∀ port class_, (s.threads i).ip = 10 → 2 ≤ (s.threads i).mailbox.state →
    s.lookupResult tbl i = .send port class_ → ok (s.threads i).pkt.mbuf

/-- The instructions the thread still has in front of it. -/
def Thread.left (t : Thread) : Nat :=
  let tag := if be16 (byteOf t.pkt.mbuf) 12 = 0x8100 then 1 else 0
  match t.ip with
  | 1 => 10 + tag
  | 2 => 9 + tag
  | 3 => 8 + tag
  | 4 => 7
  | 5 => 6
  | 6 => 8
  | 7 => 7
  | 8 => 6
  | 9 => 6
  | 10 => 5 - min t.mailbox.state 2
  | 11 => 2
  | 12 => 1
  | 13 => 1
  | _ => 0

/-- What an instruction of thread `i` leaves as it was: the ports, the other threads, the packet, and
every byte outside the packet's buffer; stores are for frames that may have a `send`. -/
structure Keeps (ok : RteMbuf → Prop) (s s' : Engine) (i : ThreadId) : Prop where
  ports : s'.nPortsOut = s.nPortsOut
  others : ∀ j, j ≠ i → s'.threads j = s.threads j
  handle : (s'.threads i).pkt.handle = (s.threads i).pkt.handle
  mbuf : (s'.threads i).pkt.mbuf = (s.threads i).pkt.mbuf
  mem : ∀ q, q.region ≠ .mbuf (s.threads i).pkt.handle → s'.mem q = s.mem q
  stores : s'.stores = s.stores ∨ ∃ st, s'.stores = st :: s.stores ∧
    st.ptr.region = .mbuf st.pkt.handle ∧ ok st.pkt.mbuf

/-- The outcome the program means, on `n` output ports, for a frame that may have a `send`
entry. -/
def Meant (n : Nat) (tbl : Ipv4Host) (ok : RteMbuf → Prop) (m : RteMbuf) (o : Outcome) : Prop :=
  (ok m → o = (l3Mbuf tbl m).onPorts n) ∧ (¬ ok m → o = .drop)

/-- After an instruction the thread is one step further, or it has sent its frame on. -/
inductive Advance (tbl : Ipv4Host) (ok : RteMbuf → Prop) (s : Engine) (i : ThreadId) (s' : Engine) :
    Prop
  | next (keeps : Keeps ok s s' i) (tracks : Tracks tbl ok s'.mem (s'.threads i))
      (left : (s.threads i).left = (s'.threads i).left + 1) (done : s'.done = s.done)
  | sent (keeps : Keeps ok s s' i) (idle : (s'.threads i).ip = 0)
      (mailbox : (s'.threads i).mailbox.state = 0) (left : (s.threads i).left = 1) (o : Outcome)
      (meant : Meant s.nPortsOut tbl ok (s.threads i).pkt.mbuf o) (pkt : Pkt)
      (same : pkt.handle = (s.threads i).pkt.handle ∧ pkt.mbuf = (s.threads i).pkt.mbuf)
      (done : s'.done = ⟨i, pkt, o⟩ :: s.done)

theorem exec_of_fetch {c : Instr} (h : apply[(s.threads i).ip]? = some c) :
    s.exec tbl i = s.execInstr tbl i c := by
  simp [Engine.exec, h]

theorem AtInstr.ip_ne_zero {mem : Mem Region} {t : Thread} (h : AtInstr tbl ok mem t) :
    t.ip ≠ 0 := by
  cases h <;> omega

theorem Tracks.left_pos {mem : Mem Region} {t : Thread} (h : Tracks tbl ok mem t) : 0 < t.left := by
  cases h.at_ <;> simp [Thread.left, *]

/-! ## Instructions that change the thread only -/

theorem keeps_setThread {t : Thread} (hh : t.pkt.handle = (s.threads i).pkt.handle)
    (hm : t.pkt.mbuf = (s.threads i).pkt.mbuf) : Keeps ok s (s.setThread i t) i where
  ports := rfl
  others j hj := setThread_other s t hj
  handle := by rw [setThread_same, hh]
  mbuf := by rw [setThread_same, hm]
  mem _ _ := rfl
  stores := .inl rfl

theorem advance_setThread {t : Thread} (hh : t.pkt.handle = (s.threads i).pkt.handle)
    (hm : t.pkt.mbuf = (s.threads i).pkt.mbuf) (ht : Tracks tbl ok s.mem t)
    (hl : (s.threads i).left = t.left + 1) : Advance tbl ok s i (s.setThread i t) :=
  .next (keeps_setThread hh hm) (by rwa [setThread_same, setThread_mem])
    (by rwa [setThread_same]) rfl

theorem Parsing.extract {mem : Mem Region} {t : Thread} {hs : List Header}
    (p : Parsing mem t hs) {h : Header} (hn : h ∉ hs) :
    Parsing mem (t.next.extract h) (hs ++ [h]) :=
  ⟨p.extracted.extract hn, p.clean, p.metaDrop⟩

/-- What the parser knows depends on the packet, the header pointers and the valid bits. -/
theorem Extracted.congr {t t' : Thread} {hs : List Header} (x : Extracted t hs)
    (hp : t'.pkt = t.pkt) (hq : t'.ptr = t.ptr) (hs' : t'.structs = t.structs)
    (hv : t'.validHeaders = t.validHeaders) : Extracted t' hs :=
  ⟨by rw [hv]; exact x.valid, by rw [hs', hp]; exact x.structs, by rw [hp, hq]; exact x.ptr,
    by rw [hp]; exact x.offset, by rw [hp]; exact x.length⟩

theorem Parsing.goto {mem : Mem Region} {t : Thread} {hs : List Header} (p : Parsing mem t hs)
    (n : Nat) : Parsing mem { t with ip := n } hs :=
  ⟨p.extracted.congr rfl rfl rfl rfl, p.clean, p.metaDrop⟩

theorem Resolved.goto {mem : Mem Region} {t : Thread} (r : Resolved tbl ok mem t) (n : Nat) :
    Resolved tbl ok mem { t with ip := n } := by
  cases r with
  | send port class_ e o d p b => exact .send port class_ e o d p b
  | drop e d => exact .drop e d

/-- The field the jump compares is the frame's. -/
theorem Parsing.field {mem : Mem Region} {t : Thread} {hs : List Header} (p : Parsing mem t hs)
    {h : Header} (hm : h ∈ hs) (k : Nat) :
    mem.be16 ((t.structs h).add k) = be16 (byteOf t.pkt.mbuf) (headerStart hs h + k) := by
  rw [p.extracted.structs h hm, Ptr.add_add, p.clean.be16]

/-- The jumps on an ether type. -/
theorem exec_jmpeq {n k o : Nat} {h : Header} {v : UInt16} {hs : List Header}
    (hf : apply[(s.threads i).ip]? = some (.jmpeq n h k v)) (p : Parsing s.mem (s.threads i) hs)
    (hm : h ∈ hs) (ho : headerStart hs h + k = o) :
    s.exec tbl i = s.setThread i { s.threads i with
      ip := if be16 (byteOf (s.threads i).pkt.mbuf) o = v then n else (s.threads i).ip + 1 } := by
  subst ho
  rw [exec_of_fetch hf, Engine.execInstr]
  simp only [p.field hm, Thread.next]
  split <;> rfl

/-- `mov`, `extract` and the jumps of the parser. -/
theorem Tracks.advance_parser (h : Tracks tbl ok s.mem (s.threads i)) (hp : (s.threads i).ip < 10) :
    Advance tbl ok s i (s.exec tbl i) := by
  have hmail : (s.threads i).mailbox.state = 0 := h.mailbox (by omega)
  have ho := h.headersOut
  cases h.at_ with
  | movDrop ip x c =>
    rw [exec_of_fetch (c := .movDrop 1) (by rw [ip]; rfl)]
    refine advance_setThread rfl rfl
      ⟨.extractEthernet ?_ ⟨x.congr rfl rfl rfl rfl, c, rfl⟩, ho, fun _ => hmail⟩ ?_
    · simp [Thread.next, ip]
    · simp only [Thread.left, Thread.next, ip]; omega
  | extractEthernet ip p =>
    rw [exec_of_fetch (c := .extract .ethernet) (by rw [ip]; rfl)]
    refine advance_setThread rfl rfl ⟨.jmpVlanTag ?_ (p.extract (by simp)), ho, fun _ => hmail⟩ ?_
    · simp [Thread.extract, Thread.next, ip]
    · simp only [Thread.left, Thread.extract, Thread.next, ip]; omega
  | jmpVlanTag ip p =>
    rw [exec_jmpeq (n := 6) (k := 12) (o := 12) (h := .ethernet) (v := 0x8100)
      (by rw [ip]; rfl) p (by simp) rfl]
    by_cases ht : be16 (byteOf (s.threads i).pkt.mbuf) 12 = 0x8100
    · rw [if_pos ht]
      refine advance_setThread rfl rfl
        ⟨.extractVlanTag rfl (p.goto 6) ht, ho, fun _ => hmail⟩ ?_
      simp only [Thread.left, ip, ht, if_pos]
    · rw [if_neg ht]
      refine advance_setThread rfl rfl
        ⟨.jmpIpv4 (by simp [ip]) (p.goto _) ht, ho, fun _ => hmail⟩ ?_
      simp [Thread.left, ip, ht]
  | jmpIpv4 ip p hu =>
    rw [exec_jmpeq (n := 9) (k := 12) (o := 12) (h := .ethernet) (v := 0x800)
      (by rw [ip]; rfl) p (by simp) rfl]
    by_cases ht : be16 (byteOf (s.threads i).pkt.mbuf) 12 = 0x800
    · rw [if_pos ht]
      refine advance_setThread rfl rfl
        ⟨.extractIpv4 rfl _ (p.goto 9) ?_, ho, fun _ => hmail⟩ ?_
      · simp [parsePath, ht]
      · simp only [Thread.left, ip]
    · rw [if_neg ht]
      refine advance_setThread rfl rfl
        ⟨.jmpAccept (by simp [ip]) (p.goto _) hu ht, ho, fun _ => hmail⟩ ?_
      simp only [Thread.left, ip]
  | jmpAccept ip p hu hn =>
    rw [exec_of_fetch (c := .jmp 10) (by rw [ip]; rfl)]
    have hpath : [.ethernet] = parsePath (byteOf (s.threads i).pkt.mbuf) := by
      simp [parsePath, hu, hn]
    refine advance_setThread rfl rfl
      ⟨.table rfl (hpath ▸ p.goto 10) fun _ hc => (hc hmail).elim, ho, fun hc => (hc rfl).elim⟩ ?_
    simp [Thread.left, ip, hmail]
  | extractVlanTag ip p ht =>
    rw [exec_of_fetch (c := .extract .vlanTag) (by rw [ip]; rfl)]
    refine advance_setThread rfl rfl
      ⟨.jmpTaggedIpv4 ?_ (p.extract (by simp)) ht, ho, fun _ => hmail⟩ ?_
    · simp [Thread.extract, Thread.next, ip]
    · simp only [Thread.left, Thread.extract, Thread.next, ip]
  | jmpTaggedIpv4 ip p ht =>
    rw [exec_jmpeq (n := 9) (k := 2) (o := 16) (h := .vlanTag) (v := 0x800)
      (by rw [ip]; rfl) p (by simp) rfl]
    by_cases hv : be16 (byteOf (s.threads i).pkt.mbuf) 16 = 0x800
    · rw [if_pos hv]
      refine advance_setThread rfl rfl
        ⟨.extractIpv4 rfl _ (p.goto 9) ?_, ho, fun _ => hmail⟩ ?_
      · simp [parsePath, ht, hv]
      · simp only [Thread.left, ip]
    · rw [if_neg hv]
      refine advance_setThread rfl rfl
        ⟨.jmpTaggedAccept (by simp [ip]) (p.goto _) ht hv, ho, fun _ => hmail⟩ ?_
      simp only [Thread.left, ip]
  | jmpTaggedAccept ip p ht hv =>
    rw [exec_of_fetch (c := .jmp 10) (by rw [ip]; rfl)]
    have hpath : [.ethernet, .vlanTag] = parsePath (byteOf (s.threads i).pkt.mbuf) := by
      simp [parsePath, ht, hv]
    refine advance_setThread rfl rfl
      ⟨.table rfl (hpath ▸ p.goto 10) fun _ hc => (hc hmail).elim, ho, fun hc => (hc rfl).elim⟩ ?_
    simp [Thread.left, ip, hmail]
  | extractIpv4 ip hs p hpath =>
    rw [exec_of_fetch (c := .extract .ipv4) (by rw [ip]; rfl)]
    have hn : Header.ipv4 ∉ hs := by
      have hd := parsePath_nodup (byteOf (s.threads i).pkt.mbuf)
      rw [← hpath, List.nodup_append] at hd
      exact fun hm => hd.2.2 _ hm _ (by simp) rfl
    refine advance_setThread rfl rfl
      ⟨.table ?_ (hpath ▸ p.extract hn) fun _ hc => (hc hmail).elim, ho, ?_⟩ ?_
    · simp [Thread.extract, Thread.next, ip]
    · intro hc
      simp [Thread.extract, Thread.next, ip] at hc
    · simp [Thread.left, Thread.extract, Thread.next, ip, hmail]
  | table ip => omega
  | jmpDrop ip => omega
  | emitTx ip => omega
  | drop ip => omega

/-! ## The table -/

/-- With an IPv4 header extracted, the lookup reads the frame's own address. -/
theorem Parsing.tableKey_eq
    (p : Parsing s.mem (s.threads i) (parsePath (byteOf (s.threads i).pkt.mbuf)))
    (hm : .ipv4 ∈ parsePath (byteOf (s.threads i).pkt.mbuf)) :
    s.tableKey i = dstAddr (byteOf (s.threads i).pkt.mbuf) := by
  rw [Engine.tableKey, p.extracted.structs _ hm, Ptr.add_add, p.clean.be32, ipv4Start_eq hm]
  rfl

/-- What the lookup of such a frame finds is the frame's entry. -/
theorem lookupResult_eq {f : Nat → UInt8} (hk : s.tableKey i = dstAddr f)
    (hf : (s.threads i).mailbox.key = dstAddr f) :
    s.lookupResult tbl i = tbl.lookup (dstAddr f) := by
  simp [Engine.lookupResult, hk, hf]

theorem sendEntry_eq_none {f : Nat → UInt8}
    (h : ∀ port class_, .ipv4 ∈ parsePath f → tbl.lookup (dstAddr f) ≠ .send port class_) :
    sendEntry tbl f = none := by
  unfold sendEntry
  split
  · rename_i hm
    split
    · rename_i port class_ he
      exact (h port class_ hm he).elim
    · rfl
  · rfl

/-- The `send` action stores the class where the frame's source address is. -/
theorem Clean.write_setSrcAddr {mem : Mem Region} {p : Pkt} (c : Clean mem p) (class_ : UInt32)
    (k : Nat) :
    mem.write (p.base.add (ipv4Start (byteOf p.mbuf) + 12)) (beBytes class_) ⟨.mbuf p.handle, k⟩ =
      (setSrcAddr p.mbuf class_).buf k := by
  simp only [Mem.write, setSrcAddr, overwriteAddr, c k]
  simp [Pkt.base, beBytes]

/-- The last visit of the lookup and the action it calls. -/
theorem Tracks.advance_action (hok : ∀ m, ok m → .ipv4 ∈ parsePath (byteOf m))
    (h : Tracks tbl ok s.mem (s.threads i)) (hip : (s.threads i).ip = 10)
    (hst : 2 ≤ (s.threads i).mailbox.state) (hown : OwnKey tbl ok s i)
    (p : Parsing s.mem (s.threads i) (parsePath (byteOf (s.threads i).pkt.mbuf)))
    (hkey : .ipv4 ∈ parsePath (byteOf (s.threads i).pkt.mbuf) →
      (s.threads i).mailbox.key = dstAddr (byteOf (s.threads i).pkt.mbuf)) :
    Advance tbl ok s i ((s.setThread i { (s.threads i).next with
      mailbox := { (s.threads i).mailbox with state := 0 } }).action i (s.lookupResult tbl i)) := by
  have hl : (s.threads i).left = 3 := by
    simp only [Thread.left, hip]; omega
  have hres : .ipv4 ∈ parsePath (byteOf (s.threads i).pkt.mbuf) →
      s.lookupResult tbl i = tbl.lookup (dstAddr (byteOf (s.threads i).pkt.mbuf)) :=
    fun hm => lookupResult_eq (p.tableKey_eq hm) (hkey hm)
  -- a frame that may have an entry has none when the lookup did not end with `send`
  have hnone : (∀ port class_, s.lookupResult tbl i ≠ .send port class_) →
      ok (s.threads i).pkt.mbuf → sendEntry tbl (byteOf (s.threads i).pkt.mbuf) = none :=
    fun hne _ => sendEntry_eq_none fun port class_ hm he => hne port class_ ((hres hm).trans he)
  cases hr : s.lookupResult tbl i with
  | noAction =>
    refine advance_setThread rfl rfl ⟨.jmpDrop ?_ (p.extracted.congr rfl rfl rfl rfl)
      (.drop (hnone (by simp [hr])) p.metaDrop), h.headersOut, fun _ => rfl⟩ ?_
    · simp [Thread.next, hip]
    · rw [hl]; simp [Thread.left, Thread.next, hip]
  | drop_1 =>
    rw [Engine.action, setThread_setThread, setThread_same]
    refine advance_setThread rfl rfl ⟨.jmpDrop ?_ (p.extracted.congr rfl rfl rfl rfl)
      (.drop (hnone (by simp [hr])) rfl), h.headersOut, fun _ => rfl⟩ ?_
    · simp [Thread.next, hip]
    · rw [hl]; simp [Thread.left, Thread.next, hip]
  | send port class_ =>
    have ho : ok (s.threads i).pkt.mbuf := hown port class_ hip hst hr
    have hm := hok _ ho
    have hentry : sendEntry tbl (byteOf (s.threads i).pkt.mbuf) = some (port, class_) := by
      simp [sendEntry, hm, ← hres hm, hr]
    have hsrc : ((s.threads i).structs .ipv4).add 12 =
        (s.threads i).pkt.base.add (ipv4Start (byteOf (s.threads i).pkt.mbuf) + 12) := by
      rw [p.extracted.structs _ hm, Ptr.add_add, ipv4Start_eq hm]
    rw [Engine.action, setThread_setThread, setThread_same]
    refine .next ⟨rfl, ?_, ?_, ?_, ?_, .inr ⟨_, rfl, ?_, ?_⟩⟩ ⟨.jmpDrop ?_ ?_ ?_, ?_, ?_⟩ ?_ rfl
    · intro j hj
      exact setThread_other _ _ hj
    · rw [store_threads, setThread_same]; rfl
    · rw [store_threads, setThread_same]; rfl
    · intro q hq
      refine Mem.write_region ?_
      show q.region ≠ (((s.threads i).structs .ipv4).add 12).region
      rw [hsrc]
      exact hq
    · show (((s.threads i).structs .ipv4).add 12).region = _
      rw [hsrc, setThread_same]
      rfl
    · rw [setThread_same]
      exact ho
    all_goals rw [store_threads, setThread_same]
    · simp [Thread.next, hip]
    · exact p.extracted.congr rfl rfl rfl rfl
    · refine .send port class_ hentry ho rfl rfl ?_
      intro k
      show s.mem.write (((s.threads i).structs .ipv4).add 12) (beBytes class_) _ = _
      rw [hsrc]
      exact p.clean.write_setSrcAddr class_ k
    · exact h.headersOut
    · exact fun _ => rfl
    · rw [hl]; simp [Thread.left, Thread.next, hip]

/-- The three visits of the table instruction. -/
theorem Tracks.advance_table (hok : ∀ m, ok m → .ipv4 ∈ parsePath (byteOf m))
    (h : Tracks tbl ok s.mem (s.threads i)) (hip : (s.threads i).ip = 10)
    (hown : OwnKey tbl ok s i)
    (p : Parsing s.mem (s.threads i) (parsePath (byteOf (s.threads i).pkt.mbuf)))
    (hkey : .ipv4 ∈ parsePath (byteOf (s.threads i).pkt.mbuf) → (s.threads i).mailbox.state ≠ 0 →
      (s.threads i).mailbox.key = dstAddr (byteOf (s.threads i).pkt.mbuf)) :
    Advance tbl ok s i (s.exec tbl i) := by
  rw [exec_of_fetch (c := .table) (by rw [hip]; rfl), Engine.execInstr, Engine.tableExec]
  have p' : ∀ m, Parsing s.mem { s.threads i with mailbox := m }
      (parsePath (byteOf (s.threads i).pkt.mbuf)) :=
    fun m => ⟨p.extracted.congr rfl rfl rfl rfl, p.clean, p.metaDrop⟩
  match hs : (s.threads i).mailbox.state with
  | 0 =>
    refine advance_setThread rfl rfl ⟨.table hip (p' _) fun hm _ => p.tableKey_eq hm, h.headersOut,
      fun hc => (hc hip).elim⟩ ?_
    simp [Thread.left, hip, hs]
  | 1 =>
    refine advance_setThread rfl rfl ⟨.table hip (p' _) fun hm _ => hkey hm (by omega), h.headersOut,
      fun hc => (hc hip).elim⟩ ?_
    simp [Thread.left, hip, hs]
  | n + 2 =>
    exact h.advance_action hok hip (by omega) hown p fun hm => hkey hm (by omega)

/-! ## Sending the frame on -/

/-- The outcome is the one the frame's entry means. -/
theorem Resolved.tx_meant {mem : Mem Region} {t : Thread} (r : Resolved tbl ok mem t)
    (hd : t.metaDrop = 0) (n : Nat) :
    Meant n tbl ok t.pkt.mbuf
      (portOutTx n t.egressPort
        { t.pkt.mbuf with buf := fun k => mem ⟨.mbuf t.pkt.handle, k⟩ }) := by
  cases r with
  | send port class_ entry hok _ hp buf =>
    refine ⟨?_, fun hn => (hn hok).elim⟩
    intro _
    have hb : (fun k => mem ⟨.mbuf t.pkt.handle, k⟩) = (setSrcAddr t.pkt.mbuf class_).buf := funext buf
    simp only [l3Mbuf, entry, hp, hb]
    rfl
  | drop _ h1 => rw [h1] at hd; contradiction

theorem Resolved.drop_meant {mem : Mem Region} {t : Thread} (r : Resolved tbl ok mem t)
    (hd : t.metaDrop ≠ 0) (n : Nat) : Meant n tbl ok t.pkt.mbuf .drop := by
  cases r with
  | send _ _ _ _ h0 => exact (hd h0).elim
  | drop entry _ => exact ⟨fun ho => by simp [l3Mbuf, entry ho, Outcome.onPorts], fun _ => rfl⟩

theorem advance_finish {o : Outcome} {t : Thread} (hh : t.pkt.handle = (s.threads i).pkt.handle)
    (hm : t.pkt.mbuf = (s.threads i).pkt.mbuf) (hmail : t.mailbox.state = 0)
    (hl : (s.threads i).left = 1) (hmeant : Meant s.nPortsOut tbl ok (s.threads i).pkt.mbuf o) :
    Advance tbl ok s i ((s.setThread i t).finish i o) := by
  unfold Engine.finish
  rw [setThread_setThread, setThread_same]
  refine .sent ⟨rfl, ?_, ?_, ?_, fun _ _ => rfl, .inl rfl⟩ ?_ ?_ hl o hmeant t.pkt ⟨hh, hm⟩ rfl
  · intro j hj
    exact setThread_other _ _ hj
  · show ((s.setThread i _).threads i).pkt.handle = _
    rwa [setThread_same]
  · show ((s.setThread i _).threads i).pkt.mbuf = _
    rwa [setThread_same]
  · show ((s.setThread i _).threads i).ip = 0
    rw [setThread_same]
  · show ((s.setThread i _).threads i).mailbox.state = 0
    rwa [setThread_same]

/-- The last jump, and the two ways out. -/
theorem Tracks.advance_out (h : Tracks tbl ok s.mem (s.threads i)) (hip : 10 < (s.threads i).ip) :
    Advance tbl ok s i (s.exec tbl i) := by
  have hmail : (s.threads i).mailbox.state = 0 := h.mailbox (by omega)
  have ho := h.headersOut
  cases h.at_ with
  | jmpDrop ip x r =>
    rw [exec_of_fetch (c := .jmpneqDrop 13 0) (by rw [ip]; rfl), Engine.execInstr]
    split
    · rename_i hd
      refine advance_setThread rfl rfl ⟨.drop rfl (r.goto 13) hd, ho, fun _ => hmail⟩ ?_
      simp [Thread.left, ip]
    · rename_i hd
      refine advance_setThread rfl rfl ⟨.emitTx ?_ (x.congr rfl rfl rfl rfl) (r.goto _)
        (not_not.mp hd), ho, fun _ => hmail⟩ ?_
      · simp [Thread.next, ip]
      · simp [Thread.left, Thread.next, ip]
  | emitTx ip x r hd =>
    rw [exec_of_fetch (c := .emitTx [.ethernet, .vlanTag, .ipv4]) (by rw [ip]; rfl), Engine.execInstr,
      emitTx_eq x ho]
    exact advance_finish rfl rfl hmail (by simp [Thread.left, ip]) (r.tx_meant hd _)
  | drop ip r hd =>
    rw [exec_of_fetch (c := .drop) (by rw [ip]; rfl), Engine.execInstr]
    have hs : s = s.setThread i (s.threads i) := by
      cases s
      simp only [Engine.setThread, Engine.mk.injEq, and_true, true_and]
      funext j
      split <;> simp_all
    have hf : Advance tbl ok s i _ := advance_finish (s := s) (t := s.threads i) rfl rfl hmail
      (by simp [Thread.left, ip]) (r.drop_meant hd _)
    rwa [← hs] at hf
  | movDrop ip | extractEthernet ip | jmpVlanTag ip | jmpIpv4 ip | jmpAccept ip
  | extractVlanTag ip | jmpTaggedIpv4 ip | jmpTaggedAccept ip | extractIpv4 ip | table ip => omega

/-- The step lemma: one instruction of a thread that knows where it stands. -/
theorem Tracks.advance (hok : ∀ m, ok m → .ipv4 ∈ parsePath (byteOf m))
    (h : Tracks tbl ok s.mem (s.threads i)) (hown : OwnKey tbl ok s i) :
    Advance tbl ok s i (s.exec tbl i) := by
  rcases lt_trichotomy (s.threads i).ip 10 with hlt | heq | hgt
  · exact h.advance_parser hlt
  · cases h.at_ with
    | table ip p key => exact h.advance_table hok ip hown p key
    | _ => omega
  · exact h.advance_out hgt

/-! ## Entering and being left alone -/

/-- A thread that has just received a packet. -/
theorem tracks_received {t : Thread} (hm : t.mailbox.state = 0) (port : UInt32) (handle : MbufPtr)
    (m : RteMbuf) (hc : ∀ k, s.mem ⟨.mbuf handle, k⟩ = m.buf k) :
    Tracks tbl ok s.mem (t.received port handle m) := by
  refine ⟨.movDrop rfl ⟨fun _ => rfl, by simp, ?_, ?_, ?_⟩ hc, rfl, fun _ => hm⟩
  · simp [Thread.received, Pkt.base, headerBytes, Ptr.add]
  · simp [Thread.received, headerBytes]
  · simp [Thread.received, headerBytes]

/-- What a thread knows concerns its own buffer only. -/
theorem Tracks.frame {mem mem' : Mem Region} {t : Thread} (h : Tracks tbl ok mem t)
    (hm : ∀ k, mem' ⟨.mbuf t.pkt.handle, k⟩ = mem ⟨.mbuf t.pkt.handle, k⟩) :
    Tracks tbl ok mem' t := by
  have hc : Clean mem t.pkt → Clean mem' t.pkt := fun c k => (hm k).trans (c k)
  have hp : ∀ {hs}, Parsing mem t hs → Parsing mem' t hs :=
    fun p => ⟨p.extracted, hc p.clean, p.metaDrop⟩
  have hr : Resolved tbl ok mem t → Resolved tbl ok mem' t := by
    intro r
    cases r with
    | send port class_ e o d p b => exact .send port class_ e o d p fun k => (hm k).trans (b k)
    | drop e d => exact .drop e d
  refine ⟨?_, h.headersOut, h.mailbox⟩
  cases h.at_ with
  | movDrop ip x c => exact .movDrop ip x (hc c)
  | extractEthernet ip p => exact .extractEthernet ip (hp p)
  | jmpVlanTag ip p => exact .jmpVlanTag ip (hp p)
  | jmpIpv4 ip p u => exact .jmpIpv4 ip (hp p) u
  | jmpAccept ip p u o => exact .jmpAccept ip (hp p) u o
  | extractVlanTag ip p u => exact .extractVlanTag ip (hp p) u
  | jmpTaggedIpv4 ip p u => exact .jmpTaggedIpv4 ip (hp p) u
  | jmpTaggedAccept ip p u o => exact .jmpTaggedAccept ip (hp p) u o
  | extractIpv4 ip hs p e => exact .extractIpv4 ip hs (hp p) e
  | table ip p k => exact .table ip (hp p) k
  | jmpDrop ip x r => exact .jmpDrop ip x (hr r)
  | emitTx ip x r d => exact .emitTx ip x (hr r) d
  | drop ip r d => exact .drop ip (hr r) d

end

end P4Switch.L3
