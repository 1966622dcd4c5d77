import P4Switch.L3.Program
import P4Switch.Lib.GuardedRun

/-! # What any instruction can do

Whatever a thread's header pointers lead to, an instruction changes its own thread only,
sends off at most its own packet, and changes memory only where it records a store. -/
namespace P4Switch.L3
open P4Switch.Lib.Memory P4Switch.Lib.GuardedRun P4Switch.Ixgbe

section
variable {tbl : Ipv4Host} {s : Engine} {i j : ThreadId}

/-- The effect of thread `i` on the pipeline around it. -/
structure Effect (i : ThreadId) (s s' : Engine) : Prop where
  ports : s'.nPortsOut = s.nPortsOut
  others : ∀ j, j ≠ i → s'.threads j = s.threads j
  done : s'.done = s.done ∨ ∃ pkt o, s'.done = ⟨i, pkt, o⟩ :: s.done
  mem : (s'.mem = s.mem ∧ s'.stores = s.stores) ∨
    ∃ st, s'.stores = st :: s.stores ∧ s'.mem = s.mem.write st.ptr st.block ∧
      st.pkt.handle = (s.threads i).pkt.handle ∧ st.pkt.mbuf = (s.threads i).pkt.mbuf

theorem effect_setThread (s : Engine) (i : ThreadId) (t : Thread) : Effect i s (s.setThread i t) where
  ports := rfl
  others _ hj := setThread_other s t hj
  done := .inl rfl
  mem := .inl ⟨rfl, rfl⟩

theorem Effect.finish {s' : Engine} (h : Effect i s s') (hd : s'.done = s.done) (o : Outcome) :
    Effect i s (s'.finish i o) where
  ports := h.ports
  others j hj := by
    show (s'.setThread i _).threads j = _
    rw [setThread_other _ _ hj, h.others j hj]
  done := .inr ⟨_, o, by rw [← hd]; rfl⟩
  mem := h.mem

theorem effect_store (t : Thread) (hh : t.pkt.handle = (s.threads i).pkt.handle)
    (hm : t.pkt.mbuf = (s.threads i).pkt.mbuf) (p : Addr) (block : List UInt8) :
    Effect i s ((s.setThread i t).store i p block) where
  ports := rfl
  others j hj := setThread_other s t hj
  done := .inl rfl
  mem := .inr ⟨_, rfl, rfl, by simpa using hh, by simpa using hm⟩

theorem effect_emitTx (s : Engine) (i : ThreadId) (hs : List Header) :
    Effect i s (s.emitTx i hs) := by
  unfold Engine.emitTx
  dsimp only
  split
  · exact (effect_setThread s i _).finish rfl _
  · exact (effect_store _ (by rfl) (by rfl) _ _).finish rfl _

theorem effect_action {t : Thread} (hh : t.pkt.handle = (s.threads i).pkt.handle)
    (hm : t.pkt.mbuf = (s.threads i).pkt.mbuf) (a : Action) :
    Effect i s ((s.setThread i t).action i a) := by
  cases a with
  | noAction => exact effect_setThread s i t
  | send port class_ =>
    rw [Engine.action, setThread_setThread, setThread_same]
    exact effect_store _ (by exact hh) (by exact hm) _ _
  | drop_1 =>
    rw [Engine.action, setThread_setThread]
    exact effect_setThread s i _

theorem effect_tableExec (s : Engine) (i : ThreadId) : Effect i s (s.tableExec tbl i) := by
  unfold Engine.tableExec
  dsimp only
  split
  · exact effect_setThread s i _
  · exact effect_setThread s i _
  · exact effect_action (by rfl) (by rfl) _

theorem effect_exec (tbl : Ipv4Host) (s : Engine) (i : ThreadId) : Effect i s (s.exec tbl i) := by
  have hself : Effect i s s := ⟨rfl, fun _ _ => rfl, .inl rfl, .inl ⟨rfl, rfl⟩⟩
  unfold Engine.exec
  split
  · exact hself
  · rename_i c _
    cases c with
    | rx => exact hself
    | movDrop v => exact effect_setThread s i _
    | extract h => exact effect_setThread s i _
    | jmpeq target h offset v =>
      unfold Engine.execInstr
      dsimp only
      split <;> exact effect_setThread s i _
    | jmp target => exact effect_setThread s i _
    | table => exact effect_tableExec s i
    | jmpneqDrop target v =>
      unfold Engine.execInstr
      dsimp only
      split <;> exact effect_setThread s i _
    | emitTx hs => exact effect_emitTx s i hs
    | drop => exact hself.finish rfl _

/-- Every byte an instruction changes lies in the block of a store it records. -/
theorem exec_changed {q : Addr} (h : (s.exec tbl i).mem q ≠ s.mem q) :
    ∃ st, (s.exec tbl i).stores = st :: s.stores ∧ st.pkt.handle = (s.threads i).pkt.handle ∧
      q.region = st.ptr.region ∧ st.ptr.off ≤ q.off ∧ q.off < st.ptr.off + st.block.length := by
  obtain ⟨hm, -⟩ | ⟨st, hst, hm, hh, -⟩ := (effect_exec tbl s i).mem
  · exact (h (by rw [hm])).elim
  · rw [hm] at h
    exact ⟨st, hst, hh, Mem.write_changed h⟩

/-! ## Receiving -/

/-- `rx` either changes nothing or leaves thread `i` idle or with the new packet. -/
theorem rx_cases (s : Engine) (i : ThreadId) (port : UInt32) (p : Option (MbufPtr × RteMbuf)) :
    s.rx i port p = s ∨
    (∃ t, s.rx i port p = s.setThread i t ∧ (s.threads i).ip = 0 ∧ t.ip = 0 ∧
      t.mailbox = (s.threads i).mailbox) ∨
    (∃ handle m, p = some (handle, m) ∧ (s.threads i).ip = 0 ∧ ¬ s.InFlight handle ∧
      s.rx i port p = { s.setThread i ((s.threads i).received port handle m) with
        mem := fun q => if q.region = .mbuf handle then m.buf q.off else s.mem q }) := by
  cases p with
  | none =>
    unfold Engine.rx
    dsimp only
    split
    · rename_i h
      exact .inr (.inl ⟨_, rfl, h, h, rfl⟩)
    · exact .inl rfl
  | some p =>
    obtain ⟨handle, m⟩ := p
    unfold Engine.rx
    dsimp only
    split
    · rename_i h
      exact .inr (.inr ⟨handle, m, rfl, h.1, h.2, rfl⟩)
    · exact .inl rfl

theorem rx_ports (s : Engine) (i : ThreadId) (port : UInt32) (p : Option (MbufPtr × RteMbuf)) :
    (s.rx i port p).nPortsOut = s.nPortsOut := by
  obtain e | ⟨t, e, -⟩ | ⟨handle, m, -, -, -, e⟩ := rx_cases s i port p <;> rw [e]
  · rfl
  · rfl

/-- The ports are those of the build. -/
theorem run_ports (tbl : Ipv4Host) (s : Engine) (ops : List Op) :
    (run (Engine.step tbl) s ops).nPortsOut = s.nPortsOut := by
  induction ops generalizing s with
  | nil => rfl
  | cons op ops ih =>
    rw [run_cons, ih]
    cases op with
    | rx i port p => exact rx_ports s i port p
    | exec i => exact (effect_exec tbl s i).ports

/-! ## Ports that exist -/

/-- No thread has a port in its metadata that the pipeline does not have, and none has used
one. -/
structure PortsFit (n : Nat) (s : Engine) : Prop where
  ports : s.nPortsOut = n + 1
  egress : ∀ i, (s.threads i).egressPort.toNat ≤ n
  done : ∀ d ∈ s.done, ∀ port, d.outcome ≠ .fault port

theorem portOutTx_ne_fault {n : Nat} {port : UInt32} (h : port.toNat ≤ n) (m : RteMbuf)
    (p : UInt32) : portOutTx (n + 1) port m ≠ .fault p := by
  unfold portOutTx
  split
  · exact fun hc => by cases hc
  · rw [if_pos (by omega)]
    exact fun hc => by cases hc

section
variable {n : Nat}

theorem PortsFit.setThread (h : PortsFit n s) {t : Thread} (ht : t.egressPort.toNat ≤ n) :
    PortsFit n (s.setThread i t) := by
  refine ⟨h.ports, ?_, h.done⟩
  intro j
  by_cases hj : j = i
  · subst hj
    rwa [setThread_same]
  · rw [setThread_other s t hj]
    exact h.egress j

theorem PortsFit.finish (h : PortsFit n s) {o : Outcome} (ho : ∀ port, o ≠ .fault port) :
    PortsFit n (s.finish i o) := by
  have hs := h.setThread (i := i) (t := { s.threads i with ip := 0 }) (h.egress i)
  refine ⟨h.ports, hs.egress, ?_⟩
  intro d hd
  rcases List.mem_cons.mp hd with rfl | hd
  · exact ho
  · exact h.done d hd

theorem PortsFit.action (h : PortsFit n s) {t : Thread} (ht : t.egressPort.toNat ≤ n) {a : Action}
    (ha : a.PortExists n) :
    PortsFit n ((s.setThread i t).action i a) := by
  cases a with
  | noAction => exact h.setThread ht
  | send port class_ =>
    rw [Engine.action, setThread_setThread, setThread_same]
    have hs := h.setThread (i := i) (t := { t with egressPort := port, metaDrop := 0 })
      ha
    exact ⟨hs.ports, hs.egress, hs.done⟩
  | drop_1 =>
    rw [Engine.action, setThread_setThread, setThread_same]
    exact h.setThread ht

/-- What a lookup finds is an entry of the table. -/
theorem lookupResult_ports (ht : tbl.PortsExist n) : (s.lookupResult tbl i).PortExists n := by
  unfold Engine.lookupResult
  dsimp only
  split
  · exact ht _
  · trivial

theorem PortsFit.exec (h : PortsFit n s) (ht : tbl.PortsExist n) (i : ThreadId) :
    PortsFit n (s.exec tbl i) := by
  have hi := h.egress i
  unfold Engine.exec
  split
  · exact h
  · rename_i c _
    cases c with
    | rx => exact h
    | movDrop v => exact h.setThread hi
    | extract hd => exact h.setThread hi
    | jmpeq target hd offset v =>
      unfold Engine.execInstr
      dsimp only
      split <;> exact h.setThread hi
    | jmp target => exact h.setThread hi
    | table =>
      show PortsFit n (s.tableExec tbl i)
      unfold Engine.tableExec
      dsimp only
      split
      · exact h.setThread hi
      · exact h.setThread hi
      · exact h.action (by exact hi) (lookupResult_ports ht)
    | jmpneqDrop target v =>
      unfold Engine.execInstr
      dsimp only
      split <;> exact h.setThread hi
    | emitTx hs =>
      show PortsFit n (s.emitTx i hs)
      unfold Engine.emitTx
      dsimp only
      have hf : PortsFit n (s.setThread i ((s.threads i).emitMany i hs)) := h.setThread hi
      have htx : ∀ m port, portOutTx s.nPortsOut ((s.threads i).emitMany i hs).egressPort m ≠
          .fault port := by
        intro m port
        rw [h.ports]
        exact portOutTx_ne_fault hi m port
      split
      · exact hf.finish (htx _)
      · exact PortsFit.finish (s := (s.setThread i _).store i _ _) ⟨hf.ports, hf.egress, hf.done⟩
          (htx _)
    | drop => exact h.finish fun port hc => by cases hc

theorem PortsFit.rx (h : PortsFit n s) (i : ThreadId) (port : UInt32)
    (p : Option (MbufPtr × RteMbuf)) : PortsFit n (s.rx i port p) := by
  cases p with
  | none =>
    unfold Engine.rx
    dsimp only
    split
    · exact h.setThread (h.egress i)
    · exact h
  | some p =>
    unfold Engine.rx
    dsimp only
    split
    · have hr := h.setThread (i := i) (t := (s.threads i).received port p.1 p.2) (h.egress i)
      exact ⟨hr.ports, hr.egress, hr.done⟩
    · exact h

/-- With entries for ports that exist no frame is handed past the last one. -/
theorem portsFit_run (ht : tbl.PortsExist n) (h : PortsFit n s) (ops : List Op) :
    PortsFit n (run (Engine.step tbl) s ops) := by
  refine List.foldlRecOn ops (Engine.step tbl) h ?_
  intro s h op _
  cases op with
  | rx i port p => exact h.rx i port p
  | exec i => exact h.exec ht i

theorem portsFit_build (n : Nat) : PortsFit n (Engine.build n) where
  ports := rfl
  egress _ := Nat.zero_le n
  done d hd := by cases hd

end

/-! ## Between lookups the mailbox is empty -/

def MailboxIdle (s : Engine) : Prop := ∀ i, (s.threads i).ip ≠ 10 → (s.threads i).mailbox.state = 0

theorem MailboxIdle.setThread (h : MailboxIdle s) {t : Thread} (ht : t.ip ≠ 10 → t.mailbox.state = 0) :
    MailboxIdle (s.setThread i t) := by
  intro j hj
  by_cases he : j = i
  · subst he
    rw [setThread_same] at hj ⊢
    exact ht hj
  · rw [setThread_other s t he] at hj ⊢
    exact h j hj

theorem MailboxIdle.action (h : MailboxIdle s) {t : Thread} (ht : t.mailbox.state = 0) (a : Action) :
    MailboxIdle ((s.setThread i t).action i a) := by
  cases a with
  | noAction => exact h.setThread fun _ => ht
  | send port class_ =>
    rw [Engine.action, setThread_setThread, setThread_same]
    exact h.setThread (t := { t with egressPort := port, metaDrop := 0 }) fun _ => ht
  | drop_1 =>
    rw [Engine.action, setThread_setThread, setThread_same]
    exact h.setThread fun _ => ht

theorem MailboxIdle.finish (h : MailboxIdle s) (hi : (s.threads i).mailbox.state = 0) (o : Outcome) :
    MailboxIdle (s.finish i o) :=
  h.setThread (t := { s.threads i with ip := 0 }) fun _ => hi

/-- The program applies one table. -/
theorem apply_table {n : Nat} (h : apply[n]? = some .table) : n = 10 := by
  obtain ⟨hn, he⟩ := List.getElem?_eq_some_iff.mp h
  have hn' : n < 14 := hn
  interval_cases n <;> first | rfl | (simp [apply] at he)

theorem MailboxIdle.exec (h : MailboxIdle s) (i : ThreadId) : MailboxIdle (s.exec tbl i) := by
  by_cases hip : (s.threads i).ip = 10
  · rw [Engine.exec, hip]
    show MailboxIdle (s.tableExec tbl i)
    unfold Engine.tableExec
    dsimp only
    split
    · exact h.setThread fun hc => (hc hip).elim
    · exact h.setThread fun hc => (hc hip).elim
    · exact h.action rfl _
  · have hi := h i hip
    unfold Engine.exec
    split
    · exact h
    · rename_i c hc
      cases c with
      | rx => exact h
      | movDrop v => exact h.setThread fun _ => hi
      | extract hd => exact h.setThread fun _ => hi
      | jmpeq target hd offset v =>
        unfold Engine.execInstr
        dsimp only
        split <;> exact h.setThread fun _ => hi
      | jmp target => exact h.setThread fun _ => hi
      | table =>
        exact (hip (apply_table hc)).elim
      | jmpneqDrop target v =>
        unfold Engine.execInstr
        dsimp only
        split <;> exact h.setThread fun _ => hi
      | emitTx hs =>
        show MailboxIdle (s.emitTx i hs)
        unfold Engine.emitTx
        dsimp only
        have ht : MailboxIdle (s.setThread i ((s.threads i).emitMany i hs)) := h.setThread fun _ => hi
        have hti : ((s.setThread i ((s.threads i).emitMany i hs)).threads i).mailbox.state = 0 := by
          rw [setThread_same]; exact hi
        split
        · exact ht.finish hti _
        · exact MailboxIdle.finish (s := (s.setThread i _).store i _ _) ht hti _
      | drop => exact h.finish hi _

theorem MailboxIdle.rx (h : MailboxIdle s) (i : ThreadId) (port : UInt32)
    (p : Option (MbufPtr × RteMbuf)) : MailboxIdle (s.rx i port p) := by
  obtain e | ⟨t, e, h0, -, hm⟩ | ⟨handle, m, -, h0, -, e⟩ := rx_cases s i port p
  · rwa [e]
  · rw [e]
    exact h.setThread fun _ => hm ▸ h i (by omega)
  · rw [e]
    exact h.setThread (t := (s.threads i).received port handle m) fun _ => h i (by omega)

/-- In every state of every run. -/
theorem mailboxIdle_run (tbl : Ipv4Host) (n : Nat) (ops : List Op) :
    MailboxIdle (run (Engine.step tbl) (Engine.build n) ops) := by
  have hb : MailboxIdle (Engine.build n) := fun _ _ => rfl
  refine List.foldlRecOn ops (Engine.step tbl) hb ?_
  intro s h op _
  cases op with
  | rx i port p => exact h.rx i port p
  | exec i => exact h.exec i

end

end P4Switch.L3
