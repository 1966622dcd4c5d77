import P4Switch.L3.Switch

/-! # What every step of the switch keeps

A thread keeps the copy of the table it took with its packet, the published copy shows the
committed map, and with entries for ports that exist no thread leaves them. -/
namespace P4Switch.L3
open P4Switch.Lib.Memory P4Switch.Lib.GuardedRun P4Switch.Lib.Words P4Switch.Ixgbe
  P4Switch.Tables P4Switch.Control

/-! ## Which copy a thread holds -/

section
variable {s : Switch × (Fin 1 → TableTxn)} {i j : ThreadId} {op : SwitchOp}

theorem exec_idle {e : Engine} {tbl : Ipv4Host} (h : (e.threads i).ip = 0) : e.exec tbl i = e := by
  have hfetch : apply[(e.threads i).ip]? = some .rx := by
    rw [h]
    rfl
  rw [exec_of_fetch hfetch]
  rfl

theorem rx_busy {e : Engine} (h : (e.threads i).ip ≠ 0) (port : UInt32)
    (pkt : Option (MbufPtr × RteMbuf)) : e.rx i port pkt = e := by
  rcases rx_cases e i port pkt with he | ⟨t, -, h0, -⟩ | ⟨handle, m, -, h0, -⟩
  · exact he
  · exact absurd h0 h
  · exact absurd h0 h

/-- A thread that may receive. -/
theorem rx_mailbox (e : Engine) (i : ThreadId) (port : UInt32) (pkt : Option (MbufPtr × RteMbuf)) :
    ((e.rx i port pkt).threads i).mailbox = (e.threads i).mailbox := by
  rcases rx_cases e i port pkt with he | ⟨t, he, -, -, ht⟩ | ⟨handle, m, -, -, -, he⟩
  · rw [he]
  · rw [he, setThread_same, ht]
  · have ht : (e.rx i port pkt).threads i = (e.threads i).received port handle m := by
      rw [he]
      exact setThread_same e i _
    rw [ht]
    rfl

theorem rx_other {e : Engine} (hj : j ≠ i) (port : UInt32) (pkt : Option (MbufPtr × RteMbuf)) :
    (e.rx i port pkt).threads j = e.threads j := by
  rcases rx_cases e i port pkt with he | ⟨t, he, -⟩ | ⟨handle, m, -, -, -, he⟩
  · rw [he]
  · rw [he]
    exact setThread_other e t hj
  · rw [he]
    exact setThread_other e _ hj

theorem control_other (s : Switch) {op : CtlOp} (h : ∀ ab, op ≠ .commit ab) :
    s.control op = ({ s with ctl := (op.exec s.ctl).1 }, (op.exec s.ctl).2) := by
  cases op with
  | commit ab => exact absurd rfl (h ab)
  | _ => rfl

/-- The cases of a call of the control plane: the published copy stays, or it is replaced. -/
theorem control_cases (s : Switch) (op : CtlOp) :
    ((s.control op).1.ctl = (op.exec s.ctl).1 ∧ (s.control op).2 = (op.exec s.ctl).2 ∧
        (s.control op).1.ctl.ts = s.ctl.ts ∧ (s.control op).1.stale = s.stale ∧
        (s.control op).1.waiting = s.waiting) ∨
      ∃ ab, op = .commit ab ∧ (s.ctl.publish ab).2 = 0 ∧
        s.control op = ({ s with
          ctl := (s.ctl.publish ab).1
          stale := fun i => !s.stale i
          waiting := true }, 0) := by
  by_cases hop : ∀ ab, op ≠ .commit ab
  · rw [control_other s hop]
    exact Or.inl ⟨rfl, rfl, exec_ts s.ctl hop, rfl, rfl⟩
  · obtain ⟨ab, hab⟩ := not_forall.mp hop
    have hab : op = .commit ab := not_not.mp hab
    subst hab
    by_cases hst : (s.ctl.publish ab).2 = 0
    · exact Or.inr ⟨ab, rfl, hst, if_pos hst⟩
    · have hcommit : s.ctl.commit ab = s.ctl.publish ab := by
        rw [commit_eq, if_neg hst]
      have hex : CtlOp.exec s.ctl (.commit ab) = s.ctl.publish ab := hcommit
      have hctl : s.control (.commit ab) =
          ({ s with ctl := (s.ctl.publish ab).1 }, (s.ctl.publish ab).2) := if_neg hst
      rw [hex, hctl]
      exact Or.inl ⟨rfl, rfl, publish_failed hst, rfl, rfl⟩

theorem control_engine (s : Switch) (op : CtlOp) :
    (s.control op).1.engine = s.engine ∧ (s.control op).1.mailboxes = s.mailboxes := by
  cases op with
  | commit ab =>
    unfold Switch.control
    dsimp only
    split
    · exact ⟨rfl, rfl⟩
    · exact ⟨rfl, rfl⟩
  | _ => exact ⟨rfl, rfl⟩

/-- A thread keeps its copy of the table to the end of its packet. -/
theorem SwitchInv.held (h : SwitchInv s) (hg : GraceOver s op) (hip : (s.1.engine.threads i).ip ≠ 0) :
    (Switch.step s op).1.tableState i = s.1.tableState i := by
  cases op with
  | rx j port pkt =>
    have hstale : (s.1.rx j port pkt).stale i = s.1.stale i := by
      unfold Switch.rx
      dsimp only
      split
      · rename_i h0
        refine Function.update_of_ne (fun hij => hip ?_) _ _
        rw [hij]
        exact h0
      · rfl
    change (s.1.rx j port pkt).tableState i = _
    unfold Switch.tableState
    rw [hstale]
    rfl
  | exec j =>
    obtain ⟨hstale, hctl, -⟩ := exec_keeps s.1 j
    change (s.1.exec j).tableState i = _
    unfold Switch.tableState
    rw [hstale, hctl]
  | control op =>
    change (if s.1.waiting then s else _).1.tableState i = _
    split
    · rfl
    · rename_i hw
      have hfresh := h.fresh (Bool.eq_false_iff.mpr hw) i hip
      dsimp only
      rw [tableState_fresh hfresh]
      rcases control_cases s.1 op with ⟨-, -, hts, hst, -⟩ | ⟨ab, rfl, hok, hrun⟩
      · rw [tableState_fresh ((congrFun hst i).trans hfresh), hts]
      · rw [hrun]
        have hold : (!s.1.stale i) = true := by rw [hfresh]; rfl
        exact (tableState_stale hold).trans (congrFun (publish_tsNext hok) 0)
  | settle =>
    change (if s.1.waiting then (s.1.settle, s.2) else s).1.tableState i = _
    split
    · have hfresh : s.1.stale i = false := hg i hip
      have hsettled : s.1.settle.tableState i = s.1.settle.ctl.ts 0 := tableState_fresh hfresh
      rw [tableState_fresh hfresh]
      exact hsettled.trans (congrFun (settle_ts s.1.ctl) 0)
    · rfl

/-! ## The invariant -/

/-- A thread that waits for a packet has no lookup going on. -/
theorem SwitchInv.looking_of (h : SwitchInv s) (s' : Switch) (hm : s'.mailboxes = s.1.mailboxes)
    (he : s'.engine = s.1.engine)
    (ht : ∀ i, (s.1.engine.threads i).ip ≠ 0 → s'.tableState i = s.1.tableState i) (i : ThreadId) :
    Looking (s'.tableState i).obj (s'.mailboxes i) (s'.engine.threads i).mailbox := by
  have hl := h.looking i
  rw [hm, he]
  by_cases hip : (s.1.engine.threads i).ip = 0
  · have hg := h.idle i (by omega)
    exact looking_idle _ (hl.state_eq.trans hg) hg
  · rw [ht i hip]
    exact hl

/-- The copy a thread works with may be read. -/
theorem SwitchInv.reads_held (h : SwitchInv s) (hip : (s.1.engine.threads i).ip ≠ 0) :
    Reads (s.1.tableState i) := by
  cases hst : s.1.stale i with
  | false =>
    rw [tableState_fresh hst]
    exact h.reads
  | true =>
    rw [tableState_stale hst]
    refine h.readsNext ?_
    by_contra hw
    have hfresh := h.fresh (Bool.eq_false_iff.mpr hw) i hip
    rw [hst] at hfresh
    cases hfresh

theorem SwitchInv.executes (h : SwitchInv s) (i : ThreadId) : Executes s.1 i (s.1.exec i) :=
  exec_executes h.reads_held (h.looking i)

theorem SwitchInv.exec (h : SwitchInv s) (i : ThreadId) : SwitchInv (Switch.step s (.exec i)) := by
  obtain ⟨hstale, hctl, hwait⟩ := exec_keeps s.1 i
  have hx := h.executes i
  have heff := effect_exec (hostOf (s.1.tableState i)) s.1.engine i
  rw [← hx.engine] at heff
  have hts : (s.1.exec i).tableState = s.1.tableState := by
    funext j
    unfold Switch.tableState
    rw [hstale, hctl]
  change SwitchInv (s.1.exec i, s.2)
  constructor
  case settled => rw [hwait, hctl]; exact h.settled
  case published => rw [hwait, hctl]; exact h.published
  case dflt => exact h.dflt
  case reads => rw [hctl]; exact h.reads
  case readsNext => rw [hwait, hctl]; exact h.readsNext
  case fresh =>
    dsimp only
    rw [hwait, hstale]
    intro hw j hip
    refine h.fresh hw j fun h0 => hip ?_
    by_cases hj : j = i
    · subst hj
      rw [hx.engine, exec_idle h0, h0]
    · rw [heff.others j hj, h0]
  case looking =>
    dsimp only
    rw [hts]
    intro j
    by_cases hj : j = i
    · subst hj
      exact hx.looking
    · rw [hx.others j hj, heff.others j hj]
      exact h.looking j
  case idle =>
    dsimp only
    rw [hx.engine]
    exact h.idle.exec i

theorem SwitchInv.rx (h : SwitchInv s) (i : ThreadId) (port : UInt32)
    (pkt : Option (MbufPtr × RteMbuf)) : SwitchInv (Switch.step s (.rx i port pkt)) := by
  change SwitchInv (s.1.rx i port pkt, s.2)
  have hstale : ∀ j, j ≠ i → (s.1.rx i port pkt).stale j = s.1.stale j := by
    intro j hj
    unfold Switch.rx
    dsimp only
    split
    · exact Function.update_of_ne hj _ _
    · rfl
  have hbusy : (s.1.engine.threads i).ip ≠ 0 → s.1.rx i port pkt = s.1 := by
    intro hip
    unfold Switch.rx
    rw [rx_busy hip, if_neg hip]
  constructor
  case settled => exact h.settled
  case published => exact h.published
  case dflt => exact h.dflt
  case reads => exact h.reads
  case readsNext => exact h.readsNext
  case fresh =>
    intro hw j hip
    by_cases hj : j = i
    · subst hj
      by_cases h0 : (s.1.engine.threads j).ip = 0
      · unfold Switch.rx
        dsimp only
        rw [if_pos h0, Function.update_self]
      · dsimp only
        rw [hbusy h0]
        exact h.fresh hw j h0
    · have hthread : (s.1.rx i port pkt).engine.threads j = s.1.engine.threads j :=
        rx_other hj port pkt
      rw [hthread] at hip
      dsimp only
      rw [hstale j hj]
      exact h.fresh hw j hip
  case looking =>
    intro j
    change Looking _ (s.1.mailboxes j) ((s.1.engine.rx i port pkt).threads j).mailbox
    by_cases hj : j = i
    · subst hj
      rw [rx_mailbox]
      by_cases h0 : (s.1.engine.threads j).ip = 0
      · have hg := h.idle j (by omega)
        exact looking_idle _ ((h.looking j).state_eq.trans hg) hg
      · dsimp only
        rw [hbusy h0]
        exact h.looking j
    · rw [rx_other hj]
      have hts : (s.1.rx i port pkt).tableState j = s.1.tableState j := by
        unfold Switch.tableState
        rw [hstale j hj]
        rfl
      dsimp only
      rw [hts]
      exact h.looking j
  case idle => exact h.idle.rx i port pkt

/-- One call of the control plane, on the maps. -/
theorem agrees_call {c : Ctl 1} {m : Fin 1 → TableTxn} (h : Agrees l3Setup (c, m)) (op : CtlOp) :
    Agrees l3Setup (l3Setup.step (c, m) op) := by
  have hclean : Meets l3Setup.step CleanFailure (c, m) [op] := clean_single (c, m) [op]
  exact agrees_step (c, m) op h hclean.1

theorem SwitchInv.control (h : SwitchInv s) (op : CtlOp) :
    SwitchInv (Switch.step s (.control op)) := by
  have hheld : ∀ i, (s.1.engine.threads i).ip ≠ 0 →
      (Switch.step s (.control op)).1.tableState i = s.1.tableState i :=
    fun _ hip => h.held trivial hip
  unfold Switch.step at hheld ⊢
  dsimp only at hheld ⊢
  split
  · exact h
  · rename_i hw
    rw [if_neg hw] at hheld
    have hw : s.1.waiting = false := Bool.eq_false_iff.mpr hw
    have hagrees := h.settled hw
    have hafter := agrees_call hagrees op
    have hdflt : KeepsDefault l3Setup (l3Setup.step (s.1.ctl, s.2) op).2 0 :=
      hagrees.keepsDefault rfl h.dflt op
    obtain ⟨heng, hmail⟩ := control_engine s.1 op
    have hlook := h.looking_of _ hmail heng hheld
    rcases control_cases s.1 op with ⟨hctl, hst, hts, hstale, hwait⟩ | ⟨ab, rfl, hok, hrun⟩
    · have hstep : l3Setup.step (s.1.ctl, s.2) op =
          ((s.1.control op).1.ctl, l3Setup.apply s.2 op (s.1.control op).2) := by
        unfold Setup.step
        rw [hctl, hst]
      rw [hstep] at hafter hdflt
      have hwait : (s.1.control op).1.waiting = false := hwait.trans hw
      constructor
      case settled => exact fun _ => hafter
      case published => exact fun hc => absurd (hwait.symm.trans hc) Bool.false_ne_true
      case dflt => exact hdflt
      case reads => rw [hts]; exact h.reads
      case readsNext => exact fun hc => absurd (hwait.symm.trans hc) Bool.false_ne_true
      case fresh =>
        dsimp only
        rw [heng, hstale]
        exact fun _ => h.fresh hw
      case looking => exact hlook
      case idle => rw [heng]; exact h.idle
    · have hcommit : (s.1.ctl.commit ab).2 = 0 := (commit_status _ _).trans hok
      have hstep : (l3Setup.step (s.1.ctl, s.2) (.commit ab)).2 =
          l3Setup.apply s.2 (.commit ab) 0 := by
        unfold Setup.step CtlOp.exec
        dsimp only
        rw [hcommit]
      have hreads := agrees_reads hafter hdflt
      rw [hstep] at hdflt
      rw [hrun] at hlook ⊢
      constructor
      case settled => exact fun hc => absurd hc.symm Bool.false_ne_true
      case published => exact fun _ => ⟨s.1.ctl, s.2, ab, hagrees, hok, rfl, rfl⟩
      case dflt => exact hdflt
      case reads =>
        have hts := congrFun (publish_ts hok) 0
        dsimp only
        rw [hts]
        exact hreads
      case readsNext =>
        intro _
        dsimp only
        rw [publish_tsNext hok]
        exact h.reads
      case fresh => exact fun hc => absurd hc.symm Bool.false_ne_true
      case looking => exact hlook
      case idle => exact h.idle

theorem SwitchInv.settle (h : SwitchInv s) (hg : GraceOver s .settle) :
    SwitchInv (Switch.step s .settle) := by
  have hheld : ∀ i, (s.1.engine.threads i).ip ≠ 0 →
      (Switch.step s .settle).1.tableState i = s.1.tableState i :=
    fun _ hip => h.held hg hip
  unfold Switch.step at hheld ⊢
  dsimp only at hheld ⊢
  split
  · rename_i hw
    rw [if_pos hw] at hheld
    obtain ⟨c, m, ab, hagrees, hok, hctl, hmaps⟩ := h.published hw
    have hafter := agrees_call hagrees (.commit ab)
    have hcommit : c.commit ab = (s.1.ctl.settle, 0) := by
      rw [commit_eq, if_pos hok, hctl]
    have hstep : l3Setup.step (c, m) (.commit ab) = (s.1.ctl.settle, s.2) := by
      unfold Setup.step CtlOp.exec
      dsimp only
      rw [hcommit, hmaps]
    rw [hstep] at hafter
    have hlook := h.looking_of s.1.settle rfl rfl hheld
    constructor
    case settled => exact fun _ => hafter
    case published => exact fun hc => absurd hc Bool.false_ne_true
    case dflt => exact h.dflt
    case reads => exact agrees_reads hafter h.dflt
    case readsNext => exact fun hc => absurd hc Bool.false_ne_true
    case fresh => exact fun _ => hg
    case looking => exact hlook
    case idle => exact h.idle
  · exact h

theorem switchInv_step (s : Switch × (Fin 1 → TableTxn)) (op : SwitchOp) (h : SwitchInv s)
    (hg : GraceOver s op) : SwitchInv (Switch.step s op) := by
  cases op with
  | rx i port pkt => exact h.rx i port pkt
  | exec i => exact h.exec i
  | control op => exact h.control op
  | settle => exact h.settle hg

/-! ## The published map -/

/-- The committed map, in the terms of the program. -/
def hostMap (m : TableTxn) : Ipv4Host where
  entry := fun dst => (m.map.committed (keyWords dst)).map ofValue
  sameBucket := fun _ _ => false

/-- The copy a thread takes shows the committed map. -/
theorem SwitchInv.published_lookup (h : SwitchInv s) (dst : UInt32) :
    (hostOf (s.1.ctl.ts 0)).lookup dst = (hostMap (s.2 0)).lookup dst := by
  obtain ⟨c, hagrees, hts⟩ : ∃ c, Agrees l3Setup (c, s.2) ∧ c.ts 0 = s.1.ctl.ts 0 := by
    cases hw : s.1.waiting with
    | false => exact ⟨s.1.ctl, h.settled hw, rfl⟩
    | true =>
      obtain ⟨c, m, ab, hagrees, hok, hctl, hmaps⟩ := h.published hw
      have hafter := agrees_call hagrees (.commit ab)
      have hstep : l3Setup.step (c, m) (.commit ab) = ((c.commit ab).1, s.2) := by
        unfold Setup.step CtlOp.exec
        dsimp only
        rw [commit_status, hok, hmaps]
      rw [hstep] at hafter
      refine ⟨_, hafter, ?_⟩
      rw [hctl, publish_ts hok]
  have hs := hagrees.synced 0
  have hshown := lookup_shown hs.cur.table hs.cur.shows hs.curDflt (keyAt dst)
  have hkey : (fun j => keyAt dst (ipv4HostParams.keyOffset.toNat + j)) = ((beBytes dst).getD · 0) := by
    funext j
    have hoff : ipv4HostParams.keyOffset.toNat = 16 := rfl
    unfold keyAt
    rw [hoff, Nat.add_sub_cancel_left]
  have hmiss : ofValue (shown ipv4HostParams (s.2 0).dflt) = .noAction := by
    rw [ofValue_shown, h.dflt.1]
    rfl
  have hslot : (c.slot 0).cur = s.1.ctl.ts 0 := hts
  rw [hslot] at hshown
  have hact : ofValue (shown ipv4HostParams ((s.1.ctl.ts 0).lookup (keyAt dst))) =
      actionFor (s.1.ctl.ts 0) (tableLookupUnoptimized (s.1.ctl.ts 0).obj (keyAt dst)) := by
    rw [ofValue_shown]
    unfold TableState.lookup actionFor
    cases tableLookupUnoptimized (s.1.ctl.ts 0).obj (keyAt dst) with
    | none => rfl
    | some d => rfl
  rw [← actionFor_lookup h.reads, ← hact]
  have hparams : l3Setup.params 0 = ipv4HostParams := rfl
  rw [hparams, hkey] at hshown
  rw [hshown]
  unfold Ipv4Host.lookup hostMap keyWords
  dsimp only
  cases (s.2 0).map.committed (ipv4HostParams.words ((beBytes dst).getD · 0)) with
  | none => exact hmiss
  | some v => rfl

end

/-! ## The switch -/

/-- The switch with `nPorts` configured ports after a run from the start. -/
def Switch.after (nPorts : Nat) (ops : List SwitchOp) : Switch × (Fin 1 → TableTxn) :=
  run Switch.step (Switch.build nPorts) ops

theorem switchInv_after {nPorts : Nat} {ops : List SwitchOp}
    (hg : Meets Switch.step GraceOver (Switch.build nPorts) ops) :
    SwitchInv (Switch.after nPorts ops) :=
  hg.invariant switchInv_step (switchInv_build nPorts)

/-! ## Entries for ports that exist -/

/-- An entry that is added names a port that exists. -/
def NamesPort (nPorts : Nat) : SwitchOp → Prop
  | .control (.entryAdd _ entry) =>
    (ofValue (argsOf l3Setup.actionDataSize ipv4HostParams entry)).PortExists nPorts
  | _ => True

instance NamesPort.decidable (nPorts : Nat) : ∀ op, Decidable (NamesPort nPorts op)
  | .control (.entryAdd _ _) => inferInstanceAs (Decidable (Action.PortExists nPorts _))
  | .control (.entryDelete _ _) => inferInstanceAs (Decidable True)
  | .control (.defaultEntryAdd _ _) => inferInstanceAs (Decidable True)
  | .control (.commit _) => inferInstanceAs (Decidable True)
  | .control .abort => inferInstanceAs (Decidable True)
  | .rx _ _ _ => inferInstanceAs (Decidable True)
  | .exec _ => inferInstanceAs (Decidable True)
  | .settle => inferInstanceAs (Decidable True)

/-- Committed or pending, every entry names a port that exists. -/
def EntriesFit (nPorts : Nat) (m : TableTxn) : Prop :=
  ∀ ws v, m.map.committed ws = some v ∨ m.map.pending ws = some v →
    (ofValue v).PortExists nPorts

section
variable {nPorts : Nat} {m : Fin 1 → TableTxn} {s : Switch × (Fin 1 → TableTxn)}

theorem EntriesFit.hostMap {m : TableTxn} (h : EntriesFit nPorts m) :
    (hostMap m).PortsExist nPorts := by
  intro dst
  unfold Ipv4Host.lookup L3.hostMap
  dsimp only
  cases hv : m.map.committed (keyWords dst) with
  | none => trivial
  | some v => exact h _ v (Or.inl hv)

theorem EntriesFit.commit {m : TableTxn} (h : EntriesFit nPorts m) (dataSize : UInt64 → UInt32) :
    EntriesFit nPorts (m.commit dataSize) :=
  fun ws v hv => h ws v (Or.inr (or_self_iff.mp hv))

theorem EntriesFit.abort {m : TableTxn} (h : EntriesFit nPorts m) : EntriesFit nPorts m.abort :=
  fun ws v hv => h ws v (Or.inl (or_self_iff.mp hv))

/-- One pending entry changes. -/
theorem EntriesFit.update {m : TableTxn} (h : EntriesFit nPorts m) (ws : List UInt64)
    {o : Option Value} (ho : ∀ v, o = some v → (ofValue v).PortExists nPorts) :
    EntriesFit nPorts
      { m with map := { m.map with pending := Function.update m.map.pending ws o } } := by
  intro ws' v hv
  rcases hv with hv | hv
  · exact h ws' v (Or.inl hv)
  · dsimp only at hv
    by_cases hws : ws' = ws
    · rw [hws, Function.update_self] at hv
      exact ho v hv
    · rw [Function.update_of_ne hws] at hv
      exact h ws' v (Or.inr hv)

/-- A call of the control plane brings no other entry than the one it adds. -/
theorem EntriesFit.apply (h : EntriesFit nPorts (m 0)) {op : CtlOp}
    (hop : NamesPort nPorts (.control op)) (status : Int) :
    EntriesFit nPorts (l3Setup.apply m op status 0) := by
  cases op with
  | entryAdd tableName entry =>
    unfold Setup.apply
    dsimp only
    cases l3Setup.find tableName with
    | none => exact h
    | some i =>
      obtain rfl : i = 0 := Subsingleton.elim _ _
      dsimp only
      split
      · rw [Function.update_self]
        exact h.update _ fun v hv => Option.some.inj hv ▸ hop
      · exact h
  | entryDelete tableName entry =>
    unfold Setup.apply
    dsimp only
    cases l3Setup.find tableName with
    | none => exact h
    | some i =>
      obtain rfl : i = 0 := Subsingleton.elim _ _
      dsimp only
      split
      · rw [Function.update_self]
        exact h.update _ fun v hv => by cases hv
      · exact h
  | defaultEntryAdd tableName entry =>
    unfold Setup.apply
    dsimp only
    cases l3Setup.find tableName with
    | none => exact h
    | some i =>
      obtain rfl : i = 0 := Subsingleton.elim _ _
      dsimp only
      split
      · rw [Function.update_self]
        exact h
      · exact h
  | commit abortOnFail =>
    unfold Setup.apply
    dsimp only
    split
    · exact h.commit _
    · split
      · exact h.abort
      · exact h
  | abort => exact h.abort

/-- The copies the threads may hold name ports that exist, and so do the threads. -/
structure SwitchPorts (nPorts : Nat) (s : Switch × (Fin 1 → TableTxn)) : Prop where
  entries : EntriesFit nPorts (s.2 0)
  next : s.1.waiting = true → (hostOf (s.1.ctl.tsNext 0)).PortsExist nPorts
  engine : PortsFit nPorts s.1.engine

theorem SwitchPorts.published (hp : SwitchPorts nPorts s) (h : SwitchInv s) :
    (hostOf (s.1.ctl.ts 0)).PortsExist nPorts := by
  intro dst
  rw [h.published_lookup]
  exact hp.entries.hostMap dst

theorem SwitchPorts.held (hp : SwitchPorts nPorts s) (h : SwitchInv s) {i : ThreadId}
    (hip : (s.1.engine.threads i).ip ≠ 0) : (hostOf (s.1.tableState i)).PortsExist nPorts := by
  cases hst : s.1.stale i with
  | false =>
    rw [tableState_fresh hst]
    exact hp.published h
  | true =>
    rw [tableState_stale hst]
    refine hp.next ?_
    by_contra hw
    have hfresh := h.fresh (Bool.eq_false_iff.mpr hw) i hip
    rw [hst] at hfresh
    cases hfresh

theorem SwitchPorts.step (hp : SwitchPorts nPorts s) (h : SwitchInv s) {op : SwitchOp}
    (hop : NamesPort nPorts op) : SwitchPorts nPorts (Switch.step s op) := by
  cases op with
  | rx i port pkt => exact ⟨hp.entries, hp.next, hp.engine.rx i port pkt⟩
  | exec i =>
    obtain ⟨-, hctl, hwait⟩ := exec_keeps s.1 i
    change SwitchPorts nPorts (s.1.exec i, s.2)
    constructor
    case entries => exact hp.entries
    case next =>
      dsimp only
      rw [hctl, hwait]
      exact hp.next
    case engine =>
      dsimp only
      rw [(h.executes i).engine]
      by_cases hip : (s.1.engine.threads i).ip = 0
      · rw [exec_idle hip]
        exact hp.engine
      · exact hp.engine.exec (hp.held h hip) i
  | control op =>
    change SwitchPorts nPorts (if s.1.waiting then s else _)
    split
    · exact hp
    · rename_i hw
      constructor
      case entries => exact hp.entries.apply hop _
      case next =>
        dsimp only
        rcases control_cases s.1 op with ⟨-, -, -, -, hwait⟩ | ⟨ab, rfl, hok, hrun⟩
        · rw [hwait]
          exact fun hc => absurd hc hw
        · rw [hrun]
          dsimp only
          rw [publish_tsNext hok]
          exact fun _ => hp.published h
      case engine =>
        dsimp only
        rw [(control_engine s.1 op).1]
        exact hp.engine
  | settle =>
    change SwitchPorts nPorts (if s.1.waiting then (s.1.settle, s.2) else s)
    split
    · exact ⟨hp.entries, fun hc => absurd hc Bool.false_ne_true, hp.engine⟩
    · exact hp

theorem switchPorts_build (nPorts : Nat) : SwitchPorts nPorts (Switch.build nPorts) := by
  constructor
  case entries => exact fun ws v hv => by rcases hv with hv | hv <;> cases hv
  case next => exact fun hc => absurd hc Bool.false_ne_true
  case engine => exact portsFit_build nPorts

theorem switchPorts_run {ops : List SwitchOp} (h : SwitchInv s) (hp : SwitchPorts nPorts s)
    (hg : Meets Switch.step GraceOver s ops) (hops : ∀ op ∈ ops, NamesPort nPorts op) :
    SwitchPorts nPorts (run Switch.step s ops) := by
  induction ops generalizing s with
  | nil => exact hp
  | cons op ops ih =>
    exact ih (switchInv_step s op h hg.1) (hp.step h (hops op List.mem_cons_self)) hg.2
      fun o ho => hops o (List.mem_cons_of_mem op ho)

end

end P4Switch.L3
