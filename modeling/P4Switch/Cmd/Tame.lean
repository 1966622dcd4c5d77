import P4Switch.Cmd.Process
import P4Switch.Cmd.Rules

/-! # Tame handlers

A tame handler reads no token that is not there, writes within its arrays and leaves the
streams as they were. All handlers but three are tame on every line. -/
namespace P4Switch.Cmd
open P4Switch.App P4Switch.Lib.EarlyExit

/-- An exit that is no fault, with the streams as before, or the use of a freed pipeline. -/
def Leaves (s : Session) (e : Exit) (s' : Session) : Prop :=
  e = .fault .freed ∨ (e = .returned ∨ e = .hang) ∧ s'.streams = s.streams

@[simp] theorem leaves_returned {s s' : Session} :
    Leaves s .returned s' ↔ s'.streams = s.streams := by
  simp [Leaves]

@[simp] theorem leaves_hang {s s' : Session} : Leaves s .hang s' ↔ s'.streams = s.streams := by
  simp [Leaves]

@[simp] theorem leaves_fault {s s' : Session} {f : Fault} :
    Leaves s (.fault f) s' ↔ f = .freed := by
  simp [Leaves]

variable {α β : Type}

def Tame (m : Handler α) : Prop :=
  ∀ s, Holds m (fun _ s' => s'.streams = s.streams) (Leaves s) s

theorem Leaves.congr {s s' s'' : Session} {e : Exit} (h : Leaves s' e s'')
    (hs : s'.streams = s.streams) : Leaves s e s'' := by
  unfold Leaves at h ⊢
  rwa [← hs]

theorem Tame.bind {m : Handler α} {f : α → Handler β} (hm : Tame m) (hf : ∀ a, Tame (f a)) :
    Tame (m >>= f) := by
  intro s
  rw [holds_bind]
  refine (hm s).mono ?_ fun _ _ he => he
  intro a s' hs'
  exact (hf a s').mono (fun _ _ h => h.trans hs') fun _ _ he => he.congr hs'

theorem Tame.forM {f : α → Handler PUnit} {l : List α} (hf : ∀ a ∈ l, Tame (f a)) :
    Tame (l.forM f) := by
  intro s
  refine holds_forM (I := fun s' : Session => s'.streams = s.streams) ?_ rfl
  intro a ha s' hs'
  exact (hf a ha s').mono (fun _ _ h => h.trans hs') fun _ _ he => he.congr hs'

theorem Tame.ite {c : Prop} [Decidable c] {m m' : Handler α} (hm : c → Tame m)
    (hm' : ¬c → Tame m') : Tame (if c then m else m') := by
  by_cases hc : c
  · rw [if_pos hc]
    exact hm hc
  · rw [if_neg hc]
    exact hm' hc

theorem tame_pure (a : α) : Tame (pure a : Handler α) := fun _ => rfl

theorem tame_reply (msg : String) : Tame (reply msg) := fun _ => rfl

theorem tame_require (c : Prop) [Decidable c] (msg : String) : Tame (require c msg) := by
  intro s
  simp

/-! ## Steps on tokens -/

section
variable {ts : List Token} {k : Nat}

theorem tame_mismatch (hts : ts ≠ []) : Tame (mismatch ts : Handler α) := by
  intro s
  simp [List.length_pos_of_ne_nil hts]

theorem tame_keyword (hk : k < ts.length) (w : String) : Tame (keyword ts k w) := by
  intro s
  simp [hk]

theorem tame_builtPipeline (hk : k < ts.length) : Tame (builtPipeline ts k) := by
  intro s
  simp [hk]

end

/-- The handlers that ask for one number of tokens. -/
theorem tame_counted {ts : List Token} {n : Nat} {body : Handler Unit} (hts : ts ≠ [])
    (h : ts.length = n → Tame body) : Tame (if ts.length ≠ n then mismatch ts else body) :=
  Tame.ite (fun _ => tame_mismatch hts) fun hn => h (not_not.mp hn)

variable {ts : List Token} (env : Env)

/-! ## Objects -/

theorem cmdMempool_tame (hts : ts ≠ []) : Tame (cmdMempool env ts) := by
  refine tame_counted hts ?_
  intro hlen s
  simp (disch := omega) [uint32]

theorem cmdRing_tame (hts : ts ≠ []) : Tame (cmdRing env ts) := by
  refine tame_counted hts ?_
  intro hlen s
  simp (disch := omega) [uint32]

theorem cmdTap_tame (hts : ts ≠ []) : Tame (cmdTap env ts) := by
  refine Tame.ite (fun _ => tame_mismatch hts) ?_
  intro hlen s
  simp (disch := omega)

theorem newObject_tame (name : Name) (numaNode : Nat) : Tame (newObject env name numaNode) := by
  intro s
  unfold newObject
  rw [holds_modify]
  cases pipelineSetup env.host s.obj name numaNode <;> rfl

theorem cmdPipelineCreate_tame (hts : ts ≠ []) : Tame (cmdPipelineCreate env ts) := by
  refine tame_counted hts ?_
  intro hlen
  have hname : Tame (token ts 1) := by
    intro s
    simp (disch := omega)
  have hnode : Tame (uint32 ts 3 "numa_node") := by
    intro s
    simp (disch := omega) [uint32]
  refine hname.bind fun name => hnode.bind fun numaNode => ?_
  refine (newObject_tame env name numaNode).bind fun _ s => ?_
  simp

theorem linkDevice_tame (hlen : 4 ≤ ts.length) : Tame (linkDevice ts) := by
  intro s
  simp (disch := omega) [linkDevice, uint16]

theorem onOff_tame {k : Nat} (hk : k < ts.length) : Tame (onOff ts k) := by
  intro s
  simp (disch := omega) [onOff]

/-- As many ids are stored as there are tokens, and of these there are no more than places. -/
theorem rssLoop_tame {left : Nat} (queueId : List Nat) (hleft : left ≤ ts.length)
    (hroom : queueId.length + left ≤ LINK_RXQ_RSS_MAX) : Tame (rssLoop ts left queueId) := by
  induction left generalizing queueId with
  | zero => exact tame_pure queueId
  | succ left ih =>
    have hread : Tame (uint32 ts (ts.length - (left + 1)) "queue_id") := by
      intro s
      simp (disch := omega) [uint32]
    refine hread.bind fun q => ?_
    have hlt : queueId.length < LINK_RXQ_RSS_MAX := by omega
    rw [if_pos hlt]
    refine ih (queueId ++ [q]) (by omega) ?_
    rw [List.length_append, List.length_singleton]
    omega

theorem linkRss_tame (hmax : ts.length ≤ 14 + LINK_RXQ_RSS_MAX) : Tame (linkRss ts) := by
  refine Tame.ite (fun hrss => ?_) fun _ => tame_pure none
  refine (tame_keyword hrss "rss").bind fun _ => ?_
  have hroom : ([] : List Nat).length + (ts.length - 14) ≤ LINK_RXQ_RSS_MAX := by
    rw [List.length_nil]
    omega
  exact (rssLoop_tame [] (Nat.sub_le ..) hroom).bind fun queueId => tame_pure (some queueId)

theorem cmdLink_tame (hts : ts ≠ []) : Tame (cmdLink env ts) := by
  refine Tame.ite (fun _ => tame_mismatch hts) ?_
  intro hlen
  have hread : ∀ k, k < 13 → Tame (token ts k) := by
    intro k hk s
    simp (disch := omega)
  have hnumber : ∀ k, k < 13 → ∀ name, Tame (uint32 ts k name) := by
    intro k hk name s
    simp (disch := omega) [uint32]
  refine (hread 1 (by decide)).bind fun name => ?_
  refine (linkDevice_tame (by omega)).bind fun dev => ?_
  refine (tame_keyword (by omega) _).bind fun _ => ?_
  refine (hnumber 5 (by decide) _).bind fun rxNQueues => ?_
  refine (hnumber 6 (by decide) _).bind fun rxQueueSize => ?_
  refine (hread 7 (by decide)).bind fun mempoolName => ?_
  refine (tame_keyword (by omega) _).bind fun _ => ?_
  refine (hnumber 9 (by decide) _).bind fun txNQueues => ?_
  refine (hnumber 10 (by decide) _).bind fun txQueueSize => ?_
  refine (tame_keyword (by omega) _).bind fun _ => ?_
  refine (onOff_tame (by omega)).bind fun promiscuous => ?_
  refine (linkRss_tame (by omega)).bind fun rss s => ?_
  simp (disch := omega)

theorem cmdLinkShow_tame (hts : ts ≠ []) : Tame (cmdLinkShow env ts) := by
  refine Tame.ite (fun _ => tame_mismatch hts) fun hlen => Tame.ite (fun htwo => ?_) fun htwo => ?_
  · refine Tame.bind (fun s => rfl) fun s => ?_
    exact Tame.forM fun link _ => tame_reply (printLinkInfo env link)
  · have hfound : Tame (found linkFind ts 2 (msgArgInvalid "Link does not exist")) := by
      intro s
      simp (disch := omega)
    refine hfound.bind fun i => Tame.bind (fun s => rfl) fun s => ?_
    exact Tame.forM fun link _ => tame_reply (printLinkInfo env link)

/-! ## Ports, building -/

theorem portConfig_tame (dir : Dir) (i portId : Nat) (params : PortParams) :
    Tame (portConfig env dir i portId params) := by
  intro s
  unfold portConfig
  rw [holds_bind, holds_get]
  cases s.object i with
  | none => simp
  | some x =>
    simp

theorem portLink_tame (context queue : String) :
    Tame (portLink ts context queue) := by
  refine Tame.ite (fun _ s => by simp) ?_
  intro hmin s
  simp (disch := omega) [uint16, uint32]

theorem portRing_tame (context : String) : Tame (portRing ts context) := by
  refine Tame.ite (fun _ s => by simp) ?_
  intro hmin s
  simp (disch := omega) [uint32]

theorem portSource_tame : Tame (portSource ts) := by
  refine Tame.ite (fun _ s => by simp) ?_
  intro hmin s
  simp (disch := omega) [uint64]

theorem portTapIn_tame : Tame (portTapIn ts) := by
  refine Tame.ite (fun _ s => by simp) ?_
  intro hmin s
  simp (disch := omega) [uint32]

theorem portTapOut_tame : Tame (portTapOut ts) := by
  refine Tame.ite (fun _ s => by simp) ?_
  intro hmin s
  simp (disch := omega) [uint32]

/-- With a token behind `sink`. -/
theorem portSink_tame (hlen : 7 ≤ ts.length) : Tame (portSink ts) := by
  intro s
  simp (disch := omega) [portSink]

/-- A chain is tame when the branch it takes is. -/
theorem portBranches_tame {branches : List (String × Handler (Nat × PortParams))}
    (hlen : 6 ≤ ts.length)
    (h : ∀ b ∈ branches, ts[5]? = some (word b.1) → Tame b.2) :
    Tame (portBranches ts branches) := by
  induction branches with
  | nil =>
    intro s
    simp (disch := omega) [portBranches]
  | cons b rest ih =>
    have hrest := ih fun b' hb' => h b' (List.mem_cons_of_mem b hb')
    have hb := h b (List.mem_cons_self ..)
    unfold portBranches
    rw [tokenIs_eq (by omega), pure_bind]
    refine Tame.ite (fun htaken => hb ?_) fun _ => hrest
    exact of_decide_eq_true htaken

theorem portCommand_tame (hlen0 : ts ≠ []) (dir : Dir) (word : String)
    {branches : List (String × Handler (Nat × PortParams))} (msg : String)
    (h : 6 ≤ ts.length → Tame (portBranches ts branches)) :
    Tame (portCommand env ts dir word branches msg) := by
  refine Tame.ite (fun _ => tame_mismatch hlen0) fun hlen => ?_
  have hlen := Nat.le_of_not_lt hlen
  have hopen : Tame (openPipeline ts 1) := by
    intro s
    simp (disch := omega)
  have hnumber : Tame (uint32 ts 4 "port_id") := by
    intro s
    simp (disch := omega) [uint32]
  refine hopen.bind fun p => (tame_keyword (by omega) _).bind fun _ => ?_
  refine (tame_keyword (by omega) _).bind fun _ => hnumber.bind fun portId => ?_
  refine (h hlen).bind fun t0 => (portConfig_tame env dir p portId t0.2).bind fun status => ?_
  refine (tame_require _ msg).bind fun _ => ?_
  exact Tame.ite (fun _ => tame_mismatch hlen0) fun _ => tame_pure ()

theorem cmdPipelinePortIn_tame (hts : ts ≠ []) : Tame (cmdPipelinePortIn env ts) := by
  refine portCommand_tame env hts _ _ _ fun hlen => portBranches_tame hlen ?_
  simp only [portInBranches, List.forall_mem_cons]
  exact ⟨fun _ => portLink_tame _ _, fun _ => portRing_tame _,
    fun _ => portSource_tame, fun _ => portTapIn_tame, List.forall_mem_nil _⟩

/-- `port out`, unless the line ends at `sink`. -/
theorem cmdPipelinePortOut_tame (hts : ts ≠ [])
    (hsink : ts[5]? = some (word "sink") → 7 ≤ ts.length) : Tame (cmdPipelinePortOut env ts) := by
  refine portCommand_tame env hts _ _ _ fun hlen => portBranches_tame hlen ?_
  simp only [portOutBranches, List.forall_mem_cons]
  exact ⟨fun _ => portLink_tame _ _, fun _ => portRing_tame _,
    fun h => portSink_tame (hsink h), fun _ => portTapOut_tame, List.forall_mem_nil _⟩

/-- The lines on which `port out` is not tame. -/
theorem ends_at_sink {ts : List Token} (h : ¬(ts[5]? = some (word "sink") → 7 ≤ ts.length)) :
    ∃ t0 t1 t2 t3 t4, ts = [t0, t1, t2, t3, t4, word "sink"] := by
  obtain ⟨hsix, hshort⟩ := Classical.not_imp.mp h
  have hlt := (List.getElem?_eq_some_iff.mp hsix).1
  have hlen : ts.length = 6 := by omega
  obtain ⟨t0, rest, rfl⟩ := List.exists_cons_of_length_eq_add_one hlen
  obtain ⟨t1, t2, t3, t4, t5, rfl⟩ := five_tokens (Nat.succ.inj hlen)
  cases hsix
  exact ⟨t0, t1, t2, t3, t4, rfl⟩

/-- On these, the seventh token is read. -/
theorem portBranches_at_sink (t0 t1 t2 t3 t4 : Token) :
    portBranches [t0, t1, t2, t3, t4, word "sink"]
      (portOutBranches [t0, t1, t2, t3, t4, word "sink"]) = throw (.fault .tokenRead) := by
  rfl

theorem cmdPipelineBuild_tame (hts : ts ≠ []) : Tame (cmdPipelineBuild env ts) := by
  refine tame_counted hts ?_
  intro hlen s
  unfold buildFromSpec
  simp (disch := omega) only [holds_bind, holds_openPipeline, holds_token, holds_openFile,
    holds_useStream, holds_get]
  refine ⟨fun i _ _ => ⟨fun _ => ⟨fun _ => ?_, fun h => ?_⟩, ?_⟩, ?_⟩
  · cases s.opening.object i with
    | none => simp
    | some x => simp [setCtl, pipelineFree]
  · simp at h
  · simp
  · simp

/-! ## Tables, selectors, registers -/

/-- The file that is opened is the one that is closed. -/
theorem applyFile_tame (name : Token) (load : List UInt8 → Loaded Nat α) :
    Tame (applyFile env name load) := by
  intro s
  simp [applyFile]

theorem entriesCommand_tame (hts : ts ≠ []) (op : EntryOp) : Tame (entriesCommand env ts op) := by
  refine tame_counted hts fun hlen => ?_
  have hread : ∀ k, k < 6 → Tame (token ts k) := by
    intro k hk s
    simp (disch := omega)
  refine (tame_builtPipeline (by omega)).bind fun p => (hread 3 (by decide)).bind fun name => ?_
  exact (hread 5 (by decide)).bind fun fileName => applyFile_tame env fileName _

theorem membersCommand_tame (hts : ts ≠ []) (op : MemberOp) (word : String) :
    Tame (membersCommand env ts op word) := by
  refine tame_counted hts fun hlen => ?_
  have hread : ∀ k, k < 8 → Tame (token ts k) := by
    intro k hk s
    simp (disch := omega)
  have hwords : Tame (keywords ts [(4, "group"), (5, "member"), (6, word)]
      ("group member " ++ word)) := by
    intro s
    simp (disch := omega)
  refine (tame_builtPipeline (by omega)).bind fun p => (tame_keyword (by omega) _).bind fun _ => ?_
  refine (hread 3 (by decide)).bind fun name => hwords.bind fun _ => ?_
  exact (hread 7 (by decide)).bind fun fileName => applyFile_tame env fileName _

theorem cmdPipelineSelectorGroupAdd_tame (hts : ts ≠ []) :
    Tame (cmdPipelineSelectorGroupAdd env ts) := by
  refine tame_counted hts ?_
  intro hlen s
  simp (disch := omega)

theorem cmdPipelineSelectorGroupDelete_tame (hts : ts ≠ []) :
    Tame (cmdPipelineSelectorGroupDelete env ts) := by
  refine tame_counted hts ?_
  intro hlen s
  simp (disch := omega) [uint32]

theorem cmdPipelineCommit_tame (hts : ts ≠ []) : Tame (cmdPipelineCommit env ts) := by
  refine tame_counted hts ?_
  intro hlen s
  simp (disch := omega)

theorem cmdPipelineAbort_tame (hts : ts ≠ []) : Tame (cmdPipelineAbort env ts) := by
  refine tame_counted hts ?_
  intro hlen s
  simp (disch := omega)

theorem cmdPipelineRegrd_tame (hts : ts ≠ []) : Tame (cmdPipelineRegrd env ts) := by
  refine tame_counted hts ?_
  intro hlen s
  simp (disch := omega) [uint32]

theorem cmdPipelineRegwr_tame (hts : ts ≠ []) : Tame (cmdPipelineRegwr env ts) := by
  refine tame_counted hts ?_
  intro hlen s
  simp (disch := omega) [uint32, uint64]

/-! ## Meters, statistics -/

theorem cmdPipelineMeterProfileAdd_tame (hts : ts ≠ []) :
    Tame (cmdPipelineMeterProfileAdd env ts) := by
  refine tame_counted hts ?_
  intro hlen s
  simp (disch := omega) [uint64]

theorem cmdPipelineMeterProfileDelete_tame (hts : ts ≠ []) :
    Tame (cmdPipelineMeterProfileDelete env ts) := by
  refine tame_counted hts ?_
  intro hlen s
  simp (disch := omega)

theorem meterRange_tame (hlen : 8 ≤ ts.length) : Tame (meterRange ts) := by
  intro s
  simp (disch := omega) [meterRange, uint32]

theorem forIndices_tame (idx0 idx1 : Nat) {body : Nat → Handler Unit}
    (h : ∀ idx, Tame (body idx)) : Tame (forIndices idx0 idx1 body) := by
  refine (Tame.forM fun idx _ => h idx).bind fun _ => Tame.ite (fun _ => ?_) fun _ => tame_pure ()
  exact (Tame.forM fun idx _ => h idx).bind fun _ s => by simp

theorem cmdPipelineMeterReset_tame (hts : ts ≠ []) : Tame (cmdPipelineMeterReset env ts) := by
  refine tame_counted hts fun hlen => (tame_builtPipeline (by omega)).bind fun p => ?_
  refine (meterRange_tame (by omega)).bind fun range => (tame_keyword (by omega) _).bind fun _ => ?_
  exact forIndices_tame _ _ fun idx => tame_require _ _

theorem cmdPipelineMeterSet_tame (hts : ts ≠ []) : Tame (cmdPipelineMeterSet env ts) := by
  refine tame_counted hts fun hlen => (tame_builtPipeline (by omega)).bind fun p => ?_
  refine (meterRange_tame (by omega)).bind fun range => (tame_keyword (by omega) _).bind fun _ => ?_
  have hread : Tame (token ts 10) := by
    intro s
    simp (disch := omega)
  refine (tame_keyword (by omega) _).bind fun _ => hread.bind fun profile => ?_
  exact forIndices_tame _ _ fun idx => tame_require _ _

theorem cmdPipelineMeterStats_tame (hts : ts ≠ []) : Tame (cmdPipelineMeterStats env ts) := by
  refine tame_counted hts fun hlen => (tame_builtPipeline (by omega)).bind fun p => ?_
  refine (meterRange_tame (by omega)).bind fun range => (tame_keyword (by omega) _).bind fun _ => ?_
  refine (tame_reply _).bind fun _ => (tame_reply _).bind fun _ => (tame_reply _).bind fun _ => ?_
  exact forIndices_tame _ _ fun idx => (tame_require _ _).bind fun _ => tame_reply _

theorem actionLoop_tame (p : Nat) (nPktsAction : Nat → Nat) :
    Tame (actionLoop env p nPktsAction) :=
  Tame.forM fun _ _ => (tame_require _ _).bind fun _ => tame_reply _

theorem tableLoop_tame (p : Nat) : Tame (tableLoop env p) := by
  refine Tame.forM fun i _ => (tame_require _ _).bind fun _ => (tame_require _ _).bind fun _ => ?_
  exact (tame_reply _).bind fun _ => actionLoop_tame env p _

theorem learnerLoop_tame (p : Nat) : Tame (learnerLoop env p) := by
  refine Tame.forM fun i _ => (tame_require _ _).bind fun _ => (tame_require _ _).bind fun _ => ?_
  exact (tame_reply _).bind fun _ => actionLoop_tame env p _

theorem cmdPipelineStats_tame (hts : ts ≠ []) : Tame (cmdPipelineStats env ts) := by
  refine Tame.bind (fun _ => rfl) fun s => (tame_reply _).bind fun _ => ?_
  refine Tame.bind (fun _ => rfl) fun _ => tame_counted hts fun hlen => ?_
  refine (tame_builtPipeline (by omega)).bind fun p => (tame_keyword (by omega) _).bind fun _ => ?_
  refine (tame_require _ _).bind fun _ => (tame_reply _).bind fun _ => ?_
  refine (Tame.forM fun i _ => tame_reply _).bind fun _ => (tame_reply _).bind fun _ => ?_
  refine (Tame.forM fun i _ => tame_reply _).bind fun _ => (tame_reply _).bind fun _ => ?_
  exact (tableLoop_tame env p).bind fun _ => (tame_reply _).bind fun _ => learnerLoop_tame env p

/-! ## Mirroring, threads, help -/

theorem cmdPipelineMirror_tame (hts : ts ≠ []) : Tame (cmdPipelineMirror env ts) := by
  refine tame_counted hts ?_
  intro hlen s
  simp (disch := omega) [uint32, useObject]

theorem cmdPipelineMirrorSession_tame (hts : ts ≠ []) :
    Tame (cmdPipelineMirrorSession env ts) := by
  refine tame_counted hts ?_
  intro hlen s
  simp (disch := omega) [uint32, fastOrSlow]

theorem threadCommand_tame (hts : ts ≠ []) (word : String) (call : Nat → Token → Call) :
    Tame (threadCommand env ts word call) := by
  refine tame_counted hts ?_
  intro hlen s
  simp (disch := omega) [uint32]

theorem unknown_tame (hts : ts ≠ []) : Tame (unknown ts) := by
  intro s
  simp [unknown, List.length_pos_of_ne_nil hts]

theorem helpOf_tame (tests : List Test) (help : String) : Tame ((helpOf tests help).handler ts) :=
  tame_reply _

theorem cmdHelp_tame : Tame (cmdHelp env ts) := by
  refine Tame.ite (fun _ => tame_reply _) fun hlen => ?_
  have hts : ts.tail ≠ [] := fun h => hlen (List.length_eq_zero_iff.mpr h)
  have hall : ∀ b ∈ helpBranches, Tame (b.handler ts.tail) := by
    simp only [helpBranches, pipelineHelp, List.forall_mem_cons, helpOf_tame, true_and]
    exact List.forall_mem_nil _
  exact dispatch_rule hts (by decide) (fun b hb _ => hall b hb) (tame_reply _)

/-! ## `cli_process` -/

/-- The branches whose handlers are not tame on every line. -/
def wildBranches : List Branch :=
  [⟨[.atLeast 4, .is 2 "port", .is 3 "out"], cmdPipelinePortOut env⟩,
    ⟨[.atLeast 5, .is 2 "table", .is 4 "show"], cmdPipelineTableShow env⟩,
    ⟨[.atLeast 5, .is 2 "selector", .is 4 "show"], cmdPipelineSelectorShow env⟩]

theorem pipelineBranches_tame (hts : ts ≠ []) :
    ∀ b ∈ pipelineBranches env, Tame (b.handler ts) ∨ b ∈ wildBranches env := by
  simp only [pipelineBranches, List.forall_mem_cons]
  refine ⟨.inl (cmdPipelineCreate_tame env hts), .inl (cmdPipelinePortIn_tame env hts),
    .inr (by simp [wildBranches]), .inl (cmdPipelineBuild_tame env hts),
    .inl (entriesCommand_tame env hts _), .inl (entriesCommand_tame env hts _),
    .inl (entriesCommand_tame env hts _), .inr (by simp [wildBranches]),
    .inl (cmdPipelineSelectorGroupAdd_tame env hts),
    .inl (cmdPipelineSelectorGroupDelete_tame env hts),
    .inl (membersCommand_tame env hts _ _), .inl (membersCommand_tame env hts _ _),
    .inr (by simp [wildBranches]), .inl (entriesCommand_tame env hts _),
    .inl (cmdPipelineCommit_tame env hts), .inl (cmdPipelineAbort_tame env hts),
    .inl (cmdPipelineRegrd_tame env hts), .inl (cmdPipelineRegwr_tame env hts),
    .inl (cmdPipelineMeterProfileAdd_tame env hts),
    .inl (cmdPipelineMeterProfileDelete_tame env hts),
    .inl (cmdPipelineMeterReset_tame env hts), .inl (cmdPipelineMeterSet_tame env hts),
    .inl (cmdPipelineMeterStats_tame env hts), .inl (cmdPipelineStats_tame env hts),
    .inl (cmdPipelineMirror_tame env hts), .inl (cmdPipelineMirrorSession_tame env hts),
    List.forall_mem_nil _⟩

theorem threadBranch_tame (hts : ts ≠ []) : Tame ((threadBranch env).handler ts) := by
  have hall : ∀ b ∈ threadBranches env, Tame (b.handler ts) := by
    simp only [threadBranches, List.forall_mem_cons]
    exact ⟨threadCommand_tame env hts _ _, threadCommand_tame env hts _ _, List.forall_mem_nil _⟩
  exact dispatch_rule hts rfl (fun b hb _ => hall b hb) (unknown_tame hts)

theorem objectBranches_tame (hts : ts ≠ []) : ∀ b ∈ objectBranches env, Tame (b.handler ts) := by
  have hlink : Tame (dispatch ts (cmdLink env ts) (linkBranches env)) := by
    refine dispatch_rule hts rfl ?_ (cmdLink_tame env hts)
    intro b hb _
    cases List.mem_singleton.mp hb
    exact cmdLinkShow_tame env hts
  simp only [objectBranches, List.forall_mem_cons]
  exact ⟨cmdHelp_tame env, cmdMempool_tame env hts, hlink, cmdRing_tame env hts,
    cmdTap_tame env hts, List.forall_mem_nil _⟩

/-- What holds of tame handlers holds of the chain, on all tokens that lead to one. -/
theorem processTokens_rule {P : Handler Unit → Prop} (hts : ts ≠ []) (htame : ∀ m, Tame m → P m)
    (hwild : ts[0]? = some (word "pipeline") → ∀ b ∈ wildBranches env,
      b.tests.all (Test.meets ts) = true → P (b.handler ts)) :
    P (processTokens env ts) := by
  have hthread : P ((threadBranch env).handler ts) := htame _ (threadBranch_tame env hts)
  have hunknown : P (unknown ts) := htame _ (unknown_tame hts)
  refine dispatch_rule hts rfl ?_ hunknown
  simp only [List.forall_mem_append, List.forall_mem_cons]
  refine ⟨fun b hb _ => htame _ (objectBranches_tame env hts b hb), ?_, fun _ => hthread,
    List.forall_mem_nil _⟩
  intro hpipeline
  have hfirst : ts[0]? = some (word "pipeline") := by
    simpa [pipelineBranch, Test.meets] using hpipeline
  refine dispatch_rule hts rfl ?_ ?_
  · intro b hb hmeets
    cases pipelineBranches_tame env hts b hb with
    | inl htame' => exact htame _ htame'
    | inr hmem => exact hwild hfirst b hmem hmeets
  · refine dispatch_rule hts rfl ?_ hunknown
    intro b hb _
    cases List.mem_singleton.mp hb
    exact hthread

/-- What holds of tame handlers holds of `cli_process`, if it does on the lines that lead to
another. -/
theorem cliProcess_rule {P : Handler Unit → Prop} {line : List UInt8} (htame : ∀ m, Tame m → P m)
    (hwild : ∀ ts, command line = some (.tokens ts) → ts ≠ [] →
      ts[0]? = some (word "pipeline") → ∀ b ∈ wildBranches env,
        b.tests.all (Test.meets ts) = true → P (b.handler ts)) : P (cliProcess env line) := by
  cases hcmd : command line with
  | none =>
    unfold cliProcess
    rw [hcmd]
    exact htame _ (tame_pure ())
  | some c =>
    cases c with
    | comment =>
      unfold cliProcess
      rw [hcmd]
      exact htame _ (tame_pure ())
    | tooMany =>
      unfold cliProcess
      rw [hcmd]
      exact htame _ (tame_reply _)
    | tokens ts =>
      have hts := command_ne_nil hcmd
      rw [cliProcess_tokens env hcmd]
      exact processTokens_rule env hts htame (hwild ts hcmd hts)

end P4Switch.Cmd
