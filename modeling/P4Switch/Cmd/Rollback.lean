import P4Switch.Cmd.Names
import P4Switch.Cmd.Dispatch
import P4Switch.Cmd.ObjectCommands
import P4Switch.Cmd.Rules

/-! # Setup commands that fail

When `port in`, `port out` or `build` writes a message, the pipelines are as they were before,
unless the line is a port command with more tokens behind it, or the control of a pipeline
that has just been built cannot be created. -/
namespace P4Switch.Cmd
open P4Switch.Lib.EarlyExit

def SamePipelines (s s' : Session) : Prop :=
  s'.obj.pipelineList = s.obj.pipelineList ∧ s'.swx = s.swx

/-- After a message, the pipelines and their objects are as before. -/
def Kept (s s' : Session) : Prop := s'.out ≠ s.out → SamePipelines s s'

def KeepsOnError (m : Handler Unit) (s : Session) : Prop :=
  Holds m (fun _ => Kept s) (fun _ => Kept s) s

def Dir.queue : Dir → String
  | .input => "rxq"
  | .output => "txq"

/-- What may stand behind a port id, and the port that it describes. -/
inductive PortArgs (obj : Obj) : Dir → List Token → PortParams → Prop
  | link {dir : Dir} {name queue bsz : Token} {i queueId burstSize : Nat}
      (hname : linkFind obj name = some i) (hqueue : parserReadUint16 queue = .ok queueId)
      (hbsz : parserReadUint32 bsz = .ok burstSize) :
      PortArgs obj dir [word "link", name, word dir.queue, queue, word "bsz", bsz]
        (.ethdev (obj.linkList[i]?.elim [] Link.devName) queueId burstSize)
  | ring {dir : Dir} {name bsz : Token} {i burstSize : Nat} (hname : ringFind obj name = some i)
      (hbsz : parserReadUint32 bsz = .ok burstSize) :
      PortArgs obj dir [word "ring", name, word "bsz", bsz]
        (.ring (obj.ringList[i]?.elim [] Ring.name) burstSize)
  | source {name file loops : Token} {pool nLoops : Nat} (hname : mempoolFind obj name = some pool)
      (hloops : parserReadUint64 loops = .ok nLoops) :
      PortArgs obj .input [word "source", name, file, word "loop", loops]
        (.source pool file nLoops)
  | tapIn {name poolName mtu bsz : Token} {i pool mtuSize burstSize : Nat}
      (hname : tapFind obj name = some i) (hpool : mempoolFind obj poolName = some pool)
      (hmtu : parserReadUint32 mtu = .ok mtuSize) (hbsz : parserReadUint32 bsz = .ok burstSize) :
      PortArgs obj .input
        [word "tap", name, word "mempool", poolName, word "mtu", mtu, word "bsz", bsz]
        (.fdReader (obj.tapList[i]?.elim 0 Tap.fd) pool mtuSize burstSize)
  | sinkNone : PortArgs obj .output [word "sink", word "none"] (.sink none)
  | sinkFile {file : Token} (hfile : file ≠ word "none") :
      PortArgs obj .output [word "sink", file] (.sink (some file))
  | tapOut {name bsz : Token} {i burstSize : Nat} (hname : tapFind obj name = some i)
      (hbsz : parserReadUint32 bsz = .ok burstSize) :
      PortArgs obj .output [word "tap", name, word "bsz", bsz]
        (.fdWriter (obj.tapList[i]?.elim 0 Tap.fd) burstSize)

/-- The tokens behind the port id begin with a full description; `r` has the index behind it. -/
def Described (obj : Obj) (dir : Dir) (ts : List Token) (r : Nat × PortParams) : Prop :=
  ∃ args extra, ts.drop 5 = args ++ extra ∧ r.1 = 5 + args.length ∧ PortArgs obj dir args r.2

/-! ## The branches -/

section
variable {ts : List Token} {s : Session}

@[simp] theorem samePipelines_wrote {msg : String} : SamePipelines s (s.wrote msg) := ⟨rfl, rfl⟩

/-- The branches that ask for enough tokens. -/
theorem holds_counted {α : Type} {n : Nat} {context : String} {m : Handler α}
    {Q : α → Session → Prop} (h : n ≤ ts.length → Holds m Q (fun _ => SamePipelines s) s) :
    Holds (if ts.length < n then fail (msgArgMismatch context) else m) Q
      (fun _ => SamePipelines s) s := by
  rw [holds_ite]
  refine ⟨fun _ => ?_, fun hlen => h (Nat.le_of_not_lt hlen)⟩
  rw [holds_fail]
  exact samePipelines_wrote

theorem portLink_describes (dir : Dir) (h5 : ts[5]? = some (word "link")) (context : String) :
    Holds (portLink ts context dir.queue) (fun r s' => s' = s ∧ Described s.obj dir ts r)
      (fun _ => SamePipelines s) s := by
  refine holds_counted fun hlen => ?_
  have h5' : ts[5] = word "link" := (List.getElem?_eq_some_iff.mp h5).2
  simp (disch := omega) only [holds_bind, holds_found, holds_get, holds_keyword, uint16, uint32,
    holds_number, holds_pure, samePipelines_wrote, implies_true, and_true]
  intro i hname hrxq queueId hqueue hbsz burstSize hsize
  refine ⟨trivial, [ts[5], ts[6], ts[7], ts[8], ts[9], ts[10]], ts.drop 11, ?_, rfl, ?_⟩
  · iterate 6 rw [List.drop_eq_getElem_cons (by omega)]
    rfl
  · rw [h5', hrxq, hbsz]
    exact .link hname hqueue hsize

theorem portRing_describes (dir : Dir) (h5 : ts[5]? = some (word "ring")) (context : String) :
    Holds (portRing ts context) (fun r s' => s' = s ∧ Described s.obj dir ts r)
      (fun _ => SamePipelines s) s := by
  refine holds_counted fun hlen => ?_
  have h5' : ts[5] = word "ring" := (List.getElem?_eq_some_iff.mp h5).2
  simp (disch := omega) only [holds_bind, holds_found, holds_get, holds_keyword, uint32,
    holds_number, holds_pure, samePipelines_wrote, implies_true, and_true]
  intro i hname hbsz burstSize hsize
  refine ⟨trivial, [ts[5], ts[6], ts[7], ts[8]], ts.drop 9, ?_, rfl, ?_⟩
  · iterate 4 rw [List.drop_eq_getElem_cons (by omega)]
    rfl
  · rw [h5', hbsz]
    exact .ring hname hsize

theorem portSource_describes (h5 : ts[5]? = some (word "source")) :
    Holds (portSource ts) (fun r s' => s' = s ∧ Described s.obj .input ts r)
      (fun _ => SamePipelines s) s := by
  refine holds_counted fun hlen => ?_
  have h5' : ts[5] = word "source" := (List.getElem?_eq_some_iff.mp h5).2
  simp (disch := omega) only [holds_bind, holds_found, holds_token, holds_keyword, uint64,
    holds_number, holds_pure, samePipelines_wrote, implies_true, and_true]
  intro pool hname hloop nLoops hloops
  refine ⟨trivial, [ts[5], ts[6], ts[7], ts[8], ts[9]], ts.drop 10, ?_, rfl, ?_⟩
  · iterate 5 rw [List.drop_eq_getElem_cons (by omega)]
    rfl
  · rw [h5', hloop]
    exact .source hname hloops

theorem portTapIn_describes (h5 : ts[5]? = some (word "tap")) :
    Holds (portTapIn ts) (fun r s' => s' = s ∧ Described s.obj .input ts r)
      (fun _ => SamePipelines s) s := by
  refine holds_counted fun hlen => ?_
  have h5' : ts[5] = word "tap" := (List.getElem?_eq_some_iff.mp h5).2
  simp (disch := omega) only [holds_bind, holds_found, holds_get, holds_keyword, uint32,
    holds_number, holds_pure, samePipelines_wrote, implies_true, and_true]
  intro i hname hpools pool hpool hmtu mtu hmtus hbsz burstSize hsize
  refine ⟨trivial, [ts[5], ts[6], ts[7], ts[8], ts[9], ts[10], ts[11], ts[12]], ts.drop 13, ?_,
    rfl, ?_⟩
  · iterate 8 rw [List.drop_eq_getElem_cons (by omega)]
    rfl
  · rw [h5', hpools, hmtu, hbsz]
    exact .tapIn hname hpool hmtus hsize

theorem portTapOut_describes (h5 : ts[5]? = some (word "tap")) :
    Holds (portTapOut ts) (fun r s' => s' = s ∧ Described s.obj .output ts r)
      (fun _ => SamePipelines s) s := by
  refine holds_counted fun hlen => ?_
  have h5' : ts[5] = word "tap" := (List.getElem?_eq_some_iff.mp h5).2
  simp (disch := omega) only [holds_bind, holds_found, holds_get, holds_keyword, uint32,
    holds_number, holds_pure, samePipelines_wrote, implies_true, and_true]
  intro i hname hbsz burstSize hsize
  refine ⟨trivial, [ts[5], ts[6], ts[7], ts[8]], ts.drop 9, ?_, rfl, ?_⟩
  · iterate 4 rw [List.drop_eq_getElem_cons (by omega)]
    rfl
  · rw [h5', hbsz]
    exact .tapOut hname hsize

theorem portSink_describes (h5 : ts[5]? = some (word "sink")) :
    Holds (portSink ts) (fun r s' => s' = s ∧ Described s.obj .output ts r)
      (fun _ => SamePipelines s) s := by
  unfold portSink
  by_cases hlen : 6 < ts.length
  · have h5' : ts[5] = word "sink" := (List.getElem?_eq_some_iff.mp h5).2
    have hdrop : ts.drop 5 = [ts[5], ts[6]] ++ ts.drop 7 := by
      iterate 2 rw [List.drop_eq_getElem_cons (by omega)]
      rfl
    simp only [holds_bind, holds_tokenIs hlen, holds_ite, holds_token hlen, holds_pure,
      decide_eq_true_eq]
    refine ⟨fun hnone => ?_, fun hfile => ?_⟩
    · refine ⟨trivial, [ts[5], ts[6]], ts.drop 7, hdrop, rfl, ?_⟩
      rw [h5', hnone]
      exact .sinkNone
    · refine ⟨trivial, [ts[5], ts[6]], ts.drop 7, hdrop, rfl, ?_⟩
      rw [h5']
      exact .sinkFile hfile
  · have hbeyond : token ts 6 = throw (.fault .tokenRead) := by
      unfold token
      rw [List.getElem?_eq_none (Nat.le_of_not_lt hlen)]
    simp only [tokenIs, hbeyond, holds_bind, holds_throw]
    exact ⟨rfl, rfl⟩

/-! ## The handlers -/

def Dir.branches (ts : List Token) : Dir → List (String × Handler (Nat × PortParams))
  | .input => portInBranches ts
  | .output => portOutBranches ts

/-- A branch is taken only on its word. -/
theorem portBranches_rule {branches : List (String × Handler (Nat × PortParams))}
    {Q : Nat × PortParams → Session → Prop} (hlen : 6 ≤ ts.length)
    (h : ∀ b ∈ branches, ts[5]? = some (word b.1) → Holds b.2 Q (fun _ => SamePipelines s) s) :
    Holds (portBranches ts branches) Q (fun _ => SamePipelines s) s := by
  induction branches with
  | nil =>
    unfold portBranches
    simp (disch := omega)
  | cons b rest ih =>
    have hrest := ih fun b' hb' => h b' (List.mem_cons_of_mem b hb')
    have hb := h b (List.mem_cons_self ..)
    unfold portBranches
    simp (disch := omega) only [holds_bind, holds_tokenIs, holds_ite, decide_eq_true_eq]
    refine ⟨fun htaken => hb ?_, fun _ => hrest⟩
    rw [List.getElem?_eq_getElem (by omega), htaken]

theorem portBranches_describes (dir : Dir) (hlen : 6 ≤ ts.length) :
    Holds (portBranches ts (dir.branches ts)) (fun r s' => s' = s ∧ Described s.obj dir ts r)
      (fun _ => SamePipelines s) s := by
  refine portBranches_rule hlen ?_
  cases dir with
  | input =>
    simp only [Dir.branches, portInBranches, List.forall_mem_cons]
    exact ⟨fun h => portLink_describes .input h _, fun h => portRing_describes .input h _,
      portSource_describes, portTapIn_describes, List.forall_mem_nil _⟩
  | output =>
    simp only [Dir.branches, portOutBranches, List.forall_mem_cons]
    exact ⟨fun h => portLink_describes .output h _, fun h => portRing_describes .output h _,
      portSink_describes, portTapOut_describes, List.forall_mem_nil _⟩

/-- The branch on the word that is there. -/
theorem portBranches_taken {w : String} {m : Handler (Nat × PortParams)}
    (pre rest : List (String × Handler (Nat × PortParams))) (h5 : ts[5]? = some (word w))
    (hpre : ∀ b ∈ pre, word w ≠ word b.1) : portBranches ts (pre ++ (w, m) :: rest) = m := by
  have htest : ∀ w', tokenIs ts 5 w' = pure (decide (word w = word w')) := by
    intro w'
    rw [tokenIs_eq (List.getElem?_eq_some_iff.mp h5).1]
    simp only [Test.meets, h5, Option.some.injEq]
  induction pre with
  | nil =>
    rw [List.nil_append]
    unfold portBranches
    rw [htest, pure_bind, if_pos (decide_eq_true rfl)]
  | cons b pre ih =>
    have hne := hpre b (List.mem_cons_self ..)
    have hrest := ih fun b' hb' => hpre b' (List.mem_cons_of_mem b hb')
    rw [List.cons_append]
    unfold portBranches
    rw [htest, pure_bind, if_neg (by simp [hne]), hrest]

/-- A full description is accepted, whatever stands behind it. -/
theorem portBranches_accepts {dir : Dir} {args extra : List Token} {params : PortParams}
    (t0 t1 t2 t3 t4 : Token) (h : PortArgs s.obj dir args params)
    (hts : ts = t0 :: t1 :: t2 :: t3 :: t4 :: (args ++ extra)) :
    Holds (portBranches ts (dir.branches ts)) (fun r s' => s' = s ∧ r = (5 + args.length, params))
      (fun _ _ => False) s := by
  cases h with
  | link hname hqueue hbsz =>
    have htaken : ∃ context,
        portBranches ts (dir.branches ts) = portLink ts context dir.queue := by
      subst hts
      cases dir with
      | input => exact ⟨_, portBranches_taken [] _ rfl (List.forall_mem_nil _)⟩
      | output => exact ⟨_, portBranches_taken [] _ rfl (List.forall_mem_nil _)⟩
    obtain ⟨context, htaken⟩ := htaken
    rw [htaken, hts]
    unfold portLink
    rw [if_neg (by simp)]
    simp (disch := simp) [uint16, uint32, hname, hqueue, hbsz]
  | ring hname hbsz =>
    have htaken : ∃ context, portBranches ts (dir.branches ts) = portRing ts context := by
      subst hts
      cases dir with
      | input => exact ⟨_, portBranches_taken [_] _ rfl (by simp; decide)⟩
      | output => exact ⟨_, portBranches_taken [_] _ rfl (by simp; decide)⟩
    obtain ⟨context, htaken⟩ := htaken
    rw [htaken, hts]
    unfold portRing
    rw [if_neg (by simp)]
    simp (disch := simp) [uint32, hname, hbsz]
  | source hname hloops =>
    have htaken : portBranches ts (Dir.input.branches ts) = portSource ts := by
      subst hts
      exact portBranches_taken [_, _] _ rfl (by simp; decide)
    rw [htaken, hts]
    unfold portSource
    rw [if_neg (by simp)]
    simp (disch := simp) [uint64, hname, hloops]
  | tapIn hname hpool hmtu hbsz =>
    have htaken : portBranches ts (Dir.input.branches ts) = portTapIn ts := by
      subst hts
      exact portBranches_taken [_, _, _] _ rfl (by simp; decide)
    rw [htaken, hts]
    unfold portTapIn
    rw [if_neg (by simp)]
    simp (disch := simp) [uint32, hname, hpool, hmtu, hbsz]
  | sinkNone =>
    have htaken : portBranches ts (Dir.output.branches ts) = portSink ts := by
      subst hts
      exact portBranches_taken [_, _] _ rfl (by simp; decide)
    rw [htaken, hts]
    simp (disch := simp) [portSink]
  | sinkFile hfile =>
    have htaken : portBranches ts (Dir.output.branches ts) = portSink ts := by
      subst hts
      exact portBranches_taken [_, _] _ rfl (by simp; decide)
    rw [htaken, hts]
    simp (disch := simp) [portSink, hfile]
  | tapOut hname hbsz =>
    have htaken : portBranches ts (Dir.output.branches ts) = portTapOut ts := by
      subst hts
      exact portBranches_taken [_, _, _] _ rfl (by simp; decide)
    rw [htaken, hts]
    unfold portTapOut
    rw [if_neg (by simp)]
    simp (disch := simp) [uint32, hname, hbsz]

end

/-! ## Configuration -/

variable {env : Env} {s : Session}

/-- The object accepts a port. -/
def Accepts (env : Env) (x : Swx) (dir : Dir) (portId : Nat) (params : PortParams) : Prop :=
  portId ∉ (x.ports dir).map Prod.fst ∧ env.portCreate params = true ∧ env.host.calloc = true

/-- An object with one more port. -/
def Swx.adding (x : Swx) (dir : Dir) (portId : Nat) (params : PortParams) : Swx :=
  ⟨Function.update x.ports dir (x.ports dir ++ [(portId, params)])⟩

theorem adding_ne (x : Swx) (dir : Dir) (portId : Nat) (params : PortParams) :
    x.adding dir portId params ≠ x := by
  intro h
  have hports : (x.adding dir portId params).ports dir = x.ports dir := by rw [h]
  have hlen := congrArg List.length hports
  simp [Swx.adding] at hlen

theorem portConfig_accepted {i : Nat} {x : Swx} {dir : Dir} {portId : Nat} {params : PortParams}
    (hobj : s.object i = some x) (hacc : Accepts env x dir portId params)
    {Q : Int → Session → Prop} {E : Exit → Session → Prop} :
    Holds (portConfig env dir i portId params) Q E s ↔
      Q 0 (s.setObject i (some (x.adding dir portId params))) := by
  obtain ⟨hfree, hcreate, hcalloc⟩ := hacc
  unfold portConfig
  rw [holds_bind, holds_get, hobj]
  dsimp only
  rw [if_neg hfree, if_neg (by rw [hcreate]; decide), if_neg (by rw [hcalloc]; decide)]
  exact Iff.rfl

/-- A call that fails, or a freed object, changes nothing. -/
theorem portConfig_refused {i : Nat} {dir : Dir} {portId : Nat} {params : PortParams}
    (h : ¬∃ x, s.object i = some x ∧ Accepts env x dir portId params) :
    Holds (portConfig env dir i portId params) (fun status s' => status ≠ 0 ∧ s' = s)
      (fun _ s' => s' = s) s := by
  unfold portConfig
  rw [holds_bind, holds_get]
  cases hobj : s.object i with
  | none => simp
  | some x =>
    have hrefused : ¬Accepts env x dir portId params := fun hacc => h ⟨x, hobj, hacc⟩
    dsimp only
    simp only [holds_ite, holds_pure, and_true]
    refine ⟨fun _ => by decide, fun hfree => ⟨fun _ => by decide, fun hcreate => ?_⟩⟩
    refine ⟨fun _ => by decide, fun hcalloc => ?_⟩
    exact absurd ⟨hfree, eq_true_of_ne_false hcreate, eq_true_of_ne_false hcalloc⟩ hrefused

/-! ## The commands -/

inductive Setup where
  | port (dir : Dir)
  | build

def Setup.handler (env : Env) (ts : List Token) : Setup → Handler Unit
  | .port .input => cmdPipelinePortIn env ts
  | .port .output => cmdPipelinePortOut env ts
  | .build => cmdPipelineBuild env ts

def Dir.word : Dir → String
  | .input => "in"
  | .output => "out"

def Dir.failure : Dir → String
  | .input => "port in error."
  | .output => "port out error."

/-- The lines that write a message after they have changed a pipeline. -/
inductive Strays (env : Env) (s : Session) : Setup → List Token → Prop
  /-- A full port command, for a port that the object accepts, and more tokens behind it. -/
  | port {dir : Dir} {t0 name id : Token} {args extra : List Token} {i portId : Nat}
      {params : PortParams} {x : Swx} (hname : pipelineFind s.obj name = some i)
      (hopen : s.obj.isBuilt i = false) (hid : parserReadUint32 id = .ok portId)
      (hargs : PortArgs s.obj dir args params) (hobj : s.object i = some x)
      (hacc : Accepts env x dir portId params) (hextra : extra ≠ []) :
      Strays env s (.port dir)
        (t0 :: name :: word "port" :: word dir.word :: id :: (args ++ extra))
  /-- A pipeline that can be built, and whose control cannot be created. -/
  | build {t0 name t2 spec : Token} {i : Nat} {x : Swx} (hname : pipelineFind s.obj name = some i)
      (hopen : s.obj.isBuilt i = false) (hspec : env.fopen spec .r = true)
      (hobj : s.object i = some x) (hbuild : env.status (.buildFromSpec i spec) = 0)
      (hctl : env.ctlCreate i = false) : Strays env s .build [t0, name, t2, spec]

theorem kept_of_out {s' : Session} (h : s'.out = s.out) : Kept s s' := fun hne => absurd h hne

@[simp] theorem kept_wrote {msg : String} : Kept s (s.wrote msg) := fun _ => samePipelines_wrote

theorem mismatch_kept (ts : List Token) :
    Holds (mismatch ts : Handler Unit) (fun _ => Kept s) (fun _ => Kept s) s := by
  cases ts with
  | nil => exact kept_of_out rfl
  | cons t ts => simp

theorem tokens_split {ts : List Token} (hlen : 6 ≤ ts.length) :
    ts = ts[0] :: ts[1] :: ts[2] :: ts[3] :: ts[4] :: ts.drop 5 := by
  iterate 5 rw [← List.drop_eq_getElem_cons]
  rfl

theorem portCommand_keeps {ts : List Token} {dir : Dir} {msg : String}
    (h : ¬Strays env s (.port dir) ts) :
    KeepsOnError (portCommand env ts dir dir.word (dir.branches ts) msg) s := by
  unfold KeepsOnError portCommand
  rw [holds_ite]
  refine ⟨fun _ => mismatch_kept ts, fun hlt => ?_⟩
  have hlen := Nat.le_of_not_lt hlt
  simp (disch := omega) only [holds_bind, holds_openPipeline, holds_keyword, uint32, holds_number,
    kept_wrote, implies_true, and_true]
  intro i hname hopen hport hword portId hid
  refine (portBranches_describes dir hlen).mono ?_ fun _ _ hs _ => hs
  rintro r s' ⟨rfl, args, extra, hdrop, hr, hargs⟩
  by_cases hacc : ∃ x, s'.object i = some x ∧ Accepts env x dir portId r.2
  · obtain ⟨x, hobj, hacc⟩ := hacc
    rw [holds_bind, portConfig_accepted hobj hacc, holds_bind, holds_require]
    refine ⟨fun _ => ?_, fun hne => absurd rfl hne⟩
    have hextra : extra = [] := by
      by_contra hextra
      refine h ?_
      have hsplit := tokens_split hlen
      rw [hport, hword, hdrop] at hsplit
      rw [hsplit]
      exact .port hname hopen hid hargs hobj hacc hextra
    have hcount : ts.length = r.1 := by
      have hlength := congrArg List.length hdrop
      rw [hextra, List.append_nil, List.length_drop] at hlength
      omega
    rw [if_neg (not_not.mpr hcount)]
    exact kept_of_out (Session.setObject_out ..)
  · rw [holds_bind]
    refine (portConfig_refused hacc).mono ?_ ?_
    · rintro status s'' ⟨hne, rfl⟩
      rw [holds_bind, holds_require]
      exact ⟨fun h0 => absurd h0 hne, fun _ => kept_wrote⟩
    · rintro e s'' rfl
      exact kept_of_out rfl

/-- What a line does that strays: it writes a message, and the objects are others. -/
def Lost (s s' : Session) : Prop := s'.out ≠ s.out ∧ s'.swx ≠ s.swx

theorem lost_of_object {s' : Session} {i : Nat} {x : Swx} {y : Option Swx}
    (hout : s'.out ≠ s.out) (hstore : s'.obj = s.obj) (hobj : s.object i = some x)
    (hobj' : s'.object i = y) (hne : y ≠ some x) : Lost s s' := by
  refine ⟨hout, fun hswx => hne ?_⟩
  rw [← hobj', ← hobj]
  unfold Session.object
  rw [hstore, hswx]

theorem portCommand_strays {dir : Dir} {t0 name id : Token} {args extra : List Token}
    {i portId : Nat} {params : PortParams} {x : Swx} {msg : String}
    (hname : pipelineFind s.obj name = some i) (hopen : s.obj.isBuilt i = false)
    (hid : parserReadUint32 id = .ok portId) (hargs : PortArgs s.obj dir args params)
    (hobj : s.object i = some x) (hacc : Accepts env x dir portId params) (hextra : extra ≠ [])
    {ts : List Token}
    (hts : ts = t0 :: name :: word "port" :: word dir.word :: id :: (args ++ extra)) :
    Holds (portCommand env ts dir dir.word (dir.branches ts) msg) (fun _ _ => False)
      (fun _ => Lost s) s := by
  have hpos := List.length_pos_of_ne_nil hextra
  have hlen : ts.length = 5 + args.length + extra.length := by
    rw [hts]
    simp
    omega
  have haccepts := portBranches_accepts _ _ _ _ _ hargs hts
  have h1 : ts[1] = name := by simp [hts]
  have h2 : ts[2] = word "port" := by simp [hts]
  have h3 : ts[3] = word dir.word := by simp [hts]
  have h4 : ts[4] = id := by simp [hts]
  unfold portCommand
  rw [if_neg (by omega)]
  simp (disch := omega) only [holds_bind, holds_openPipeline, holds_keyword, uint32, holds_number]
  simp only [h1, h2, h3, h4, hname, hopen, hid, Option.some.injEq, Except.ok.injEq, forall_eq',
    forall_const, ne_eq, not_true_eq_false, false_implies, reduceCtorEq, and_true,
    Bool.false_eq_true]
  refine haccepts.mono ?_ fun _ _ h => h.elim
  rintro r s' ⟨rfl, rfl⟩
  rw [holds_bind, portConfig_accepted hobj hacc, holds_bind, holds_require]
  refine ⟨fun _ => ?_, fun hne => absurd rfl hne⟩
  rw [if_pos (by dsimp only; omega), holds_mismatch (by omega)]
  refine lost_of_object (Session.wrote_out_ne (Session.setObject_out ..) _)
    (Session.setObject_obj ..) hobj (Session.object_setObject hobj _) ?_
  exact fun hsame => adding_ne x dir portId params (Option.some.inj hsame)

/-! ## Building -/

theorem holds_buildFromSpec {i : Nat} {name : Token} {st : Stream} (hst : st ∈ s.streams)
    {Q : Int → Session → Prop} {E : Exit → Session → Prop} :
    Holds (buildFromSpec env i name st) Q E s ↔
      (s.object i = none → E (.fault .freed) s) ∧
        ∀ x, s.object i = some x →
          (env.status (.buildFromSpec i name) = 0 → Q 0 (s.setObject i (some (env.built x)))) ∧
            (env.status (.buildFromSpec i name) ≠ 0 →
              Q (env.status (.buildFromSpec i name)) s) := by
  unfold buildFromSpec
  rw [holds_bind, holds_useStream, holds_bind, holds_get]
  cases s.object i <;> simp [hst]

theorem cmdPipelineBuild_keeps {ts : List Token} (h : ¬Strays env s .build ts) :
    KeepsOnError (cmdPipelineBuild env ts) s := by
  unfold KeepsOnError cmdPipelineBuild
  rw [holds_ite]
  refine ⟨fun _ => mismatch_kept ts, fun hlen => ?_⟩
  have hlen := not_not.mp hlen
  simp (disch := omega) only [holds_bind, holds_openPipeline, holds_token, holds_openFile,
    kept_wrote, implies_true, and_true]
  intro i hname hopen hspec
  rw [holds_buildFromSpec (List.mem_cons_self ..)]
  refine ⟨fun _ => kept_of_out rfl, fun x hobj => ⟨fun hbuild => ?_, fun hfail => ?_⟩⟩
  · have hctl : env.ctlCreate i = true := by
      by_contra hctl
      refine h ?_
      obtain ⟨t0, t1, t2, t3, rfl⟩ := four_tokens hlen
      exact .build hname hopen hspec hobj hbuild (eq_false_of_ne_true hctl)
    rw [holds_bind, holds_fclose]
    refine ⟨fun _ => ?_, fun hclosed => ?_⟩
    · rw [holds_bind, holds_require, if_pos hctl]
      exact ⟨fun _ => kept_of_out (Session.setObject_out ..), fun hne => absurd rfl hne⟩
    · exact kept_of_out (Session.setObject_out ..)
  · rw [holds_bind, holds_fclose]
    refine ⟨fun _ => ?_, fun _ => kept_of_out rfl⟩
    rw [holds_bind, holds_require]
    exact ⟨fun h0 => absurd h0 hfail, fun _ _ => ⟨rfl, rfl⟩⟩

theorem cmdPipelineBuild_strays {t0 name t2 spec : Token} {i : Nat} {x : Swx}
    (hname : pipelineFind s.obj name = some i) (hopen : s.obj.isBuilt i = false)
    (hspec : env.fopen spec .r = true) (hobj : s.object i = some x)
    (hbuild : env.status (.buildFromSpec i spec) = 0) (hctl : env.ctlCreate i = false) :
    Holds (cmdPipelineBuild env [t0, name, t2, spec]) (fun _ => Lost s) (fun _ _ => False) s := by
  unfold cmdPipelineBuild
  rw [if_neg (by simp)]
  simp (disch := simp) [hname, hopen, hspec]
  rw [holds_buildFromSpec (List.mem_cons_self ..)]
  refine ⟨fun hnone => ?_, fun x' hobj' => ⟨fun _ => ?_, fun hne => absurd hbuild hne⟩⟩
  · cases hobj.symm.trans hnone
  · rw [holds_bind, holds_fclose]
    refine ⟨fun _ => ?_, fun hclosed => hclosed (by simp)⟩
    rw [holds_bind, holds_require, if_neg (by rw [hctl]; decide)]
    refine ⟨fun _ => ?_, fun hne => hne rfl⟩
    rw [holds_bind, holds_reply]
    unfold pipelineFree
    rw [holds_modify]
    have hbuilt : (((s.opening.setObject i (some (env.built x'))).closing (.file s.opened)).wrote
        "Pipeline control create failed.").object i = some (env.built x') :=
      Session.object_setObject hobj' _
    refine lost_of_object ?_ ?_ hobj (Session.object_setObject hbuilt none)
      (Option.some_ne_none _).symm
    · rw [Session.setObject_out]
      exact Session.wrote_out_ne (Session.setObject_out ..) _
    · rw [Session.setObject_obj]
      exact Session.setObject_obj ..

theorem Setup.port_handler (dir : Dir) (env : Env) (ts : List Token) :
    (Setup.port dir).handler env ts =
      portCommand env ts dir dir.word (dir.branches ts) dir.failure := by
  cases dir with
  | input => rfl
  | output => rfl

theorem Strays.loses {c : Setup} {ts : List Token} (h : Strays env s c ts) :
    ¬KeepsOnError (c.handler env ts) s := by
  intro hkeeps
  have hlost : ∀ s', Lost s s' → ¬Kept s s' := fun s' hl hk => hl.2 (hk hl.1).2
  cases h with
  | port hname hopen hid hargs hobj hacc hextra =>
    rw [Setup.port_handler] at hkeeps
    exact (portCommand_strays hname hopen hid hargs hobj hacc hextra rfl).exclusive hkeeps
      (fun _ _ h => h.elim) fun _ => hlost
  | build hname hopen hspec hobj hbuild hctl =>
    exact (cmdPipelineBuild_strays hname hopen hspec hobj hbuild hctl).exclusive hkeeps
      (fun _ => hlost) fun _ _ h => h.elim

theorem keepsOnError_iff (env : Env) (s : Session) (c : Setup) (ts : List Token) :
    KeepsOnError (c.handler env ts) s ↔ ¬Strays env s c ts := by
  constructor
  · exact fun hkeeps hstrays => hstrays.loses hkeeps
  · intro h
    cases c with
    | port dir =>
      rw [Setup.port_handler]
      exact portCommand_keeps h
    | build => exact cmdPipelineBuild_keeps h

/-- Port 0 is there after `port out 0 sink none now`, which answers that the number of tokens is
wrong; and the pipeline is gone after a `build` that fails at its last step. -/
theorem keepsOnError_broken :
    ¬KeepsOnError ((Setup.port .output).handler (.generous .generous)
        [word "pipeline", word "PIPELINE0", word "port", word "out", word "0", word "sink",
          word "none", word "now"]) withPipeline ∧
      ¬KeepsOnError (Setup.build.handler
        { Env.generous .generous with ctlCreate := fun _ => false }
        [word "pipeline", word "PIPELINE0", word "build", word "l3.spec"]) withPipeline := by
  have hname : pipelineFind withPipeline.obj (word "PIPELINE0") = some 0 := by decide
  have hport : parserReadUint32 (word "0") = .ok 0 := by decide +kernel
  have hacc : Accepts (.generous .generous) ⟨fun _ => []⟩ .output 0 (.sink none) :=
    ⟨List.not_mem_nil, rfl, rfl⟩
  constructor
  · exact Strays.loses (.port hname rfl hport .sinkNone rfl hacc (List.cons_ne_nil _ _))
  · exact Strays.loses (.build hname rfl rfl rfl rfl rfl)

end P4Switch.Cmd
