import Mathlib.Logic.Function.Basic
import Mathlib.Tactic

/-! # Pipelines and data-plane threads

`thread_pipeline_enable` and `thread_pipeline_disable`. When the thread does not run, the
caller edits the thread's arrays itself; when it does, the thread edits them on a message.
The two sides are separate code and are kept so here. -/
namespace P4Switch.App

def THREAD_PIPELINES_MAX : Nat := 256

/-- What the build and the machine fix: `RTE_MAX_LCORE` and `rte_get_tsc_hz()`. -/
structure Platform where
  RTE_MAX_LCORE : Nat
  tscHz : UInt64

/-- The address of a `struct rte_swx_pipeline`. -/
abbrev SwxPipeline := Nat

/-- `struct pipeline`, as far as these functions use it. -/
structure Pipeline where
  p : SwxPipeline
  timerPeriodMs : UInt32
  enabled : Bool
  threadId : Nat

/-- The pipelines by name. Each one was created with a `struct rte_swx_pipeline` of its own. -/
structure Obj where
  pipelineFind : String → Option Pipeline
  distinct : ∀ {n m P Q}, pipelineFind n = some P → pipelineFind m = some Q → P.p = Q.p → n = m

/-- `p->thread_id = thread_id; p->enabled = 1;` -/
def Pipeline.enable (P : Pipeline) (thread_id : Nat) : Pipeline :=
  { P with enabled := true, threadId := thread_id }

/-- `p->enabled = 0;` -/
def Pipeline.disable (P : Pipeline) : Pipeline := { P with enabled := false }

/-- The record under `name` changed by `f`, which leaves `p` alone. -/
def Obj.modify (obj : Obj) (name : String) (f : Pipeline → Pipeline) (hf : ∀ P, (f P).p = P.p) : Obj where
  pipelineFind := fun n => if n = name then (obj.pipelineFind n).map f else obj.pipelineFind n
  distinct := by
    have hp : ∀ {n P}, (if n = name then (obj.pipelineFind n).map f else obj.pipelineFind n) =
        some P → ∃ P', obj.pipelineFind n = some P' ∧ P'.p = P.p := by
      intro n P h
      split at h
      · obtain ⟨P', h', rfl⟩ := Option.map_eq_some_iff.mp h
        exact ⟨P', h', (hf P').symm⟩
      · exact ⟨P, h, rfl⟩
    intro n m P Q hn hm he
    obtain ⟨P', hP, hp'⟩ := hp hn
    obtain ⟨Q', hQ, hq'⟩ := hp hm
    exact obj.distinct hP hQ (by rw [hp', hq', he])

def Obj.enable (obj : Obj) (name : String) (thread_id : Nat) : Obj :=
  obj.modify name (·.enable thread_id) fun _ => rfl

def Obj.disable (obj : Obj) (name : String) : Obj := obj.modify name Pipeline.disable fun _ => rfl

/-- `struct pipeline_data`. -/
structure PipelineData where
  p : SwxPipeline
  timerPeriod : UInt64
  timeNext : UInt64

/-- `struct thread_data`: the two arrays and the number of entries in use. -/
structure ThreadData where
  p : Nat → SwxPipeline
  nPipelines : Nat
  pipelineData : Nat → PipelineData

/-- `rte_get_tsc_hz() * timer_period_ms / 1000`. -/
def Platform.timerPeriod (c : Platform) (timer_period_ms : UInt32) : UInt64 :=
  c.tscHz * timer_period_ms.toUInt64 / 1000

/-! ## The caller's side -/

/-- Enabling on a thread that does not run; `none` is the return of -1. -/
def enableDirect (c : Platform) (td : ThreadData) (P : Pipeline) (now : UInt64) : Option ThreadData :=
  if td.nPipelines ≥ THREAD_PIPELINES_MAX then none
  else
    let timerPeriod := c.timerPeriod P.timerPeriodMs
    some
      { p := Function.update td.p td.nPipelines P.p
        pipelineData := Function.update td.pipelineData td.nPipelines
          ⟨P.p, timerPeriod, now + timerPeriod⟩
        nPipelines := td.nPipelines + 1 }

/-- The search loop: the first entry in use with this pipeline. -/
def ThreadData.findPipeline (td : ThreadData) (p : SwxPipeline) : Option Nat :=
  (List.range td.nPipelines).find? fun i => (td.pipelineData i).p = p

/-- Disabling on a thread that does not run; `none` when the pipeline is not found. -/
def disableDirect (td : ThreadData) (P : Pipeline) : Option ThreadData :=
  match td.findPipeline P.p with
  | none => none
  | some i =>
    let td :=
      if i < td.nPipelines - 1 then
        { td with
          p := Function.update td.p i (td.p (td.nPipelines - 1))
          pipelineData := Function.update td.pipelineData i (td.pipelineData (td.nPipelines - 1)) }
      else td
    some { td with nPipelines := td.nPipelines - 1 }

/-! ## The thread's side -/

/-- `struct thread_msg_req`; the response overwrites the first field in place. -/
inductive ThreadMsgReq where
  | pipelineEnable (p : SwxPipeline) (timerPeriodMs : UInt32)
  | pipelineDisable (p : SwxPipeline)
  | other

/-- `thread_msg_handle_pipeline_enable`, with the response status. -/
def threadMsgHandlePipelineEnable (c : Platform) (t : ThreadData) (p : SwxPipeline)
    (timer_period_ms : UInt32) (now : UInt64) : ThreadData × Int :=
  if t.nPipelines ≥ THREAD_PIPELINES_MAX then (t, -1)
  else
    let timerPeriod := c.timerPeriod timer_period_ms
    ({ p := Function.update t.p t.nPipelines p
       pipelineData := Function.update t.pipelineData t.nPipelines ⟨p, timerPeriod, now + timerPeriod⟩
       nPipelines := t.nPipelines + 1 }, 0)

/-- `thread_msg_handle_pipeline_disable`: a pipeline that is not found is a success too. -/
def threadMsgHandlePipelineDisable (t : ThreadData) (pipeline : SwxPipeline) : ThreadData × Int :=
  match t.findPipeline pipeline with
  | none => (t, 0)
  | some i =>
    let n_pipelines := t.nPipelines
    let t :=
      if i < n_pipelines - 1 then
        { t with
          p := Function.update t.p i (t.p (n_pipelines - 1))
          pipelineData := Function.update t.pipelineData i (t.pipelineData (n_pipelines - 1)) }
      else t
    ({ t with nPipelines := t.nPipelines - 1 }, 0)

/-- The `switch` of `thread_msg_handle`. -/
def threadMsgHandle (c : Platform) (t : ThreadData) (now : UInt64) : ThreadMsgReq → ThreadData × Int
  | .pipelineEnable p timer_period_ms => threadMsgHandlePipelineEnable c t p timer_period_ms now
  | .pipelineDisable p => threadMsgHandlePipelineDisable t p
  | .other => (t, -1)

/-! ## The whole calls -/

/-- The control thread's and the data-plane threads' records. -/
structure State where
  threadEnabled : Nat → Bool
  threadData : Nat → ThreadData
  obj : Obj

/-- How a call finds its surroundings: `thread_is_running`, whether `thread_msg_alloc`
succeeds, and the time stamp counter. -/
structure Env where
  running : Bool
  allocated : Bool
  now : UInt64

def State.setThreadData (s : State) (thread_id : Nat) (td : ThreadData) : State :=
  { s with threadData := Function.update s.threadData thread_id td }

/-- `thread_pipeline_enable`. -/
def threadPipelineEnable (c : Platform) (s : State) (thread_id : Nat) (pipeline_name : String)
    (env : Env) : State × Int :=
  match s.obj.pipelineFind pipeline_name with
  | none => (s, -1)
  | some P =>
    if thread_id ≥ c.RTE_MAX_LCORE then (s, -1)
    else if s.threadEnabled thread_id = false then (s, -1)
    else if env.running = false then
      match enableDirect c (s.threadData thread_id) P env.now with
      | none => (s, -1)
      | some td =>
        ({ s.setThreadData thread_id td with obj := s.obj.enable pipeline_name thread_id }, 0)
    else if env.allocated = false then (s, -1)
    else
      let (td, status) := threadMsgHandle c (s.threadData thread_id) env.now
        (.pipelineEnable P.p P.timerPeriodMs)
      let s := s.setThreadData thread_id td
      if status ≠ 0 then (s, status)
      else ({ s with obj := s.obj.enable pipeline_name thread_id }, 0)

/-- `thread_pipeline_disable`. -/
def threadPipelineDisable (c : Platform) (s : State) (thread_id : Nat) (pipeline_name : String)
    (env : Env) : State × Int :=
  match s.obj.pipelineFind pipeline_name with
  | none => (s, -1)
  | some P =>
    if thread_id ≥ c.RTE_MAX_LCORE then (s, -1)
    else if s.threadEnabled thread_id = false then (s, -1)
    else if P.enabled = false then (s, 0)
    else if P.threadId ≠ thread_id then (s, -1)
    else if env.running = false then
      match disableDirect (s.threadData thread_id) P with
      | none => (s, 0)
      | some td => ({ s.setThreadData thread_id td with obj := s.obj.disable pipeline_name }, 0)
    else if env.allocated = false then (s, -1)
    else
      let (td, status) := threadMsgHandle c (s.threadData thread_id) env.now (.pipelineDisable P.p)
      let s := s.setThreadData thread_id td
      if status ≠ 0 then (s, status)
      else ({ s with obj := s.obj.disable pipeline_name }, 0)

inductive Call where
  | enable (thread_id : Nat) (pipeline_name : String)
  | disable (thread_id : Nat) (pipeline_name : String)

def Call.exec (c : Platform) (s : State) (env : Env) : Call → State × Int
  | .enable thread_id pipeline_name => threadPipelineEnable c s thread_id pipeline_name env
  | .disable thread_id pipeline_name => threadPipelineDisable c s thread_id pipeline_name env

def step (c : Platform) (s : State) (op : Call × Env) : State := (op.1.exec c s op.2).1

/-- The records `thread_init` and `pipeline_create` leave: no thread has a pipeline and no
pipeline is enabled. -/
structure Fresh (s : State) : Prop where
  empty : ∀ t, (s.threadData t).nPipelines = 0
  disabled : ∀ n P, s.obj.pipelineFind n = some P → P.enabled = false

end P4Switch.App
