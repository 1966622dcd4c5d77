import P4Switch.Cmd.Names
import P4Switch.Cmd.Tame

/-! # Which tokens are read

`cli_process` and the handlers behind it read only tokens that are there, on every line but
one: `port out` ending at `sink`, whose branch does not look at the number of tokens. -/
namespace P4Switch.Cmd
open P4Switch.App P4Switch.Lib.EarlyExit

/-- No token at `n_tokens` or beyond is read, no id is written beyond the last place. -/
def Exit.InRange : Exit → Prop
  | .fault .tokenRead => False
  | .fault .rssWrite => False
  | _ => True

def HandlerInRange (m : Handler Unit) (s : Session) : Prop :=
  Holds m (fun _ _ => True) (fun e _ => e.InRange) s

def ReadsInRange (env : Env) (line : List UInt8) (s : Session) : Prop :=
  HandlerInRange (cliProcess env line) s

/-- `pipeline <name> port out <port_id> sink`, with nothing behind it, for a pipeline that has
not been built. -/
def EndsAtSink (ts : List Token) (obj : Obj) : Prop :=
  ∃ name port i portId,
    ts = [word "pipeline", name, word "port", word "out", port, word "sink"] ∧
      pipelineFind obj name = some i ∧ obj.isBuilt i = false ∧
      parserReadUint32 port = .ok portId

theorem Tame.inRange {m : Handler Unit} (h : Tame m) (s : Session) : HandlerInRange m s := by
  refine (h s).mono (fun _ _ _ => trivial) ?_
  intro e s' he
  unfold Leaves at he
  rcases he with rfl | ⟨rfl | rfl, -⟩ <;> exact trivial

/-- `show` reads within its tokens, whatever it does with its stream. -/
theorem showCommand_inRange (env : Env) {ts : List Token} (hts : ts ≠ [])
    (call : Nat → Token → Call) (arg : String) (s : Session) :
    HandlerInRange (showCommand env ts call arg) s := by
  unfold HandlerInRange showCommand
  have hpos := List.length_pos_of_ne_nil hts
  rw [holds_ite]
  refine ⟨fun _ => ?_, fun hlen => ?_⟩
  · simp [hpos, Exit.InRange]
  · unfold showStream
    by_cases hsix : ts.length = 6
    · rw [if_pos hsix]
      simp (disch := omega) [Exit.InRange]
    · rw [if_neg hsix]
      simp (disch := omega) [Exit.InRange]

/-- Six tokens, the last of which is `sink`: the seventh is read. -/
theorem portOut_at_sink (env : Env) (t0 t1 t2 t3 t4 : Token) (s : Session) :
    HandlerInRange (cmdPipelinePortOut env [t0, t1, t2, t3, t4, word "sink"]) s ↔
      ¬(∃ i n, pipelineFind s.obj t1 = some i ∧ s.obj.isBuilt i = false ∧ t2 = word "port" ∧
        t3 = word "out" ∧ parserReadUint32 t4 = .ok n) := by
  unfold HandlerInRange cmdPipelinePortOut portCommand
  rw [portBranches_at_sink]
  simp (disch := simp) [uint32, Exit.InRange]

theorem processTokens_at_sink (env : Env) (name port : Token) :
    processTokens env [word "pipeline", name, word "port", word "out", port, word "sink"] =
      cmdPipelinePortOut env
        [word "pipeline", name, word "port", word "out", port, word "sink"] := by
  rfl

/-- `port out` on a line that is not such a line reads within its tokens. -/
theorem portOut_inRange (env : Env) {ts : List Token} {s : Session} (hts : ts ≠ [])
    (hfirst : ts[0]? = some (word "pipeline")) (hends : ¬EndsAtSink ts s.obj) :
    HandlerInRange (cmdPipelinePortOut env ts) s := by
  by_cases hsink : ts[5]? = some (word "sink") → 7 ≤ ts.length
  · exact (cmdPipelinePortOut_tame env hts hsink).inRange s
  · obtain ⟨t0, t1, t2, t3, t4, rfl⟩ := ends_at_sink hsink
    cases hfirst
    refine (portOut_at_sink env _ t1 t2 t3 t4 s).mpr ?_
    rintro ⟨i, portId, hfind, hopen, rfl, rfl, hread⟩
    exact hends ⟨t1, t4, i, portId, rfl, hfind, hopen, hread⟩

theorem readsInRange_iff (env : Env) (line : List UInt8) (s : Session) :
    ReadsInRange env line s ↔
      ¬∃ ts, command line = some (.tokens ts) ∧ EndsAtSink ts s.obj := by
  constructor
  · rintro h ⟨ts, hcmd, name, port, i, portId, rfl, hfind, hopen, hread⟩
    unfold ReadsInRange at h
    rw [cliProcess_tokens env hcmd, processTokens_at_sink] at h
    exact (portOut_at_sink env _ name _ _ port s).mp h ⟨i, portId, hfind, hopen, rfl, rfl, hread⟩
  · intro h
    refine cliProcess_rule env (fun m hm => hm.inRange s) fun ts hcmd hts hfirst => ?_
    simp only [wildBranches, List.forall_mem_cons]
    refine ⟨fun _ => ?_, fun _ => ?_, fun _ => ?_, List.forall_mem_nil _⟩
    · exact portOut_inRange env hts hfirst fun hends => h ⟨ts, hcmd, hends⟩
    · exact showCommand_inRange env hts _ _ s
    · exact showCommand_inRange env hts _ _ s

theorem readsInRange_broken : ¬∀ env line s, ReadsInRange env line s := by
  intro h
  have hcmd : command (word "pipeline PIPELINE0 port out 0 sink") = some (.tokens
      [word "pipeline", word "PIPELINE0", word "port", word "out", word "0", word "sink"]) := by
    decide +kernel
  have hread := h (.generous .generous) (word "pipeline PIPELINE0 port out 0 sink") withPipeline
  unfold ReadsInRange at hread
  rw [cliProcess_tokens _ hcmd, processTokens_at_sink] at hread
  exact (portOut_at_sink _ _ _ _ _ _ _).mp hread
    ⟨0, 0, by decide, rfl, rfl, rfl, by decide +kernel⟩

end P4Switch.Cmd
