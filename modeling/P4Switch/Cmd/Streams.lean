import P4Switch.Cmd.Names
import P4Switch.Cmd.Tame
import P4Switch.Lib.GuardedRun

/-! # Streams over a whole session

One command line after the other is processed, from the start-up script or from clients.
Standard output stays open, and every file opened is closed once, until a table or a selector
of a built pipeline is shown without a file name: that closes standard output. -/
namespace P4Switch.Cmd
open P4Switch.App P4Switch.Lib.EarlyExit P4Switch.Lib.GuardedRun

/-- The process between two commands, or what its last command ended with. -/
structure Shell where
  session : Session
  ended : Option Exit

def Shell.init : Shell := ⟨.init, none⟩

/-- The next line and the answers that are given to it, with `out` empty. After a fault, or in
a loop without end, none follows. -/
def Shell.step (sh : Shell) (r : Env × List UInt8) : Shell :=
  if sh.ended ≠ none then sh
  else
    match cliProcess r.1 r.2 { sh.session with out := [] } with
    | .ok _ s => ⟨s, none⟩
    | .error .returned s => ⟨s, none⟩
    | .error e s => ⟨s, some e⟩

/-- No closed stream has been used or closed. As long as there is no fault, standard output is
open, and no other stream is. -/
def StreamsKept (sh : Shell) : Prop :=
  sh.ended ≠ some (.fault .stream) ∧
    ((∀ f, sh.ended ≠ some (.fault f)) → sh.session.streams = [.stdout])

/-- `pipeline <name> table|selector <name> show`, with nothing behind it, for a pipeline that has
been built. -/
def ShownOnStdout (ts : List Token) (obj : Obj) : Prop :=
  ∃ name what shown i,
    ts = [word "pipeline", name, what, shown, word "show"] ∧
      (what = word "table" ∨ what = word "selector") ∧ pipelineFind obj name = some i ∧
      obj.isBuilt i = true

/-- The process has ended, or the line is no such command. -/
def NamesFile (sh : Shell) (r : Env × List UInt8) : Prop :=
  sh.ended = none → ∀ ts, command r.2 = some (.tokens ts) → ¬ShownOnStdout ts sh.session.obj

/-! ## One command -/

/-- The streams are as before, unless the command runs into a fault that is not about them. -/
def KeepsStreams (m : Handler Unit) (s : Session) : Prop :=
  Holds m (fun _ s' => s'.streams = s.streams)
    (fun e s' => e ≠ .fault .stream ∧ ((∀ f, e ≠ .fault f) → s'.streams = s.streams)) s

theorem Tame.keepsStreams {m : Handler Unit} (h : Tame m) (s : Session) : KeepsStreams m s := by
  refine (h s).mono (fun _ _ h => h) ?_
  intro e s' he
  unfold Leaves at he
  rcases he with rfl | ⟨rfl | rfl, hs⟩
  · exact ⟨by decide, fun hf => absurd rfl (hf .freed)⟩
  · exact ⟨by decide, fun _ => hs⟩
  · exact ⟨by decide, fun _ => hs⟩

theorem portOut_keepsStreams (env : Env) {ts : List Token} (hts : ts ≠ []) (s : Session) :
    KeepsStreams (cmdPipelinePortOut env ts) s := by
  by_cases hsink : ts[5]? = some (word "sink") → 7 ≤ ts.length
  · exact (cmdPipelinePortOut_tame env hts hsink).keepsStreams s
  · obtain ⟨t0, t1, t2, t3, t4, rfl⟩ := ends_at_sink hsink
    unfold KeepsStreams cmdPipelinePortOut portCommand
    rw [portBranches_at_sink]
    simp (disch := simp) [uint32]

/-- A `show` that opens a file closes it. -/
theorem showCommand_keepsStreams (env : Env) {ts : List Token} (hts : ts ≠ [])
    (call : Nat → Token → Call) (arg : String) {s : Session}
    (h : ts.length = 5 → ∀ name i, ts[1]? = some name → pipelineFind s.obj name = some i →
      s.obj.isBuilt i ≠ true) : KeepsStreams (showCommand env ts call arg) s := by
  unfold KeepsStreams showCommand
  have hpos := List.length_pos_of_ne_nil hts
  rw [holds_ite]
  refine ⟨fun _ => by simp [hpos], fun hlen => ?_⟩
  unfold showStream
  by_cases hsix : ts.length = 6
  · rw [if_pos hsix]
    simp (disch := omega)
  · have hfive : ts.length = 5 := by omega
    rw [if_neg hsix, holds_bind, holds_builtPipeline (by omega)]
    refine ⟨fun i hfind hbuilt => ?_, fun _ _ _ => by simp, fun _ => by simp⟩
    exact absurd hbuilt (h hfive _ i (List.getElem?_eq_getElem (by omega)) hfind)

/-- A `show` without a file name closes standard output. -/
theorem showCommand_closes (env : Env) {ts : List Token} (call : Nat → Token → Call)
    (arg : String) {s : Session} {name : Token} {i : Nat} (hlen : ts.length = 5)
    (hname : ts[1]? = some name) (hfind : pipelineFind s.obj name = some i)
    (hbuilt : s.obj.isBuilt i = true) (hs : s.streams = [.stdout]) :
    Holds (showCommand env ts call arg) (fun _ s' => s'.streams = []) (fun _ _ => False) s := by
  have h1 : ts[1] = name := (List.getElem?_eq_some_iff.mp hname).2
  unfold showCommand showStream
  rw [if_neg (by omega), if_neg (by omega)]
  simp (disch := omega) [h1, hfind, hbuilt, hs]

theorem show_tokens {ts : List Token} {name what : Token} (hlen : ts.length = 5)
    (h0 : ts[0]? = some (word "pipeline")) (h1 : ts[1]? = some name) (h2 : ts[2]? = some what)
    (h4 : ts[4]? = some (word "show")) :
    ∃ shown, ts = [word "pipeline", name, what, shown, word "show"] := by
  obtain ⟨t0, t1, t2, t3, t4, rfl⟩ := five_tokens hlen
  cases h0
  cases h1
  cases h2
  cases h4
  exact ⟨t3, rfl⟩

theorem cliProcess_keepsStreams (env : Env) {line : List UInt8} {s : Session}
    (h : ∀ ts, command line = some (.tokens ts) → ¬ShownOnStdout ts s.obj) :
    KeepsStreams (cliProcess env line) s := by
  refine cliProcess_rule env (fun m hm => hm.keepsStreams s) fun ts hcmd hts h0 => ?_
  have hshow : ∀ what, what = word "table" ∨ what = word "selector" →
      ts[2]? = some what → ts[4]? = some (word "show") → ts.length = 5 →
        ∀ name i, ts[1]? = some name → pipelineFind s.obj name = some i →
          s.obj.isBuilt i ≠ true := by
    intro what hwhat h2 h4 hlen name i h1 hfind hbuilt
    obtain ⟨shown, heq⟩ := show_tokens hlen h0 h1 h2 h4
    exact h ts hcmd ⟨name, what, shown, i, heq, hwhat, hfind, hbuilt⟩
  simp only [wildBranches, List.forall_mem_cons, List.all_cons, List.all_nil, Test.meets,
    Bool.and_eq_true, decide_eq_true_eq]
  refine ⟨fun _ => ?_, fun hmeets => ?_, fun hmeets => ?_, List.forall_mem_nil _⟩
  · exact portOut_keepsStreams env hts s
  · exact showCommand_keepsStreams env hts _ _ (hshow _ (.inl rfl) hmeets.2.1 hmeets.2.2.1)
  · exact showCommand_keepsStreams env hts _ _ (hshow _ (.inr rfl) hmeets.2.1 hmeets.2.2.1)

theorem cliProcess_closes (env : Env) {line : List UInt8} {ts : List Token} {s : Session}
    (hcmd : command line = some (.tokens ts)) (h : ShownOnStdout ts s.obj)
    (hs : s.streams = [.stdout]) :
    Holds (cliProcess env line) (fun _ s' => s'.streams = []) (fun _ _ => False) s := by
  obtain ⟨name, what, shown, i, rfl, hwhat, hfind, hbuilt⟩ := h
  rw [cliProcess_tokens env hcmd]
  rcases hwhat with rfl | rfl
  · have hrun : processTokens env [word "pipeline", name, word "table", shown, word "show"] =
        cmdPipelineTableShow env [word "pipeline", name, word "table", shown, word "show"] := rfl
    rw [hrun]
    exact showCommand_closes env _ _ rfl rfl hfind hbuilt hs
  · have hrun : processTokens env [word "pipeline", name, word "selector", shown, word "show"] =
        cmdPipelineSelectorShow env
          [word "pipeline", name, word "selector", shown, word "show"] := rfl
    rw [hrun]
    exact showCommand_closes env _ _ rfl rfl hfind hbuilt hs

/-! ## The run -/

theorem StreamsKept.stdout {sh : Shell} (h : StreamsKept sh) (hend : sh.ended = none) :
    sh.session.streams = [.stdout] := by
  refine h.2 fun f hf => ?_
  rw [hend] at hf
  cases hf

theorem StreamsKept.step {sh : Shell} {r : Env × List UInt8} (h : StreamsKept sh)
    (hr : NamesFile sh r) : StreamsKept (sh.step r) := by
  unfold Shell.step
  by_cases hend : sh.ended = none
  · have hopen := h.stdout hend
    rw [if_neg (not_not.mpr hend)]
    have hkeeps : KeepsStreams (cliProcess r.1 r.2) { sh.session with out := [] } :=
      cliProcess_keepsStreams r.1 (hr hend)
    unfold KeepsStreams Holds at hkeeps
    cases hrun : cliProcess r.1 r.2 { sh.session with out := [] } with
    | ok a s' =>
      rw [hrun] at hkeeps
      exact ⟨nofun, fun _ => hkeeps.trans hopen⟩
    | error e s' =>
      rw [hrun] at hkeeps
      cases e with
      | returned => exact ⟨nofun, fun _ => (hkeeps.2 nofun).trans hopen⟩
      | hang => exact ⟨nofun, fun _ => (hkeeps.2 nofun).trans hopen⟩
      | fault f =>
        exact ⟨fun hf => hkeeps.1 (Option.some.inj hf), fun hf => absurd rfl (hf f)⟩
  · rw [if_pos hend]
    exact h

theorem StreamsKept.namesFile {sh : Shell} {r : Env × List UInt8} (h : StreamsKept sh)
    (hstep : StreamsKept (sh.step r)) : NamesFile sh r := by
  intro hend ts hcmd hshown
  have hopen := h.stdout hend
  have hcloses := cliProcess_closes r.1 (s := { sh.session with out := [] }) hcmd hshown hopen
  unfold Shell.step at hstep
  rw [if_neg (not_not.mpr hend)] at hstep
  unfold Holds at hcloses
  cases hrun : cliProcess r.1 r.2 { sh.session with out := [] } with
  | ok a s' =>
    rw [hrun] at hcloses hstep
    have hkept := hstep.2 nofun
    rw [hcloses] at hkept
    cases hkept
  | error e s' =>
    rw [hrun] at hcloses
    exact hcloses

theorem streamsKept_init : StreamsKept Shell.init := ⟨nofun, fun _ => rfl⟩

theorem streamsKept_iff (rs : List (Env × List UInt8)) :
    Always Shell.step StreamsKept Shell.init rs ↔ Meets Shell.step NamesFile Shell.init rs :=
  always_iff_meets (fun _ _ h hr => h.step hr) (fun _ h => h) (fun _ _ h hs => h.namesFile hs)
    streamsKept_init rs

/-- A start-up script that ends as the one for `l3` does. -/
def showScript : List (Env × List UInt8) :=
  [(.generous .generous, word "pipeline PIPELINE0 create 0"),
    (.generous .generous, word "pipeline PIPELINE0 build ./l3.spec"),
    (.generous .generous, word "pipeline PIPELINE0 table ipv4_host show")]

theorem streamsKept_broken : ¬∀ rs, Always Shell.step StreamsKept Shell.init rs := by
  intro h
  have hended : (run Shell.step Shell.init showScript).ended = none := by decide +kernel
  have hclosed : (run Shell.step Shell.init showScript).session.streams = [] := by
    decide +kernel
  have hkept := (h showScript showScript (List.prefix_refl _)).2 fun f hf => by
    rw [hended] at hf
    cases hf
  rw [hclosed] at hkept
  cases hkept

end P4Switch.Cmd
