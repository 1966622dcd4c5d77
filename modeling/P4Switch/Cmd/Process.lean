import P4Switch.Cmd.Dispatch
import P4Switch.Cmd.PipelineCommands

/-! # `cli_process`

The help texts, and the chains that lead from the tokens of a line to a handler. -/
namespace P4Switch.Cmd
open P4Switch.App

/-! ## Help -/

def cmdMempoolHelp : String :=
  "mempool <mempool_name>\n" ++
    "   buffer <buffer_size>\n" ++
    "   pool <pool_size>\n" ++
    "   cache <cache_size>\n" ++
    "   cpu <cpu_id>\n"

def cmdLinkHelp : String :=
  "link <link_name>\n" ++
    "   dev <device_name> | port <port_id>\n" ++
    "   rxq <n_queues> <queue_size> <mempool_name>\n" ++
    "   txq <n_queues> <queue_size>\n" ++
    "   promiscuous on | off\n" ++
    "   [rss <qid_0> ... <qid_n>]\n"

def cmdRingHelp : String := "ring <ring_name> size <size> numa <numa_node>\n"

def cmdTapHelp : String := "tap <tap_name>\n"

def cmdPipelineCreateHelp : String := "pipeline <pipeline_name> create <numa_node>\n"

def cmdPipelinePortInHelp : String :=
  "pipeline <pipeline_name> port in <port_id>\n" ++
    "   link <link_name> rxq <queue_id> bsz <burst_size>\n" ++
    "   ring <ring_name> bsz <burst_size>\n" ++
    "   | source <mempool_name> <file_name> loop <n_loops>\n" ++
    "   | tap <tap_name> mempool <mempool_name> mtu <mtu> bsz <burst_size>\n"

def cmdPipelinePortOutHelp : String :=
  "pipeline <pipeline_name> port out <port_id>\n" ++
    "   link <link_name> txq <txq_id> bsz <burst_size>\n" ++
    "   ring <ring_name> bsz <burst_size>\n" ++
    "   | sink <file_name> | none\n" ++
    "   | tap <tap_name> bsz <burst_size>\n"

def cmdPipelineBuildHelp : String := "pipeline <pipeline_name> build <spec_file>\n"

def cmdPipelineTableAddHelp : String :=
  "pipeline <pipeline_name> table <table_name> add <file_name>\n"

def cmdPipelineTableDeleteHelp : String :=
  "pipeline <pipeline_name> table <table_name> delete <file_name>\n"

def cmdPipelineTableDefaultHelp : String :=
  "pipeline <pipeline_name> table <table_name> default <file_name>\n"

def cmdPipelineTableShowHelp : String :=
  "pipeline <pipeline_name> table <table_name> show [filename]\n"

def cmdPipelineSelectorGroupAddHelp : String :=
  "pipeline <pipeline_name> selector <selector_name> group add\n"

def cmdPipelineSelectorGroupDeleteHelp : String :=
  "pipeline <pipeline_name> selector <selector_name> group delete <group_id>\n"

def cmdPipelineSelectorGroupMemberAddHelp : String :=
  "pipeline <pipeline_name> selector <selector_name> group member add <file_name>"

def cmdPipelineSelectorGroupMemberDeleteHelp : String :=
  "pipeline <pipeline_name> selector <selector_name> group member delete <file_name>"

def cmdPipelineSelectorShowHelp : String :=
  "pipeline <pipeline_name> selector <selector_name> show [filename]\n"

def cmdPipelineLearnerDefaultHelp : String :=
  "pipeline <pipeline_name> learner <learner_name> default <file_name>\n"

def cmdPipelineCommitHelp : String := "pipeline <pipeline_name> commit\n"

def cmdPipelineAbortHelp : String := "pipeline <pipeline_name> abort\n"

def cmdPipelineRegrdHelp : String :=
  "pipeline <pipeline_name> regrd <register_array_name> <index>\n"

def cmdPipelineRegwrHelp : String :=
  "pipeline <pipeline_name> regwr <register_array_name> <index> <value>\n"

def cmdPipelineMeterProfileAddHelp : String :=
  "pipeline <pipeline_name> meter profile <profile_name> add " ++
    "cir <cir> pir <pir> cbs <cbs> pbs <pbs>\n"

def cmdPipelineMeterProfileDeleteHelp : String :=
  "pipeline <pipeline_name> meter profile <profile_name> delete\n"

def cmdPipelineMeterResetHelp : String :=
  "pipeline <pipeline_name> meter <meter_array_name> from <index0> to <index1> " ++
    "reset\n"

def cmdPipelineMeterSetHelp : String :=
  "pipeline <pipeline_name> meter <meter_array_name> from <index0> to <index1> " ++
    "set profile <profile_name>\n"

def cmdPipelineMeterStatsHelp : String :=
  "pipeline <pipeline_name> meter <meter_array_name> from <index0> to <index1> " ++
    "stats\n"

def cmdPipelineStatsHelp : String := "pipeline <pipeline_name> stats\n"

def cmdPipelineMirrorHelp : String :=
  "pipeline <pipeline_name> mirror slots <n_slots> sessions <n_sessions>\n"

def cmdPipelineMirrorSessionHelp : String :=
  "pipeline <pipeline_name> mirror session <session_id> port <port_id> clone fast | slow " ++
    "truncate <truncation_length>\n"

def cmdThreadPipelineEnableHelp : String := "thread <thread_id> pipeline <pipeline_name> enable\n"

def cmdThreadPipelineDisableHelp : String := "thread <thread_id> pipeline <pipeline_name> disable\n"

def helpText : String :=
  "Type 'help <command>' for command details.\n\n" ++
    "List of commands:\n" ++
    String.join (["mempool", "link", "tap", "pipeline create", "pipeline port in",
      "pipeline port out", "pipeline build", "pipeline table add", "pipeline table delete",
      "pipeline table default", "pipeline table show", "pipeline selector group add",
      "pipeline selector group delete", "pipeline selector group member add",
      "pipeline selector group member delete", "pipeline selector show",
      "pipeline learner default", "pipeline commit", "pipeline abort", "pipeline regrd",
      "pipeline regwr", "pipeline meter profile add", "pipeline meter profile delete",
      "pipeline meter reset", "pipeline meter set", "pipeline meter stats", "pipeline stats",
      "pipeline mirror", "pipeline mirror session", "thread pipeline enable",
      "thread pipeline disable"].map fun c => "\t" ++ c ++ "\n") ++ "\n"

/-- A help text, and when it is asked for. -/
def helpOf (tests : List Test) (help : String) : Branch :=
  ⟨tests, fun _ => reply ("\n" ++ help ++ "\n")⟩

/-- Help on `pipeline` with these words behind it and no more. -/
def pipelineHelp (words : List String) (help : String) : Branch :=
  helpOf (.is 0 "pipeline" :: .exactly (words.length + 1) ::
    words.zipIdx.map fun w => .is (w.2 + 1) w.1) help

/-- The tests on the tokens behind `help`. An `if` inside another is a branch of its own. -/
def helpBranches : List Branch :=
  [helpOf [.is 0 "mempool"] cmdMempoolHelp,
    helpOf [.is 0 "link"] cmdLinkHelp,
    helpOf [.is 0 "ring"] cmdRingHelp,
    helpOf [.is 0 "tap"] cmdTapHelp,
    pipelineHelp ["create"] cmdPipelineCreateHelp,
    pipelineHelp ["port", "in"] cmdPipelinePortInHelp,
    pipelineHelp ["port", "out"] cmdPipelinePortOutHelp,
    pipelineHelp ["build"] cmdPipelineBuildHelp,
    pipelineHelp ["table", "add"] cmdPipelineTableAddHelp,
    pipelineHelp ["table", "delete"] cmdPipelineTableDeleteHelp,
    pipelineHelp ["table", "default"] cmdPipelineTableDefaultHelp,
    pipelineHelp ["table", "show"] cmdPipelineTableShowHelp,
    pipelineHelp ["selector", "group", "add"] cmdPipelineSelectorGroupAddHelp,
    pipelineHelp ["selector", "group", "delete"] cmdPipelineSelectorGroupDeleteHelp,
    pipelineHelp ["selector", "group", "member", "add"] cmdPipelineSelectorGroupMemberAddHelp,
    pipelineHelp ["selector", "group", "member", "delete"] cmdPipelineSelectorGroupMemberDeleteHelp,
    pipelineHelp ["selector", "show"] cmdPipelineSelectorShowHelp,
    pipelineHelp ["learner", "default"] cmdPipelineLearnerDefaultHelp,
    pipelineHelp ["commit"] cmdPipelineCommitHelp,
    pipelineHelp ["abort"] cmdPipelineAbortHelp,
    pipelineHelp ["regrd"] cmdPipelineRegrdHelp,
    pipelineHelp ["regwr"] cmdPipelineRegwrHelp,
    pipelineHelp ["meter", "profile", "add"] cmdPipelineMeterProfileAddHelp,
    pipelineHelp ["meter", "profile", "delete"] cmdPipelineMeterProfileDeleteHelp,
    pipelineHelp ["meter", "reset"] cmdPipelineMeterResetHelp,
    pipelineHelp ["meter", "set"] cmdPipelineMeterSetHelp,
    pipelineHelp ["meter", "stats"] cmdPipelineMeterStatsHelp,
    pipelineHelp ["stats"] cmdPipelineStatsHelp,
    pipelineHelp ["mirror"] cmdPipelineMirrorHelp,
    pipelineHelp ["mirror", "session"] cmdPipelineMirrorSessionHelp,
    helpOf [.exactly 3, .is 0 "thread", .is 1 "pipeline", .is 2 "enable"]
      cmdThreadPipelineEnableHelp,
    helpOf [.exactly 3, .is 0 "thread", .is 1 "pipeline", .is 2 "disable"]
      cmdThreadPipelineDisableHelp]

def cmdHelp (_env : Env) (ts : List Token) : Handler Unit :=
  if ts.tail.length = 0 then reply helpText
  else dispatch ts.tail (reply "Invalid command\n") helpBranches

/-! ## Commands -/

def unknown (ts : List Token) : Handler Unit := do
  let cmd ← token ts 0
  reply (msgCmdUnknown cmd)

def pipelineBranches (env : Env) : List Branch :=
  [⟨[.atLeast 3, .is 2 "create"], cmdPipelineCreate env⟩,
    ⟨[.atLeast 4, .is 2 "port", .is 3 "in"], cmdPipelinePortIn env⟩,
    ⟨[.atLeast 4, .is 2 "port", .is 3 "out"], cmdPipelinePortOut env⟩,
    ⟨[.atLeast 3, .is 2 "build"], cmdPipelineBuild env⟩,
    ⟨[.atLeast 5, .is 2 "table", .is 4 "add"], cmdPipelineTableAdd env⟩,
    ⟨[.atLeast 5, .is 2 "table", .is 4 "delete"], cmdPipelineTableDelete env⟩,
    ⟨[.atLeast 5, .is 2 "table", .is 4 "default"], cmdPipelineTableDefault env⟩,
    ⟨[.atLeast 5, .is 2 "table", .is 4 "show"], cmdPipelineTableShow env⟩,
    ⟨[.atLeast 6, .is 2 "selector", .is 4 "group", .is 5 "add"], cmdPipelineSelectorGroupAdd env⟩,
    ⟨[.atLeast 6, .is 2 "selector", .is 4 "group", .is 5 "delete"],
      cmdPipelineSelectorGroupDelete env⟩,
    ⟨[.atLeast 7, .is 2 "selector", .is 4 "group", .is 5 "member", .is 6 "add"],
      cmdPipelineSelectorGroupMemberAdd env⟩,
    ⟨[.atLeast 7, .is 2 "selector", .is 4 "group", .is 5 "member", .is 6 "delete"],
      cmdPipelineSelectorGroupMemberDelete env⟩,
    ⟨[.atLeast 5, .is 2 "selector", .is 4 "show"], cmdPipelineSelectorShow env⟩,
    ⟨[.atLeast 5, .is 2 "learner", .is 4 "default"], cmdPipelineLearnerDefault env⟩,
    ⟨[.atLeast 3, .is 2 "commit"], cmdPipelineCommit env⟩,
    ⟨[.atLeast 3, .is 2 "abort"], cmdPipelineAbort env⟩,
    ⟨[.atLeast 3, .is 2 "regrd"], cmdPipelineRegrd env⟩,
    ⟨[.atLeast 3, .is 2 "regwr"], cmdPipelineRegwr env⟩,
    ⟨[.atLeast 6, .is 2 "meter", .is 3 "profile", .is 5 "add"], cmdPipelineMeterProfileAdd env⟩,
    ⟨[.atLeast 6, .is 2 "meter", .is 3 "profile", .is 5 "delete"],
      cmdPipelineMeterProfileDelete env⟩,
    ⟨[.atLeast 9, .is 2 "meter", .is 8 "reset"], cmdPipelineMeterReset env⟩,
    ⟨[.atLeast 9, .is 2 "meter", .is 8 "set"], cmdPipelineMeterSet env⟩,
    ⟨[.atLeast 9, .is 2 "meter", .is 8 "stats"], cmdPipelineMeterStats env⟩,
    ⟨[.atLeast 3, .is 2 "stats"], cmdPipelineStats env⟩,
    ⟨[.atLeast 4, .is 2 "mirror", .is 3 "slots"], cmdPipelineMirror env⟩,
    ⟨[.atLeast 4, .is 2 "mirror", .is 3 "session"], cmdPipelineMirrorSession env⟩]

def threadBranches (env : Env) : List Branch :=
  [⟨[.atLeast 5, .is 4 "enable"], cmdThreadPipelineEnable env⟩,
    ⟨[.atLeast 5, .is 4 "disable"], cmdThreadPipelineDisable env⟩]

def linkBranches (env : Env) : List Branch := [⟨[.atLeast 2, .is 1 "show"], cmdLinkShow env⟩]

def objectBranches (env : Env) : List Branch :=
  [⟨[.is 0 "help"], cmdHelp env⟩,
    ⟨[.is 0 "mempool"], cmdMempool env⟩,
    ⟨[.is 0 "link"], fun ts => dispatch ts (cmdLink env ts) (linkBranches env)⟩,
    ⟨[.is 0 "ring"], cmdRing env⟩,
    ⟨[.is 0 "tap"], cmdTap env⟩]

def threadBranch (env : Env) : Branch :=
  ⟨[.is 0 "thread"], fun ts => dispatch ts (unknown ts) (threadBranches env)⟩

/-- When none of its commands is met, the chain on the first token goes on. -/
def pipelineBranch (env : Env) : Branch :=
  ⟨[.is 0 "pipeline"], fun ts =>
    dispatch ts (dispatch ts (unknown ts) [threadBranch env]) (pipelineBranches env)⟩

def processTokens (env : Env) (ts : List Token) : Handler Unit :=
  dispatch ts (unknown ts) (objectBranches env ++ [pipelineBranch env, threadBranch env])

def cliProcess (env : Env) (line : List UInt8) : Handler Unit :=
  match command line with
  | none => return
  | some .comment => return
  | some .tooMany => reply msgArgTooMany
  | some (.tokens ts) => processTokens env ts

theorem command_ne_nil {line : List UInt8} {ts : List Token}
    (h : command line = some (.tokens ts)) : ts ≠ [] := by
  rintro rfl
  unfold command at h
  split at h
  · cases h
  · split at h
    · cases h
    · cases h
    · rename_i hne _
      cases h
      exact hne rfl

theorem cliProcess_tokens (env : Env) {line : List UInt8} {ts : List Token}
    (h : command line = some (.tokens ts)) : cliProcess env line = processTokens env ts := by
  unfold cliProcess
  rw [h]

end P4Switch.Cmd
