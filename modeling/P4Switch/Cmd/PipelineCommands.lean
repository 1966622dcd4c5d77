import P4Switch.Cmd.ObjectCommands

/-! # Commands on pipelines

The handlers that change or show the tables, selectors, registers and meters of a pipeline,
and those that run it. -/
namespace P4Switch.Cmd

/-! ## Entries and members from files -/

/-- A file is opened, its lines are applied, and it is closed. -/
def applyFile {α : Type} (env : Env) (name : Token) (load : List UInt8 → Loaded Nat α) :
    Handler Unit := do
  let file ← openFile env name .r
  useStream file
  -- the line buffer is allocated first
  let loaded := if env.host.calloc = true then load (env.content name) else ⟨-ENOMEM, 0, 0, []⟩
  replyIf (loaded.status ≠ 0) (msgInvalidEntry name loaded.line)
  fclose file

/-- `cmd_pipeline_table_add` and its siblings. -/
def entriesCommand (env : Env) (ts : List Token) (op : EntryOp) : Handler Unit :=
  if ts.length ≠ 6 then mismatch ts
  else do
    let p ← builtPipeline ts 1
    let name ← token ts 3
    let fileName ← token ts 5
    applyFile env fileName <|
      loadEntries (env.readEntry op p name)
        (fun n entry => (env.applyEntry op p name n entry, n + 1)) 0

def cmdPipelineTableAdd (env : Env) (ts : List Token) : Handler Unit :=
  entriesCommand env ts .tableEntryAdd

def cmdPipelineTableDelete (env : Env) (ts : List Token) : Handler Unit :=
  entriesCommand env ts .tableEntryDelete

def cmdPipelineTableDefault (env : Env) (ts : List Token) : Handler Unit :=
  entriesCommand env ts .tableDefaultEntryAdd

def cmdPipelineLearnerDefault (env : Env) (ts : List Token) : Handler Unit :=
  entriesCommand env ts .learnerDefaultEntryAdd

def membersCommand (env : Env) (ts : List Token) (op : MemberOp) (word : String) :
    Handler Unit :=
  if ts.length ≠ 8 then mismatch ts
  else do
    let p ← builtPipeline ts 1
    keyword ts 2 "selector"
    let name ← token ts 3
    keywords ts [(4, "group"), (5, "member"), (6, word)] ("group member " ++ word)
    let fileName ← token ts 7
    applyFile env fileName <|
      loadMembers (fun n a => (env.applyMember op p name n a, n + 1)) env.stale 0

def cmdPipelineSelectorGroupMemberAdd (env : Env) (ts : List Token) : Handler Unit :=
  membersCommand env ts .memberAdd "add"

def cmdPipelineSelectorGroupMemberDelete (env : Env) (ts : List Token) : Handler Unit :=
  membersCommand env ts .memberDelete "delete"

/-! ## Showing -/

/-- `(n_tokens == 6) ? fopen(tokens[5], "w") : stdout`. -/
def showStream (env : Env) (ts : List Token) : Handler Stream :=
  if ts.length = 6 then do
    let fileName ← token ts 5
    openFile env fileName .w
  else return .stdout

/-- What is shown goes to a file or to standard output, and either is closed. -/
def showCommand (env : Env) (ts : List Token) (call : Nat → Token → Call) (arg : String) :
    Handler Unit :=
  if ts.length ≠ 5 ∧ ts.length ≠ 6 then mismatch ts
  else do
    let p ← builtPipeline ts 1
    let name ← token ts 3
    let file ← showStream env ts
    useStream file
    replyIf (env.status (call p name) ≠ 0) (msgArgInvalid arg)
    fclose file

def cmdPipelineTableShow (env : Env) (ts : List Token) : Handler Unit :=
  showCommand env ts .tableFprintf "table_name"

def cmdPipelineSelectorShow (env : Env) (ts : List Token) : Handler Unit :=
  showCommand env ts .selectorFprintf "selector_name"

/-! ## Selector groups -/

def cmdPipelineSelectorGroupAdd (env : Env) (ts : List Token) : Handler Unit :=
  if ts.length ≠ 6 then mismatch ts
  else do
    let p ← builtPipeline ts 1
    keyword ts 2 "selector"
    let name ← token ts 3
    keywords ts [(4, "group"), (5, "add")] "group add"
    let cmd ← token ts 0
    require (env.status (.selectorGroupAdd p name) = 0) (msgCmdFail cmd.text)
    reply ("Group ID: " ++ toString env.groupId ++ "\n")

def cmdPipelineSelectorGroupDelete (env : Env) (ts : List Token) : Handler Unit :=
  if ts.length ≠ 7 then mismatch ts
  else do
    let p ← builtPipeline ts 1
    keyword ts 2 "selector"
    let name ← token ts 3
    keywords ts [(4, "group"), (5, "delete")] "group delete"
    let group ← uint32 ts 6 "group_id"
    let cmd ← token ts 0
    require (env.status (.selectorGroupDelete p name group) = 0) (msgCmdFail cmd.text)

/-! ## Commit, registers -/

def cmdPipelineCommit (env : Env) (ts : List Token) : Handler Unit :=
  if ts.length ≠ 3 then mismatch ts
  else do
    let p ← builtPipeline ts 1
    require (env.status (.commit p) = 0)
      "Commit failed. Use \"commit\" to retry or \"abort\" to discard the pending work.\n"

/-- `rte_swx_ctl_pipeline_abort` answers nothing. -/
def cmdPipelineAbort (_env : Env) (ts : List Token) : Handler Unit :=
  if ts.length ≠ 3 then mismatch ts
  else do
    let _ ← builtPipeline ts 1
    return

/-- A number as `%x` prints it. -/
def hex (n : Nat) : String := String.ofList (Nat.toDigits 16 n)

def cmdPipelineRegrd (env : Env) (ts : List Token) : Handler Unit :=
  if ts.length ≠ 5 then mismatch ts
  else do
    let p ← builtPipeline ts 1
    keyword ts 2 "regrd"
    let name ← token ts 3
    let idx ← uint32 ts 4 "index"
    require (env.status (.regarrayRead p name idx) = 0) "Command failed.\n"
    reply ("Davidi's QoS reg: 0x" ++ hex env.register ++ "\n")

def cmdPipelineRegwr (env : Env) (ts : List Token) : Handler Unit :=
  if ts.length ≠ 6 then mismatch ts
  else do
    let p ← builtPipeline ts 1
    keyword ts 2 "regwr"
    let name ← token ts 3
    let idx ← uint32 ts 4 "index"
    let value ← uint64 ts 5 "value"
    require (env.status (.regarrayWrite p name idx value) = 0) "Command failed.\n"

/-! ## Meters -/

def cmdPipelineMeterProfileAdd (env : Env) (ts : List Token) : Handler Unit :=
  if ts.length ≠ 14 then mismatch ts
  else do
    let p ← builtPipeline ts 1
    keyword ts 2 "meter"
    keyword ts 3 "profile"
    let name ← token ts 4
    keyword ts 5 "add"
    keyword ts 6 "cir"
    let cir ← uint64 ts 7 "cir"
    keyword ts 8 "pir"
    let pir ← uint64 ts 9 "pir"
    keyword ts 10 "cbs"
    let cbs ← uint64 ts 11 "cbs"
    keyword ts 12 "pbs"
    let pbs ← uint64 ts 13 "pbs"
    require (env.status (.meterProfileAdd p name cir pir cbs pbs) = 0) "Command failed.\n"

def cmdPipelineMeterProfileDelete (env : Env) (ts : List Token) : Handler Unit :=
  if ts.length ≠ 6 then mismatch ts
  else do
    let p ← builtPipeline ts 1
    keyword ts 2 "meter"
    keyword ts 3 "profile"
    let name ← token ts 4
    keyword ts 5 "delete"
    require (env.status (.meterProfileDelete p name) = 0) "Command failed.\n"

/-- `meter <name> from <index0> to <index1>`. -/
def meterRange (ts : List Token) : Handler (Token × Nat × Nat) := do
  keyword ts 2 "meter"
  let name ← token ts 3
  keyword ts 4 "from"
  let idx0 ← uint32 ts 5 "index0"
  keyword ts 6 "to"
  let idx1 ← uint32 ts 7 "index1"
  require (idx0 ≤ idx1) (msgArgInvalid "index1")
  return (name, idx0, idx1)

/-- `for ( ; idx0 <= idx1; idx0++)` over `uint32_t`. -/
def forIndices (idx0 idx1 : Nat) (body : Nat → Handler Unit) : Handler Unit := do
  (List.range' idx0 (idx1 + 1 - idx0)).forM body
  -- after the largest index comes 0, and so on without end
  if idx1 + 1 = 2 ^ 32 then do
    (List.range idx0).forM body
    throw .hang
  else return

def cmdPipelineMeterReset (env : Env) (ts : List Token) : Handler Unit :=
  if ts.length ≠ 9 then mismatch ts
  else do
    let p ← builtPipeline ts 1
    let range ← meterRange ts
    keyword ts 8 "reset"
    forIndices range.2.1 range.2.2 fun idx =>
      require (env.status (.meterReset p range.1 idx) = 0)
        ("Command failed for index " ++ toString idx ++ ".\n")

def cmdPipelineMeterSet (env : Env) (ts : List Token) : Handler Unit :=
  if ts.length ≠ 11 then mismatch ts
  else do
    let p ← builtPipeline ts 1
    let range ← meterRange ts
    keyword ts 8 "set"
    keyword ts 9 "profile"
    let profile ← token ts 10
    forIndices range.2.1 range.2.2 fun idx =>
      require (env.status (.meterSet p range.1 idx profile) = 0)
        ("Command failed for index " ++ toString idx ++ ".\n")

def padLeft (width : Nat) (s : String) : String :=
  String.ofList (List.replicate (width - s.length) ' ') ++ s

/-- A row of the table: the index as `%7d`, and six columns. -/
def meterRow (idx : String) (columns : List String) : String :=
  "| " ++ idx ++ String.join (columns.map fun c => " | " ++ padLeft 16 c) ++ " |\n"

def meterRule : String :=
  "+--------" ++ String.join (List.replicate 6 ("-+-" ++ "----------------")) ++ "-+\n"

def meterHeader : String :=
  meterRow "METER #" ["GREEN (packets)", "YELLOW (packets)", "RED (packets)", "GREEN (bytes)",
    "YELLOW (bytes)", "RED (bytes)"]

def meterStatsRow (idx : Nat) (stats : MeterStats) : String :=
  meterRow (padLeft 7 (toString (BitVec.ofNat 32 idx).toInt))
    ([stats.nPkts.1, stats.nPkts.2.1, stats.nPkts.2.2, stats.nBytes.1, stats.nBytes.2.1,
      stats.nBytes.2.2].map hex)

def cmdPipelineMeterStats (env : Env) (ts : List Token) : Handler Unit :=
  if ts.length ≠ 9 then mismatch ts
  else do
    let p ← builtPipeline ts 1
    let range ← meterRange ts
    keyword ts 8 "stats"
    reply meterRule
    reply meterHeader
    reply meterRule
    forIndices range.2.1 range.2.2 fun idx => do
      require (env.status (.meterStatsRead p range.1 idx) = 0)
        ("Pipeline meter stats error at index " ++ toString idx ++ ".\n")
      reply (meterStatsRow idx (env.meterStats idx))

/-! ## Statistics -/

def portInLine (i : Nat) (stats : PortInStats) : String :=
  "\tPort " ++ toString i ++ ": packets " ++ toString stats.nPkts ++ " bytes " ++
    toString stats.nBytes ++ " empty " ++ toString stats.nEmpty ++ "\n"

/-- The last output port is the one that drops. -/
def portOutLine (info : PipelineInfo) (i : Nat) (stats : PortOutStats) : String :=
  (if i + 1 = info.nPortsOut then "\tDROP:" else "\tPort " ++ toString i ++ ":") ++
    " packets " ++ toString stats.nPkts ++ " bytes " ++ toString stats.nBytes ++ " clone " ++
    toString stats.nPktsClone ++ " clonerr " ++ toString stats.nPktsCloneErr ++ "\n"

def tableLines (stats : TableStats) : String :=
  "\tTable " ++ stats.name ++ ":\n\t\tHit (packets): " ++ toString stats.nPktsHit ++
    "\n\t\tMiss (packets): " ++ toString stats.nPktsMiss ++ "\n"

def learnerLines (stats : LearnerStats) : String :=
  "\tLearner table " ++ stats.name ++ ":\n\t\tHit (packets): " ++ toString stats.nPktsHit ++
    "\n\t\tMiss (packets): " ++ toString stats.nPktsMiss ++
    "\n\t\tLearn OK (packets): " ++ toString stats.nPktsLearnOk ++
    "\n\t\tLearn error (packets): " ++ toString stats.nPktsLearnErr ++
    "\n\t\tRearm (packets): " ++ toString stats.nPktsRearm ++
    "\n\t\tForget (packets): " ++ toString stats.nPktsForget ++ "\n"

/-- The loop over the actions, for a table and for a learner table. -/
def actionLoop (env : Env) (p : Nat) (nPktsAction : Nat → Nat) : Handler Unit :=
  (List.range env.info.nActions).forM fun j => do
    require (env.status (.actionInfoGet p j) = 0) "Action info get error."
    reply ("\t\tAction " ++ env.actionName j ++ " (packets): " ++ toString (nPktsAction j) ++ "\n")

def tableLoop (env : Env) (p : Nat) : Handler Unit :=
  (List.range env.info.nTables).forM fun i => do
    require (env.status (.tableInfoGet p i) = 0) "Table info get error."
    require (env.status (.tableStatsRead p i) = 0) "Table stats read error."
    reply (tableLines (env.tableStats i))
    actionLoop env p (env.tableStats i).nPktsAction

def learnerLoop (env : Env) (p : Nat) : Handler Unit :=
  (List.range env.info.nLearners).forM fun i => do
    require (env.status (.learnerInfoGet p i) = 0) "Learner table info get error."
    require (env.status (.learnerStatsRead p i) = 0) "Learner table stats read error."
    reply (learnerLines (env.learnerStats i))
    actionLoop env p (env.learnerStats i).nPktsAction

/-- `cmd_pipeline_stats`, which writes and counts before it looks at its tokens. -/
def cmdPipelineStats (env : Env) (ts : List Token) : Handler Unit := do
  let s ← get
  reply ("Davidi's: status counter: " ++ toString s.statsCallerCounter ++
    " and newstatus is " ++ toString env.newStatus ++ "\n")
  modify fun s => { s with statsCallerCounter := s.statsCallerCounter + 1 }
  if ts.length ≠ 3 then mismatch ts
  else do
    let p ← builtPipeline ts 1
    keyword ts 2 "stats"
    require (env.status (.infoGet p) = 0) "Pipeline info get error."
    reply "Input ports:\n"
    (List.range env.info.nPortsIn).forM fun i => reply (portInLine i (env.portInStats i))
    reply "\nOutput ports:\n"
    (List.range env.info.nPortsOut).forM fun i =>
      reply (portOutLine env.info i (env.portOutStats i))
    reply "\nDavidi's-Tables:\n"
    tableLoop env p
    reply "\nLearner tables:\n"
    learnerLoop env p

/-! ## Mirroring, threads -/

/-- A pipeline object is used. -/
def useObject (i : Nat) : Handler Unit := do
  let s ← get
  if (s.object i).isSome = true then pure () else throw (.fault .freed)

/-- `cmd_pipeline_mirror`, which does not ask whether the pipeline has been built. -/
def cmdPipelineMirror (env : Env) (ts : List Token) : Handler Unit :=
  if ts.length ≠ 7 then mismatch ts
  else do
    keyword ts 0 "pipeline"
    let p ← found pipelineFind ts 1 (msgArgInvalid "pipeline_name")
    keyword ts 2 "mirror"
    keyword ts 3 "slots"
    let nSlots ← uint32 ts 4 "n_slots"
    keyword ts 5 "sessions"
    let nSessions ← uint32 ts 6 "n_sessions"
    useObject p
    require (env.status (.mirroringConfig p nSlots nSessions) = 0) "Command failed!\n"

def fastOrSlow (ts : List Token) (k : Nat) : Handler Bool := do
  let fast ← tokenIs ts k "fast"
  if fast = true then return true
  else do
    let slow ← tokenIs ts k "slow"
    if slow = true then return false
    else fail (msgArgInvalid "clone")

def cmdPipelineMirrorSession (env : Env) (ts : List Token) : Handler Unit :=
  if ts.length ≠ 11 then mismatch ts
  else do
    keyword ts 0 "pipeline"
    let p ← builtPipeline ts 1
    keyword ts 2 "mirror"
    keyword ts 3 "session"
    let session ← uint32 ts 4 "session_id"
    keyword ts 5 "port"
    let port ← uint32 ts 6 "port_id"
    keyword ts 7 "clone"
    let fast ← fastOrSlow ts 8
    keyword ts 9 "truncate"
    let truncation ← uint32 ts 10 "truncation_length"
    require (env.status (.mirroringSessionSet p session port fast truncation) = 0)
      "Command failed!\n"

/-- `cmd_thread_pipeline_enable` and `_disable`. -/
def threadCommand (env : Env) (ts : List Token) (word : String) (call : Nat → Token → Call) :
    Handler Unit :=
  if ts.length ≠ 5 then mismatch ts
  else do
    let threadId ← uint32 ts 1 "thread_id"
    keyword ts 2 "pipeline"
    let _ ← builtPipeline ts 3
    keyword ts 4 word
    let name ← token ts 3
    require (env.status (call threadId name) = 0) (msgCmdFail ("thread pipeline " ++ word))

def cmdThreadPipelineEnable (env : Env) (ts : List Token) : Handler Unit :=
  threadCommand env ts "enable" .threadPipelineEnable

def cmdThreadPipelineDisable (env : Env) (ts : List Token) : Handler Unit :=
  threadCommand env ts "disable" .threadPipelineDisable

end P4Switch.Cmd
