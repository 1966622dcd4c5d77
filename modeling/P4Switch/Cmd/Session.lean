import P4Switch.Cmd.Loader
import P4Switch.Cmd.Objects
import P4Switch.Lib.EarlyExit

/-! # Command handlers as programs

A handler reads its tokens, writes to `out` and returns. What it must not do, such as
reading a token that is not there, is a fault, with which it stops. The answers of the
library, the files and the threads to one command are its `Env`. -/
namespace P4Switch.Cmd
open P4Switch.Lib.EarlyExit

/-- The bytes of a token as text. -/
def Token.text (t : Token) : String := String.ofList (t.map fun b => Char.ofNat b.toNat)

def msgArgTooMany : String := "Too many arguments for command \"\".\n"

def msgCmdUnknown (t : Token) : String := "Unknown command \"" ++ t.text ++ "\".\n"

def msgArgMismatch (s : String) : String :=
  "Wrong number of arguments for command \"" ++ s ++ "\".\n"

def msgArgNotFound (s : String) : String := "Argument \"" ++ s ++ "\" not found.\n"

def msgArgInvalid (s : String) : String := "Invalid value for argument \"" ++ s ++ "\".\n"

def msgCmdFail (s : String) : String := "Command \"" ++ s ++ "\" failed.\n"

def msgCannotOpen (t : Token) : String := "Cannot open file " ++ t.text ++ ".\n"

def msgInvalidEntry (t : Token) (line : Nat) : String :=
  "Invalid entry in file " ++ t.text ++ " at line " ++ toString line ++ "\n"

/-- A stream: standard output, or the n-th file opened. -/
inductive Stream where
  | stdout
  | file (n : Nat)
  deriving DecidableEq

inductive FileMode where
  | r
  | w

/-- The arguments of a port. -/
inductive PortParams where
  | ethdev (devName : Name) (queueId burstSize : Nat)
  | ring (name : Name) (burstSize : Nat)
  | source (pool : Nat) (fileName : Name) (nLoops : Nat)
  | sink (fileName : Option Name)
  | fdReader (fd mempool mtu burstSize : Nat)
  | fdWriter (fd burstSize : Nat)

inductive Dir where
  | input
  | output
  deriving DecidableEq

/-- The ports of a pipeline object of the library. -/
structure Swx where
  ports : Dir → List (Nat × PortParams)

/-- Packets and bytes of the colours green, yellow and red. -/
structure MeterStats where
  nPkts : Nat × Nat × Nat
  nBytes : Nat × Nat × Nat

/-- The state and the counters of a port. -/
structure EthState where
  up : Bool
  mtu : Nat
  etherAddr : String
  speed : String
  ipackets : Nat
  ibytes : Nat
  ierrors : Nat
  imissed : Nat
  rxNombuf : Nat
  opackets : Nat
  obytes : Nat
  oerrors : Nat

structure PortInStats where
  nPkts : Nat
  nBytes : Nat
  nEmpty : Nat

structure PortOutStats where
  nPkts : Nat
  nBytes : Nat
  nPktsClone : Nat
  nPktsCloneErr : Nat

structure TableStats where
  name : String
  nPktsHit : Nat
  nPktsMiss : Nat
  nPktsAction : Nat → Nat

structure LearnerStats where
  name : String
  nPktsHit : Nat
  nPktsMiss : Nat
  nPktsLearnOk : Nat
  nPktsLearnErr : Nat
  nPktsRearm : Nat
  nPktsForget : Nat
  nPktsAction : Nat → Nat

structure PipelineInfo where
  nPortsIn : Nat
  nPortsOut : Nat
  nActions : Nat
  nTables : Nat
  nLearners : Nat

/-- The calls that answer with a status. A pipeline is denoted by its place. -/
inductive Call where
  | buildFromSpec (p : Nat) (spec : Token)
  | tableFprintf (p : Nat) (table : Token)
  | selectorFprintf (p : Nat) (selector : Token)
  | selectorGroupAdd (p : Nat) (selector : Token)
  | selectorGroupDelete (p : Nat) (selector : Token) (group : Nat)
  | commit (p : Nat)
  | regarrayRead (p : Nat) (name : Token) (idx : Nat)
  | regarrayWrite (p : Nat) (name : Token) (idx value : Nat)
  | meterProfileAdd (p : Nat) (name : Token) (cir pir cbs pbs : Nat)
  | meterProfileDelete (p : Nat) (name : Token)
  | meterReset (p : Nat) (name : Token) (idx : Nat)
  | meterSet (p : Nat) (name : Token) (idx : Nat) (profile : Token)
  | meterStatsRead (p : Nat) (name : Token) (idx : Nat)
  | infoGet (p : Nat)
  | tableInfoGet (p i : Nat)
  | tableStatsRead (p i : Nat)
  | actionInfoGet (p i : Nat)
  | learnerInfoGet (p i : Nat)
  | learnerStatsRead (p i : Nat)
  | mirroringConfig (p nSlots nSessions : Nat)
  | mirroringSessionSet (p session port : Nat) (fast : Bool) (truncation : Nat)
  | threadPipelineEnable (thread : Nat) (name : Token)
  | threadPipelineDisable (thread : Nat) (name : Token)
  | macaddrGet (port : Nat)
  | ethLinkGet (port : Nat)

/-- What the lines of a file are applied with. -/
inductive EntryOp where
  | tableEntryAdd
  | tableEntryDelete
  | tableDefaultEntryAdd
  | learnerDefaultEntryAdd

inductive MemberOp where
  | memberAdd
  | memberDelete

/-- The answers to one command. The n-th line applied is told apart from the others, so
its status may depend on those before it. -/
structure Env where
  host : Host
  status : Call → Int
  fopen : Token → FileMode → Bool
  content : Token → List UInt8
  readEntry : EntryOp → Nat → Token → List UInt8 → LineRead Line
  applyEntry : EntryOp → Nat → Token → Nat → Line → Int
  applyMember : MemberOp → Nat → Token → Nat → Addition → Int
  stale : Nat → Nat
  portCreate : PortParams → Bool
  /-- What building makes of a pipeline object. -/
  built : Swx → Swx
  ctlCreate : Nat → Bool
  specError : Nat × String
  groupId : Nat
  register : Nat
  meterStats : Nat → MeterStats
  info : PipelineInfo
  portInStats : Nat → PortInStats
  portOutStats : Nat → PortOutStats
  tableStats : Nat → TableStats
  learnerStats : Nat → LearnerStats
  actionName : Nat → String
  ethState : Nat → EthState
  strerror : Int → String
  newStatus : Int

/-- Every call succeeds, and every file is empty. -/
def Env.generous (host : Host) : Env where
  host := host
  status := fun _ => 0
  fopen := fun _ _ => true
  content := fun _ => []
  readEntry := fun _ _ _ _ => .blank
  applyEntry := fun _ _ _ _ _ => 0
  applyMember := fun _ _ _ _ _ => 0
  stale := fun _ => 0
  portCreate := fun _ => true
  built := id
  ctlCreate := fun _ => true
  specError := (0, "")
  groupId := 0
  register := 0
  meterStats := fun _ => ⟨(0, 0, 0), (0, 0, 0)⟩
  info := ⟨0, 0, 0, 0, 0⟩
  portInStats := fun _ => ⟨0, 0, 0⟩
  portOutStats := fun _ => ⟨0, 0, 0, 0⟩
  tableStats := fun _ => ⟨"", 0, 0, fun _ => 0⟩
  learnerStats := fun _ => ⟨"", 0, 0, 0, 0, 0, 0, fun _ => 0⟩
  actionName := fun _ => ""
  ethState := fun _ => ⟨true, 0, "", "", 0, 0, 0, 0, 0, 0, 0, 0⟩
  strerror := fun _ => ""
  newStatus := 0

inductive Fault where
  /-- A token at `n_tokens` or beyond is read. -/
  | tokenRead
  /-- `rss.queue_id` is written at `LINK_RXQ_RSS_MAX` or beyond. -/
  | rssWrite
  /-- A closed stream is used or closed. -/
  | stream
  /-- A pipeline object is used that has been freed. -/
  | freed
  deriving DecidableEq

/-- How a handler ends before its last line; `hang` is a loop that never ends. -/
inductive Exit where
  | returned
  | hang
  | fault (f : Fault)
  deriving DecidableEq

/-- `swx` gives the pipeline objects that are live; `opened` counts the files. -/
structure Session where
  obj : Obj
  swx : Nat → Option Swx
  streams : List Stream
  opened : Nat
  statsCallerCounter : Nat
  out : List String

def Session.init : Session := ⟨objInit, fun _ => none, [.stdout], 0, 0, []⟩

/-- A session in which a pipeline has been created. -/
def withPipeline : Session :=
  { Session.init with
    obj := { objInit with pipelineList := [⟨word "PIPELINE0", 0, false⟩] }
    swx := fun _ => some ⟨fun _ => []⟩ }

abbrev Handler := EStateM Exit Session

/-- `snprintf (out, …)`. -/
def reply (msg : String) : Handler Unit := modify fun s => { s with out := s.out ++ [msg] }

/-- A message, and `return`. -/
def fail {α : Type} (msg : String) : Handler α := do
  reply msg
  throw .returned

/-- A message, and on. -/
def replyIf (c : Prop) [Decidable c] (msg : String) : Handler Unit :=
  if c then reply msg else pure ()

/-- Unless the condition holds, a message, and `return`. -/
def require (c : Prop) [Decidable c] (msg : String) : Handler Unit :=
  if c then pure () else fail msg

def ENOMEM : Int := 12

/-! ## Tokens -/

def token (ts : List Token) (k : Nat) : Handler Token :=
  match ts[k]? with
  | some t => pure t
  | none => throw (.fault .tokenRead)

def mismatch {α : Type} (ts : List Token) : Handler α := do
  let t ← token ts 0
  fail (msgArgMismatch t.text)

/-- `strcmp (tokens[k], w) == 0`. -/
def tokenIs (ts : List Token) (k : Nat) (w : String) : Handler Bool := do
  let t ← token ts k
  return t = word w

def keyword (ts : List Token) (k : Nat) (w : String) : Handler Unit := do
  let t ← token ts k
  require (t = word w) (msgArgNotFound w)

/-- `strcmp`s in a row, with one message for all of them. -/
def keywords (ts : List Token) (kws : List (Nat × String)) (name : String) : Handler Unit :=
  kws.forM fun kw => do
    let t ← token ts kw.1
    require (t = word kw.2) (msgArgNotFound name)

def number (read : List UInt8 → Except NumError Nat) (ts : List Token) (k : Nat)
    (name : String) : Handler Nat := do
  let t ← token ts k
  match read t with
  | .ok n => pure n
  | .error _ => fail (msgArgInvalid name)

def uint64 : List Token → Nat → String → Handler Nat := number parserReadUint64

def uint32 : List Token → Nat → String → Handler Nat := number parserReadUint32

def uint16 : List Token → Nat → String → Handler Nat := number parserReadUint16

/-! ## Objects -/

/-- An object by the name in a token. -/
def found (find : Obj → Name → Option Nat) (ts : List Token) (k : Nat) (msg : String) :
    Handler Nat := do
  let name ← token ts k
  let s ← get
  match find s.obj name with
  | some i => pure i
  | none => fail msg

def Obj.isBuilt (obj : Obj) (i : Nat) : Bool := obj.pipelineList[i]?.any Pipeline.ctl

/-- A pipeline that has been built. -/
def builtPipeline (ts : List Token) (k : Nat) : Handler Nat := do
  let i ← found pipelineFind ts k (msgArgInvalid "pipeline_name")
  let s ← get
  require (s.obj.isBuilt i = true) (msgArgInvalid "pipeline_name")
  return i

/-- A pipeline that has not been built yet. -/
def openPipeline (ts : List Token) (k : Nat) : Handler Nat := do
  let t ← token ts 0
  let i ← found pipelineFind ts k (msgArgInvalid t.text)
  let s ← get
  require (s.obj.isBuilt i = false) (msgArgInvalid t.text)
  return i

/-- A creation, with the message that it failed. -/
def create (f : Obj → Option Nat × Obj) (msg : String) : Handler Unit := do
  let s ← get
  modify fun s => { s with obj := (f s.obj).2 }
  require ((f s.obj).1 ≠ none) msg

/-! ## Streams -/

/-- `fopen`, with the message and the return of every caller when it fails. -/
def openFile (env : Env) (name : Token) (mode : FileMode) : Handler Stream := do
  let s ← get
  require (env.fopen name mode = true) (msgCannotOpen name)
  modify fun s => { s with streams := .file s.opened :: s.streams, opened := s.opened + 1 }
  return .file s.opened

/-- A stream is read or written. -/
def useStream (st : Stream) : Handler Unit := do
  let s ← get
  if st ∈ s.streams then pure () else throw (.fault .stream)

def fclose (st : Stream) : Handler Unit := do
  useStream st
  modify fun s => { s with streams := s.streams.erase st }

end P4Switch.Cmd
