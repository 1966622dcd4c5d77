import P4Switch.Cmd.Session

/-! # Commands on objects

The handlers that create objects, set up the ports of a pipeline and build it. -/
namespace P4Switch.Cmd

def cmdMempool (env : Env) (ts : List Token) : Handler Unit :=
  if ts.length ≠ 10 then mismatch ts
  else do
    let name ← token ts 1
    keyword ts 2 "buffer"
    let bufferSize ← uint32 ts 3 "buffer_size"
    keyword ts 4 "pool"
    let poolSize ← uint32 ts 5 "pool_size"
    keyword ts 6 "cache"
    let cacheSize ← uint32 ts 7 "cache_size"
    keyword ts 8 "cpu"
    let cpuId ← uint32 ts 9 "cpu_id"
    let cmd ← token ts 0
    create (fun obj => mempoolCreate env.host obj name ⟨bufferSize, poolSize, cacheSize, cpuId⟩)
      (msgCmdFail cmd.text)

/-! ## Links -/

/-- The device, by name or by port id. -/
def linkDevice (ts : List Token) : Handler (Option Name × Nat) := do
  let dev ← tokenIs ts 2 "dev"
  if dev = true then do
    let devName ← token ts 3
    return (some devName, 0)
  else do
    let port ← tokenIs ts 2 "port"
    if port = true then do
      let portId ← uint16 ts 3 "port_id"
      return (none, portId)
    else fail (msgArgNotFound "dev or port")

def onOff (ts : List Token) (k : Nat) : Handler Bool := do
  let on ← tokenIs ts k "on"
  if on = true then return true
  else do
    let off ← tokenIs ts k "off"
    if off = true then return false
    else fail (msgArgNotFound "on or off")

/-- The loop over the queue ids; `left` tokens are left, `queueId` is what has been stored. -/
def rssLoop (ts : List Token) : Nat → List Nat → Handler (List Nat)
  | 0, queueId => return queueId
  | left + 1, queueId => do
    let q ← uint32 ts (ts.length - (left + 1)) "queue_id"
    if queueId.length < LINK_RXQ_RSS_MAX then rssLoop ts left (queueId ++ [q])
    else throw (.fault .rssWrite)

def linkRss (ts : List Token) : Handler (Option (List Nat)) :=
  if 13 < ts.length then do
    keyword ts 13 "rss"
    let queueId ← rssLoop ts (ts.length - 14) []
    return some queueId
  else return none

def cmdLink (env : Env) (ts : List Token) : Handler Unit :=
  if ts.length < 13 ∨ 14 + LINK_RXQ_RSS_MAX < ts.length then mismatch ts
  else do
    let name ← token ts 1
    let dev ← linkDevice ts
    keyword ts 4 "rxq"
    let rxNQueues ← uint32 ts 5 "n_queues"
    let rxQueueSize ← uint32 ts 6 "queue_size"
    let mempoolName ← token ts 7
    keyword ts 8 "txq"
    let txNQueues ← uint32 ts 9 "n_queues"
    let txQueueSize ← uint32 ts 10 "queue_size"
    keyword ts 11 "promiscuous"
    let promiscuous ← onOff ts 12
    let rss ← linkRss ts
    let cmd ← token ts 0
    create (fun obj => linkCreate env.host obj name
        ⟨dev.1, dev.2, rxNQueues, rxQueueSize, mempoolName, rss, txNQueues, txQueueSize,
          promiscuous⟩)
      (msgCmdFail cmd.text)

def printLinkInfo (env : Env) (link : Link) : String :=
  let name := Token.text link.name
  let mac := env.status (.macaddrGet link.portId)
  let ret := env.status (.ethLinkGet link.portId)
  let eth := env.ethState link.portId
  if mac ≠ 0 then "\n" ++ name ++ ": MAC address get failed: " ++ env.strerror (-mac)
  else if ret < 0 then "\n" ++ name ++ ": link get failed: " ++ env.strerror (-ret)
  else
    "\n" ++ name ++ ": flags=<" ++ (if eth.up then "UP" else "DOWN") ++ "> mtu " ++
      toString eth.mtu ++ "\n\tether " ++ eth.etherAddr ++ " rxqueues " ++ toString link.nRxq ++
      " txqueues " ++ toString link.nTxq ++ "\n\tport# " ++ toString link.portId ++ "  speed " ++
      eth.speed ++ "\n\tRX packets " ++ toString eth.ipackets ++ "  bytes " ++
      toString eth.ibytes ++ "\n\tRX errors " ++ toString eth.ierrors ++ "  missed " ++
      toString eth.imissed ++ "  no-mbuf " ++ toString eth.rxNombuf ++ "\n\tTX packets " ++
      toString eth.opackets ++ "  bytes " ++ toString eth.obytes ++ "\n\tTX errors " ++
      toString eth.oerrors ++ "\n"

def cmdLinkShow (env : Env) (ts : List Token) : Handler Unit :=
  if ts.length ≠ 2 ∧ ts.length ≠ 3 then mismatch ts
  else if ts.length = 2 then do
    let s ← get
    s.obj.linkList.forM fun link => reply (printLinkInfo env link)
  else do
    let i ← found linkFind ts 2 (msgArgInvalid "Link does not exist")
    let s ← get
    s.obj.linkList[i]?.toList.forM fun link => reply (printLinkInfo env link)

/-! ## Rings, taps, pipelines -/

def cmdRing (env : Env) (ts : List Token) : Handler Unit :=
  if ts.length ≠ 6 then mismatch ts
  else do
    let name ← token ts 1
    keyword ts 2 "size"
    let size ← uint32 ts 3 "size"
    keyword ts 4 "numa"
    let numaNode ← uint32 ts 5 "numa_node"
    let cmd ← token ts 0
    create (fun obj => ringCreate env.host obj name ⟨size, numaNode⟩) (msgCmdFail cmd.text)

def cmdTap (env : Env) (ts : List Token) : Handler Unit :=
  if ts.length < 2 then mismatch ts
  else do
    let name ← token ts 1
    let cmd ← token ts 0
    create (fun obj => tapCreate env.host obj name) (msgCmdFail cmd.text)

/-- The object of a pipeline that is created, which has no ports. -/
def newObject (env : Env) (name : Name) (numaNode : Nat) : Handler Unit :=
  modify fun s =>
    match pipelineSetup env.host s.obj name numaNode with
    | none => s
    | some p => { s with swx := Function.update s.swx p (some ⟨fun _ => []⟩) }

def cmdPipelineCreate (env : Env) (ts : List Token) : Handler Unit :=
  if ts.length ≠ 4 then mismatch ts
  else do
    let name ← token ts 1
    let numaNode ← uint32 ts 3 "numa_node"
    newObject env name numaNode
    create (fun obj => pipelineCreate env.host obj name numaNode) "pipeline create error."

/-! ## Ports -/

/-- The pipeline object behind a pipeline, if it is live. -/
def Session.object (s : Session) (i : Nat) : Option Swx :=
  s.obj.pipelineList[i]?.bind fun p => s.swx p.p

def Session.setObject (s : Session) (i : Nat) (x : Option Swx) : Session :=
  match s.obj.pipelineList[i]? with
  | none => s
  | some p => { s with swx := Function.update s.swx p.p x }

@[simp] theorem Session.setObject_streams (s : Session) (i : Nat) (x : Option Swx) :
    (s.setObject i x).streams = s.streams := by
  unfold Session.setObject
  cases s.obj.pipelineList[i]? <;> rfl

@[simp] theorem Session.setObject_out (s : Session) (i : Nat) (x : Option Swx) :
    (s.setObject i x).out = s.out := by
  unfold Session.setObject
  cases s.obj.pipelineList[i]? <;> rfl

@[simp] theorem Session.setObject_obj (s : Session) (i : Nat) (x : Option Swx) :
    (s.setObject i x).obj = s.obj := by
  unfold Session.setObject
  cases s.obj.pipelineList[i]? <;> rfl

theorem Session.object_setObject {s : Session} {i : Nat} {x : Swx} (h : s.object i = some x)
    (y : Option Swx) : (s.setObject i y).object i = y := by
  unfold Session.object at h ⊢
  rw [Session.setObject_obj]
  unfold Session.setObject
  cases hp : s.obj.pipelineList[i]? with
  | none =>
    rw [hp] at h
    cases h
  | some p => exact Function.update_self ..

def ENODEV : Int := 19

/-- `rte_swx_pipeline_port_in_config` and `_out_config`. -/
def portConfig (env : Env) (dir : Dir) (i portId : Nat) (params : PortParams) : Handler Int := do
  let s ← get
  match s.object i with
  | none => throw (.fault .freed)
  | some x =>
    if portId ∈ (x.ports dir).map Prod.fst then return -EINVAL
    else if env.portCreate params = false then return -ENODEV
    else if env.host.calloc = false then return -ENOMEM
    else do
      set (s.setObject i
        (some ⟨Function.update x.ports dir (x.ports dir ++ [(portId, params)])⟩))
      return 0

/-- `link <link_name> rxq|txq <queue_id> bsz <burst_size>`; the number is the new `t0`. -/
def portLink (ts : List Token) (context queue : String) : Handler (Nat × PortParams) :=
  if ts.length < 11 then fail (msgArgMismatch context)
  else do
    let link ← found linkFind ts 6 (msgArgInvalid "link_name")
    let s ← get
    keyword ts 7 queue
    let queueId ← uint16 ts 8 "queue_id"
    keyword ts 9 "bsz"
    let burstSize ← uint32 ts 10 "burst_size"
    return (11, .ethdev (s.obj.linkList[link]?.elim [] Link.devName) queueId burstSize)

/-- `ring <ring_name> bsz <burst_size>`. -/
def portRing (ts : List Token) (context : String) : Handler (Nat × PortParams) :=
  if ts.length < 9 then fail (msgArgMismatch context)
  else do
    let ring ← found ringFind ts 6 (msgArgInvalid "ring_name")
    let s ← get
    keyword ts 7 "bsz"
    let burstSize ← uint32 ts 8 "burst_size"
    return (9, .ring (s.obj.ringList[ring]?.elim [] Ring.name) burstSize)

/-- `source <mempool_name> <file_name> loop <n_loops>`. -/
def portSource (ts : List Token) : Handler (Nat × PortParams) :=
  if ts.length < 10 then fail (msgArgMismatch "pipeline port in source")
  else do
    let pool ← found mempoolFind ts 6 (msgArgInvalid "mempool_name")
    let fileName ← token ts 7
    keyword ts 8 "loop"
    let nLoops ← uint64 ts 9 "n_loops"
    return (10, .source pool fileName nLoops)

/-- `tap <tap_name> mempool <mempool_name> mtu <mtu> bsz <burst_size>`. -/
def portTapIn (ts : List Token) : Handler (Nat × PortParams) :=
  if ts.length < 13 then fail (msgArgMismatch "pipeline port in tap")
  else do
    let tap ← found tapFind ts 6 (msgArgInvalid "tap_name")
    keyword ts 7 "mempool"
    let pool ← found mempoolFind ts 8 (msgArgInvalid "mempool_name")
    let s ← get
    keyword ts 9 "mtu"
    let mtu ← uint32 ts 10 "mtu"
    keyword ts 11 "bsz"
    let burstSize ← uint32 ts 12 "burst_size"
    return (13, .fdReader (s.obj.tapList[tap]?.elim 0 Tap.fd) pool mtu burstSize)

/-- `tap <tap_name> bsz <burst_size>`. -/
def portTapOut (ts : List Token) : Handler (Nat × PortParams) :=
  if ts.length < 9 then fail (msgArgMismatch "pipeline port out tap")
  else do
    let tap ← found tapFind ts 6 (msgArgInvalid "tap_name")
    let s ← get
    keyword ts 7 "bsz"
    let burstSize ← uint32 ts 8 "burst_size"
    return (9, .fdWriter (s.obj.tapList[tap]?.elim 0 Tap.fd) burstSize)

/-- `sink <file_name> | none`: the branch that does not look at the number of tokens. -/
def portSink (ts : List Token) : Handler (Nat × PortParams) := do
  let isNone ← tokenIs ts 6 "none"
  if isNone = true then return (7, .sink none)
  else do
    let fileName ← token ts 6
    return (7, .sink (some fileName))

/-- The chain of branches on `tokens[5]`. -/
def portBranches (ts : List Token) :
    List (String × Handler (Nat × PortParams)) → Handler (Nat × PortParams)
  | [] => do
    let cmd ← token ts 0
    fail (msgArgInvalid cmd.text)
  | (word, branch) :: rest => do
    let taken ← tokenIs ts 5 word
    if taken = true then branch else portBranches ts rest

def portInBranches (ts : List Token) : List (String × Handler (Nat × PortParams)) :=
  [("link", portLink ts "pipeline port in link" "rxq"),
    ("ring", portRing ts "pipeline port in ring"),
    ("source", portSource ts),
    ("tap", portTapIn ts)]

def portOutBranches (ts : List Token) : List (String × Handler (Nat × PortParams)) :=
  [("link", portLink ts "pipeline port out link" "txq"),
    ("ring", portRing ts "pipeline port out link"),
    ("sink", portSink ts),
    ("tap", portTapOut ts)]

/-- `cmd_pipeline_port_in` and `_out`: the port is configured before the number of tokens
is compared with what the branch has used. -/
def portCommand (env : Env) (ts : List Token) (dir : Dir) (word : String)
    (branches : List (String × Handler (Nat × PortParams))) (msg : String) : Handler Unit :=
  if ts.length < 6 then mismatch ts
  else do
    let p ← openPipeline ts 1
    keyword ts 2 "port"
    keyword ts 3 word
    let portId ← uint32 ts 4 "port_id"
    let t0 ← portBranches ts branches
    let status ← portConfig env dir p portId t0.2
    require (status = 0) msg
    if ts.length ≠ t0.1 then mismatch ts else return

def cmdPipelinePortIn (env : Env) (ts : List Token) : Handler Unit :=
  portCommand env ts .input "in" (portInBranches ts) "port in error."

def cmdPipelinePortOut (env : Env) (ts : List Token) : Handler Unit :=
  portCommand env ts .output "out" (portOutBranches ts) "port out error."

/-! ## Building -/

/-- `rte_swx_pipeline_build_from_spec`, which changes nothing when it fails. -/
def buildFromSpec (env : Env) (i : Nat) (name : Token) (spec : Stream) : Handler Int := do
  useStream spec
  let s ← get
  match s.object i with
  | none => throw (.fault .freed)
  | some x =>
    if env.status (.buildFromSpec i name) = 0 then do
      set (s.setObject i (some (env.built x)))
      return 0
    else return env.status (.buildFromSpec i name)

def setCtl (i : Nat) : Handler Unit :=
  modify fun s =>
    { s with obj := { s.obj with
        pipelineList := s.obj.pipelineList.modify i fun p => { p with ctl := true } } }

/-- `rte_swx_pipeline_free`. -/
def pipelineFree (i : Nat) : Handler Unit := modify fun s => s.setObject i none

def cmdPipelineBuild (env : Env) (ts : List Token) : Handler Unit :=
  if ts.length ≠ 4 then mismatch ts
  else do
    let p ← openPipeline ts 1
    let name ← token ts 3
    let spec ← openFile env name .r
    let status ← buildFromSpec env p name spec
    fclose spec
    require (status = 0) ("Error " ++ toString status ++ " at line " ++
      toString env.specError.1 ++ ": " ++ env.specError.2 ++ "\n.")
    if env.ctlCreate p = true then setCtl p
    else do
      reply "Pipeline control create failed."
      pipelineFree p

end P4Switch.Cmd
