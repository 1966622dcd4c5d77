import P4Switch.Lib.NamedList

/-! # The object store

Names are strings without NUL. An object is denoted by its place in its list, to which
entries are only ever added. What DPDK, the kernel and the allocator answer comes from
`Host`. -/
namespace P4Switch.Cmd
open P4Switch.Lib

abbrev Name := List UInt8

def NAME_SIZE : Nat := 64

def LINK_RXQ_RSS_MAX : Nat := 16

/-- What `strlcpy` keeps of a string in a buffer of `size` bytes. -/
def strlcpy (s : Name) (size : Nat) : Name := s.take (size - 1)

structure Mempool where
  name : Name
  bufferSize : Nat

structure Link where
  name : Name
  devName : Name
  portId : Nat
  nRxq : Nat
  nTxq : Nat

structure Ring where
  name : Name

structure Tap where
  name : Name
  fd : Nat

/-- `p` is the pipeline object of the library, `ctl` says whether it has been built. -/
structure Pipeline where
  name : Name
  p : Nat
  ctl : Bool

structure Obj where
  mempoolList : List Mempool
  linkList : List Link
  ringList : List Ring
  pipelineList : List Pipeline
  tapList : List Tap

def objInit : Obj := ⟨[], [], [], [], []⟩

def mempoolFind (obj : Obj) (name : Name) : Option Nat :=
  NamedList.find Mempool.name obj.mempoolList name

def linkFind (obj : Obj) (name : Name) : Option Nat := NamedList.find Link.name obj.linkList name

def ringFind (obj : Obj) (name : Name) : Option Nat := NamedList.find Ring.name obj.ringList name

def tapFind (obj : Obj) (name : Name) : Option Nat := NamedList.find Tap.name obj.tapList name

def pipelineFind (obj : Obj) (name : Name) : Option Nat :=
  NamedList.find Pipeline.name obj.pipelineList name

structure MempoolParams where
  bufferSize : Nat
  poolSize : Nat
  cacheSize : Nat
  cpuId : Nat

structure LinkParams where
  /-- `none` when the port is given by its id. -/
  devName : Option Name
  portId : Nat
  rxNQueues : Nat
  rxQueueSize : Nat
  mempoolName : Name
  /-- The `queue_id` entries. -/
  rss : Option (List Nat)
  txNQueues : Nat
  txQueueSize : Nat
  promiscuous : Bool

structure RingParams where
  size : Nat
  numaNode : Nat

structure DevInfo where
  retaSize : Nat
  maxRxQueues : Nat

/-- The answers to one creation: whether a call succeeds, or what it returns. -/
structure Host where
  calloc : Bool
  pktmbufPoolCreate : Name → MempoolParams → Bool
  portByName : Name → Option Nat
  isValidPort : Nat → Bool
  devInfoGet : Nat → Option DevInfo
  devConfigure : Nat → Bool
  promiscuousEnable : Nat → Bool
  rxQueueSetup : Nat → Nat → Bool
  txQueueSetup : Nat → Nat → Bool
  devStart : Nat → Bool
  rssSetup : Nat → Bool
  setLinkUp : Nat → Bool
  nameByPort : Nat → Name
  ringReserve : Name → RingParams → Bool
  openTun : Option Nat
  tunSetIff : Name → Bool
  pipelineConfig : Nat → Option Nat

/-- `sizeof(struct rte_mbuf) + RTE_PKTMBUF_HEADROOM`. -/
def BUFFER_SIZE_MIN : Nat := 128 + 128

def mempoolCreate (h : Host) (obj : Obj) (name : Name) (params : MempoolParams) :
    Option Nat × Obj :=
  if mempoolFind obj name = none ∧ BUFFER_SIZE_MIN ≤ params.bufferSize ∧ params.poolSize ≠ 0 ∧
      h.pktmbufPoolCreate name params = true ∧ h.calloc = true then
    (some obj.mempoolList.length,
      { obj with
        mempoolList := obj.mempoolList ++ [⟨strlcpy name NAME_SIZE, params.bufferSize⟩] })
  else (none, obj)

/-- `RTE_ETH_RSS_RETA_SIZE_512`. -/
def RETA_SIZE_512 : Nat := 512

/-- The RSS checks of `link_create`. -/
def rssValid (info : DevInfo) : Option (List Nat) → Bool
  | none => true
  | some queueId =>
    info.retaSize ≠ 0 && info.retaSize ≤ RETA_SIZE_512 && queueId.length ≠ 0 &&
      queueId.length < LINK_RXQ_RSS_MAX && queueId.all (· < info.maxRxQueues)

/-- The checks and the port setup of `link_create`, up to the node: the port. -/
def linkSetup (h : Host) (obj : Obj) (name : Name) (params : LinkParams) : Option Nat := do
  guard (linkFind obj name = none ∧ params.rxNQueues ≠ 0 ∧ params.rxQueueSize ≠ 0 ∧
    params.txNQueues ≠ 0 ∧ params.txQueueSize ≠ 0)
  let portId ← match params.devName with
    | some devName => h.portByName devName
    | none => if h.isValidPort params.portId then some params.portId else none
  let info ← h.devInfoGet portId
  guard (mempoolFind obj params.mempoolName ≠ none)
  guard (rssValid info params.rss = true)
  guard (h.devConfigure portId = true)
  guard (params.promiscuous = true → h.promiscuousEnable portId = true)
  guard ((List.range params.rxNQueues).all (h.rxQueueSetup portId) = true)
  guard ((List.range params.txNQueues).all (h.txQueueSetup portId) = true)
  guard (h.devStart portId = true)
  guard (params.rss.isSome = true → h.rssSetup portId = true)
  guard (h.setLinkUp portId = true)
  guard (h.calloc = true)
  return portId

def linkCreate (h : Host) (obj : Obj) (name : Name) (params : LinkParams) : Option Nat × Obj :=
  match linkSetup h obj name params with
  | none => (none, obj)
  | some portId =>
    (some obj.linkList.length,
      { obj with
        linkList := obj.linkList ++ [⟨strlcpy name NAME_SIZE, h.nameByPort portId, portId,
          params.rxNQueues, params.txNQueues⟩] })

/-- `rte_ring_create`: `RG_` and the name have to fit the 32 bytes of a memzone name. -/
def rteRingCreate (h : Host) (name : Name) (params : RingParams) : Bool :=
  3 + name.length < 32 && h.ringReserve name params

def ringCreate (h : Host) (obj : Obj) (name : Name) (params : RingParams) : Option Nat × Obj :=
  if ringFind obj name = none ∧ params.size ≠ 0 ∧ rteRingCreate h name params = true ∧
      h.calloc = true then
    (some obj.ringList.length,
      { obj with ringList := obj.ringList ++ [⟨strlcpy name NAME_SIZE⟩] })
  else (none, obj)

def IFNAMSIZ : Nat := 16

/-- The device of `tap_create`, up to the node: its descriptor. -/
def tapSetup (h : Host) (obj : Obj) (name : Name) : Option Nat := do
  guard (tapFind obj name = none)
  let fd ← h.openTun
  guard (h.tunSetIff (strlcpy name IFNAMSIZ) = true)
  guard (h.calloc = true)
  return fd

def tapCreate (h : Host) (obj : Obj) (name : Name) : Option Nat × Obj :=
  match tapSetup h obj name with
  | none => (none, obj)
  | some fd =>
    (some obj.tapList.length, { obj with tapList := obj.tapList ++ [⟨strlcpy name NAME_SIZE, fd⟩] })

/-- The resource of `pipeline_create`, up to the node. -/
def pipelineSetup (h : Host) (obj : Obj) (name : Name) (numaNode : Nat) : Option Nat := do
  guard (pipelineFind obj name = none)
  let p ← h.pipelineConfig numaNode
  guard (h.calloc = true)
  return p

def pipelineCreate (h : Host) (obj : Obj) (name : Name) (numaNode : Nat) : Option Nat × Obj :=
  match pipelineSetup h obj name numaNode with
  | none => (none, obj)
  | some p =>
    (some obj.pipelineList.length,
      { obj with pipelineList := obj.pipelineList ++ [⟨strlcpy name NAME_SIZE, p, false⟩] })

end P4Switch.Cmd
