import P4Switch.Lib.LinkedChain
import P4Switch.Lib.SlotArray
import P4Switch.Lib.Words

/-! # The exact-match table

`rte_swx_table_em.c`: a hash table of buckets of four keys, each bucket extended by a
linked list of further ones, with stacks of the free key slots and bucket extensions.
`tableLookup` is the lookup in three visits the pipeline uses, `tableLookupUnoptimized`
the plain one. -/
namespace P4Switch.Tables
open P4Switch.Lib.LinkedChain P4Switch.Lib.SlotArray P4Switch.Lib.Words

def EINVAL : Int := 22
def ENOSPC : Int := 28

/-! ## Hashing and comparing keys -/

/-- `crc32_u64_generic`. -/
def crc32U64 (crc value : UInt64) : UInt64 :=
  (List.range 64).foldl (fun crc _ => (crc >>> 1) ^^^ (0x82F63B78 &&& -(crc &&& 1)))
    ((crc &&& 0xFFFFFFFF) ^^^ value)

/-- The body of `hash` over the masked words `w i = k[i] & m[i]`. -/
def hashWords (w : Nat → UInt64) (keySize : Nat) (seed : UInt64) : UInt64 :=
  match keySize with
  | 8 => crc32U64 seed (w 0)
  | 16 => crc32U64 (w 0) seed ^^^ crc32U64 (w 0 >>> 32) (w 1)
  | 32 =>
    let crc0 := crc32U64 (w 0) seed
    let crc1 := crc32U64 (w 0 >>> 32) (w 1)
    let crc2 := crc32U64 (w 2) (w 3)
    let crc3 := w 2 >>> 32
    crc32U64 crc0 crc1 ^^^ crc32U64 crc2 crc3
  | 64 =>
    let crc0 := crc32U64 (w 0) seed
    let crc1 := crc32U64 (w 0 >>> 32) (w 1)
    let crc2 := crc32U64 (w 2) (w 3)
    let crc3 := crc32U64 (w 2 >>> 32) (w 4)
    let crc4 := crc32U64 (w 5) (w 6)
    let crc5 := crc32U64 (w 5 >>> 32) (w 7)
    crc32U64 crc0 ((crc1 <<< 32) ^^^ crc2) ^^^ crc32U64 crc3 ((crc4 <<< 32) ^^^ crc5)
  | _ => 0

def hash (key keyMask : Bytes) (keySize : Nat) (seed : UInt32) : UInt32 :=
  (hashWords (maskedWord key keyMask) keySize seed.toUInt64).toUInt32

/-- `keycpy`: the words of `dst` after the copy. -/
def keycpy (dst : Nat → UInt64) (src srcMask : Bytes) (nBytes : Nat) : Nat → UInt64 :=
  fun i => if i < nBytes / 8 then maskedWord src srcMask i else dst i

/-- `keycmp`: the unrolled comparisons and the loop for any other size. -/
def keycmp (a : Nat → UInt64) (b bMask : Bytes) (nBytes : Nat) : Bool :=
  let xor := fun i => a i ^^^ maskedWord b bMask i
  match nBytes with
  | 8 => xor 0 = 0
  | 16 => xor 0 ||| xor 1 = 0
  | 32 => (xor 0 ||| xor 1) ||| (xor 2 ||| xor 3) = 0
  | 64 =>
    ((xor 0 ||| xor 1) ||| (xor 2 ||| xor 3)) ||| ((xor 4 ||| xor 5) ||| (xor 6 ||| xor 7)) = 0
  | n => (List.range (n / 8)).all fun i => a i = maskedWord b bMask i

/-! ## The table -/

def KEYS_PER_BUCKET : Nat := 4

instance : NeZero KEYS_PER_BUCKET := ⟨by decide⟩

abbrev BktPos := Fin KEYS_PER_BUCKET

/-- `struct bucket_extension`; `next` is an index into `buckets_ext`. -/
structure BucketExtension where
  next : Option Nat
  sig : BktPos → UInt16
  keyId : BktPos → Nat

/-- A zeroed bucket. -/
def BucketExtension.zero : BucketExtension := ⟨none, fun _ => 0, fun _ => 0⟩

/-- A pointer into `buckets` or into `buckets_ext`. -/
inductive BktPtr where
  | bucket (i : Nat)
  | ext (i : Nat)
  deriving DecidableEq, Repr

inductive MatchType where
  | wildcard
  | lpm
  | exact
  deriving DecidableEq, Repr

/-- `struct rte_swx_table_params`. -/
structure TableParams where
  matchType : MatchType
  keySize : UInt32
  keyOffset : UInt32
  keyMask0 : Option Bytes
  actionDataSize : UInt32
  nKeysMax : UInt32

/-- `struct rte_swx_table_entry`. -/
structure TableEntry where
  key : Bytes
  keyMask : Option Bytes
  keyPriority : UInt32
  actionId : UInt64
  actionData : Option Bytes

/-- What `table_key_data` leads to: the action and its data. -/
structure KeyData where
  actionId : UInt64
  actionData : Bytes

/-- `struct table`. The stacks are lists, top first: their lengths are `key_stack_tos` and
`bkt_ext_stack_tos`. `keySz` and `dataSz` are the bytes allocated for `keys` and `data`; that
`keys` and `data` are read here by slot is right as long as the slots fit these. -/
structure Table where
  params : TableParams
  keySize : Nat
  keySizeShl : Nat
  dataSizeShl : Nat
  nBuckets : UInt32
  nBucketsExt : Nat
  keySz : UInt32
  dataSz : UInt32
  keyMask : Bytes
  buckets : BktPtr → BucketExtension
  keys : Nat → Nat → UInt64
  keyStack : List Nat
  bktExtStack : List Nat
  data : Nat → KeyData

/-- `bkt->next`. -/
def Table.next (t : Table) (bkt : BktPtr) : Option BktPtr := (t.buckets bkt).next.map BktPtr.ext

def Table.setBucket (t : Table) (bkt : BktPtr) (b : BucketExtension) : Table :=
  { t with buckets := Function.update t.buckets bkt b }

def bktIsEmpty (b : BucketExtension) : Bool := b.sig 0 = 0 && b.sig 1 = 0 && b.sig 2 = 0 && b.sig 3 = 0

def bktKeyIsEmpty (b : BucketExtension) (i : BktPos) : Bool := b.sig i = 0

/-- `bkt_keycmp`. -/
def Table.bktKeycmp (t : Table) (bkt : BktPtr) (inputKey : Bytes) (i : BktPos) (inputSig : UInt32) :
    Bool :=
  let b := t.buckets bkt
  if inputSig ≠ (b.sig i).toUInt32 then false
  else keycmp (t.keys (b.keyId i)) inputKey t.keyMask t.keySize

/-- The writes to the data of a key: the action and, if there are any, its arguments. -/
def KeyData.write (d : KeyData) (entry : TableEntry) (actionDataSize : UInt32) : KeyData :=
  { actionId := entry.actionId
    actionData := match entry.actionData with
      | some src => fun j => if j < actionDataSize.toNat then src j else d.actionData j
      | none => d.actionData }

/-- `bkt_key_install`. -/
def Table.bktKeyInstall (t : Table) (bkt : BktPtr) (input : TableEntry) (i : BktPos)
    (bktKeyId : Nat) (inputSig : UInt32) : Table :=
  let b := t.buckets bkt
  { t.setBucket bkt
      { b with
        sig := Function.update b.sig i inputSig.toUInt16
        keyId := Function.update b.keyId i bktKeyId } with
    keys := Function.update t.keys bktKeyId (keycpy (t.keys bktKeyId) input.key t.keyMask t.keySize)
    data := Function.update t.data bktKeyId
      ((t.data bktKeyId).write input t.params.actionDataSize) }

/-- `bkt_key_data_update`. -/
def Table.bktKeyDataUpdate (t : Table) (bkt : BktPtr) (input : TableEntry) (i : BktPos) : Table :=
  let bktKeyId := (t.buckets bkt).keyId i
  { t with
    data := Function.update t.data bktKeyId
      ((t.data bktKeyId).write input t.params.actionDataSize) }

/-! ## Creation -/

/-- `rte_combine64ms1b`. -/
def rteCombine64ms1b (v : UInt64) : UInt64 :=
  let v := v ||| v >>> 1
  let v := v ||| v >>> 2
  let v := v ||| v >>> 4
  let v := v ||| v >>> 8
  let v := v ||| v >>> 16
  v ||| v >>> 32

def rteAlign64pow2 (v : UInt64) : UInt64 := rteCombine64ms1b (v - 1) + 1

/-- The size of the stored keys. -/
def alignedKeySize (keySize : UInt32) : Nat :=
  let keySize := (rteAlign64pow2 keySize.toUInt64).toUInt32
  if keySize < 8 then 8 else keySize.toNat

/-- The size of an action id with its data. -/
def alignedDataSize (actionDataSize : UInt32) : UInt32 :=
  (rteAlign64pow2 (actionDataSize + 8).toUInt64).toUInt32

/-- `RTE_CACHE_LINE_ROUNDUP` of a 32-bit size. -/
def CL (size : UInt32) : UInt32 := 64 * ((size + 64 - 1) / 64)

/-- `__builtin_ctzl`. -/
def ctzl (v : Nat) : Nat := trailingZeros 64 v

/-- The bytes copied or set into `key_mask`. -/
def TableParams.mask (params : TableParams) (j : Nat) : UInt8 :=
  match params.keyMask0 with
  | none => 0xFF
  | some keyMask0 => keyMask0 j

/-- `__table_create` on memory that was allocated. The products of the sizes of `keys` and
`data` are of 32 bits; those of the other parts are of type `size_t`. -/
def tableCreateEmpty (params : TableParams) : Option Table :=
  if params.matchType ≠ .exact then none
  else if params.keySize = 0 then none
  else if 64 < params.keySize then none
  else if params.nKeysMax = 0 then none
  else
    let keySize := alignedKeySize params.keySize
    let dataSize := alignedDataSize params.actionDataSize
    let nBuckets := params.nKeysMax / UInt32.ofNat KEYS_PER_BUCKET
    let keyMask : Bytes := fun j => if j < params.keySize.toNat then params.mask j else 0
    some
      { params := { params with keyMask0 := some keyMask }
        keySize := keySize
        keySizeShl := ctzl keySize
        dataSizeShl := ctzl dataSize.toNat
        nBuckets := nBuckets
        nBucketsExt := nBuckets.toNat
        keySz := CL (params.nKeysMax * UInt32.ofNat keySize)
        dataSz := CL (params.nKeysMax * dataSize)
        keyMask := keyMask
        buckets := fun _ => BucketExtension.zero
        keys := fun _ _ => 0
        keyStack := List.range params.nKeysMax.toNat
        bktExtStack := List.range nBuckets.toNat
        data := fun _ => ⟨0, fun _ => 0⟩ }

/-! ## Searching a bucket -/

/-- The buckets a loop over `bkt = bkt->next` visits. -/
def Table.chain (t : Table) (bktId : Nat) : List BktPtr :=
  walk t.next (t.nBucketsExt + 1) (some (.bucket bktId))

/-- The nested loops over buckets and positions: the first position that satisfies `test`,
behind the bucket visited before. -/
def searchChain (test : BktPtr → BktPos → Bool) :
    Option BktPtr → List BktPtr → Option (Option BktPtr × BktPtr × BktPos)
  | _, [] => none
  | prev, bkt :: rest =>
    match (List.finRange KEYS_PER_BUCKET).find? (test bkt) with
    | some i => some (prev, bkt, i)
    | none => searchChain test (some bkt) rest

/-- `input_sig & (t->n_buckets - 1)`. -/
def Table.bktId (t : Table) (h : UInt32) : Nat := (h &&& (t.nBuckets - 1)).toNat

/-- `(input_sig >> 16) | 1`. -/
def inputSig (h : UInt32) : UInt32 := (h >>> 16) ||| 1

/-- The position of a key, with the bucket before. -/
def Table.findKey (t : Table) (key : Bytes) : Option (Option BktPtr × BktPtr × BktPos) :=
  let h := hash key t.keyMask t.keySize 0
  searchChain (fun bkt i => t.bktKeycmp bkt key i (inputSig h)) none (t.chain (t.bktId h))

/-! ## Operations -/

/-- `table_add`; the table and the status. -/
def tableAdd (t : Table) (entry : TableEntry) : Table × Int :=
  let h := hash entry.key t.keyMask t.keySize 0
  match t.findKey entry.key with
  | some (_, bkt, i) => (t.bktKeyDataUpdate bkt entry i, 0)
  | none =>
    match searchChain (fun bkt i => bktKeyIsEmpty (t.buckets bkt) i) none (t.chain (t.bktId h)) with
    | some (_, bkt, i) =>
      match t.keyStack with
      | [] => (t, -ENOSPC)
      | newBktKeyId :: keyStack =>
        ({ t with keyStack := keyStack }.bktKeyInstall bkt entry i newBktKeyId (inputSig h), 0)
    | none =>
      match t.bktExtStack, t.keyStack, (t.chain (t.bktId h)).getLast? with
      | newBktId :: bktExtStack, newBktKeyId :: keyStack, some bktPrev =>
        let t := { t with bktExtStack := bktExtStack, keyStack := keyStack }
        let t := t.setBucket (.ext newBktId) .zero
        let t := t.setBucket bktPrev { t.buckets bktPrev with next := some newBktId }
        (t.bktKeyInstall (.ext newBktId) entry 0 newBktKeyId (inputSig h), 0)
      | _, _, _ => (t, -ENOSPC)

/-- The key at a position freed. -/
def Table.keyFree (t : Table) (bkt : BktPtr) (i : BktPos) : Table :=
  let b := t.buckets bkt
  { t.setBucket bkt { b with sig := Function.update b.sig i 0 } with
    keyStack := b.keyId i :: t.keyStack }

/-- `table_del`. -/
def tableDel (t : Table) (entry : TableEntry) : Table × Int :=
  match t.findKey entry.key with
  | none => (t, 0)
  | some (bktPrev, bkt, i) =>
    let t := t.keyFree bkt i
    match bktPrev, bkt with
    | some bktPrev, .ext bktId =>
      if bktIsEmpty (t.buckets bkt) then
        let t := t.setBucket bktPrev { t.buckets bktPrev with next := (t.buckets bkt).next }
        ({ t with bktExtStack := bktId :: t.bktExtStack }, 0)
      else (t, 0)
    | _, _ => (t, 0)

/-- `&(*key)[t->params.key_offset]`. -/
def Table.inputKey (t : Table) (key : Bytes) : Bytes := fun j => key (t.params.keyOffset.toNat + j)

/-- `table_lookup_unoptimized`: the data on a hit. -/
def tableLookupUnoptimized (t : Table) (key : Bytes) : Option KeyData :=
  match t.findKey (t.inputKey key) with
  | some (_, bkt, i) => some (t.data ((t.buckets bkt).keyId i))
  | none => none

/-! ## The lookup in three visits -/

/-- `struct mailbox`. -/
structure Mailbox where
  bkt : BktPtr
  inputSig : UInt32
  bktKeyId : Nat
  sigMatch : UInt32
  sigMatchMany : UInt32
  state : Nat

def LUT_MATCH : UInt32 := 0xFFFE
def LUT_MATCH_MANY : UInt32 := 0xFEE8
def LUT_MATCH_POS : UInt32 := 0x12131210

/-- `mask0 | mask1 | mask2 | mask3`: the positions of the bucket with this signature. -/
def maskAll (b : BucketExtension) (inputSig : UInt32) : UInt32 :=
  let mask := fun (i : BktPos) (bit : UInt32) =>
    if inputSig ^^^ (b.sig i).toUInt32 = 0 then bit else 0
  (mask 0 (1 <<< (0 : UInt32)) ||| mask 1 (1 <<< (1 : UInt32))) ||| (mask 2 (1 <<< (2 : UInt32)) ||| mask 3 (1 <<< (3 : UInt32)))

def sigMatch (mask : UInt32) : UInt32 := (LUT_MATCH >>> mask) &&& 1

def sigMatchMany (mask : UInt32) : UInt32 := (LUT_MATCH_MANY >>> mask) &&& 1

def sigMatchPos (mask : UInt32) : BktPos :=
  Fin.ofNat KEYS_PER_BUCKET ((LUT_MATCH_POS >>> (mask <<< 1)) &&& 3).toNat

/-- `table_lookup`: a return of 0 is `none`, a return of 1 comes with the data on a hit. -/
def tableLookup (t : Table) (m : Mailbox) (key : Bytes) : Mailbox × Option (Option KeyData) :=
  match m.state with
  | 0 =>
    let h := hash (t.inputKey key) t.keyMask t.keySize 0
    ({ m with bkt := .bucket (t.bktId h), inputSig := inputSig h, state := 1 }, none)
  | 1 =>
    let b := t.buckets m.bkt
    let mask := maskAll b m.inputSig
    ({ m with
        bktKeyId := b.keyId (sigMatchPos mask)
        sigMatch := sigMatch mask
        sigMatchMany := sigMatchMany mask
        state := 2 }, none)
  | 2 =>
    let lkpHit := keycmp (t.keys m.bktKeyId) (t.inputKey key) t.keyMask t.keySize &&
      m.sigMatch = 1
    let m' := { m with state := 0 }
    if lkpHit then (m', some (some (t.data m.bktKeyId)))
    else if m.sigMatchMany ≠ 0 ∨ ((t.buckets m.bkt).next).isSome then
      (m', some (tableLookupUnoptimized t key))
    else (m', some none)
  | _ => (m, none)

end P4Switch.Tables
