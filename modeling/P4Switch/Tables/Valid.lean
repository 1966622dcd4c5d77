import P4Switch.Lib.BucketMap
import P4Switch.Tables.Simulation
import P4Switch.Tables.Creation

/-! # Valid tables

What a table shows without its links, and what creating one, adding to it, deleting from it
and searching it do to that. -/
namespace P4Switch.Tables
open P4Switch.Lib.LinkedChain P4Switch.Lib.Words P4Switch.Lib.Partition P4Switch.Lib.BucketChains

variable {t t' : Table} {exts : Nat → List Nat} {p : TableParams}

/-- The layout, read off the table by the loops themselves. -/
def Table.store (t : Table) : TableLayout where
  chains := fun b => if b < t.nBuckets.toNat then (t.chain b).map t.view else [fun _ => none]
  freeSlots := t.keyStack.length
  freeExts := t.bktExtStack.length

theorem Inv.store_eq (hi : Inv t exts) : t.store = t.layout exts := by
  unfold Table.store Table.layout
  congr 1
  funext b
  by_cases hb : b < t.nBuckets.toNat
  · rw [if_pos hb, if_pos hb, hi.linked.chain_eq hb]
  · rw [if_neg hb, if_neg hb]

structure Valid (t : Table) : Prop where
  linked : ∃ exts, Inv t exts
  good : Good t.home t.nBuckets.toNat t.params.nKeysMax.toNat t.nBucketsExt t.store
  storage : Storage t

/-- The fields no operation writes. -/
structure SameConfig (t t' : Table) : Prop where
  params : t'.params = t.params
  keySize : t'.keySize = t.keySize
  keySizeShl : t'.keySizeShl = t.keySizeShl
  dataSizeShl : t'.dataSizeShl = t.dataSizeShl
  nBuckets : t'.nBuckets = t.nBuckets
  nBucketsExt : t'.nBucketsExt = t.nBucketsExt
  keySz : t'.keySz = t.keySz
  dataSz : t'.dataSz = t.dataSz
  keyMask : t'.keyMask = t.keyMask

theorem SameConfig.trans {t'' : Table} (h : SameConfig t t') (h' : SameConfig t' t'') :
    SameConfig t t'' where
  params := h'.params.trans h.params
  keySize := h'.keySize.trans h.keySize
  keySizeShl := h'.keySizeShl.trans h.keySizeShl
  dataSizeShl := h'.dataSizeShl.trans h.dataSizeShl
  nBuckets := h'.nBuckets.trans h.nBuckets
  nBucketsExt := h'.nBucketsExt.trans h.nBucketsExt
  keySz := h'.keySz.trans h.keySz
  dataSz := h'.dataSz.trans h.dataSz
  keyMask := h'.keyMask.trans h.keyMask

/-- Buckets and stacks are not part of the configuration. -/
theorem sameConfig_with (t : Table) (buckets : BktPtr → BucketExtension)
    (keyStack bktExtStack : List Nat) :
    SameConfig t { t with buckets := buckets, keyStack := keyStack, bktExtStack := bktExtStack } :=
  ⟨rfl, rfl, rfl, rfl, rfl, rfl, rfl, rfl, rfl⟩

theorem bktKeyInstall_config (t : Table) (bkt : BktPtr) (e : TableEntry) (i : BktPos) (id : Nat)
    (sig : UInt32) : SameConfig t (t.bktKeyInstall bkt e i id sig) :=
  ⟨rfl, rfl, rfl, rfl, rfl, rfl, rfl, rfl, rfl⟩

theorem bktKeyDataUpdate_config (t : Table) (bkt : BktPtr) (e : TableEntry) (i : BktPos) :
    SameConfig t (t.bktKeyDataUpdate bkt e i) :=
  ⟨rfl, rfl, rfl, rfl, rfl, rfl, rfl, rfl, rfl⟩

theorem tableAdd_config (t : Table) (e : TableEntry) : SameConfig t (tableAdd t e).1 := by
  unfold tableAdd
  dsimp only
  split
  · exact bktKeyDataUpdate_config t _ e _
  · split
    · split
      · exact sameConfig_with t _ _ _
      · exact (sameConfig_with t _ _ _).trans (bktKeyInstall_config _ _ e _ _ _)
    · split
      · exact (sameConfig_with t _ _ _).trans (bktKeyInstall_config _ _ e _ _ _)
      · exact sameConfig_with t _ _ _

theorem tableDel_config (t : Table) (e : TableEntry) : SameConfig t (tableDel t e).1 := by
  unfold tableDel
  split
  · exact sameConfig_with t _ _ _
  · dsimp only
    split
    · split
      · exact sameConfig_with t _ _ _
      · exact sameConfig_with t _ _ _
    · exact sameConfig_with t _ _ _

theorem SameConfig.home (h : SameConfig t t') : t'.home = t.home := by
  funext ws
  unfold Table.home Table.bktId Table.hashKey
  rw [h.keySize, h.nBuckets]

theorem SameConfig.maskedKey (h : SameConfig t t') : t'.maskedKey = t.maskedKey := by
  funext key
  unfold Table.maskedKey
  rw [h.keySize, h.keyMask]

theorem SameConfig.storage (h : SameConfig t t') (hs : Storage t) : Storage t' := by
  constructor
  case keys =>
    rw [h.params, h.keySize, h.keySizeShl, h.keySz]
    exact hs.keys
  case data =>
    rw [h.params, h.dataSizeShl, h.dataSz]
    exact hs.data

theorem SameConfig.config (h : SameConfig t t') (hc : Config p t) : Config p t' := by
  constructor
  case nKeysMax => rw [h.params, hc.nKeysMax]
  case keyOffset => rw [h.params, hc.keyOffset]
  case actionDataSize => rw [h.params, hc.actionDataSize]
  case keySize => rw [h.keySize, hc.keySize]
  case keySizeShl => rw [h.keySizeShl, hc.keySizeShl]
  case dataSizeShl => rw [h.dataSizeShl, hc.dataSizeShl]
  case keySz => rw [h.keySz, hc.keySz]
  case dataSz => rw [h.dataSz, hc.dataSz]
  case keyMask => rw [h.keyMask, hc.keyMask]
  case nBuckets => rw [h.nBuckets, hc.nBuckets]
  case nBucketsExt => rw [h.nBucketsExt, hc.nBucketsExt]
  case keySize_pos => exact hc.keySize_pos
  case keySize_le => exact hc.keySize_le

/-! ## Creation -/

theorem create_inv (h : tableCreateEmpty p = some t) (hs : p.Sized) :
    Inv t fun _ => [] := by
  have hc := create_config h
  obtain ⟨hb, hks, hxs⟩ := create_empty h
  constructor
  case keySize =>
    rw [hc.keySize]
    exact (alignedKeySize_spec hc.keySize_pos hc.keySize_le).1
  case pos =>
    rw [hc.nBuckets, UInt32.toNat_div]
    exact Nat.div_pos hs.bucket (by decide)
  case linked =>
    constructor
    · intro b _
      simp [chainOf, Chain, Table.next, hb, BucketExtension.zero]
    · have hnil : (List.range t.nBuckets.toNat).flatMap (fun _ => ([] : List Nat)) = [] :=
        List.flatMap_eq_nil_iff.mpr fun _ _ => rfl
      rw [hnil, hxs, hc.nBucketsExt, List.nil_append]
  case stored =>
    constructor
    · have hids : (List.range t.nBuckets.toNat).flatMap
          (fun b => t.ids (chainOf (fun _ => []) b)) = [] := by
        refine List.flatMap_eq_nil_iff.mpr fun b _ => ?_
        simp [Table.ids, chainOf, hb, liveIn_zero]
      rw [hids, hks, hc.nKeysMax, List.nil_append]
    · intro b _ bkt _ i hi
      simp [hb, BucketExtension.zero] at hi

theorem create_store (h : tableCreateEmpty p = some t) (hs : p.Sized) :
    t.store = ⟨fun _ => [fun _ => none], p.nKeysMax.toNat, (p.nKeysMax / 4).toNat⟩ := by
  obtain ⟨hb, hks, hxs⟩ := create_empty h
  rw [(create_inv h hs).store_eq]
  unfold Table.layout
  rw [hks, hxs, List.length_range, List.length_range]
  congr 1
  funext b
  have hview : t.view (.bucket b) = fun _ => none := by
    funext i
    simp [Table.view, hb, BucketExtension.zero]
  simp [chainOf, hview]

theorem create_valid (h : tableCreateEmpty p = some t) (hs : p.Sized) : Valid t := by
  have hc := create_config h
  refine ⟨⟨_, create_inv h hs⟩, ?_, hc.storage hs⟩
  rw [create_store h hs, hc.nKeysMax, hc.nBucketsExt]
  exact Good.empty _ _ _ _

/-! ## Operations -/

namespace Valid
variable (hv : Valid t)
include hv

theorem home_lt (ws : List UInt64) : t.home ws < t.nBuckets.toNat := by
  obtain ⟨exts, hi⟩ := hv.linked
  exact hi.home_lt ws

/-- `table_add` on a valid table. -/
theorem add (e : TableEntry) : Valid (tableAdd t e).1 ∧ ∃ leftover,
    (∀ v, t.store.get t.home (t.maskedKey e.key) = some v → leftover = v.2) ∧
    (tableAdd t e).2 = (if (t.store.put t.home (t.maskedKey e.key)
      (e.value t.params.actionDataSize leftover)).2 then 0 else -ENOSPC) ∧
    (tableAdd t e).1.store = (t.store.put t.home (t.maskedKey e.key)
      (e.value t.params.actionDataSize leftover)).1 := by
  obtain ⟨exts, hi⟩ := hv.linked
  obtain ⟨leftover, exts', hleft, hstatus, hi', hlay⟩ := add_layout hi e
  have hcfg := tableAdd_config t e
  have hgood := (put_effect hv.good hv.home_lt (t.maskedKey e.key)
    (e.value t.params.actionDataSize leftover)).1
  rw [← hi.store_eq, ← hi'.store_eq] at hlay
  rw [← hi.store_eq] at hleft hstatus
  rw [← hlay] at hgood
  refine ⟨⟨⟨exts', hi'⟩, ?_, hcfg.storage hv.storage⟩, leftover, hleft, hstatus, hlay⟩
  rwa [hcfg.home, hcfg.params, hcfg.nBuckets, hcfg.nBucketsExt]

/-- `table_del` on a valid table. -/
theorem del (e : TableEntry) : Valid (tableDel t e).1 ∧ (tableDel t e).2 = 0 ∧
    (tableDel t e).1.store = t.store.remove t.home (t.maskedKey e.key) := by
  obtain ⟨exts, hi⟩ := hv.linked
  obtain ⟨hstatus, exts', hi', hlay⟩ := del_layout hi e
  have hcfg := tableDel_config t e
  have hgood := (remove_effect hv.good hv.home_lt (t.maskedKey e.key)).1
  rw [← hi.store_eq, ← hi'.store_eq] at hlay
  rw [← hlay] at hgood
  refine ⟨⟨⟨exts', hi'⟩, ?_, hcfg.storage hv.storage⟩, hstatus, hlay⟩
  rwa [hcfg.home, hcfg.params, hcfg.nBuckets, hcfg.nBucketsExt]

theorem lookup (key : Bytes) :
    (tableLookupUnoptimized t key).map (KeyData.value · t.params.actionDataSize) =
      t.store.get t.home (t.maskedKey (t.inputKey key)) := by
  obtain ⟨exts, hi⟩ := hv.linked
  rw [lookup_layout hi, hi.store_eq]

end Valid

/-! ## Which keys are the same -/

/-- Keys that agree on the bytes the mask selects. -/
def SameKey (p : TableParams) (a b : Bytes) : Prop :=
  ∀ j < p.keySize.toNat, a j &&& p.mask j = b j &&& p.mask j

instance (p : TableParams) (a b : Bytes) : Decidable (SameKey p a b) :=
  inferInstanceAs (Decidable (∀ j < _, _))

theorem maskedKey_eq (hc : Config p t) (a b : Bytes) :
    t.maskedKey a = t.maskedKey b ↔ SameKey p a b := by
  obtain ⟨hsize, hle⟩ := alignedKeySize_spec hc.keySize_pos hc.keySize_le
  have hmul : 8 * (t.keySize / 8) = alignedKeySize p.keySize := by
    rw [hc.keySize]
    rcases hsize with h | h | h | h <;> rw [h]
  unfold Table.maskedKey SameKey
  rw [List.map_inj_left]
  simp only [List.mem_range]
  rw [maskedWords_inj, hmul, hc.keyMask]
  constructor
  · intro h j hj
    have := h j (by omega)
    simpa only [if_pos hj] using this
  · intro h j _
    dsimp only
    by_cases hj : j < p.keySize.toNat
    · rw [if_pos hj]
      exact h j hj
    · rw [if_neg hj, UInt8.and_zero, UInt8.and_zero]

/-! ## In terms of the parameters -/

/-- The masked words of a key. -/
def TableParams.words (p : TableParams) (key : Bytes) : List UInt64 :=
  (List.range (alignedKeySize p.keySize / 8)).map
    (maskedWord key fun j => if j < p.keySize.toNat then p.mask j else 0)

/-- The bucket of a key. -/
def TableParams.home (p : TableParams) (ws : List UInt64) : Nat :=
  ((hashWords (fun i => ws[i]?.getD 0) (alignedKeySize p.keySize) 0).toUInt32 &&&
    (p.nKeysMax / 4 - 1)).toNat

def TableParams.entryOf (p : TableParams) (e : TableEntry) : List UInt64 × Value :=
  (p.words e.key, e.value p.actionDataSize [])

theorem Config.maskedKey (hc : Config p t) : t.maskedKey = p.words := by
  funext key
  unfold Table.maskedKey TableParams.words
  rw [hc.keySize, hc.keyMask]

theorem Config.home (hc : Config p t) : t.home = p.home := by
  funext ws
  unfold Table.home Table.bktId Table.hashKey TableParams.home
  rw [hc.keySize, hc.nBuckets]

/-- A valid table with these parameters. -/
structure IsTable (p : TableParams) (t : Table) : Prop where
  valid : Valid t
  config : Config p t

namespace IsTable
variable (ht : IsTable p t)
include ht

theorem home_lt (ws : List UInt64) : p.home ws < (p.nKeysMax / 4).toNat := by
  have h := ht.valid.home_lt ws
  rwa [ht.config.home, ht.config.nBuckets] at h

theorem good : Good p.home (p.nKeysMax / 4).toNat p.nKeysMax.toNat (p.nKeysMax / 4).toNat
    t.store := by
  have h := ht.valid.good
  rwa [ht.config.home, ht.config.nBuckets, ht.config.nKeysMax, ht.config.nBucketsExt] at h

/-- Adding an entry that comes with its data. -/
theorem add {e : TableEntry} (hd : e.actionData ≠ none) :
    IsTable p (tableAdd t e).1 ∧
      (tableAdd t e).2 = (if (t.store.put p.home (p.entryOf e).1 (p.entryOf e).2).2 then 0
        else -ENOSPC) ∧
      (tableAdd t e).1.store = (t.store.put p.home (p.entryOf e).1 (p.entryOf e).2).1 := by
  obtain ⟨hv, leftover, -, hstatus, hstore⟩ := ht.valid.add e
  have hvalue : e.value t.params.actionDataSize leftover = e.value p.actionDataSize [] := by
    obtain ⟨src, hsrc⟩ := Option.ne_none_iff_exists'.mp hd
    rw [ht.config.actionDataSize, TableEntry.value, TableEntry.value, hsrc]
  rw [hvalue, ht.config.home, ht.config.maskedKey] at hstatus hstore
  exact ⟨⟨hv, (tableAdd_config t e).config ht.config⟩, hstatus, hstore⟩

theorem del (e : TableEntry) :
    IsTable p (tableDel t e).1 ∧ (tableDel t e).2 = 0 ∧
      (tableDel t e).1.store = t.store.remove p.home (p.words e.key) := by
  obtain ⟨hv, hstatus, hstore⟩ := ht.valid.del e
  rw [ht.config.home, ht.config.maskedKey] at hstore
  exact ⟨⟨hv, (tableDel_config t e).config ht.config⟩, hstatus, hstore⟩

theorem lookup (key : Bytes) :
    (tableLookupUnoptimized t key).map (KeyData.value · p.actionDataSize) =
      t.store.get p.home (p.words fun j => key (p.keyOffset.toNat + j)) := by
  have h := ht.valid.lookup key
  have hin : t.inputKey key = fun j => key (p.keyOffset.toNat + j) := by
    unfold Table.inputKey
    rw [ht.config.keyOffset]
  rwa [ht.config.actionDataSize, ht.config.home, ht.config.maskedKey, hin] at h

end IsTable

/-- Keys with the same words are the same key. -/
theorem words_eq (hc : Config p t) (a b : Bytes) : p.words a = p.words b ↔ SameKey p a b := by
  rw [← hc.maskedKey]
  exact maskedKey_eq hc a b

end P4Switch.Tables
