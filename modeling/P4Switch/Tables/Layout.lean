import P4Switch.Lib.BucketRestore
import P4Switch.Tables.Invariant

/-! # The table without its pointers

`layout` forgets where buckets and key slots lie and keeps what they hold. `table_add`,
`table_del` and the plain lookup act on the layout as `put`, `remove` and `get` do. -/
namespace P4Switch.Tables
open P4Switch.Lib.LinkedChain P4Switch.Lib.Words P4Switch.Lib.Partition P4Switch.Lib.BucketChains

/-- An action and its arguments, `action_data_size` bytes of them. -/
abbrev Value := UInt64 × List UInt8

abbrev TableLayout := Store (List UInt64) Value KEYS_PER_BUCKET

abbrev BucketView := Bucket (List UInt64) Value KEYS_PER_BUCKET

variable {t t' : Table} {exts exts' : Nat → List Nat}

def KeyData.value (d : KeyData) (actionDataSize : UInt32) : Value :=
  (d.actionId, (List.range actionDataSize.toNat).map d.actionData)

/-- What a bucket holds. -/
def Table.view (t : Table) (bkt : BktPtr) : BucketView := fun i =>
  let b := t.buckets bkt
  if b.sig i = 0 then none
  else some (t.storedKey (b.keyId i), (t.data (b.keyId i)).value t.params.actionDataSize)

def Table.layout (t : Table) (exts : Nat → List Nat) : TableLayout where
  chains := fun b =>
    if b < t.nBuckets.toNat then (chainOf exts b).map t.view else [fun _ => none]
  freeSlots := t.keyStack.length
  freeExts := t.bktExtStack.length

/-- The chain a key hashes to. -/
def Table.home (t : Table) (ws : List UInt64) : Nat := t.bktId (t.hashKey ws)

/-! ## Searches on buckets and on what they hold -/

section
variable {test : BktPtr → BktPos → Bool} {test' : Option (List UInt64 × Value) → Bool}
  {new : Option (List UInt64 × Value)} {view : BktPtr → BucketView} {l : List BktPtr}
  {prev pr : Option BktPtr} {bkt : BktPtr} {i : BktPos}

theorem searchChain_mem (h : searchChain test prev l = some (pr, bkt, i)) : bkt ∈ l := by
  obtain ⟨l₁, l₂, rfl, -⟩ := searchChain_some h
  simp

theorem map_update_of_not_mem {c : BucketView} (h : bkt ∉ l) :
    l.map (Function.update view bkt c) = l.map view :=
  List.map_congr_left fun _ hp => Function.update_of_ne (ne_of_mem_of_not_mem hp h) _ _

theorem replaceFirst_map_some (new : Option (List UInt64 × Value)) (hn : l.Nodup) (ht : ∀ p ∈ l, ∀ i, test p i = test' (view p i))
    (h : searchChain test prev l = some (pr, bkt, i)) :
    replaceFirst test' new (l.map view) =
      some (l.map (Function.update view bkt (Function.update (view bkt) i new))) := by
  induction l generalizing prev with
  | nil => cases h
  | cons p l ih =>
    obtain ⟨hp, hn⟩ := List.nodup_cons.mp hn
    have htp : test p = fun i => test' (view p i) := funext (ht p List.mem_cons_self)
    rw [searchChain, htp] at h
    rw [List.map_cons, replaceFirst]
    cases hf : (List.finRange KEYS_PER_BUCKET).find? fun i => test' (view p i) with
    | some j =>
      rw [hf] at h
      obtain ⟨rfl, rfl, rfl⟩ := h
      simp [map_update_of_not_mem hp]
    | none =>
      rw [hf] at h
      have hne : p ≠ bkt := fun he => hp (he ▸ searchChain_mem h)
      rw [ih hn (fun q hq => ht q (List.mem_cons_of_mem p hq)) h]
      simp [Function.update_of_ne hne]

theorem replaceFirst_map_none (ht : ∀ p ∈ l, ∀ i, test p i = test' (view p i))
    (h : searchChain test prev l = none) : replaceFirst test' new (l.map view) = none := by
  induction l generalizing prev with
  | nil => rfl
  | cons p l ih =>
    have htp : test p = fun i => test' (view p i) := funext (ht p List.mem_cons_self)
    rw [searchChain, htp] at h
    rw [List.map_cons, replaceFirst]
    cases hf : (List.finRange KEYS_PER_BUCKET).find? fun i => test' (view p i) with
    | some j =>
      rw [hf] at h
      cases h
    | none =>
      rw [hf] at h
      rw [ih (fun q hq => ht q (List.mem_cons_of_mem p hq)) h]
      rfl

theorem removeKey_map_some {ws : List UInt64} (hn : l.Nodup)
    (ht : ∀ p ∈ l, ∀ i, test p i = hasKey ws (view p i))
    (h : searchChain test prev l = some (pr, bkt, i)) :
    removeKey ws prev.isNone (l.map view) =
      if pr.isSome ∧ isEmpty (Function.update (view bkt) i none) = true then
        some ((l.erase bkt).map view, true)
      else some (l.map (Function.update view bkt (Function.update (view bkt) i none)), false) := by
  induction l generalizing prev with
  | nil => cases h
  | cons p l ih =>
    obtain ⟨hp, hn⟩ := List.nodup_cons.mp hn
    have htp : test p = fun i => hasKey ws (view p i) := funext (ht p List.mem_cons_self)
    rw [searchChain, htp] at h
    rw [List.map_cons, removeKey]
    cases hf : (List.finRange KEYS_PER_BUCKET).find? fun i => hasKey ws (view p i) with
    | some j =>
      rw [hf] at h
      obtain ⟨rfl, rfl, rfl⟩ := h
      cases pr <;> simp [map_update_of_not_mem hp]
    | none =>
      rw [hf] at h
      have hne : p ≠ bkt := fun he => hp (he ▸ searchChain_mem h)
      have hrec := ih hn (fun q hq => ht q (List.mem_cons_of_mem p hq)) h
      simp only [Option.isNone_some] at hrec
      simp only [hrec]
      split
      · simp [List.erase_cons_tail, hne]
      · simp [Function.update_of_ne hne]

theorem removeKey_map_none {ws : List UInt64} {first : Bool}
    (ht : ∀ p ∈ l, ∀ i, test p i = hasKey ws (view p i)) (h : searchChain test prev l = none) :
    removeKey ws first (l.map view) = none := by
  induction l generalizing prev first with
  | nil => rfl
  | cons p l ih =>
    have htp : test p = fun i => hasKey ws (view p i) := funext (ht p List.mem_cons_self)
    rw [searchChain, htp] at h
    rw [List.map_cons, removeKey]
    cases hf : (List.finRange KEYS_PER_BUCKET).find? fun i => hasKey ws (view p i) with
    | some j =>
      rw [hf] at h
      cases h
    | none =>
      rw [hf] at h
      rw [ih (fun q hq => ht q (List.mem_cons_of_mem p hq)) h]
      rfl

theorem find_map_some {ws : List UInt64} (ht : ∀ p ∈ l, ∀ i, test p i = hasKey ws (view p i))
    (h : searchChain test prev l = some (pr, bkt, i)) :
    find ws (l.map view) = (view bkt i).map Prod.snd := by
  induction l generalizing prev with
  | nil => cases h
  | cons p l ih =>
    have htp : test p = fun i => hasKey ws (view p i) := funext (ht p List.mem_cons_self)
    rw [searchChain, htp] at h
    rw [List.map_cons, find_cons]
    cases hf : (List.finRange KEYS_PER_BUCKET).find? fun i => hasKey ws (view p i) with
    | some j =>
      rw [hf] at h
      obtain ⟨rfl, rfl, rfl⟩ := h
      rfl
    | none =>
      rw [hf] at h
      exact ih (fun q hq => ht q (List.mem_cons_of_mem p hq)) h

theorem find_map_none {ws : List UInt64} (ht : ∀ p ∈ l, ∀ i, test p i = hasKey ws (view p i))
    (h : searchChain test prev l = none) : find ws (l.map view) = none := by
  refine find_eq_none.mpr (absent_iff.mp fun c hc i => ?_)
  obtain ⟨p, hp, rfl⟩ := List.mem_map.mp hc
  rw [← ht p hp]
  exact searchChain_none.mp h p hp i

end

/-! ## The chain of a key -/

theorem bktId_lt (hpos : 0 < t.nBuckets.toNat) (h : UInt32) : t.bktId h < t.nBuckets.toNat := by
  have hle : (1 : UInt32) ≤ t.nBuckets := by
    rw [UInt32.le_iff_toNat_le]
    exact hpos
  have hsub : (t.nBuckets - 1).toNat = t.nBuckets.toNat - 1 := UInt32.toNat_sub_of_le _ _ hle
  have hand : t.bktId h ≤ (t.nBuckets - 1).toNat := by
    rw [Table.bktId, UInt32.toNat_and]
    exact Nat.and_le_right
  omega

theorem Inv.home_lt (hi : Inv t exts) (ws : List UInt64) : t.home ws < t.nBuckets.toNat :=
  bktId_lt hi.pos _

theorem layout_chain {b : Nat} (hb : b < t.nBuckets.toNat) :
    (t.layout exts).chains b = (chainOf exts b).map t.view := if_pos hb

/-- Comparing a key with a position is comparing it with what the position holds. -/
theorem bktKeycmp_view (hi : Inv t exts) {b : Nat} (hb : b < t.nBuckets.toNat) {p : BktPtr}
    (hp : p ∈ chainOf exts b) (key : Bytes) (i : BktPos) :
    t.bktKeycmp p key i (inputSig (t.hashKey (t.maskedKey key))) =
      hasKey (t.maskedKey key) (t.view p i) := by
  unfold Table.bktKeycmp Table.view
  dsimp only
  by_cases hz : (t.buckets p).sig i = 0
  · have hne : inputSig (t.hashKey (t.maskedKey key)) ≠ (0 : UInt16).toUInt32 := by
      intro h
      refine inputSig_ne_zero (t.hashKey (t.maskedKey key)) ?_
      rw [h]
      rfl
    rw [if_pos hz, hz, if_pos hne]
    rfl
  · rw [if_neg hz]
    have hsig := hi.stored.signed b hb p hp i hz
    by_cases hk : t.storedKey ((t.buckets p).keyId i) = t.maskedKey key
    · rw [hk] at hsig
      have heq : inputSig (t.hashKey (t.maskedKey key)) = ((t.buckets p).sig i).toUInt32 := by
        rw [hsig, inputSig_lt]
      rw [if_neg (not_not_intro heq), (keycmp_stored t _ key).mpr hk, hk]
      simp [hasKey]
    · have hcmp : keycmp (t.keys ((t.buckets p).keyId i)) key t.keyMask t.keySize = false := by
        cases h : keycmp (t.keys ((t.buckets p).keyId i)) key t.keyMask t.keySize with
        | false => rfl
        | true => exact absurd ((keycmp_stored t _ key).mp h) hk
      rw [hcmp]
      simp [hasKey, hk]

theorem isEmpty_view (p : BktPtr) (i : BktPos) :
    bktKeyIsEmpty (t.buckets p) i = (t.view p i).isNone := by
  unfold bktKeyIsEmpty Table.view
  by_cases hz : (t.buckets p).sig i = 0 <;> simp [hz]

theorem bktIsEmpty_view (p : BktPtr) : bktIsEmpty (t.buckets p) = isEmpty (t.view p) := by
  rw [Bool.eq_iff_iff, ← liveIn_eq_nil, isEmpty_eq_true]
  simp [liveIn, Table.view]

/-- The search for a key, along the chain of its home. -/
theorem findKey_eq (hi : Inv t exts) (key : Bytes) :
    t.findKey key = searchChain
      (fun bkt i => t.bktKeycmp bkt key i (inputSig (t.hashKey (t.maskedKey key)))) none
      (chainOf exts (t.home (t.maskedKey key))) := by
  unfold Table.findKey
  dsimp only
  rw [hash_eq hi.keySize, hi.linked.chain_eq (bktId_lt hi.pos _)]
  rfl

/-- The plain lookup reads the layout. -/
theorem lookup_layout (hi : Inv t exts) (key : Bytes) :
    (tableLookupUnoptimized t key).map (KeyData.value · t.params.actionDataSize) =
      (t.layout exts).get t.home (t.maskedKey (t.inputKey key)) := by
  have hb := hi.home_lt (t.maskedKey (t.inputKey key))
  have ht := fun p hp i => bktKeycmp_view hi hb (p := p) hp (t.inputKey key) i
  unfold tableLookupUnoptimized Store.get
  rw [findKey_eq hi, layout_chain hb]
  cases hs : searchChain _ none (chainOf exts (t.home (t.maskedKey (t.inputKey key)))) with
  | none => rw [find_map_none ht hs]; rfl
  | some r =>
    obtain ⟨pr, bkt, i⟩ := r
    rw [find_map_some ht hs]
    obtain ⟨l₁, l₂, hl, -, htest⟩ := searchChain_some hs
    have hlive : (t.buckets bkt).sig i ≠ 0 := by
      intro hz
      rw [ht bkt (by simp [hl])] at htest
      simp [Table.view, hz, hasKey] at htest
    simp [Table.view, hlive]

end P4Switch.Tables
