import P4Switch.Tables.Valid

/-! # The table as a map

Over any run of additions and deletions a lookup finds what a plain map of the accepted
entries holds; additions are refused only when the table is full, and deleting gives every
key slot and every bucket extension back. -/
namespace P4Switch.Tables
open P4Switch.Lib.LinkedChain P4Switch.Lib.Words P4Switch.Lib.Partition P4Switch.Lib.BucketChains

/-! ## The map -/

/-- The entries accepted last, one for each key. -/
abbrev KeyMap := List TableEntry

def KeyMap.find (p : TableParams) (m : KeyMap) (key : Bytes) : Option TableEntry :=
  m.find? fun e => SameKey p e.key key

def KeyMap.erase (p : TableParams) (m : KeyMap) (key : Bytes) : KeyMap :=
  m.filter fun e => ¬SameKey p e.key key

def KeyMap.insert (p : TableParams) (m : KeyMap) (e : TableEntry) : KeyMap := e :: m.erase p e.key

inductive TableOp where
  | add (entry : TableEntry)
  | del (entry : TableEntry)

def TableOp.exec (t : Table) : TableOp → Table × Int
  | .add e => tableAdd t e
  | .del e => tableDel t e

def runOps (t : Table) (ops : List TableOp) : Table := ops.foldl (fun t op => (op.exec t).1) t

/-- The map after an operation that returned `status`. -/
def KeyMap.apply (p : TableParams) (m : KeyMap) (op : TableOp) (status : Int) : KeyMap :=
  match op with
  | .add e => if status = 0 then m.insert p e else m
  | .del e => m.erase p e.key

/-- The map after a run on the table `t`. -/
def KeyMap.follow (p : TableParams) : Table → KeyMap → List TableOp → KeyMap
  | _, m, [] => m
  | t, m, op :: ops => follow p (op.exec t).1 (m.apply p op (op.exec t).2) ops

/-- What a lookup shows of an entry: its action, and its arguments if it came with any. -/
inductive Shows (actionDataSize : UInt32) : Option Value → Option TableEntry → Prop
  | miss : Shows actionDataSize none none
  | hit {v : Value} {e : TableEntry} (haction : v.1 = e.actionId)
      (hdata : ∀ src, e.actionData = some src →
        v.2 = (List.range actionDataSize.toNat).map src) :
      Shows actionDataSize (some v) (some e)

theorem shows_value (e : TableEntry) (n : UInt32) (leftover : List UInt8) :
    Shows n (some (e.value n leftover)) (some e) := by
  refine Shows.hit rfl fun src hsrc => ?_
  rw [TableEntry.value, hsrc]

theorem Shows.eq_none_iff {n : UInt32} {r : Option Value} {o : Option TableEntry}
    (h : Shows n r o) : r = none ↔ o = none := by
  cases h with
  | miss => exact iff_of_true rfl rfl
  | hit => exact iff_of_false (Option.some_ne_none _) (Option.some_ne_none _)

/-! ## Refinement -/

variable {p : TableParams} {t t₀ : Table} {m : KeyMap} {e : TableEntry}

/-- The table holds the entries of the map, and nothing else. -/
structure Refines (p : TableParams) (t : Table) (m : KeyMap) : Prop where
  valid : Valid t
  config : Config p t
  distinct : (m.map fun e => t.maskedKey e.key).Nodup
  shows : ∀ ws, Shows p.actionDataSize (t.store.get t.home ws)
    (m.find? fun e => t.maskedKey e.key = ws)

theorem find_eq_masked (hc : Config p t) (m : KeyMap) (key : Bytes) :
    m.find p key = m.find? fun e => t.maskedKey e.key = t.maskedKey key := by
  unfold KeyMap.find
  congr 1
  funext e
  exact decide_eq_decide.mpr (maskedKey_eq hc e.key key).symm

theorem erase_eq_masked (hc : Config p t) (m : KeyMap) (key : Bytes) :
    m.erase p key = m.filter fun e => ¬t.maskedKey e.key = t.maskedKey key := by
  unfold KeyMap.erase
  congr 1
  funext e
  exact decide_eq_decide.mpr (not_congr (maskedKey_eq hc e.key key).symm)

/-- A search among the entries left when the entry of a key is erased. -/
theorem find_erased (hc : Config p t) (m : KeyMap) (key : Bytes) (ws : List UInt64) :
    (m.erase p key).find? (fun e => t.maskedKey e.key = ws) =
      if ws = t.maskedKey key then none else m.find? fun e => t.maskedKey e.key = ws := by
  rw [erase_eq_masked hc, List.find?_filter]
  split
  · rename_i hws
    refine List.find?_eq_none.mpr fun e _ => ?_
    simp [hws]
  · rename_i hws
    congr 1
    funext e
    by_cases he : t.maskedKey e.key = ws
    · simp [he, hws]
    · simp [he]

theorem distinct_erase (hc : Config p t) (h : (m.map fun e => t.maskedKey e.key).Nodup)
    (key : Bytes) : ((m.erase p key).map fun e => t.maskedKey e.key).Nodup ∧
      t.maskedKey key ∉ (m.erase p key).map fun e => t.maskedKey e.key := by
  rw [erase_eq_masked hc]
  refine ⟨h.sublist (List.filter_sublist.map _), fun hmem => ?_⟩
  obtain ⟨e, he, hkey⟩ := List.mem_map.mp hmem
  simp [hkey] at he

namespace Refines
variable (hr : Refines p t m)
include hr

/-- The map keeps what it showed when neither the table nor the key changes. -/
theorem del (e : TableEntry) : Refines p (tableDel t e).1 (m.erase p e.key) := by
  obtain ⟨hv, -, hstore⟩ := hr.valid.del e
  have hcfg := tableDel_config t e
  obtain ⟨hnodup, -⟩ := distinct_erase hr.config hr.distinct e.key
  refine ⟨hv, hcfg.config hr.config, ?_, fun ws => ?_⟩
  · rwa [hcfg.maskedKey]
  · rw [hcfg.maskedKey, hcfg.home, hstore, get_remove hr.valid.good hr.valid.home_lt,
      find_erased hr.config]
    split
    · exact Shows.miss
    · exact hr.shows ws

theorem add (e : TableEntry) :
    ((tableAdd t e).2 = 0 ∧ Refines p (tableAdd t e).1 (m.insert p e)) ∨
      ((tableAdd t e).2 = -ENOSPC ∧ Refines p (tableAdd t e).1 m ∧
        ∃ v, (t.store.put t.home (t.maskedKey e.key) v).2 = false) := by
  obtain ⟨hv, leftover, -, hstatus, hstore⟩ := hr.valid.add e
  have hcfg := tableAdd_config t e
  cases hput : (t.store.put t.home (t.maskedKey e.key)
      (e.value t.params.actionDataSize leftover)).2 with
  | true =>
    rw [hput, if_pos rfl] at hstatus
    obtain ⟨hnodup, hfresh⟩ := distinct_erase hr.config hr.distinct e.key
    refine Or.inl ⟨hstatus, hv, hcfg.config hr.config, ?_, fun ws => ?_⟩
    · rw [hcfg.maskedKey]
      exact List.nodup_cons.mpr ⟨hfresh, hnodup⟩
    · rw [hcfg.maskedKey, hcfg.home, hstore, get_put hr.valid.good hr.valid.home_lt hput,
        KeyMap.insert, List.find?_cons, find_erased hr.config]
      by_cases hws : ws = t.maskedKey e.key
      · rw [if_pos hws, decide_eq_true hws.symm, hr.config.actionDataSize]
        exact shows_value e _ leftover
      · rw [if_neg hws, if_neg hws, decide_eq_false fun h => hws h.symm]
        exact hr.shows ws
  | false =>
    rw [hput] at hstatus
    have hsame : (t.store.put t.home (t.maskedKey e.key)
        (e.value t.params.actionDataSize leftover)).1 = t.store := by
      obtain ⟨-, ⟨hacc, -⟩ | ⟨hrefused, -⟩⟩ := put_effect hr.valid.good hr.valid.home_lt
        (t.maskedKey e.key) (e.value t.params.actionDataSize leftover)
      · rw [hput] at hacc
        cases hacc
      · rw [hrefused]
    refine Or.inr ⟨hstatus, ⟨hv, hcfg.config hr.config, ?_, fun ws => ?_⟩, _, hput⟩
    · rw [hcfg.maskedKey]
      exact hr.distinct
    · rw [hcfg.maskedKey, hcfg.home, hstore, hsame]
      exact hr.shows ws

theorem exec (op : TableOp) : Refines p (op.exec t).1 (m.apply p op (op.exec t).2) := by
  cases op with
  | add e =>
    rcases hr.add e with ⟨hstatus, h⟩ | ⟨hstatus, h, -⟩
    · rw [KeyMap.apply, TableOp.exec, if_pos hstatus]
      exact h
    · rw [KeyMap.apply, TableOp.exec, if_neg (by rw [hstatus]; decide)]
      exact h
  | del e => exact hr.del e

theorem find (key : Bytes) :
    Shows p.actionDataSize
      ((tableLookupUnoptimized t key).map (KeyData.value · p.actionDataSize))
      (m.find p fun j => key (p.keyOffset.toNat + j)) := by
  have hlookup := hr.valid.lookup key
  rw [hr.config.actionDataSize] at hlookup
  have hin : t.inputKey key = fun j => key (p.keyOffset.toNat + j) := by
    unfold Table.inputKey
    rw [hr.config.keyOffset]
  rw [hlookup, hin, find_eq_masked hr.config]
  exact hr.shows _

/-- The entries are counted by the map. -/
theorem size_eq : size t.nBuckets.toNat t.store = m.length := by
  rw [hr.valid.good.size_eq hr.valid.home_lt hr.distinct fun ws => ?_, List.length_map]
  rw [Ne, (hr.shows ws).eq_none_iff, List.find?_eq_none]
  simp

end Refines

theorem refines_create (h : tableCreateEmpty p = some t) (hs : p.Sized) :
    Refines p t [] := by
  refine ⟨create_valid h hs, create_config h, List.nodup_nil, fun ws => ?_⟩
  rw [create_store h hs]
  have hnone : (⟨fun _ => [fun _ => none], p.nKeysMax.toNat, (p.nKeysMax / 4).toNat⟩ :
      TableLayout).get t.home ws = none := by
    refine find_eq_none.mpr (absent_iff.mp fun c hc i => ?_)
    rw [List.mem_singleton.mp hc]
    rfl
  rw [hnone]
  exact Shows.miss

/-- Every run keeps the table and the map together. -/
theorem refines_run (hr : Refines p t m) (ops : List TableOp) :
    Refines p (runOps t ops) (KeyMap.follow p t m ops) := by
  induction ops generalizing t m with
  | nil => exact hr
  | cons op ops ih => exact ih (hr.exec op)

/-! ## Two small tables -/

/-- Room for four keys, in one bucket and one extension. -/
def smallParams : TableParams := ⟨.exact, 4, 0, none, 8, 4⟩

theorem smallParams_ok : (tableCreateEmpty smallParams).isSome = true := rfl

theorem smallParams_sized : smallParams.Sized := by
  constructor <;> decide +kernel

def smallTable : Table := (tableCreateEmpty smallParams).get smallParams_ok

theorem smallTable_spec : tableCreateEmpty smallParams = some smallTable :=
  (Option.some_get smallParams_ok).symm

def entryUnder (k : UInt8) : TableEntry := ⟨fun _ => k, none, 0, 1, some fun _ => k⟩

/-- One addition too many. -/
def fiveAdds : List TableOp := [1, 2, 3, 4, 5].map fun k => .add (entryUnder k)

/-- Room for eight keys, in two buckets and two extensions. -/
def eightParams : TableParams := ⟨.exact, 4, 0, none, 8, 8⟩

theorem eightParams_ok : (tableCreateEmpty eightParams).isSome = true := rfl

theorem eightParams_sized : eightParams.Sized := by
  constructor <;> decide +kernel

def eightTable : Table := (tableCreateEmpty eightParams).get eightParams_ok

theorem eightTable_spec : tableCreateEmpty eightParams = some eightTable :=
  (Option.some_get eightParams_ok).symm

/-- The fifth key of the first bucket takes an extension and gives it back; the key slots of
the two that are deleted are used again, one of them in a new extension. -/
def extended : List TableOp :=
  [0, 1, 6, 7, 10, 2].map (fun k => .add (entryUnder k)) ++
    [1, 10].map (fun k => .del (entryUnder k)) ++ [11, 12].map fun k => .add (entryUnder k)

/-! ## Lookups -/

theorem lookup_follows (h : tableCreateEmpty p = some t₀) (hs : p.Sized) (ops : List TableOp)
    (key : Bytes) :
    Shows p.actionDataSize
      ((tableLookupUnoptimized (runOps t₀ ops) key).map (KeyData.value · p.actionDataSize))
      ((KeyMap.follow p t₀ [] ops).find p fun j => key (p.keyOffset.toNat + j)) :=
  (refines_run (refines_create h hs) ops).find key

theorem lookup_follows_extended :
    Shows eightParams.actionDataSize
      ((tableLookupUnoptimized (runOps eightTable extended) fun _ => 12).map
        (KeyData.value · eightParams.actionDataSize))
      ((KeyMap.follow eightParams eightTable [] extended).find eightParams fun _ => 12) :=
  lookup_follows eightTable_spec eightParams_sized extended fun _ => 12

/-! ## Capacity -/

/-- An addition that is refused tells about the number of keys. -/
theorem Refines.add_or_full (hr : Refines p t m) :
    (tableAdd t e).2 = 0 ∨ m.length = p.nKeysMax.toNat ∨ p.nKeysMax.toNat / 4 + 4 ≤ m.length := by
  rcases hr.add e with ⟨hstatus, -⟩ | ⟨-, -, v, hput⟩
  · exact Or.inl hstatus
  · have hsize := refused_size hr.valid.good hr.valid.home_lt hput
    rw [hr.size_eq, hr.config.nKeysMax, hr.config.nBucketsExt, UInt32.toNat_div] at hsize
    exact Or.inr hsize

/-- Additions are refused by a full table only: no key slot is left, or the keys fill every
bucket extension and one bucket. -/
theorem refused_only_full (h : tableCreateEmpty p = some t₀) (hs : p.Sized)
    (ops : List TableOp) (e : TableEntry) :
    (tableAdd (runOps t₀ ops) e).2 = 0 ∨
      (KeyMap.follow p t₀ [] ops).length = p.nKeysMax.toNat ∨
        p.nKeysMax.toNat / 4 + 4 ≤ (KeyMap.follow p t₀ [] ops).length :=
  (refines_run (refines_create h hs) ops).add_or_full

theorem refused_only_full_small :
    (tableAdd (runOps smallTable fiveAdds) (entryUnder 6)).2 = 0 ∨
      (KeyMap.follow smallParams smallTable [] fiveAdds).length = 4 ∨
        5 ≤ (KeyMap.follow smallParams smallTable [] fiveAdds).length :=
  refused_only_full smallTable_spec smallParams_sized fiveAdds (entryUnder 6)

/-- Chains grow only when they are full, as long as nothing is deleted. -/
theorem packed_adds (es : List TableEntry) (hv : Valid t) (hp : ∀ b, Packed (t.store.chains b)) :
    ∀ b, Packed ((runOps t (es.map .add)).store.chains b) := by
  induction es generalizing t with
  | nil => exact hp
  | cons e es ih =>
    obtain ⟨hv', leftover, -, -, hstore⟩ := hv.add e
    refine ih hv' ?_
    change ∀ b, Packed ((tableAdd t e).1.store.chains b)
    rw [hstore]
    exact packed_put hp _ _

theorem refused_iff_full (h : tableCreateEmpty p = some t₀) (hs : p.Sized)
    (es : List TableEntry) (e : TableEntry) :
    (tableAdd (runOps t₀ (es.map .add)) e).2 = -ENOSPC ↔
      (KeyMap.follow p t₀ [] (es.map .add)).find p e.key = none ∧
        (KeyMap.follow p t₀ [] (es.map .add)).length = p.nKeysMax.toNat := by
  have hr := refines_run (refines_create h hs) (es.map .add)
  have hpacked : ∀ b, Packed (t₀.store.chains b) := by
    rw [create_store h hs]
    intro b c hc
    cases hc
  have hp := packed_adds es (create_valid h hs) hpacked
  generalize runOps t₀ (es.map .add) = t at hr hp ⊢
  generalize KeyMap.follow p t₀ [] (es.map .add) = m at hr ⊢
  obtain ⟨-, leftover, -, hstatus, -⟩ := hr.valid.add e
  have hroom : t.params.nKeysMax.toNat < KEYS_PER_BUCKET * (t.nBucketsExt + 1) := by
    rw [hr.config.nKeysMax, hr.config.nBucketsExt, UInt32.toNat_div]
    change p.nKeysMax.toNat < 4 * (p.nKeysMax.toNat / 4 + 1)
    omega
  have hiff := refused_iff_of_packed (v := e.value t.params.actionDataSize leftover)
    (k := t.maskedKey e.key) hr.valid.good hr.valid.home_lt hp hroom
  have habsent : t.maskedKey e.key ∉ keys (t.store.chains (t.home (t.maskedKey e.key))) ↔
      m.find p e.key = none := by
    rw [← find_eq_none, find_eq_masked hr.config, ← (hr.shows (t.maskedKey e.key)).eq_none_iff]
    rfl
  rw [hr.size_eq, hr.config.nKeysMax, habsent] at hiff
  rw [← hiff, hstatus]
  cases (t.store.put t.home (t.maskedKey e.key) (e.value t.params.actionDataSize leftover)).2 with
  | true => decide
  | false => decide

theorem refused_iff_full_small :
    (tableAdd (runOps smallTable ([1, 2, 3, 4].map fun k => .add (entryUnder k)))
        (entryUnder 5)).2 = -ENOSPC ↔
      (KeyMap.follow smallParams smallTable [] ([1, 2, 3, 4].map fun k => .add (entryUnder k))).find
          smallParams (entryUnder 5).key = none ∧
        (KeyMap.follow smallParams smallTable []
          ([1, 2, 3, 4].map fun k => .add (entryUnder k))).length = 4 :=
  refused_iff_full smallTable_spec smallParams_sized ([1, 2, 3, 4].map entryUnder) (entryUnder 5)

/-! ## Nothing leaks -/

/-- Free key slots and keys make up the capacity at any time. -/
theorem Refines.slots (hr : Refines p t m) : t.keyStack.length + m.length = p.nKeysMax.toNat := by
  have := hr.valid.good.slots_eq
  rw [hr.config.nKeysMax] at this
  rw [← hr.size_eq]
  exact this

theorem Refines.pools (hr : Refines p t []) :
    t.keyStack.Perm (List.range p.nKeysMax.toNat) ∧
      t.bktExtStack.Perm (List.range (p.nKeysMax.toNat / 4)) := by
  obtain ⟨exts, hi⟩ := hr.valid.linked
  obtain ⟨hslots, hexts⟩ := hr.valid.good.pools_of_size_zero hr.size_eq
  have hk := hi.stored.keys_perm
  have hx := hi.linked.exts_perm
  have hklen := hk.length_eq
  have hxlen := hx.length_eq
  have hsl : t.keyStack.length = t.params.nKeysMax.toNat := hslots
  have hxl : t.bktExtStack.length = t.nBucketsExt := hexts
  rw [List.length_append, List.length_range] at hklen hxlen
  have hno : (List.range t.nBuckets.toNat).flatMap (fun b => t.ids (chainOf exts b)) = [] :=
    List.eq_nil_of_length_eq_zero (by omega)
  have hnoext : (List.range t.nBuckets.toNat).flatMap exts = [] :=
    List.eq_nil_of_length_eq_zero (by omega)
  rw [hno, List.nil_append] at hk
  rw [hnoext, List.nil_append] at hx
  rw [hr.config.nKeysMax] at hk
  rw [hr.config.nBucketsExt, UInt32.toNat_div] at hx
  exact ⟨hk, hx⟩

/-- Deleting entries under the keys of the map empties it. -/
theorem follow_deletes (m m' : KeyMap) (t : Table) (hsub : ∀ e ∈ m', e ∈ m) :
    KeyMap.follow p t m' (m.map .del) = [] := by
  induction m generalizing t m' with
  | nil => exact List.eq_nil_iff_forall_not_mem.mpr fun e he => by cases hsub e he
  | cons e m ih =>
    refine ih _ _ fun e' he' => ?_
    obtain ⟨hmem, hne⟩ := List.mem_filter.mp he'
    rcases List.mem_cons.mp (hsub e' hmem) with rfl | h
    · exact absurd (fun _ _ => rfl) (of_decide_eq_true hne)
    · exact h

theorem runOps_append (t : Table) (ops ops' : List TableOp) :
    runOps t (ops ++ ops') = runOps (runOps t ops) ops' := List.foldl_append

/-- The free key slots and the keys held make up the capacity, the slots lie apart in the memory
of the table, and once the keys held are deleted the table is as good as new. -/
theorem nothing_leaks (h : tableCreateEmpty p = some t₀) (hs : p.Sized) (ops : List TableOp) :
    (runOps t₀ ops).keyStack.length + (KeyMap.follow p t₀ [] ops).length = p.nKeysMax.toNat ∧
      Storage (runOps t₀ ops) ∧
      (runOps t₀ (ops ++ (KeyMap.follow p t₀ [] ops).map .del)).keyStack.Perm t₀.keyStack ∧
      (runOps t₀ (ops ++ (KeyMap.follow p t₀ [] ops).map .del)).bktExtStack.Perm
        t₀.bktExtStack ∧
      ∀ key, tableLookupUnoptimized (runOps t₀ (ops ++ (KeyMap.follow p t₀ [] ops).map .del))
        key = none := by
  have hr := refines_run (refines_create h hs) ops
  have hend := refines_run hr ((KeyMap.follow p t₀ [] ops).map .del)
  rw [follow_deletes _ _ _ fun _ => id, ← runOps_append] at hend
  obtain ⟨-, hks, hxs⟩ := create_empty h
  obtain ⟨hk, hx⟩ := hend.pools
  rw [hks, hxs, UInt32.toNat_div]
  refine ⟨hr.slots, hr.valid.storage, hk, hx, fun key => ?_⟩
  exact Option.map_eq_none_iff.mp ((hend.find key).eq_none_iff.mpr rfl)

theorem nothing_leaks_extended :
    (runOps eightTable
      (extended ++ (KeyMap.follow eightParams eightTable [] extended).map .del)).bktExtStack.Perm
        eightTable.bktExtStack :=
  (nothing_leaks eightTable_spec eightParams_sized extended).2.2.2.1

end P4Switch.Tables
