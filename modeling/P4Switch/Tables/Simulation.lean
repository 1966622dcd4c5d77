import P4Switch.Tables.Layout

/-! # Adding and deleting on the layout

`table_add` is `put` on the layout and `table_del` is `remove`; both keep the invariant. -/
namespace P4Switch.Tables
open P4Switch.Lib.LinkedChain P4Switch.Lib.Words P4Switch.Lib.Partition P4Switch.Lib.BucketChains

variable {t t' : Table} {exts exts' : Nat → List Nat}

/-- What an entry stores over the arguments that were there. -/
def TableEntry.value (e : TableEntry) (actionDataSize : UInt32) (leftover : List UInt8) : Value :=
  (e.actionId, match e.actionData with
    | some src => (List.range actionDataSize.toNat).map src
    | none => leftover)

theorem write_value (d : KeyData) (e : TableEntry) (n : UInt32) :
    (d.write e n).value n = e.value n (d.value n).2 := by
  unfold KeyData.write KeyData.value TableEntry.value
  cases e.actionData with
  | none => rfl
  | some src =>
    refine Prod.ext rfl (List.map_congr_left fun j hj => ?_)
    simp [List.mem_range.mp hj]

/-- A layout of which one chain changes. -/
theorem layout_eq (t' : Table) {b : Nat} {l : List BucketView} (hn : t'.nBuckets = t.nBuckets)
    (hb : b < t.nBuckets.toNat) (hself : (chainOf exts' b).map t'.view = l)
    (hother : ∀ b' < t.nBuckets.toNat, b' ≠ b →
      (chainOf exts' b').map t'.view = (chainOf exts b').map t.view) :
    t'.layout exts' = ⟨Function.update (t.layout exts).chains b l, t'.keyStack.length,
      t'.bktExtStack.length⟩ := by
  unfold Table.layout
  congr 1
  funext b'
  rw [hn]
  by_cases hbb : b' = b
  · subst hbb
    rw [Function.update_self, if_pos hb, hself]
  · rw [Function.update_of_ne hbb]
    by_cases hb' : b' < t.nBuckets.toNat
    · rw [if_pos hb', hother b' hb' hbb]
      exact (if_pos hb').symm
    · rw [if_neg hb']
      exact (if_neg hb').symm

/-- A chain other than the one of the bucket that changes. -/
theorem map_view_other (hl : Linked t exts) {b b' : Nat} (hb : b < t.nBuckets.toNat)
    (hb' : b' < t.nBuckets.toNat) (hne : b' ≠ b) {bkt : BktPtr} (hbkt : bkt ∈ chainOf exts b)
    {c : BucketView} (hv : ∀ q ∈ chainOf exts b', t'.view q = Function.update t.view bkt c q) :
    (chainOf exts b').map t'.view = (chainOf exts b').map t.view := by
  rw [List.map_congr_left hv]
  exact map_update_of_not_mem fun h => hne (hl.chain_unique hb' hb h hbkt)

/-! ## Views -/

section
variable {b id : Nat} {bkt q : BktPtr} {i : BktPos} {e : TableEntry} {rest : List Nat}

theorem update_view (hs : Stored t exts) {b' : Nat} (hb : b < t.nBuckets.toNat)
    (hb' : b' < t.nBuckets.toNat) (hbkt : bkt ∈ chainOf exts b) (hq : q ∈ chainOf exts b')
    (hi : (t.buckets bkt).sig i ≠ 0) :
    (t.bktKeyDataUpdate bkt e i).view q =
      Function.update t.view bkt (Function.update (t.view bkt) i
        (some (t.storedKey ((t.buckets bkt).keyId i),
          ((t.data ((t.buckets bkt).keyId i)).write e t.params.actionDataSize).value
            t.params.actionDataSize))) q := by
  funext j
  by_cases hqj : q = bkt ∧ j = i
  · obtain ⟨rfl, rfl⟩ := hqj
    simp [Table.view, Table.bktKeyDataUpdate, Table.storedKey, hi]
  · have hold : Function.update t.view bkt (Function.update (t.view bkt) i
        (some (t.storedKey ((t.buckets bkt).keyId i),
          ((t.data ((t.buckets bkt).keyId i)).write e t.params.actionDataSize).value
            t.params.actionDataSize))) q j = t.view q j := by
      by_cases hqb : q = bkt
      · subst hqb
        have hji : j ≠ i := fun h => hqj ⟨rfl, h⟩
        rw [Function.update_self, Function.update_of_ne hji]
      · rw [Function.update_of_ne hqb]
    rw [hold]
    unfold Table.view
    by_cases hz : (t.buckets q).sig j = 0
    · simp [Table.bktKeyDataUpdate, hz]
    · have hid : (t.buckets q).keyId j ≠ (t.buckets bkt).keyId i := fun h =>
        hqj (hs.slot_unique hb' hb hq hbkt hz hi h)
      simp [Table.bktKeyDataUpdate, Table.storedKey, hz, Function.update_of_ne hid]

theorem install_view (bkt : BktPtr) (i : BktPos) (e : TableEntry) (hs : Stored t exts) {b' : Nat} (hb' : b' < t.nBuckets.toNat)
    (hq : q ∈ chainOf exts b') (hst : t.keyStack = id :: rest) :
    (t.install rest bkt e i id).view q =
      Function.update t.view bkt (Function.update (t.view bkt) i
        (some (t.maskedKey e.key,
          ((t.data id).write e t.params.actionDataSize).value t.params.actionDataSize))) q := by
  funext j
  by_cases hqj : q = bkt ∧ j = i
  · obtain ⟨rfl, rfl⟩ := hqj
    have hsig : ((t.install rest q e j id).buckets q).sig j ≠ 0 := by
      simpa [Table.install, Table.bktKeyInstall, Table.setBucket] using inputSig_ne_zero _
    have hid : ((t.install rest q e j id).buckets q).keyId j = id := by
      simp [Table.install, Table.bktKeyInstall, Table.setBucket]
    unfold Table.view
    dsimp only
    rw [if_neg hsig, hid, install_storedKey_self]
    simp [Table.install, Table.bktKeyInstall, Table.setBucket]
  · have hold : ((t.install rest bkt e i id).buckets q).sig j = (t.buckets q).sig j ∧
        ((t.install rest bkt e i id).buckets q).keyId j = (t.buckets q).keyId j ∧
        Function.update t.view bkt (Function.update (t.view bkt) i
          (some (t.maskedKey e.key,
            ((t.data id).write e t.params.actionDataSize).value t.params.actionDataSize))) q j =
          t.view q j := by
      by_cases hqb : q = bkt
      · subst hqb
        have hji : j ≠ i := fun h => hqj ⟨rfl, h⟩
        simp [Table.install, Table.bktKeyInstall, Table.setBucket, Function.update_of_ne hji]
      · rw [install_buckets_of_ne hqb, Function.update_of_ne hqb]
        exact ⟨rfl, rfl, rfl⟩
    rw [hold.2.2]
    unfold Table.view
    dsimp only
    rw [hold.1, hold.2.1]
    by_cases hz : (t.buckets q).sig j = 0
    · rw [if_pos hz, if_pos hz]
    · have hid : (t.buckets q).keyId j ≠ id := by
        rintro rfl
        exact hs.id_free hb' (by simp [hst]) (mem_ids.mpr ⟨q, hq, j, hz, rfl⟩)
      rw [if_neg hz, if_neg hz, install_storedKey_of_ne hid]
      simp [Table.install, Table.bktKeyInstall, Table.setBucket, Function.update_of_ne hid]

theorem keyFree_view : (t.keyFree bkt i).view q =
    Function.update t.view bkt (Function.update (t.view bkt) i none) q := by
  funext j
  by_cases hqb : q = bkt
  · subst hqb
    rw [Function.update_self]
    by_cases hji : j = i
    · subst hji
      simp [Table.view, keyFree_buckets_self]
    · rw [Function.update_of_ne hji]
      simp [Table.view, Function.update_of_ne hji, Table.storedKey, Table.keyFree, Table.setBucket]
  · rw [Function.update_of_ne hqb]
    unfold Table.view
    rw [keyFree_buckets_of_ne hqb]
    rfl

/-- A bucket with the same keys under the same signatures holds the same. -/
theorem view_congr {p : BktPtr} (hz : t'.keySize = t.keySize) (hk : t'.keys = t.keys)
    (hd : t'.data = t.data) (hp : t'.params = t.params)
    (h : (t'.buckets p).sig = (t.buckets p).sig ∧ (t'.buckets p).keyId = (t.buckets p).keyId) :
    t'.view p = t.view p := by
  funext i
  unfold Table.view Table.storedKey
  dsimp only
  rw [hz, hk, hd, hp, h.1, h.2]

end

/-! ## add -/

/-- The search for a free position, along the chain of a key's home. -/
def Table.findFree (t : Table) (exts : Nat → List Nat) (b : Nat) :
    Option (Option BktPtr × BktPtr × BktPos) :=
  searchChain (fun bkt i => bktKeyIsEmpty (t.buckets bkt) i) none (chainOf exts b)

section
variable {ws : List UInt64} {v : Value} {pr : Option BktPtr} {bkt : BktPtr} {i : BktPos}
  (hi : Inv t exts)
include hi

theorem put_found {key : Bytes} (hs : t.findKey key = some (pr, bkt, i)) (v : Value) :
    (t.layout exts).put t.home (t.maskedKey key) v =
      ({ t.layout exts with
          chains := Function.update (t.layout exts).chains (t.home (t.maskedKey key))
            ((chainOf exts (t.home (t.maskedKey key))).map
              (Function.update t.view bkt
                (Function.update (t.view bkt) i (some (t.maskedKey key, v))))) }, true) := by
  have hb := hi.home_lt (t.maskedKey key)
  rw [findKey_eq hi] at hs
  unfold Store.put
  rw [layout_chain hb, replaceFirst_map_some _ (hi.linked.chainOf_nodup hb)
    (fun p hp i => bktKeycmp_view hi hb hp key i) hs]

theorem put_not_found {key : Bytes} (hs : t.findKey key = none) (v : Value) :
    replaceFirst (hasKey (t.maskedKey key)) (some (t.maskedKey key, v))
      ((t.layout exts).chains (t.home (t.maskedKey key))) = none := by
  have hb := hi.home_lt (t.maskedKey key)
  rw [findKey_eq hi] at hs
  rw [layout_chain hb]
  exact replaceFirst_map_none (fun p hp i => bktKeycmp_view hi hb hp key i) hs

/-- A key that was found is in use, and lies on the chain of its home. -/
theorem found_slot {key : Bytes} (hs : t.findKey key = some (pr, bkt, i)) :
    ∃ l₁ l₂, chainOf exts (t.home (t.maskedKey key)) = l₁ ++ bkt :: l₂ ∧ pr = l₁.getLast? ∧
      (t.buckets bkt).sig i ≠ 0 ∧ t.storedKey ((t.buckets bkt).keyId i) = t.maskedKey key := by
  have hb := hi.home_lt (t.maskedKey key)
  rw [findKey_eq hi] at hs
  obtain ⟨l₁, l₂, hl, hpr, htest⟩ := searchChain_some hs
  rw [bktKeycmp_view hi hb (by simp [hl])] at htest
  obtain ⟨v, hv⟩ := hasKey_iff.mp htest
  refine ⟨l₁, l₂, hl, by simpa using hpr, ?_⟩
  unfold Table.view at hv
  dsimp only at hv
  split at hv
  · cases hv
  · rename_i hz
    exact ⟨hz, congrArg Prod.fst (Option.some.inj hv)⟩

/-- The result of adding an entry, as a `put` on the layout. What is left of earlier action
data shows only when the entry has none of its own. -/
def AddsAs (t : Table) (exts : Nat → List Nat) (e : TableEntry) (r : Table × Int) : Prop :=
  ∃ leftover exts',
    (∀ v, (t.layout exts).get t.home (t.maskedKey e.key) = some v → leftover = v.2) ∧
    r.2 = (if ((t.layout exts).put t.home (t.maskedKey e.key)
      (e.value t.params.actionDataSize leftover)).2 then 0 else -ENOSPC) ∧
    Inv r.1 exts' ∧
    r.1.layout exts' = ((t.layout exts).put t.home (t.maskedKey e.key)
      (e.value t.params.actionDataSize leftover)).1

/-- The key is there: its data is overwritten. -/
theorem addsAs_found {e : TableEntry} (hk : t.findKey e.key = some (pr, bkt, i)) :
    AddsAs t exts e (t.bktKeyDataUpdate bkt e i, 0) := by
  have hb := hi.home_lt (t.maskedKey e.key)
  obtain ⟨l₁, l₂, hl, -, hlive, hkey⟩ := found_slot hi hk
  have hbkt : bkt ∈ chainOf exts (t.home (t.maskedKey e.key)) := by simp [hl]
  have hview := fun b' (hb' : b' < t.nBuckets.toNat) q hq =>
    update_view (e := e) (q := q) hi.stored hb hb' hbkt hq hlive
  have hlay : (t.bktKeyDataUpdate bkt e i).layout exts = _ :=
    layout_eq (t := t) _ rfl hb (List.map_congr_left (hview _ hb))
      (fun b' hb' hne => map_view_other hi.linked hb hb' hne hbkt (hview b' hb'))
  refine ⟨((t.data ((t.buckets bkt).keyId i)).value t.params.actionDataSize).2, exts, ?_, ?_, ?_, ?_⟩
  · intro v hv
    rw [findKey_eq hi] at hk
    rw [Store.get, layout_chain hb,
      find_map_some (fun p hp i => bktKeycmp_view hi hb hp e.key i) hk] at hv
    simp only [Table.view, hlive, if_false, Option.map_some, Option.some.injEq] at hv
    rw [← hv]
  · rw [put_found hi hk]
    rfl
  · exact ⟨hi.keySize, hi.pos, ⟨hi.linked.chains, hi.linked.exts_perm⟩,
      ⟨hi.stored.keys_perm, hi.stored.signed⟩⟩
  · rw [put_found hi hk, ← write_value, hlay, hkey]
    rfl

/-- No value shows under a key that was not found. -/
theorem get_of_not_found {key : Bytes} (hk : t.findKey key = none) :
    (t.layout exts).get t.home (t.maskedKey key) = none := by
  have hb := hi.home_lt (t.maskedKey key)
  rw [findKey_eq hi] at hk
  rw [Store.get, layout_chain hb]
  exact find_map_none (fun p hp i => bktKeycmp_view hi hb hp key i) hk

/-- No room: the table is left alone. -/
theorem addsAs_refused {e : TableEntry} (hk : t.findKey e.key = none)
    (hput : ∀ v, (t.layout exts).put t.home (t.maskedKey e.key) v = (t.layout exts, false)) :
    AddsAs t exts e (t, -ENOSPC) := by
  refine ⟨[], exts, fun v hv => ?_, ?_, hi, ?_⟩
  · rw [get_of_not_found hi hk] at hv
    cases hv
  · rw [hput]
    rfl
  · rw [hput]

/-- A free position takes a key slot off the stack. -/
theorem addsAs_free {e : TableEntry} {id : Nat} {rest : List Nat} (hk : t.findKey e.key = none)
    (hf : t.findFree exts (t.home (t.maskedKey e.key)) = some (pr, bkt, i))
    (hst : t.keyStack = id :: rest) : AddsAs t exts e (t.install rest bkt e i id, 0) := by
  have hb := hi.home_lt (t.maskedKey e.key)
  obtain ⟨l₁, l₂, hl, -, htest⟩ := searchChain_some hf
  have hbkt : bkt ∈ chainOf exts (t.home (t.maskedKey e.key)) := by simp [hl]
  have hfree : (t.buckets bkt).sig i = 0 := by simpa [bktKeyIsEmpty] using htest
  have hview := fun b' (hb' : b' < t.nBuckets.toNat) (q : BktPtr) hq =>
    install_view (q := q) bkt i e hi.stored hb' hq hst
  have hlay : (t.install rest bkt e i id).layout exts = _ :=
    layout_eq (t := t) _ rfl hb (List.map_congr_left (hview _ hb))
      (fun b' hb' hne => map_view_other hi.linked hb hb' hne hbkt (hview b' hb'))
  have hput : ∀ v, (t.layout exts).put t.home (t.maskedKey e.key) v =
      (⟨Function.update (t.layout exts).chains (t.home (t.maskedKey e.key))
        ((chainOf exts (t.home (t.maskedKey e.key))).map (Function.update t.view bkt
          (Function.update (t.view bkt) i (some (t.maskedKey e.key, v))))),
        rest.length, t.bktExtStack.length⟩, true) := fun v => by
    have hfree' := replaceFirst_map_some (some (t.maskedKey e.key, v))
      (hi.linked.chainOf_nodup hb) (fun p _ i => isEmpty_view p i) hf
    unfold Store.put
    rw [put_not_found hi hk, layout_chain hb, hfree']
    simp [Table.layout, hst]
  refine ⟨((t.data id).value t.params.actionDataSize).2, exts, fun v hv => ?_, ?_, ?_, ?_⟩
  · rw [get_of_not_found hi hk] at hv
    cases hv
  · rw [hput]
    rfl
  · exact ⟨hi.keySize, hi.pos, hi.linked.install,
      Stored.install hi.linked hi.stored hb hbkt hfree hst⟩
  · rw [hput, ← write_value, hlay]
    rfl

/-- A full chain is extended. -/
theorem addsAs_extend {e : TableEntry} {id x : Nat} {rest exts₀ : List Nat} {bktPrev : BktPtr}
    (hk : t.findKey e.key = none) (hf : t.findFree exts (t.home (t.maskedKey e.key)) = none)
    (hst : t.keyStack = id :: rest) (hxst : t.bktExtStack = x :: exts₀)
    (hlast : (chainOf exts (t.home (t.maskedKey e.key))).getLast? = some bktPrev) :
    AddsAs t exts e ((t.linkExt exts₀ bktPrev x).install rest (.ext x) e 0 id, 0) := by
  have hb := hi.home_lt (t.maskedKey e.key)
  have hl := linkExt_linked hi.linked hb hxst hlast
  obtain ⟨hs, hids⟩ := linkExt_stored hi.linked hi.stored hb hxst hlast
  have hxfree : ∀ b' < t.nBuckets.toNat, .ext x ∉ chainOf exts b' := fun b' hb' h => by
    have := hi.linked.ext_free hb' (x := x) (by simp [hxst])
    simp [chainOf, this] at h
  have hprev : bktPrev ≠ .ext x :=
    ne_of_mem_of_not_mem (List.mem_of_getLast? hlast) (hxfree _ hb)
  have hxmem : .ext x ∈ chainOf (addExt exts (t.home (t.maskedKey e.key)) x)
      (t.home (t.maskedKey e.key)) := by
    rw [chainOf_addExt_self]
    simp
  have hview := fun b' (hb' : b' < t.nBuckets.toNat) (q : BktPtr) hq =>
    install_view (q := q) (.ext x) 0 e hs hb' hq hst
  have hold : ∀ b' < t.nBuckets.toNat, ∀ q ∈ chainOf exts b',
      q ∈ chainOf (addExt exts (t.home (t.maskedKey e.key)) x) b' →
      ((t.linkExt exts₀ bktPrev x).install rest (.ext x) e 0 id).view q = t.view q := by
    intro b' hb' q hq hq'
    have hqx : q ≠ .ext x := ne_of_mem_of_not_mem hq (hxfree b' hb')
    rw [hview b' hb' q hq', Function.update_of_ne hqx]
    exact view_congr rfl rfl rfl rfl (linkExt_slots hqx)
  have hnew : ((t.linkExt exts₀ bktPrev x).install rest (.ext x) e 0 id).view (.ext x) =
      single (t.maskedKey e.key)
        (((t.data id).write e t.params.actionDataSize).value t.params.actionDataSize) := by
    have hzero : (t.linkExt exts₀ bktPrev x).view (.ext x) = fun _ => none := by
      funext j
      simp [Table.view, linkExt_ext hprev, BucketExtension.zero]
    rw [hview _ hb _ hxmem, Function.update_self, hzero]
    rfl
  have hself : (chainOf (addExt exts (t.home (t.maskedKey e.key)) x)
      (t.home (t.maskedKey e.key))).map
        ((t.linkExt exts₀ bktPrev x).install rest (.ext x) e 0 id).view =
      (chainOf exts (t.home (t.maskedKey e.key))).map t.view ++ [single (t.maskedKey e.key)
        (((t.data id).write e t.params.actionDataSize).value t.params.actionDataSize)] := by
    rw [chainOf_addExt_self, List.map_append, List.map_singleton, hnew,
      List.map_congr_left fun q hq => hold _ hb q hq (by
        rw [chainOf_addExt_self]
        exact List.mem_append_left _ hq)]
  have hother : ∀ b' < t.nBuckets.toNat, b' ≠ t.home (t.maskedKey e.key) →
      (chainOf (addExt exts (t.home (t.maskedKey e.key)) x) b').map
        ((t.linkExt exts₀ bktPrev x).install rest (.ext x) e 0 id).view =
      (chainOf exts b').map t.view := fun b' hb' hne => by
    rw [chainOf_addExt_of_ne hne,
      List.map_congr_left fun q hq => hold b' hb' q hq (by rwa [chainOf_addExt_of_ne hne])]
  have hlay := layout_eq (t := t) ((t.linkExt exts₀ bktPrev x).install rest (.ext x) e 0 id) rfl hb
    hself hother
  have hput : ∀ v, (t.layout exts).put t.home (t.maskedKey e.key) v =
      (⟨Function.update (t.layout exts).chains (t.home (t.maskedKey e.key))
        ((chainOf exts (t.home (t.maskedKey e.key))).map t.view ++ [single (t.maskedKey e.key) v]),
        rest.length, exts₀.length⟩, true) := fun v => by
    have hfull : replaceFirst Option.isNone (some (t.maskedKey e.key, v))
        ((chainOf exts (t.home (t.maskedKey e.key))).map t.view) = none :=
      replaceFirst_map_none (fun p _ i => isEmpty_view p i) hf
    unfold Store.put
    rw [put_not_found hi hk, layout_chain hb, hfull]
    simp [Table.layout, hst, hxst]
  refine ⟨((t.data id).value t.params.actionDataSize).2, addExt exts (t.home (t.maskedKey e.key)) x,
    fun v hv => ?_, ?_, ?_, ?_⟩
  · rw [get_of_not_found hi hk] at hv
    cases hv
  · rw [hput]
    rfl
  · exact ⟨hi.keySize, hi.pos, hl.install, Stored.install hl hs hb hxmem
      (by simp [linkExt_ext hprev, BucketExtension.zero]) hst⟩
  · rw [hput, ← write_value, hlay]
    rfl

/-- `table_add` is `put` on the layout. -/
theorem add_layout (e : TableEntry) : AddsAs t exts e (tableAdd t e) := by
  have hb := hi.home_lt (t.maskedKey e.key)
  have hhash := hash_eq hi.keySize e.key
  have hchain : t.chain (t.bktId (t.hashKey (t.maskedKey e.key))) =
      chainOf exts (t.home (t.maskedKey e.key)) := hi.linked.chain_eq hb
  have hrefused : t.findKey e.key = none →
      t.keyStack = [] ∨ t.findFree exts (t.home (t.maskedKey e.key)) = none ∧ t.bktExtStack = [] →
      AddsAs t exts e (t, -ENOSPC) := by
    intro hk hfull
    refine addsAs_refused hi hk fun v => ?_
    unfold Store.put
    rw [put_not_found hi hk, layout_chain hb]
    cases hr : replaceFirst Option.isNone (some (t.maskedKey e.key, v))
        ((chainOf exts (t.home (t.maskedKey e.key))).map t.view) with
    | none =>
      rcases hfull with hst | ⟨-, hxst⟩
      · simp [Table.layout, hst]
      · simp [Table.layout, hxst]
    | some l =>
      rcases hfull with hst | ⟨hf, -⟩
      · simp [Table.layout, hst]
      · rw [replaceFirst_map_none (fun p _ i => isEmpty_view p i) hf] at hr
        cases hr
  unfold tableAdd
  dsimp only
  rw [hhash, hchain]
  cases hk : t.findKey e.key with
  | some r =>
    obtain ⟨pr, bkt, i⟩ := r
    exact addsAs_found hi hk
  | none =>
    dsimp only
    cases hf : t.findFree exts (t.home (t.maskedKey e.key)) with
    | some r =>
      have hf' := hf
      unfold Table.findFree at hf'
      rw [hf']
      obtain ⟨pr, bkt, i⟩ := r
      dsimp only
      cases hst : t.keyStack with
      | nil => exact hrefused hk (Or.inl hst)
      | cons id rest => exact addsAs_free hi hk hf hst
    | none =>
      have hf' := hf
      unfold Table.findFree at hf'
      rw [hf']
      dsimp only
      cases hxst : t.bktExtStack with
      | nil => exact hrefused hk (Or.inr ⟨hf, hxst⟩)
      | cons x exts₀ =>
        cases hst : t.keyStack with
        | nil => exact hrefused hk (Or.inl hst)
        | cons id rest =>
          obtain ⟨bktPrev, hlast⟩ : ∃ p, (chainOf exts (t.home (t.maskedKey e.key))).getLast? = some p :=
            ⟨_, List.getLast?_eq_some_getLast (List.cons_ne_nil _ _)⟩
          have hsig : (t.linkExt exts₀ bktPrev x).hashKey
              ((t.linkExt exts₀ bktPrev x).maskedKey e.key) = t.hashKey (t.maskedKey e.key) := rfl
          have hext := addsAs_extend hi hk hf hst hxst hlast
          unfold Table.install at hext
          rw [hsig] at hext
          rw [hlast]
          exact hext

/-! ## del -/

/-- The result of deleting a key, as a `remove` on the layout. -/
def DeletesAs (t : Table) (exts : Nat → List Nat) (e : TableEntry) (r : Table × Int) : Prop :=
  r.2 = 0 ∧ ∃ exts', Inv r.1 exts' ∧
    r.1.layout exts' = (t.layout exts).remove t.home (t.maskedKey e.key)

theorem deletesAs_absent {e : TableEntry} (hk : t.findKey e.key = none) :
    DeletesAs t exts e (t, 0) := by
  have hb := hi.home_lt (t.maskedKey e.key)
  have hk' := hk
  rw [findKey_eq hi] at hk'
  refine ⟨rfl, exts, hi, ?_⟩
  unfold Store.remove
  rw [layout_chain hb,
    removeKey_map_none (fun p hp i => bktKeycmp_view hi hb hp e.key i) hk']

/-- The position freed, seen on the layout. -/
theorem remove_found {key : Bytes} (hk : t.findKey key = some (pr, bkt, i)) :
    (t.layout exts).remove t.home (t.maskedKey key) =
      if pr.isSome ∧ isEmpty ((t.keyFree bkt i).view bkt) = true then
        ⟨Function.update (t.layout exts).chains (t.home (t.maskedKey key))
          (((chainOf exts (t.home (t.maskedKey key))).erase bkt).map t.view),
          t.keyStack.length + 1, t.bktExtStack.length + 1⟩
      else
        ⟨Function.update (t.layout exts).chains (t.home (t.maskedKey key))
          ((chainOf exts (t.home (t.maskedKey key))).map (t.keyFree bkt i).view),
          t.keyStack.length + 1, t.bktExtStack.length⟩ := by
  have hb := hi.home_lt (t.maskedKey key)
  have hview : (t.keyFree bkt i).view =
      Function.update t.view bkt (Function.update (t.view bkt) i none) :=
    funext fun q => keyFree_view
  rw [findKey_eq hi] at hk
  have hrem := removeKey_map_some (hi.linked.chainOf_nodup hb)
    (fun p hp i => bktKeycmp_view hi hb hp key i) hk
  rw [Option.isNone_none] at hrem
  rw [hview, Function.update_self]
  unfold Store.remove
  rw [layout_chain hb, hrem]
  by_cases hdrop : pr.isSome ∧ isEmpty (Function.update (t.view bkt) i none) = true
  · rw [if_pos hdrop, if_pos hdrop]
    rfl
  · rw [if_neg hdrop, if_neg hdrop]
    rfl

/-- The bucket stays in its chain. -/
theorem deletesAs_kept {e : TableEntry} (hk : t.findKey e.key = some (pr, bkt, i))
    (hstay : ¬(pr.isSome ∧ isEmpty ((t.keyFree bkt i).view bkt) = true)) :
    DeletesAs t exts e (t.keyFree bkt i, 0) := by
  have hb := hi.home_lt (t.maskedKey e.key)
  obtain ⟨l₁, l₂, hl, -, hlive, -⟩ := found_slot hi hk
  have hbkt : bkt ∈ chainOf exts (t.home (t.maskedKey e.key)) := by simp [hl]
  have hlay := layout_eq (t := t) (t.keyFree bkt i) rfl hb rfl
    (fun b' hb' hne => map_view_other hi.linked hb hb' hne hbkt fun q _ => keyFree_view)
  refine ⟨rfl, exts, ⟨hi.keySize, hi.pos, hi.linked.keyFree bkt i,
    Stored.keyFree hi.linked hi.stored hb hbkt hlive⟩, ?_⟩
  rw [remove_found hi hk, if_neg hstay, hlay]
  rfl

/-- The bucket was an extension, and is empty now: it is unlinked. -/
theorem deletesAs_dropped {e : TableEntry} {bktPrev : BktPtr} {x : Nat}
    (hk : t.findKey e.key = some (some bktPrev, .ext x, i))
    (hempty : isEmpty ((t.keyFree (.ext x) i).view (.ext x)) = true) :
    DeletesAs t exts e ((t.keyFree (.ext x) i).unlinkExt bktPrev x, 0) := by
  have hb := hi.home_lt (t.maskedKey e.key)
  obtain ⟨l₁, l₂, hl, hpr, hlive, -⟩ := found_slot hi hk
  have hbkt : .ext x ∈ chainOf exts (t.home (t.maskedKey e.key)) := by simp [hl]
  have hnodup := hi.linked.chainOf_nodup hb
  have hlinked := hi.linked.keyFree (.ext x) i
  have hstored := Stored.keyFree hi.linked hi.stored hb hbkt hlive
  have hnone : liveIn ((t.keyFree (.ext x) i).buckets (.ext x)) = [] := by
    rw [liveIn_eq_nil, bktIsEmpty_view, hempty]
  have hview : ∀ q, q ≠ .ext x →
      ((t.keyFree (.ext x) i).unlinkExt bktPrev x).view q = t.view q := fun q hq => by
    have hcongr : ((t.keyFree (.ext x) i).unlinkExt bktPrev x).view q =
        (t.keyFree (.ext x) i).view q := view_congr rfl rfl rfl rfl (unlinkExt_slots q)
    rw [hcongr, keyFree_view, Function.update_of_ne hq]
  have herase : chainOf (dropExt exts (t.home (t.maskedKey e.key)) x)
      (t.home (t.maskedKey e.key)) =
        (chainOf exts (t.home (t.maskedKey e.key))).erase (.ext x) := by
    have hx : .ext x ∉ l₁ := fun hm => by
      rw [hl] at hnodup
      exact List.disjoint_of_nodup_append hnodup hm List.mem_cons_self
    rw [chainOf_dropExt_self hnodup hl, hl, List.erase_append_right _ hx, List.erase_cons_head]
  have hself : (chainOf (dropExt exts (t.home (t.maskedKey e.key)) x)
      (t.home (t.maskedKey e.key))).map ((t.keyFree (.ext x) i).unlinkExt bktPrev x).view =
        ((chainOf exts (t.home (t.maskedKey e.key))).erase (.ext x)).map t.view := by
    rw [herase]
    exact List.map_congr_left fun q hq => hview q fun h => hnodup.not_mem_erase (h ▸ hq)
  have hother : ∀ b' < t.nBuckets.toNat, b' ≠ t.home (t.maskedKey e.key) →
      (chainOf (dropExt exts (t.home (t.maskedKey e.key)) x) b').map
        ((t.keyFree (.ext x) i).unlinkExt bktPrev x).view =
      (chainOf exts b').map t.view := fun b' hb' hne => by
    rw [chainOf_dropExt_of_ne hne]
    refine List.map_congr_left fun q hq => hview q fun h => ?_
    rw [h] at hq
    exact hne (hi.linked.chain_unique hb' hb hq hbkt)
  have hlay := layout_eq (t := t) ((t.keyFree (.ext x) i).unlinkExt bktPrev x) rfl hb hself hother
  refine ⟨rfl, dropExt exts (t.home (t.maskedKey e.key)) x, ⟨hi.keySize, hi.pos,
    unlinkExt_linked hlinked hb hl hpr.symm, (unlinkExt_stored hlinked hstored hb hl hnone).1⟩, ?_⟩
  rw [remove_found hi hk, if_pos ⟨rfl, hempty⟩, hlay]
  rfl

/-- `table_del` is `remove` on the layout. -/
theorem del_layout (e : TableEntry) : DeletesAs t exts e (tableDel t e) := by
  unfold tableDel
  cases hk : t.findKey e.key with
  | none => exact deletesAs_absent hi hk
  | some r =>
    obtain ⟨pr, bkt, i⟩ := r
    dsimp only
    cases pr with
    | none => exact deletesAs_kept hi hk fun h => by cases h.1
    | some bktPrev =>
      cases bkt with
      | bucket b =>
        -- the first bucket of a chain has none before it
        obtain ⟨l₁, l₂, hl, hpr, -, -⟩ := found_slot hi hk
        cases l₁ with
        | nil => cases hpr
        | cons c l₁ =>
          have hmem : BktPtr.bucket b ∈ (exts (t.home (t.maskedKey e.key))).map BktPtr.ext := by
            rw [(List.cons.inj hl).2]
            simp
          obtain ⟨x, -, hx⟩ := List.mem_map.mp hmem
          cases hx
      | ext x =>
        dsimp only
        rw [bktIsEmpty_view]
        split
        · rename_i hempty
          exact deletesAs_dropped hi hk hempty
        · rename_i hempty
          exact deletesAs_kept hi hk fun h => hempty h.2

end

end P4Switch.Tables
