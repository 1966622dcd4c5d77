import P4Switch.Tables.Stored

/-! # The representation invariant

Each change the operations make, and that the invariant survives it: a bucket extension
linked in or unlinked, a key installed or freed. -/
namespace P4Switch.Tables
open P4Switch.Lib.LinkedChain P4Switch.Lib.Words P4Switch.Lib.Partition

variable {t t' : Table} {exts exts' : Nat → List Nat}

/-- The buckets are linked along `exts`; an extension not in use is on its stack. -/
structure Linked (t : Table) (exts : Nat → List Nat) : Prop where
  chains : ∀ b < t.nBuckets.toNat, Chain t.next (some (.bucket b)) (chainOf exts b) none
  exts_perm : ((List.range t.nBuckets.toNat).flatMap exts ++ t.bktExtStack).Perm
    (List.range t.nBucketsExt)

/-- The keys in use and the stack share out the key slots; a key lies under its signature. -/
structure Stored (t : Table) (exts : Nat → List Nat) : Prop where
  keys_perm : ((List.range t.nBuckets.toNat).flatMap (fun b => t.ids (chainOf exts b)) ++
    t.keyStack).Perm (List.range t.params.nKeysMax.toNat)
  signed : ∀ b < t.nBuckets.toNat, ∀ bkt ∈ chainOf exts b, ∀ i, (t.buckets bkt).sig i ≠ 0 →
    (t.buckets bkt).sig i =
      (inputSig (t.hashKey (t.storedKey ((t.buckets bkt).keyId i)))).toUInt16

structure Inv (t : Table) (exts : Nat → List Nat) : Prop where
  keySize : KeySize t.keySize
  pos : 0 < t.nBuckets.toNat
  linked : Linked t exts
  stored : Stored t exts

/-! ## Chains -/

theorem Linked.exts_nodup (hl : Linked t exts) :
    ((List.range t.nBuckets.toNat).flatMap exts ++ t.bktExtStack).Nodup :=
  hl.exts_perm.nodup_iff.mpr List.nodup_range

theorem Linked.nodup (hl : Linked t exts) {b : Nat} (hb : b < t.nBuckets.toNat) : (exts b).Nodup :=
  (List.nodup_flatMap.mp (List.nodup_append.mp hl.exts_nodup).1).1 b (List.mem_range.mpr hb)

theorem Linked.ext_unique (hl : Linked t exts) {b b' x : Nat} (hb : b < t.nBuckets.toNat)
    (hb' : b' < t.nBuckets.toNat) (hx : x ∈ exts b) (hx' : x ∈ exts b') : b = b' :=
  eq_of_mem_flatMap (List.nodup_append.mp hl.exts_nodup).1 (List.mem_range.mpr hb)
    (List.mem_range.mpr hb') hx hx'

theorem Linked.ext_free (hl : Linked t exts) {b x : Nat} (hb : b < t.nBuckets.toNat)
    (hx : x ∈ t.bktExtStack) : x ∉ exts b := fun h =>
  List.disjoint_of_nodup_append hl.exts_nodup
    (List.mem_flatMap.mpr ⟨b, List.mem_range.mpr hb, h⟩) hx

theorem mem_chainOf {b : Nat} {bkt : BktPtr} :
    bkt ∈ chainOf exts b ↔ bkt = .bucket b ∨ ∃ x ∈ exts b, bkt = .ext x := by
  simp [chainOf, eq_comm]

theorem Linked.chainOf_nodup (hl : Linked t exts) {b : Nat} (hb : b < t.nBuckets.toNat) :
    (chainOf exts b).Nodup := by
  refine List.nodup_cons.mpr ⟨?_, (hl.nodup hb).map fun x y h => by cases h; rfl⟩
  simp

theorem Linked.chain_unique (hl : Linked t exts) {b b' : Nat} {bkt : BktPtr}
    (hb : b < t.nBuckets.toNat) (hb' : b' < t.nBuckets.toNat) (h : bkt ∈ chainOf exts b)
    (h' : bkt ∈ chainOf exts b') : b = b' := by
  rcases mem_chainOf.mp h with rfl | ⟨x, hx, rfl⟩
  · rcases mem_chainOf.mp h' with he | ⟨x, -, he⟩
    · cases he
      rfl
    · cases he
  · rcases mem_chainOf.mp h' with he | ⟨y, hy, he⟩
    · cases he
    · cases he
      exact hl.ext_unique hb hb' hx hy

/-- The fuel of the loops is enough: they visit the whole chain. -/
theorem Linked.chain_eq (hl : Linked t exts) {b : Nat} (hb : b < t.nBuckets.toNat) :
    t.chain b = chainOf exts b := by
  refine (hl.chains b hb).walk_eq ?_
  have hsub : exts b ⊆ List.range t.nBucketsExt := fun x hx =>
    hl.exts_perm.subset (List.mem_append_left _ (List.mem_flatMap.mpr ⟨b, List.mem_range.mpr hb, hx⟩))
  have hlen := (List.subperm_of_subset (hl.nodup hb) hsub).length_le
  simp only [List.length_range] at hlen
  simp only [chainOf, List.length_cons, List.length_map]
  exact Nat.succ_le_succ hlen

/-! ## Keys in use -/

theorem Stored.ids_nodup (hs : Stored t exts) :
    ((List.range t.nBuckets.toNat).flatMap (fun b => t.ids (chainOf exts b)) ++ t.keyStack).Nodup :=
  hs.keys_perm.nodup_iff.mpr List.nodup_range

theorem Stored.id_unique (hs : Stored t exts) {b b' id : Nat} (hb : b < t.nBuckets.toNat)
    (hb' : b' < t.nBuckets.toNat) (h : id ∈ t.ids (chainOf exts b))
    (h' : id ∈ t.ids (chainOf exts b')) : b = b' :=
  eq_of_mem_flatMap (f := fun b => t.ids (chainOf exts b)) (List.nodup_append.mp hs.ids_nodup).1
    (List.mem_range.mpr hb) (List.mem_range.mpr hb') h h'

theorem Stored.id_free (hs : Stored t exts) {b id : Nat} (hb : b < t.nBuckets.toNat)
    (hid : id ∈ t.keyStack) : id ∉ t.ids (chainOf exts b) := fun h =>
  List.disjoint_of_nodup_append hs.ids_nodup
    (List.mem_flatMap.mpr ⟨b, List.mem_range.mpr hb, h⟩) hid

/-- A key slot in use is in use at one position. -/
theorem Stored.slot_unique (hs : Stored t exts) {b b' : Nat} {p q : BktPtr} {i j : BktPos}
    (hb : b < t.nBuckets.toNat) (hb' : b' < t.nBuckets.toNat) (hp : p ∈ chainOf exts b)
    (hq : q ∈ chainOf exts b') (hi : (t.buckets p).sig i ≠ 0) (hj : (t.buckets q).sig j ≠ 0)
    (h : (t.buckets p).keyId i = (t.buckets q).keyId j) : p = q ∧ i = j := by
  have hmem : (t.buckets p).keyId i ∈ t.ids (chainOf exts b) := mem_ids.mpr ⟨p, hp, i, hi, rfl⟩
  have hmem' : (t.buckets p).keyId i ∈ t.ids (chainOf exts b') :=
    mem_ids.mpr ⟨q, hq, j, hj, h.symm⟩
  obtain rfl := hs.id_unique hb hb' hmem hmem'
  have hn := (List.nodup_flatMap.mp (List.nodup_append.mp hs.ids_nodup).1).1 b (List.mem_range.mpr hb)
  have hpq : p = q := eq_of_mem_flatMap hn hp hq (mem_liveIn.mpr ⟨i, hi, rfl⟩)
    (mem_liveIn.mpr ⟨j, hj, h.symm⟩)
  subst hpq
  have hn' := (List.nodup_flatMap.mp hn).1 p hp
  refine ⟨rfl, eq_of_mem_flatMap hn' (List.mem_finRange i) (List.mem_finRange j)
    (x := (t.buckets p).keyId i) ?_ ?_⟩
  · simp [hi]
  · simp [hj, h]

/-- The stored keys seen through another list of buckets with the same keys in use. -/
theorem Stored.transfer (hs : Stored t exts) (hp : t'.params = t.params) (hz : t'.keySize = t.keySize)
    (hn : t'.nBuckets = t.nBuckets) (hk : t'.keys = t.keys) (hst : t'.keyStack = t.keyStack)
    (hids : ∀ b < t.nBuckets.toNat, t'.ids (chainOf exts' b) = t.ids (chainOf exts b))
    (hslot : ∀ b < t.nBuckets.toNat, ∀ bkt ∈ chainOf exts' b, ∀ i, (t'.buckets bkt).sig i ≠ 0 →
      bkt ∈ chainOf exts b ∧ (t'.buckets bkt).sig i = (t.buckets bkt).sig i ∧
        (t'.buckets bkt).keyId i = (t.buckets bkt).keyId i) : Stored t' exts' where
  keys_perm := by
    rw [hn, hst, hp, List.flatMap_congr fun b hb => hids b (List.mem_range.mp hb)]
    exact hs.keys_perm
  signed := by
    intro b hb bkt hbkt i hi
    rw [hn] at hb
    obtain ⟨hmem, hsig, hid⟩ := hslot b hb bkt hbkt i hi
    have := hs.signed b hb bkt hmem i (hsig ▸ hi)
    simp only [Table.hashKey, Table.storedKey, hz, hk, hsig, hid] at this ⊢
    exact this

/-! ## A key installed -/

section
variable {b id : Nat} {rest : List Nat} {bkt : BktPtr} {i : BktPos} {e : TableEntry}

/-- The table with the key slot `id` taken off the stack and filled. -/
def Table.install (t : Table) (rest : List Nat) (bkt : BktPtr) (e : TableEntry) (i : BktPos)
    (id : Nat) : Table :=
  { t with keyStack := rest }.bktKeyInstall bkt e i id (inputSig (t.hashKey (t.maskedKey e.key)))

theorem install_storedKey_self : (t.install rest bkt e i id).storedKey id = t.maskedKey e.key := by
  refine List.map_congr_left fun j hj => ?_
  have hj : j < t.keySize / 8 := List.mem_range.mp hj
  simp [Table.install, Table.bktKeyInstall, keycpy, hj]

theorem install_storedKey_of_ne {id' : Nat} (h : id' ≠ id) :
    (t.install rest bkt e i id).storedKey id' = t.storedKey id' := by
  simp [Table.storedKey, Table.install, Table.bktKeyInstall, Table.setBucket,
    Function.update_of_ne h]

theorem install_buckets_of_ne {p : BktPtr} (h : p ≠ bkt) :
    (t.install rest bkt e i id).buckets p = t.buckets p :=
  Function.update_of_ne h _ _

theorem install_liveIn (hi : (t.buckets bkt).sig i = 0) :
    (liveIn ((t.install rest bkt e i id).buckets bkt)).Perm ([id] ++ liveIn (t.buckets bkt)) := by
  have h : (t.install rest bkt e i id).buckets bkt =
      { t.buckets bkt with
        sig := Function.update (t.buckets bkt).sig i
          (inputSig (t.hashKey (t.maskedKey e.key))).toUInt16
        keyId := Function.update (t.buckets bkt).keyId i id } := Function.update_self _ _ _
  rw [h]
  exact liveIn_install hi (inputSig_ne_zero _) id

theorem install_next : (t.install rest bkt e i id).next = t.next := by
  funext p
  by_cases h : p = bkt
  · subst h
    simp [Table.next, Table.install, Table.bktKeyInstall, Table.setBucket]
  · rw [Table.next, install_buckets_of_ne h, Table.next]

theorem Linked.install (hl : Linked t exts) : Linked (t.install rest bkt e i id) exts where
  chains := fun b hb => by
    rw [install_next]
    exact hl.chains b hb
  exts_perm := hl.exts_perm

theorem install_ids (hl : Linked t exts) (hb : b < t.nBuckets.toNat) (hbkt : bkt ∈ chainOf exts b)
    (hi : (t.buckets bkt).sig i = 0) :
    ((t.install rest bkt e i id).ids (chainOf exts b)).Perm (id :: t.ids (chainOf exts b)) :=
  ids_change (hl.chainOf_nodup hb) hbkt (fun _ hp => install_buckets_of_ne hp) (install_liveIn hi)

theorem install_ids_other (hl : Linked t exts) (hb : b < t.nBuckets.toNat)
    (hbkt : bkt ∈ chainOf exts b) {b' : Nat} (hb' : b' < t.nBuckets.toNat) (hne : b' ≠ b) :
    (t.install rest bkt e i id).ids (chainOf exts b') = t.ids (chainOf exts b') := by
  refine ids_congr fun p hp => congrArg liveIn (install_buckets_of_ne ?_)
  rintro rfl
  exact hne (hl.chain_unique hb' hb hp hbkt)

theorem Stored.install (hl : Linked t exts) (hs : Stored t exts) (hb : b < t.nBuckets.toNat)
    (hbkt : bkt ∈ chainOf exts b) (hi : (t.buckets bkt).sig i = 0)
    (hst : t.keyStack = id :: rest) :
    Stored (t.install rest bkt e i id) exts := by
  have hfree : ∀ b' < t.nBuckets.toNat, ∀ id' ∈ t.ids (chainOf exts b'), id' ≠ id := by
    rintro b' hb' id' hid' rfl
    exact hs.id_free hb' (by simp [hst]) hid'
  constructor
  · have hp := flatMap_gain (r := [id])
      (f := fun b => t.ids (chainOf exts b))
      (g := fun b => (t.install rest bkt e i id).ids (chainOf exts b))
      List.nodup_range (List.mem_range.mpr hb)
      (fun b' hb' hne => install_ids_other hl hb hbkt (List.mem_range.mp hb') hne)
      (install_ids hl hb hbkt hi)
    calc List.Perm _ ([id] ++ (List.range t.nBuckets.toNat).flatMap
            (fun b => t.ids (chainOf exts b)) ++ rest) := hp.append_right rest
      List.Perm _ _ := by
        have hk := hs.keys_perm
        rw [hst] at hk
        exact (List.perm_middle.symm).trans hk
  · intro b' hb' p hp j hj
    by_cases hpj : p = bkt ∧ j = i
    · obtain ⟨rfl, rfl⟩ := hpj
      obtain rfl := hl.chain_unique hb' hb hp hbkt
      have hid : ((t.install rest p e j id).buckets p).keyId j = id := by
        simp [Table.install, Table.bktKeyInstall, Table.setBucket]
      rw [hid, install_storedKey_self]
      simp [Table.install, Table.bktKeyInstall, Table.setBucket, Table.hashKey]
    · have hold : ((t.install rest bkt e i id).buckets p).sig j = (t.buckets p).sig j ∧
          ((t.install rest bkt e i id).buckets p).keyId j = (t.buckets p).keyId j := by
        by_cases hpb : p = bkt
        · subst hpb
          have hji : j ≠ i := fun h => hpj ⟨rfl, h⟩
          simp [Table.install, Table.bktKeyInstall, Table.setBucket, Function.update_of_ne hji]
        · rw [install_buckets_of_ne hpb]
          exact ⟨rfl, rfl⟩
      rw [hold.1] at hj
      have hlive : (t.buckets p).keyId j ∈ t.ids (chainOf exts b') :=
        mem_ids.mpr ⟨p, hp, j, hj, rfl⟩
      rw [hold.1, hold.2, install_storedKey_of_ne (hfree b' hb' _ hlive)]
      exact hs.signed b' hb' p hp j hj

end

/-! ## A key freed -/

section
variable {b : Nat} {bkt : BktPtr} {i : BktPos}

theorem keyFree_buckets_of_ne {p : BktPtr} (h : p ≠ bkt) :
    (t.keyFree bkt i).buckets p = t.buckets p := Function.update_of_ne h _ _

theorem keyFree_buckets_self : (t.keyFree bkt i).buckets bkt =
    { t.buckets bkt with sig := Function.update (t.buckets bkt).sig i 0 } :=
  Function.update_self _ _ _

/-- A position still in use is as it was. -/
theorem keyFree_slot {p : BktPtr} {j : BktPos} (hj : ((t.keyFree bkt i).buckets p).sig j ≠ 0) :
    ((t.keyFree bkt i).buckets p).sig j = (t.buckets p).sig j ∧
      ((t.keyFree bkt i).buckets p).keyId j = (t.buckets p).keyId j := by
  by_cases h : p = bkt
  · subst h
    by_cases hji : j = i
    · simp [keyFree_buckets_self, hji] at hj
    · simp [keyFree_buckets_self, Function.update_of_ne hji]
  · rw [keyFree_buckets_of_ne h]
    exact ⟨rfl, rfl⟩

theorem keyFree_next : (t.keyFree bkt i).next = t.next := by
  funext p
  by_cases h : p = bkt
  · subst h
    rw [Table.next, keyFree_buckets_self, Table.next]
  · rw [Table.next, keyFree_buckets_of_ne h, Table.next]

theorem Linked.keyFree (hl : Linked t exts) (bkt : BktPtr) (i : BktPos) :
    Linked (t.keyFree bkt i) exts where
  chains := fun b hb => by
    rw [keyFree_next]
    exact hl.chains b hb
  exts_perm := hl.exts_perm

theorem keyFree_ids (hl : Linked t exts) (hb : b < t.nBuckets.toNat) (hbkt : bkt ∈ chainOf exts b)
    (hi : (t.buckets bkt).sig i ≠ 0) :
    (t.ids (chainOf exts b)).Perm
      ((t.buckets bkt).keyId i :: (t.keyFree bkt i).ids (chainOf exts b)) := by
  refine ids_change (r := [(t.buckets bkt).keyId i]) (hl.chainOf_nodup hb) hbkt
    (fun _ hp => (keyFree_buckets_of_ne hp).symm) ?_
  rw [keyFree_buckets_self]
  exact liveIn_free hi

theorem keyFree_ids_other (hl : Linked t exts) (hb : b < t.nBuckets.toNat)
    (hbkt : bkt ∈ chainOf exts b) {b' : Nat} (hb' : b' < t.nBuckets.toNat) (hne : b' ≠ b) :
    (t.keyFree bkt i).ids (chainOf exts b') = t.ids (chainOf exts b') := by
  refine ids_congr fun p hp => congrArg liveIn (keyFree_buckets_of_ne ?_)
  rintro rfl
  exact hne (hl.chain_unique hb' hb hp hbkt)

theorem Stored.keyFree (hl : Linked t exts) (hs : Stored t exts) (hb : b < t.nBuckets.toNat)
    (hbkt : bkt ∈ chainOf exts b) (hi : (t.buckets bkt).sig i ≠ 0) :
    Stored (t.keyFree bkt i) exts := by
  constructor
  · have hp := flatMap_gain (r := [(t.buckets bkt).keyId i])
      (f := fun b => (t.keyFree bkt i).ids (chainOf exts b)) (g := fun b => t.ids (chainOf exts b))
      List.nodup_range (List.mem_range.mpr hb)
      (fun b' hb' hne => (keyFree_ids_other hl hb hbkt (List.mem_range.mp hb') hne).symm)
      (keyFree_ids hl hb hbkt hi)
    exact List.perm_middle.trans ((hp.append_right t.keyStack).symm.trans hs.keys_perm)
  · intro b' hb' p hp j hj
    obtain ⟨hsig, hkey⟩ := keyFree_slot hj
    rw [hsig, hkey]
    exact hs.signed b' hb' p hp j (hsig ▸ hj)

end

/-! ## A bucket extension linked in -/

section
variable {b x : Nat} {rest : List Nat} {bktPrev : BktPtr}

/-- The table with the extension `x` zeroed and linked behind `bktPrev`. -/
def Table.linkExt (t : Table) (rest : List Nat) (bktPrev : BktPtr) (x : Nat) : Table :=
  let t := { t with bktExtStack := rest }.setBucket (.ext x) .zero
  t.setBucket bktPrev { t.buckets bktPrev with next := some x }

/-- The extensions of `b` followed by `x`. -/
def addExt (exts : Nat → List Nat) (b x : Nat) : Nat → List Nat :=
  Function.update exts b (exts b ++ [x])

theorem chainOf_addExt_self : chainOf (addExt exts b x) b = chainOf exts b ++ [.ext x] := by
  simp [chainOf, addExt]

theorem chainOf_addExt_of_ne {b' : Nat} (h : b' ≠ b) :
    chainOf (addExt exts b x) b' = chainOf exts b' := by
  simp [chainOf, addExt, Function.update_of_ne h]

theorem linkExt_next (h : bktPrev ≠ .ext x) : (t.linkExt rest bktPrev x).next =
    Function.update (Function.update t.next (.ext x) none) bktPrev (some (.ext x)) := by
  funext p
  by_cases hp : p = bktPrev
  · subst hp
    simp [Table.next, Table.linkExt, Table.setBucket]
  · rw [Function.update_of_ne hp]
    by_cases hx : p = .ext x
    · subst hx
      simp [Table.next, Table.linkExt, Table.setBucket, Function.update_of_ne hp,
        BucketExtension.zero]
    · simp [Table.next, Table.linkExt, Table.setBucket, Function.update_of_ne hp,
        Function.update_of_ne hx]

theorem linkExt_ext (h : bktPrev ≠ .ext x) : (t.linkExt rest bktPrev x).buckets (.ext x) = .zero := by
  simp [Table.linkExt, Table.setBucket, Function.update_of_ne (Ne.symm h)]

/-- The keys of the other buckets are left alone. -/
theorem linkExt_slots {p : BktPtr} (hp : p ≠ .ext x) :
    ((t.linkExt rest bktPrev x).buckets p).sig = (t.buckets p).sig ∧
      ((t.linkExt rest bktPrev x).buckets p).keyId = (t.buckets p).keyId := by
  by_cases h : p = bktPrev
  · subst h
    simp [Table.linkExt, Table.setBucket, Function.update_of_ne hp]
  · simp [Table.linkExt, Table.setBucket, Function.update_of_ne hp, Function.update_of_ne h]

theorem liveIn_congr {b₁ b₂ : BucketExtension} (h : b₁.sig = b₂.sig ∧ b₁.keyId = b₂.keyId) :
    liveIn b₁ = liveIn b₂ := by
  simp [liveIn, h.1, h.2]

theorem liveIn_zero : liveIn .zero = [] := rfl

theorem linkExt_linked (hl : Linked t exts) (hb : b < t.nBuckets.toNat)
    (hst : t.bktExtStack = x :: rest) (hlast : (chainOf exts b).getLast? = some bktPrev) :
    Linked (t.linkExt rest bktPrev x) (addExt exts b x) := by
  have hx : ∀ b' < t.nBuckets.toNat, .ext x ∉ chainOf exts b' := by
    intro b' hb' h
    have hfree := hl.ext_free hb' (x := x) (by simp [hst])
    simp [chainOf, hfree] at h
  obtain ⟨l, hl'⟩ := List.getLast?_eq_some_iff.mp hlast
  have hmem : bktPrev ∈ chainOf exts b := by simp [hl']
  have hne : bktPrev ≠ .ext x := ne_of_mem_of_not_mem hmem (hx b hb)
  constructor
  · intro b' hb'
    rw [linkExt_next hne]
    by_cases hbb : b' = b
    · subst hbb
      rw [chainOf_addExt_self, hl']
      refine Chain.link ?_ ?_ ?_
      · rw [← hl']
        exact hl.chains b' hb'
      · rw [← hl']
        exact hl.chainOf_nodup hb'
      · rw [← hl']
        exact hx b' hb'
    · rw [chainOf_addExt_of_ne hbb]
      refine (hl.chains b' hb').congr fun p hp => ?_
      have hp₁ : p ≠ bktPrev := by
        rintro rfl
        exact hbb (hl.chain_unique hb' hb hp hmem)
      rw [Function.update_of_ne hp₁, Function.update_of_ne (ne_of_mem_of_not_mem hp (hx b' hb'))]
  · have hp := flatMap_gain (r := [x]) (f := exts) (g := addExt exts b x) List.nodup_range
      (List.mem_range.mpr hb) (fun b' _ hne => Function.update_of_ne hne _ _) (by
        simp only [addExt, Function.update_self]
        exact List.perm_append_comm)
    have hk := hl.exts_perm
    rw [hst] at hk
    exact (hp.append_right rest).trans (List.perm_middle.symm.trans hk)

theorem linkExt_stored (hl : Linked t exts) (hs : Stored t exts) (hb : b < t.nBuckets.toNat)
    (hst : t.bktExtStack = x :: rest) (hlast : (chainOf exts b).getLast? = some bktPrev) :
    Stored (t.linkExt rest bktPrev x) (addExt exts b x) ∧
      ∀ b' < t.nBuckets.toNat, (t.linkExt rest bktPrev x).ids (chainOf (addExt exts b x) b') =
        t.ids (chainOf exts b') := by
  have hx : ∀ b' < t.nBuckets.toNat, .ext x ∉ chainOf exts b' := by
    intro b' hb' h
    have hfree := hl.ext_free hb' (x := x) (by simp [hst])
    simp [chainOf, hfree] at h
  have hne : bktPrev ≠ .ext x := ne_of_mem_of_not_mem (List.mem_of_getLast? hlast) (hx b hb)
  have hold : ∀ b' < t.nBuckets.toNat, (t.linkExt rest bktPrev x).ids (chainOf exts b') =
      t.ids (chainOf exts b') := fun b' hb' =>
    ids_congr fun p hp => liveIn_congr (linkExt_slots (ne_of_mem_of_not_mem hp (hx b' hb')))
  have hids : ∀ b' < t.nBuckets.toNat,
      (t.linkExt rest bktPrev x).ids (chainOf (addExt exts b x) b') = t.ids (chainOf exts b') := by
    intro b' hb'
    by_cases hbb : b' = b
    · subst hbb
      rw [chainOf_addExt_self, ← hold b' hb']
      simp [Table.ids, linkExt_ext hne, liveIn_zero]
    · rw [chainOf_addExt_of_ne hbb, hold b' hb']
  refine ⟨hs.transfer rfl rfl rfl rfl rfl hids ?_, hids⟩
  intro b' hb' p hp j hj
  have hpx : p ≠ .ext x := by
    rintro rfl
    rw [linkExt_ext hne] at hj
    exact hj rfl
  refine ⟨?_, congrFun (linkExt_slots hpx).1 j, congrFun (linkExt_slots hpx).2 j⟩
  by_cases hbb : b' = b
  · subst hbb
    rw [chainOf_addExt_self] at hp
    simpa [hpx] using hp
  · rwa [chainOf_addExt_of_ne hbb] at hp

end

/-! ## An empty extension unlinked -/

section
variable {b x : Nat} {bktPrev : BktPtr}

/-- The table with the extension `x` behind `bktPrev` taken out. -/
def Table.unlinkExt (t : Table) (bktPrev : BktPtr) (x : Nat) : Table :=
  { t.setBucket bktPrev { t.buckets bktPrev with next := (t.buckets (.ext x)).next } with
    bktExtStack := x :: t.bktExtStack }

theorem unlinkExt_next :
    (t.unlinkExt bktPrev x).next = Function.update t.next bktPrev (t.next (.ext x)) := by
  funext p
  by_cases hp : p = bktPrev
  · subst hp
    simp [Table.next, Table.unlinkExt, Table.setBucket]
  · simp [Table.next, Table.unlinkExt, Table.setBucket, Function.update_of_ne hp]

theorem unlinkExt_slots (p : BktPtr) :
    ((t.unlinkExt bktPrev x).buckets p).sig = (t.buckets p).sig ∧
      ((t.unlinkExt bktPrev x).buckets p).keyId = (t.buckets p).keyId := by
  by_cases h : p = bktPrev
  · subst h
    simp [Table.unlinkExt, Table.setBucket]
  · simp [Table.unlinkExt, Table.setBucket, Function.update_of_ne h]

/-- The extensions of `b` without `x`. -/
def dropExt (exts : Nat → List Nat) (b x : Nat) : Nat → List Nat :=
  Function.update exts b ((exts b).erase x)

theorem chainOf_dropExt_of_ne {b' : Nat} (h : b' ≠ b) :
    chainOf (dropExt exts b x) b' = chainOf exts b' := by
  simp [chainOf, dropExt, Function.update_of_ne h]

/-- Where the extension lies, and the chain without it. -/
theorem chainOf_dropExt_self {l₁ l₂ : List BktPtr} (hn : (chainOf exts b).Nodup)
    (h : chainOf exts b = l₁ ++ .ext x :: l₂) :
    chainOf (dropExt exts b x) b = l₁ ++ l₂ := by
  have he : (chainOf exts b).erase (.ext x) = chainOf (dropExt exts b x) b := by
    rw [chainOf, List.erase_cons_tail (by simp), ← List.map_erase (fun _ _ h => BktPtr.ext.inj h)]
    simp [chainOf, dropExt]
  rw [h] at hn
  have hx : .ext x ∉ l₁ := fun hm =>
    List.disjoint_of_nodup_append hn hm List.mem_cons_self
  rw [← he, h, List.erase_append_right _ hx, List.erase_cons_head]

theorem unlinkExt_linked (hl : Linked t exts) (hb : b < t.nBuckets.toNat) {l₁ l₂ : List BktPtr}
    (h : chainOf exts b = l₁ ++ .ext x :: l₂) (hprev : l₁.getLast? = some bktPrev) :
    Linked (t.unlinkExt bktPrev x) (dropExt exts b x) := by
  obtain ⟨l₀, rfl⟩ := List.getLast?_eq_some_iff.mp hprev
  have hn := hl.chainOf_nodup hb
  have hmem : bktPrev ∈ chainOf exts b := by simp [h]
  have hx : x ∈ exts b := by
    have : BktPtr.ext x ∈ chainOf exts b := by simp [h]
    simpa [chainOf] using this
  constructor
  · intro b' hb'
    rw [unlinkExt_next]
    by_cases hbb : b' = b
    · subst hbb
      rw [chainOf_dropExt_self hn h, List.append_assoc]
      refine Chain.unlink (q := BktPtr.ext x) ?_ ?_
      · have := hl.chains b' hb'
        rw [h] at this
        simpa using this
      · rw [h] at hn
        simpa using hn
    · rw [chainOf_dropExt_of_ne hbb]
      refine (hl.chains b' hb').congr fun p hp => Function.update_of_ne ?_ _ _
      rintro rfl
      exact hbb (hl.chain_unique hb' hb hp hmem)
  · have hp := flatMap_gain (r := [x]) (f := dropExt exts b x) (g := exts) List.nodup_range
      (List.mem_range.mpr hb) (fun b' _ hne => (Function.update_of_ne hne _ _).symm) (by
        simp only [dropExt, Function.update_self]
        exact List.perm_cons_erase hx)
    exact List.perm_middle.trans ((hp.append_right t.bktExtStack).symm.trans hl.exts_perm)

theorem unlinkExt_stored (hl : Linked t exts) (hs : Stored t exts) (hb : b < t.nBuckets.toNat)
    {l₁ l₂ : List BktPtr} (h : chainOf exts b = l₁ ++ .ext x :: l₂)
    (hempty : liveIn (t.buckets (.ext x)) = []) :
    Stored (t.unlinkExt bktPrev x) (dropExt exts b x) ∧
      ∀ b' < t.nBuckets.toNat, (t.unlinkExt bktPrev x).ids (chainOf (dropExt exts b x) b') =
        t.ids (chainOf exts b') := by
  have hold : ∀ l, (t.unlinkExt bktPrev x).ids l = t.ids l := fun l =>
    ids_congr fun p _ => liveIn_congr (unlinkExt_slots p)
  have hids : ∀ b' < t.nBuckets.toNat,
      (t.unlinkExt bktPrev x).ids (chainOf (dropExt exts b x) b') = t.ids (chainOf exts b') := by
    intro b' hb'
    rw [hold]
    by_cases hbb : b' = b
    · subst hbb
      rw [chainOf_dropExt_self (hl.chainOf_nodup hb') h, h]
      simp [Table.ids, hempty]
    · rw [chainOf_dropExt_of_ne hbb]
  refine ⟨hs.transfer rfl rfl rfl rfl rfl hids ?_, hids⟩
  intro b' hb' p hp j hj
  refine ⟨?_, congrFun (unlinkExt_slots p).1 j, congrFun (unlinkExt_slots p).2 j⟩
  by_cases hbb : b' = b
  · subst hbb
    rw [chainOf_dropExt_self (hl.chainOf_nodup hb') h] at hp
    rw [h]
    rcases List.mem_append.mp hp with hp | hp
    · exact List.mem_append_left _ hp
    · exact List.mem_append_right _ (List.mem_cons_of_mem _ hp)
  · rwa [chainOf_dropExt_of_ne hbb] at hp

end

end P4Switch.Tables
