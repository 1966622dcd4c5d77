import P4Switch.Tables.KeyMap

/-! # The lookup in three visits

The lookup tables of `table_lookup` read a bucket's signatures correctly, so that its three
visits to a packet end as the plain lookup would. -/
namespace P4Switch.Tables
open P4Switch.Lib.LinkedChain P4Switch.Lib.Words P4Switch.Lib.Partition P4Switch.Lib.BucketChains

/-! ## The lookup tables -/

/-- The mask of the positions that match. -/
def bitsOf (b0 b1 b2 b3 : Bool) : UInt32 :=
  ((if b0 then 1 else 0) ||| (if b1 then 2 else 0)) |||
    ((if b2 then 4 else 0) ||| (if b3 then 8 else 0))

theorem lut_match : ∀ b0 b1 b2 b3 : Bool,
    sigMatch (bitsOf b0 b1 b2 b3) = 1 ↔ (b0 || b1 || b2 || b3) = true := by
  decide

/-- No two positions match. -/
theorem lut_match_many : ∀ b0 b1 b2 b3 : Bool, sigMatchMany (bitsOf b0 b1 b2 b3) = 0 →
    ∀ i j : Fin 4, ![b0, b1, b2, b3] i = true → ![b0, b1, b2, b3] j = true → i = j := by
  decide

theorem lut_match_pos : ∀ b0 b1 b2 b3 : Bool, (b0 || b1 || b2 || b3) = true →
    ![b0, b1, b2, b3] (sigMatchPos (bitsOf b0 b1 b2 b3)) = true := by
  decide

section
variable (b : BucketExtension) (s : UInt32)

/-- Does the signature at a position match? -/
def sigAt (i : BktPos) : Bool := s = (b.sig i).toUInt32

theorem maskAll_eq : maskAll b s = bitsOf (sigAt b s 0) (sigAt b s 1) (sigAt b s 2) (sigAt b s 3) := by
  have hbit : ∀ (i : BktPos) (bit : UInt32),
      (if s ^^^ (b.sig i).toUInt32 = 0 then bit else 0) = if sigAt b s i = true then bit else 0 := by
    intro i bit
    simp [sigAt]
  unfold maskAll
  simp only [hbit]
  rfl

theorem vec_sigAt (i : BktPos) : ![sigAt b s 0, sigAt b s 1, sigAt b s 2, sigAt b s 3] i = sigAt b s i := by
  fin_cases i <;> rfl

theorem sigMatch_iff : sigMatch (maskAll b s) = 1 ↔ ∃ i, sigAt b s i = true := by
  rw [maskAll_eq, lut_match]
  constructor
  · intro h
    simp only [Bool.or_eq_true] at h
    rcases h with ((h | h) | h) | h
    exacts [⟨0, h⟩, ⟨1, h⟩, ⟨2, h⟩, ⟨3, h⟩]
  · rintro ⟨i, hi⟩
    have hi := (vec_sigAt b s i).trans hi
    simp only [Bool.or_eq_true]
    fin_cases i
    exacts [Or.inl (Or.inl (Or.inl hi)), Or.inl (Or.inl (Or.inr hi)), Or.inl (Or.inr hi), Or.inr hi]

theorem sigMatchPos_spec (h : sigMatch (maskAll b s) = 1) :
    sigAt b s (sigMatchPos (maskAll b s)) = true := by
  rw [maskAll_eq] at h ⊢
  have hpos := lut_match_pos _ _ _ _ ((lut_match _ _ _ _).mp h)
  rwa [vec_sigAt] at hpos

theorem sigMatchMany_spec (h : sigMatchMany (maskAll b s) = 0) {i j : BktPos}
    (hi : sigAt b s i = true) (hj : sigAt b s j = true) : i = j := by
  rw [maskAll_eq] at h
  exact lut_match_many _ _ _ _ h i j ((vec_sigAt b s i).trans hi) ((vec_sigAt b s j).trans hj)

end

/-! ## The three visits -/

variable {t : Table} {exts : Nat → List Nat}

theorem bktKeycmp_eq (t : Table) (bkt : BktPtr) (key : Bytes) (i : BktPos) (s : UInt32) :
    t.bktKeycmp bkt key i s =
      (sigAt (t.buckets bkt) s i && keycmp (t.keys ((t.buckets bkt).keyId i)) key t.keyMask t.keySize) := by
  unfold Table.bktKeycmp sigAt
  dsimp only
  by_cases h : s = ((t.buckets bkt).sig i).toUInt32
  · rw [if_neg (not_not_intro h), decide_eq_true h, Bool.true_and]
  · rw [if_pos h, decide_eq_false h, Bool.false_and]

/-- The visits of a lookup, from the state of the mailbox on. -/
def visits (t : Table) (m : Mailbox) (key : Bytes) : Nat → Mailbox × Option (Option KeyData)
  | 0 => (m, none)
  | n + 1 => tableLookup t (visits t m key n).1 key

section
variable (m : Mailbox) (key : Bytes)

/-- A position of the first bucket that compares equal is what the search finds. -/
theorem findKey_first (hv : Valid t) {i : BktPos}
    (h : t.bktKeycmp (.bucket (t.bktId (hash (t.inputKey key) t.keyMask t.keySize 0)))
      (t.inputKey key) i (inputSig (hash (t.inputKey key) t.keyMask t.keySize 0)) = true) :
    t.findKey (t.inputKey key) =
      some (none, .bucket (t.bktId (hash (t.inputKey key) t.keyMask t.keySize 0)), i) := by
  obtain ⟨exts, hi⟩ := hv.linked
  have hb := hi.home_lt (t.maskedKey (t.inputKey key))
  rw [hash_eq hi.keySize] at h ⊢
  have hbkt : BktPtr.bucket (t.home (t.maskedKey (t.inputKey key))) ∈
      chainOf exts (t.home (t.maskedKey (t.inputKey key))) := List.mem_cons_self
  have hcmp := fun j => bktKeycmp_view hi hb hbkt (t.inputKey key) j
  have hn := hv.good.nodup (t.home (t.maskedKey (t.inputKey key)))
  rw [hi.store_eq, layout_chain hb] at hn
  have hmem := List.mem_map_of_mem (f := t.view) hbkt
  rw [findKey_eq hi, chainOf, searchChain]
  cases hf : (List.finRange KEYS_PER_BUCKET).find? fun j => t.bktKeycmp
      (.bucket (t.home (t.maskedKey (t.inputKey key)))) (t.inputKey key) j
      (inputSig (t.hashKey (t.maskedKey (t.inputKey key)))) with
  | none => exact absurd h (List.find?_eq_none.mp hf i (List.mem_finRange i))
  | some j =>
    have hj := List.find?_some hf
    have heq : j = i := position_unique hn hmem ((hcmp j).symm.trans hj) ((hcmp i).symm.trans h)
    rw [heq]
    rfl

/-- Without further buckets, the first one decides. -/
theorem findKey_alone (hv : Valid t)
    (hnext : (t.buckets (.bucket (t.bktId (hash (t.inputKey key) t.keyMask t.keySize 0)))).next =
      none)
    (h : ∀ i, t.bktKeycmp (.bucket (t.bktId (hash (t.inputKey key) t.keyMask t.keySize 0)))
      (t.inputKey key) i (inputSig (hash (t.inputKey key) t.keyMask t.keySize 0)) = false) :
    t.findKey (t.inputKey key) = none := by
  obtain ⟨exts, hi⟩ := hv.linked
  rw [hash_eq hi.keySize] at hnext h
  have hb := hi.home_lt (t.maskedKey (t.inputKey key))
  have hchain := hi.linked.chains _ hb
  have halone : exts (t.home (t.maskedKey (t.inputKey key))) = [] := by
    cases he : exts (t.home (t.maskedKey (t.inputKey key))) with
    | nil => rfl
    | cons x xs =>
      unfold chainOf at hchain
      rw [he] at hchain
      have hx := hchain.2.1
      unfold Table.next at hx
      unfold Table.home at hx
      rw [hnext] at hx
      cases hx
  rw [findKey_eq hi, chainOf, halone]
  refine searchChain_none.mpr fun bkt hbkt i => ?_
  rw [List.mem_singleton.mp hbkt]
  exact h i

theorem tableLookup_two (bkt : BktPtr) (s sm smm : UInt32) (id : Nat) :
    tableLookup t ⟨bkt, s, id, sm, smm, 2⟩ key =
      if (keycmp (t.keys id) (t.inputKey key) t.keyMask t.keySize && decide (sm = 1)) = true then
        (⟨bkt, s, id, sm, smm, 0⟩, some (some (t.data id)))
      else if smm ≠ 0 ∨ ((t.buckets bkt).next).isSome = true then
        (⟨bkt, s, id, sm, smm, 0⟩, some (tableLookupUnoptimized t key))
      else (⟨bkt, s, id, sm, smm, 0⟩, some none) := rfl

/-- The third visit, on what the first two left in the mailbox. -/
theorem third_visit (hv : Valid t) :
    let h := hash (t.inputKey key) t.keyMask t.keySize 0
    let b := t.buckets (.bucket (t.bktId h))
    let mask := maskAll b (inputSig h)
    tableLookup t ⟨.bucket (t.bktId h), inputSig h, b.keyId (sigMatchPos mask), sigMatch mask,
        sigMatchMany mask, 2⟩ key =
      (⟨.bucket (t.bktId h), inputSig h, b.keyId (sigMatchPos mask), sigMatch mask,
        sigMatchMany mask, 0⟩, some (tableLookupUnoptimized t key)) := by
  intro h b mask
  have hcmp : ∀ i, t.bktKeycmp (.bucket (t.bktId h)) (t.inputKey key) i (inputSig h) = _ := fun i =>
    bktKeycmp_eq t (.bucket (t.bktId h)) (t.inputKey key) i (inputSig h)
  rw [tableLookup_two]
  split
  · -- a hit at the position the lookup table names
    rename_i hhit
    rw [Bool.and_eq_true, decide_eq_true_eq] at hhit
    obtain ⟨hkey, hsig⟩ := hhit
    have hpos := hcmp (sigMatchPos mask)
    rw [sigMatchPos_spec b (inputSig h) hsig, hkey] at hpos
    have hfind := findKey_first key hv hpos
    unfold tableLookupUnoptimized
    rw [hfind]
  · rename_i hmiss
    split
    · rfl
    · rename_i hrest
      obtain ⟨hmany, hnext⟩ := not_or.mp hrest
      have hnone := findKey_alone key hv (Option.not_isSome_iff_eq_none.mp hnext) fun i => by
        rw [hcmp i, Bool.and_eq_false_iff]
        refine (Bool.eq_false_or_eq_true _).symm.imp_right fun hs => ?_
        -- one position at most matches: it is the one that was compared
        have hsig := (sigMatch_iff b (inputSig h)).mpr ⟨i, hs⟩
        have hi := sigMatchMany_spec b (inputSig h) (not_not.mp hmany) hs
          (sigMatchPos_spec b (inputSig h) hsig)
        rw [hi]
        rw [Bool.and_eq_true, decide_eq_true_eq] at hmiss
        exact Bool.eq_false_iff.mpr fun hk => hmiss ⟨hk, hsig⟩
      unfold tableLookupUnoptimized
      rw [hnone]

theorem visits_eq (hv : Valid t) (hm : m.state = 0) :
    (visits t m key 1).2 = none ∧ (visits t m key 2).2 = none ∧
      (visits t m key 3).2 = some (tableLookupUnoptimized t key) ∧
      (visits t m key 3).1.state = 0 := by
  obtain ⟨bkt, s, id, sm, smm, state⟩ := m
  obtain rfl : state = 0 := hm
  have h := third_visit key hv
  refine ⟨rfl, rfl, ?_, ?_⟩
  · exact congrArg Prod.snd h
  · exact congrArg (fun r => r.1.state) h

end

/-! ## Another key at the last visit -/

/-- A lookup reads of a key what it compares. -/
theorem visit_congr (hs : KeySize t.keySize) {key key' : Bytes}
    (h : t.maskedKey (t.inputKey key) = t.maskedKey (t.inputKey key')) (m : Mailbox) :
    tableLookup t m key = tableLookup t m key' := by
  have hhash : hash (t.inputKey key) t.keyMask t.keySize 0 =
      hash (t.inputKey key') t.keyMask t.keySize 0 := by
    rw [hash_eq hs, hash_eq hs, h]
  have hcmp : ∀ id, keycmp (t.keys id) (t.inputKey key) t.keyMask t.keySize =
      keycmp (t.keys id) (t.inputKey key') t.keyMask t.keySize := by
    intro id
    rw [Bool.eq_iff_iff, keycmp_stored, keycmp_stored, h]
  have hfind : t.findKey (t.inputKey key) = t.findKey (t.inputKey key') := by
    unfold Table.findKey Table.bktKeycmp
    dsimp only
    simp only [hhash, hcmp]
  unfold tableLookup tableLookupUnoptimized
  simp only [hhash, hcmp, hfind]

/-- The key found where the first two visits have looked for another one. -/
theorem findKey_elsewhere (hv : Valid t) (first key : Bytes) (i : BktPos) :
    let h := hash (t.inputKey first) t.keyMask t.keySize 0
    let b := t.buckets (.bucket (t.bktId h))
    sigAt b (inputSig h) i = true →
      keycmp (t.keys (b.keyId i)) (t.inputKey key) t.keyMask t.keySize = true →
        t.findKey (t.inputKey key) = some (none, .bucket (t.bktId h), i) := by
  intro h b hsig hkey
  obtain ⟨exts, hi⟩ := hv.linked
  have hb : t.bktId h < t.nBuckets.toNat := bktId_lt hi.pos h
  have hbkt : BktPtr.bucket (t.bktId h) ∈ chainOf exts (t.bktId h) := List.mem_cons_self
  have hsig : inputSig h = (b.sig i).toUInt32 := of_decide_eq_true hsig
  have hz : b.sig i ≠ 0 := by
    intro hz
    refine inputSig_ne_zero h ?_
    rw [hsig, hz]
    rfl
  have hhas : hasKey (t.maskedKey (t.inputKey key)) (t.view (.bucket (t.bktId h)) i) = true := by
    refine hasKey_iff.mpr ⟨(t.data (b.keyId i)).value t.params.actionDataSize, ?_⟩
    unfold Table.view
    rw [if_neg hz, (keycmp_stored t _ _).mp hkey]
  -- the key lies in its own bucket
  have hhome : t.home (t.maskedKey (t.inputKey key)) = t.bktId h := by
    have hstore := hi.store_eq
    refine hv.good.placed _ _ (not_not.mp fun habs => ?_)
    rw [hstore, layout_chain hb] at habs
    have hno := absent_iff.mpr habs (t.view (.bucket (t.bktId h))) (List.mem_map_of_mem hbkt) i
    rw [hhas] at hno
    cases hno
  have hown : t.bktId (hash (t.inputKey key) t.keyMask t.keySize 0) = t.bktId h := by
    rw [hash_eq hi.keySize]
    exact hhome
  have hcmp := bktKeycmp_view hi hb hbkt (t.inputKey key) i
  rw [hhas, ← hash_eq hi.keySize] at hcmp
  rw [← hown] at hcmp ⊢
  exact findKey_first key hv hcmp

theorem tableLookup_one {m : Mailbox} (hm : m.state = 1) (key : Bytes) :
    tableLookup t m key =
      ({ m with
          bktKeyId := (t.buckets m.bkt).keyId (sigMatchPos (maskAll (t.buckets m.bkt) m.inputSig))
          sigMatch := sigMatch (maskAll (t.buckets m.bkt) m.inputSig)
          sigMatchMany := sigMatchMany (maskAll (t.buckets m.bkt) m.inputSig)
          state := 2 }, none) := by
  obtain ⟨bkt, sig, id, sm, smm, state⟩ := m
  obtain rfl : state = 1 := hm
  rfl

/-- The second visit does not look at the key. -/
theorem second_visit {m : Mailbox} (hm : m.state = 1) (key key' : Bytes) :
    tableLookup t m key = tableLookup t m key' := by
  rw [tableLookup_one hm, tableLookup_one hm]

/-- What the first two visits leave in the mailbox. -/
theorem visits_two (m : Mailbox) (hm : m.state = 0) (key : Bytes) :
    let h := hash (t.inputKey key) t.keyMask t.keySize 0
    let b := t.buckets (.bucket (t.bktId h))
    let mask := maskAll b (inputSig h)
    (visits t m key 1).1 = { m with bkt := .bucket (t.bktId h), inputSig := inputSig h, state := 1 } ∧
      (visits t m key 2).1 = ⟨.bucket (t.bktId h), inputSig h, b.keyId (sigMatchPos mask),
        sigMatch mask, sigMatchMany mask, 2⟩ := by
  obtain ⟨bkt, s, id, sm, smm, state⟩ := m
  obtain rfl : state = 0 := hm
  exact ⟨rfl, rfl⟩

/-- The last visit with another key than the first two finds the entry of that key, or
nothing. -/
theorem visits_other (hv : Valid t) (m : Mailbox) (hm : m.state = 0) (first key : Bytes) :
    (tableLookup t (visits t m first 2).1 key).2 = some none ∨
      (tableLookup t (visits t m first 2).1 key).2 = some (tableLookupUnoptimized t key) := by
  rw [(visits_two m hm first).2, tableLookup_two]
  split
  · rename_i hhit
    rw [Bool.and_eq_true, decide_eq_true_eq] at hhit
    have hfound := findKey_elsewhere hv first key _ (sigMatchPos_spec _ _ hhit.2) hhit.1
    right
    unfold tableLookupUnoptimized
    rw [hfound]
  · split
    · exact Or.inr rfl
    · exact Or.inl rfl

/-- On every table a run can reach, whatever the mailbox held. -/
theorem visits_follow {p : TableParams} {t₀ : Table} (h : tableCreateEmpty p = some t₀)
    (hs : p.Sized) (ops : List TableOp) (m : Mailbox) (hm : m.state = 0)
    (key : Bytes) :
    (visits (runOps t₀ ops) m key 1).2 = none ∧ (visits (runOps t₀ ops) m key 2).2 = none ∧
      (visits (runOps t₀ ops) m key 3).1.state = 0 ∧
      ∃ r, (visits (runOps t₀ ops) m key 3).2 = some r ∧
        Shows p.actionDataSize (r.map (KeyData.value · p.actionDataSize))
          ((KeyMap.follow p t₀ [] ops).find p fun j => key (p.keyOffset.toNat + j)) := by
  have hr := refines_run (refines_create h hs) ops
  obtain ⟨h₁, h₂, h₃, hend⟩ := visits_eq m key hr.valid hm
  exact ⟨h₁, h₂, hend, _, h₃, hr.find key⟩

theorem visits_follow_extended :
    (visits (runOps eightTable extended) ⟨.ext 0, 7, 3, 1, 1, 0⟩ (fun _ => 12) 2).2 = none ∧
      ∃ r, (visits (runOps eightTable extended) ⟨.ext 0, 7, 3, 1, 1, 0⟩ (fun _ => 12) 3).2 = some r ∧
        Shows eightParams.actionDataSize (r.map (KeyData.value · eightParams.actionDataSize))
          ((KeyMap.follow eightParams eightTable [] extended).find eightParams fun _ => 12) := by
  obtain ⟨-, h₂, -, h₃⟩ := visits_follow eightTable_spec eightParams_sized extended
    ⟨.ext 0, 7, 3, 1, 1, 0⟩ rfl fun _ => 12
  exact ⟨h₂, h₃⟩

end P4Switch.Tables
