import P4Switch.Lib.Partition
import P4Switch.Tables.ExactMatch

/-! # What the exact-match table holds

The representation invariant of the table. `exts b` are the extensions of bucket `b`:
the buckets are linked along them, and every extension and every key slot is either in
use in one place or on its stack. A key in use lies in the bucket its hash selects, under
its signature, and no two keys in use are equal. -/
namespace P4Switch.Tables
open P4Switch.Lib.LinkedChain P4Switch.Lib.Words P4Switch.Lib.Partition

/-! ## Keys as lists of masked words -/

/-- The words of an input key that the table compares. -/
def Table.maskedKey (t : Table) (key : Bytes) : List UInt64 :=
  (List.range (t.keySize / 8)).map (maskedWord key t.keyMask)

def Table.storedKey (t : Table) (keyId : Nat) : List UInt64 :=
  (List.range (t.keySize / 8)).map (t.keys keyId)

/-- `hash` as a function of the masked words. -/
def Table.hashKey (t : Table) (ws : List UInt64) : UInt32 :=
  (hashWords (fun i => ws[i]?.getD 0) t.keySize 0).toUInt32

/-- The key sizes a table can have. -/
def KeySize (n : Nat) : Prop := n = 8 ∨ n = 16 ∨ n = 32 ∨ n = 64

theorem hash_eq {t : Table} (hs : KeySize t.keySize) (key : Bytes) :
    hash key t.keyMask t.keySize 0 = t.hashKey (t.maskedKey key) := by
  have hget : ∀ i < t.keySize / 8, (t.maskedKey key)[i]?.getD 0 = maskedWord key t.keyMask i := by
    intro i hi
    simp [Table.maskedKey, hi]
  unfold hash Table.hashKey
  rcases hs with h | h | h | h <;> rw [h] at hget ⊢ <;> simp [hashWords, hget]

/-- The unrolled comparisons compare every word. -/
theorem keycmp_iff (a : Nat → UInt64) (b bMask : Bytes) (n : Nat) :
    keycmp a b bMask n = true ↔ ∀ i < n / 8, a i = maskedWord b bMask i := by
  unfold keycmp
  split
  · simp
  · simp [UInt64.or_eq_zero_iff, Nat.le_one_iff_eq_zero_or_eq_one]
  · simp [UInt64.or_eq_zero_iff, Nat.forall_lt_succ_right, Nat.le_one_iff_eq_zero_or_eq_one, and_assoc]
  · simp [UInt64.or_eq_zero_iff, Nat.forall_lt_succ_right, Nat.le_one_iff_eq_zero_or_eq_one, and_assoc]
  · simp

theorem keycmp_stored (t : Table) (keyId : Nat) (key : Bytes) :
    keycmp (t.keys keyId) key t.keyMask t.keySize = true ↔ t.storedKey keyId = t.maskedKey key := by
  rw [keycmp_iff, Table.storedKey, Table.maskedKey, List.map_inj_left]
  simp only [List.mem_range]

theorem inputSig_lt (h : UInt32) : (inputSig h).toUInt16.toUInt32 = inputSig h := by
  apply UInt32.toNat_inj.mp
  simp only [inputSig, UInt16.toNat_toUInt32, UInt32.toNat_toUInt16]
  refine Nat.mod_eq_of_lt ?_
  rw [UInt32.toNat_or, UInt32.toNat_shiftRight]
  have hh : h.toNat / 2 ^ 16 < 2 ^ 16 := by
    have := h.toNat_lt
    omega
  exact Nat.or_lt_two_pow (by simpa [Nat.shiftRight_eq_div_pow] using hh) (by decide)

theorem inputSig_ne_zero (h : UInt32) : (inputSig h).toUInt16 ≠ 0 := by
  intro hz
  have hb := congrArg (fun s : UInt16 => s.toNat.testBit 0) hz
  simp [inputSig] at hb

/-! ## The keys of a chain -/

/-- The buckets linked behind bucket `b`. -/
def chainOf (exts : Nat → List Nat) (b : Nat) : List BktPtr := .bucket b :: (exts b).map BktPtr.ext

/-- The keys in use in a bucket. -/
def liveIn (b : BucketExtension) : List Nat :=
  (List.finRange KEYS_PER_BUCKET).flatMap fun i => if b.sig i = 0 then [] else [b.keyId i]

/-- The keys in use in a list of buckets. -/
def Table.ids (t : Table) (l : List BktPtr) : List Nat := l.flatMap fun bkt => liveIn (t.buckets bkt)

theorem mem_liveIn {b : BucketExtension} {id : Nat} :
    id ∈ liveIn b ↔ ∃ i, b.sig i ≠ 0 ∧ b.keyId i = id := by
  simp only [liveIn, List.mem_flatMap, List.mem_finRange, true_and]
  refine exists_congr fun i => ?_
  by_cases h : b.sig i = 0 <;> simp [h, eq_comm]

theorem mem_ids {t : Table} {l : List BktPtr} {id : Nat} :
    id ∈ t.ids l ↔ ∃ bkt ∈ l, ∃ i, (t.buckets bkt).sig i ≠ 0 ∧ (t.buckets bkt).keyId i = id := by
  simp only [Table.ids, List.mem_flatMap, mem_liveIn]

/-- A key put into a free position. -/
theorem liveIn_install {b : BucketExtension} {i : BktPos} (hb : b.sig i = 0) {sig : UInt16}
    (hs : sig ≠ 0) (id : Nat) :
    (liveIn { b with sig := Function.update b.sig i sig, keyId := Function.update b.keyId i id }).Perm
      (id :: liveIn b) := by
  refine flatMap_gain (r := [id]) (List.nodup_finRange _) (List.mem_finRange i) ?_ ?_
  · intro j _ hj
    simp [Function.update_of_ne hj]
  · simp [hb, hs]

/-- A key taken out. -/
theorem liveIn_free {b : BucketExtension} {i : BktPos} (hb : b.sig i ≠ 0) :
    (liveIn b).Perm (b.keyId i :: liveIn { b with sig := Function.update b.sig i 0 }) := by
  refine flatMap_gain (r := [b.keyId i]) (List.nodup_finRange _) (List.mem_finRange i) ?_ ?_
  · intro j _ hj
    simp [Function.update_of_ne hj]
  · simp [hb]

theorem liveIn_eq_nil {b : BucketExtension} : liveIn b = [] ↔ bktIsEmpty b = true := by
  simp only [liveIn, List.flatMap_eq_nil_iff, bktIsEmpty]
  constructor
  · intro h
    have h' : ∀ i, b.sig i = 0 := fun i => by simpa using h i (List.mem_finRange i)
    simp [h']
  · intro h i _
    simp only [Bool.and_eq_true, decide_eq_true_eq] at h
    obtain ⟨⟨⟨h0, h1⟩, h2⟩, h3⟩ := h
    have hall : ∀ i : Fin 4, b.sig i = 0 := by
      intro i
      fin_cases i
      exacts [h0, h1, h2, h3]
    simp [hall i]

/-- The buckets of a list, one of them changed. -/
theorem ids_change {t t' : Table} {l : List BktPtr} {bkt : BktPtr} (hn : l.Nodup) (hb : bkt ∈ l)
    (h : ∀ p, p ≠ bkt → t'.buckets p = t.buckets p) {r : List Nat}
    (hp : (liveIn (t'.buckets bkt)).Perm (r ++ liveIn (t.buckets bkt))) :
    (t'.ids l).Perm (r ++ t.ids l) :=
  flatMap_gain hn hb (fun p _ hp => by rw [h p hp]) hp

theorem ids_congr {t t' : Table} {l : List BktPtr}
    (h : ∀ p ∈ l, liveIn (t'.buckets p) = liveIn (t.buckets p)) : t'.ids l = t.ids l :=
  List.flatMap_congr h

/-! ## Searching -/

/-- What a search that succeeds has found: the first position that satisfies the test. -/
theorem searchChain_some {test : BktPtr → BktPos → Bool} {prev pr : Option BktPtr} {l : List BktPtr}
    {bkt : BktPtr} {i : BktPos} (h : searchChain test prev l = some (pr, bkt, i)) :
    ∃ l₁ l₂, l = l₁ ++ bkt :: l₂ ∧ pr = (l₁.getLast?.or prev) ∧ test bkt i = true := by
  induction l generalizing prev with
  | nil => cases h
  | cons p l ih =>
    rw [searchChain] at h
    cases hf : (List.finRange KEYS_PER_BUCKET).find? (test p) with
    | some j =>
      rw [hf] at h
      obtain ⟨rfl, rfl, rfl⟩ := h
      exact ⟨[], l, rfl, rfl, List.find?_some hf⟩
    | none =>
      rw [hf] at h
      obtain ⟨l₁, l₂, rfl, rfl, ht⟩ := ih h
      refine ⟨p :: l₁, l₂, rfl, ?_, ht⟩
      cases l₁ <;> simp [List.getLast?_cons]

theorem searchChain_none {test : BktPtr → BktPos → Bool} {prev : Option BktPtr} {l : List BktPtr} :
    searchChain test prev l = none ↔ ∀ bkt ∈ l, ∀ i, test bkt i = false := by
  induction l generalizing prev with
  | nil => simp [searchChain]
  | cons p l ih =>
    rw [searchChain, List.forall_mem_cons]
    cases hf : (List.finRange KEYS_PER_BUCKET).find? (test p) with
    | some j =>
      have hj := List.find?_some hf
      simp only [reduceCtorEq, false_iff, not_and]
      intro h
      simp [h j] at hj
    | none =>
      have hp : ∀ i, test p i = false := fun i => by
        simpa using List.find?_eq_none.mp hf i (List.mem_finRange i)
      simp [hp, ih]

end P4Switch.Tables
