import P4Switch.Tables.Stored

/-! # Creating an exact-match table

`__table_create` computes the sizes of the keys and of their data in 32 bits. As long as these
do not wrap, every key slot and its data have bytes of their own inside the memory allocated. -/
namespace P4Switch.Tables
open P4Switch.Lib.SlotArray

variable {t : Table} {p : TableParams}

/-! ## What creation fixes -/

/-- What creation fixes. -/
structure Config (p : TableParams) (t : Table) : Prop where
  nKeysMax : t.params.nKeysMax = p.nKeysMax
  keyOffset : t.params.keyOffset = p.keyOffset
  actionDataSize : t.params.actionDataSize = p.actionDataSize
  keySize : t.keySize = alignedKeySize p.keySize
  keySizeShl : t.keySizeShl = ctzl (alignedKeySize p.keySize)
  dataSizeShl : t.dataSizeShl = ctzl (alignedDataSize p.actionDataSize).toNat
  keySz : t.keySz = CL (p.nKeysMax * UInt32.ofNat (alignedKeySize p.keySize))
  dataSz : t.dataSz = CL (p.nKeysMax * alignedDataSize p.actionDataSize)
  keyMask : t.keyMask = fun j => if j < p.keySize.toNat then p.mask j else 0
  nBuckets : t.nBuckets = p.nKeysMax / 4
  nBucketsExt : t.nBucketsExt = (p.nKeysMax / 4).toNat
  keySize_pos : 0 < p.keySize.toNat
  keySize_le : p.keySize.toNat ≤ 64

/-! ## Sizes -/

/-- The keys lie apart and inside `keys`, the actions with their data inside `data`. -/
structure Storage (t : Table) : Prop where
  keys : Slots t.params.nKeysMax.toNat t.keySize t.keySizeShl t.keySz.toNat
  data : Slots t.params.nKeysMax.toNat (8 + t.params.actionDataSize.toNat) t.dataSizeShl
    t.dataSz.toNat

/-- The parameters of a table with room for a bucket, whose 32-bit sizes do not wrap. -/
structure TableParams.Sized (p : TableParams) : Prop where
  bucket : 4 ≤ p.nKeysMax.toNat
  keys : p.nKeysMax.toNat * alignedKeySize p.keySize + 63 < 2 ^ 32
  entry : p.actionDataSize.toNat + 8 ≤ 2 ^ 31
  data : p.nKeysMax.toNat * (alignedDataSize p.actionDataSize).toNat + 63 < 2 ^ 32

/-! ## Rounding -/

theorem le_CL {size : UInt32} (h : size.toNat + 63 < 2 ^ 32) : size.toNat ≤ (CL size).toNat := by
  have hsum : (size + 64 - 1).toNat = size.toNat + 63 := by
    rw [UInt32.toNat_sub, UInt32.toNat_add]
    simp only [UInt32.reduceToNat]
    omega
  unfold CL
  rw [UInt32.toNat_mul, UInt32.toNat_div, hsum]
  simp only [UInt32.reduceToNat]
  omega

/-- A product that does not wrap, rounded up. -/
theorem le_CL_mul {n k : UInt32} (h : n.toNat * k.toNat + 63 < 2 ^ 32) :
    n.toNat * k.toNat ≤ (CL (n * k)).toNat := by
  have hmul : (n * k).toNat = n.toNat * k.toNat := by
    rw [UInt32.toNat_mul, Nat.mod_eq_of_lt (by omega)]
  rw [← hmul]
  exact le_CL (by omega)

theorem rteCombine64ms1b_toNat (v : UInt64) :
    (rteCombine64ms1b v).toNat = 2 ^ v.toNat.size - 1 := by
  have h := (((((smeared_one v.toNat).double).double).double).double).double.double
  refine Smeared.eq ?_ v.toNat_lt
  unfold rteCombine64ms1b
  simpa only [UInt64.toNat_or, UInt64.toNat_shiftRight, UInt64.reduceToNat] using h

/-- The power of two that `v` is rounded up to. -/
theorem rteAlign64pow2_toNat {v : UInt64} (hpos : 0 < v.toNat) (hv : v.toNat ≤ 2 ^ 63) :
    ∃ k, (rteAlign64pow2 v).toNat = 2 ^ k ∧ v.toNat ≤ 2 ^ k ∧ ∀ n, v.toNat ≤ 2 ^ n → k ≤ n := by
  have hsub : (v - 1).toNat = v.toNat - 1 := UInt64.toNat_sub_of_le _ _ (by
    rw [UInt64.le_iff_toNat_le]
    exact hpos)
  have hle : ∀ n, v.toNat ≤ 2 ^ n → (v.toNat - 1).size ≤ n := by
    intro n hn
    rw [Nat.size_le]
    omega
  refine ⟨(v.toNat - 1).size, ?_, ?_, hle⟩
  · have hpow : 2 ^ (v.toNat - 1).size ≤ 2 ^ 63 := Nat.pow_le_pow_right (by decide) (hle 63 hv)
    have hone : 0 < 2 ^ (v.toNat - 1).size := Nat.two_pow_pos _
    unfold rteAlign64pow2
    rw [UInt64.toNat_add, rteCombine64ms1b_toNat, hsub]
    simp only [UInt64.reduceToNat]
    omega
  · have hlt := Nat.lt_size_self (v.toNat - 1)
    omega

theorem alignedDataSize_spec {k : UInt32} (h : k.toNat + 8 ≤ 2 ^ 31) :
    8 + k.toNat ≤ (alignedDataSize k).toNat ∧
      2 ^ ctzl (alignedDataSize k).toNat = (alignedDataSize k).toNat := by
  have hsum : (k + 8).toUInt64.toNat = k.toNat + 8 := by
    rw [UInt32.toNat_toUInt64, UInt32.toNat_add]
    simp only [UInt32.reduceToNat]
    omega
  obtain ⟨n, hn, hle, hleast⟩ := rteAlign64pow2_toNat (v := (k + 8).toUInt64) (by omega) (by omega)
  have hn31 : n ≤ 31 := hleast 31 (by omega)
  have hpow : 2 ^ n ≤ 2 ^ 31 := Nat.pow_le_pow_right (by decide) hn31
  have hsize : (alignedDataSize k).toNat = 2 ^ n := by
    unfold alignedDataSize
    rw [UInt64.toNat_toUInt32, hn]
    omega
  rw [hsize]
  refine ⟨by omega, ?_⟩
  rw [ctzl, trailingZeros_two_pow (by omega)]

/-- Every size a key may have is rounded up to a size the hash knows. -/
theorem alignedKeySize_table : ∀ n < 65, 0 < n →
    KeySize (alignedKeySize (UInt32.ofNat n)) ∧ n ≤ alignedKeySize (UInt32.ofNat n) := by
  unfold KeySize
  decide +kernel

theorem alignedKeySize_spec {k : UInt32} (hpos : 0 < k.toNat) (hle : k.toNat ≤ 64) :
    KeySize (alignedKeySize k) ∧ k.toNat ≤ alignedKeySize k := by
  have h := alignedKeySize_table k.toNat (by omega) hpos
  rwa [UInt32.ofNat_toNat] at h

theorem alignedKeySize_ctzl {k : UInt32} (hpos : 0 < k.toNat) (hle : k.toNat ≤ 64) :
    2 ^ ctzl (alignedKeySize k) = alignedKeySize k := by
  rcases (alignedKeySize_spec hpos hle).1 with h | h | h | h <;> rw [h] <;> decide

theorem alignedKeySize_ofNat {k : UInt32} (hpos : 0 < k.toNat) (hle : k.toNat ≤ 64) :
    (UInt32.ofNat (alignedKeySize k)).toNat = alignedKeySize k := by
  rcases (alignedKeySize_spec hpos hle).1 with h | h | h | h <;> rw [h] <;> decide

/-- With sizes that do not wrap the slots have the memory they take. -/
theorem Config.storage (hc : Config p t) (hs : p.Sized) : Storage t := by
  have hkeySize := alignedKeySize_ctzl hc.keySize_pos hc.keySize_le
  have hofNat := alignedKeySize_ofNat hc.keySize_pos hc.keySize_le
  have hkeys := le_CL_mul (n := p.nKeysMax) (k := UInt32.ofNat (alignedKeySize p.keySize))
    (by rw [hofNat]; exact hs.keys)
  rw [hofNat] at hkeys
  obtain ⟨hentry, hdata⟩ := alignedDataSize_spec hs.entry
  constructor
  case keys =>
    rw [hc.nKeysMax, hc.keySize, hc.keySizeShl, hc.keySz]
    refine slots_of_le hkeySize.ge ?_
    rw [hkeySize]
    exact hkeys
  case data =>
    rw [hc.nKeysMax, hc.actionDataSize, hc.dataSizeShl, hc.dataSz]
    refine slots_of_le (hentry.trans hdata.ge) ?_
    rw [hdata]
    exact le_CL_mul hs.data

/-! ## A new table -/

theorem create_config (h : tableCreateEmpty p = some t) : Config p t := by
  unfold tableCreateEmpty at h
  split at h
  · cases h
  · split at h
    · cases h
    · rename_i hks
      split at h
      · cases h
      · rename_i hle
        split at h
        · cases h
        · cases h
          refine ⟨rfl, rfl, rfl, rfl, rfl, rfl, rfl, rfl, rfl, rfl, rfl, ?_, ?_⟩
          · exact Nat.pos_of_ne_zero fun hz => hks (UInt32.toNat_inj.mp hz)
          · exact Nat.not_lt.mp fun hlt => hle (UInt32.lt_iff_toNat_lt.mpr hlt)

/-- A new table is empty. -/
theorem create_empty (h : tableCreateEmpty p = some t) :
    t.buckets = (fun _ => .zero) ∧ t.keyStack = List.range p.nKeysMax.toNat ∧
      t.bktExtStack = List.range (p.nKeysMax / 4).toNat := by
  unfold tableCreateEmpty at h
  split at h
  · cases h
  · split at h
    · cases h
    · split at h
      · cases h
      · split at h
        · cases h
        · cases h
          exact ⟨rfl, rfl, rfl⟩

end P4Switch.Tables
