import Mathlib.Data.Nat.Digits.Lemmas
import Mathlib.Tactic

/-! # Bytes read as 64-bit words

A `uint64_t` load on a little-endian machine, and how masking by words and masking by
bytes correspond. -/
namespace P4Switch.Lib.Words

abbrev Bytes := Nat → UInt8

/-- The word at index `i` of an array of words laid over the bytes. -/
def word64 (b : Bytes) (i : Nat) : UInt64 :=
  UInt64.ofNat (Nat.ofDigits 256 ((List.range 8).map fun j => (b (8 * i + j)).toNat))

/-- `k[i] & m[i]`. -/
def maskedWord (k m : Bytes) (i : Nat) : UInt64 := word64 k i &&& word64 m i

/-- A digit in front: the rest is the quotient. -/
theorem ofDigits_cons_mod_div {a : Nat} (ha : a < 256) (l : List Nat) :
    Nat.ofDigits 256 (a :: l) % 2 ^ 8 = a ∧ Nat.ofDigits 256 (a :: l) / 2 ^ 8 = Nat.ofDigits 256 l := by
  rw [Nat.ofDigits_cons]
  omega

theorem ofDigits_and {f g : Nat → Nat} (hf : ∀ j, f j < 256) (hg : ∀ j, g j < 256) (l : List Nat) :
    Nat.ofDigits 256 (l.map f) &&& Nat.ofDigits 256 (l.map g) =
      Nat.ofDigits 256 (l.map fun j => f j &&& g j) := by
  induction l with
  | nil => simp
  | cons a l ih =>
    have hfg : f a &&& g a < 256 := lt_of_le_of_lt Nat.and_le_left (hf a)
    obtain ⟨hfm, hfd⟩ := ofDigits_cons_mod_div (hf a) (l.map f)
    obtain ⟨hgm, hgd⟩ := ofDigits_cons_mod_div (hg a) (l.map g)
    obtain ⟨hm, hd⟩ := ofDigits_cons_mod_div hfg (l.map fun j => f j &&& g j)
    simp only [List.map_cons]
    rw [← Nat.mod_add_div (Nat.ofDigits 256 (f a :: l.map f) &&& _) (2 ^ 8), Nat.and_mod_two_pow,
      Nat.and_div_two_pow, hfm, hgm, hfd, hgd, ih,
      ← Nat.mod_add_div (Nat.ofDigits 256 ((f a &&& g a) :: _)) (2 ^ 8), hm, hd]

theorem ofDigits_injective {f g : Nat → Nat} (hf : ∀ j, f j < 256) (hg : ∀ j, g j < 256)
    {l : List Nat} (h : Nat.ofDigits 256 (l.map f) = Nat.ofDigits 256 (l.map g)) :
    ∀ j ∈ l, f j = g j := by
  induction l with
  | nil =>
    intro j hj
    cases hj
  | cons a l ih =>
    obtain ⟨hfm, hfd⟩ := ofDigits_cons_mod_div (hf a) (l.map f)
    obtain ⟨hgm, hgd⟩ := ofDigits_cons_mod_div (hg a) (l.map g)
    simp only [List.map_cons] at h
    intro j hj
    rcases List.mem_cons.mp hj with rfl | hj
    · rw [← hfm, ← hgm, h]
    · exact ih (by rw [← hfd, ← hgd, h]) j hj

theorem byte_lt (b : Bytes) (i j : Nat) : (b (8 * i + j)).toNat < 256 := UInt8.toNat_lt _

theorem word64_toNat (b : Bytes) (i : Nat) :
    (word64 b i).toNat = Nat.ofDigits 256 ((List.range 8).map fun j => (b (8 * i + j)).toNat) := by
  have h := Nat.ofDigits_lt_base_pow_length (b := 256)
    (l := (List.range 8).map fun j => (b (8 * i + j)).toNat) (by decide) (by
      intro x hx
      obtain ⟨j, -, rfl⟩ := List.mem_map.mp hx
      exact byte_lt b i j)
  rw [List.length_map, List.length_range] at h
  exact UInt64.toNat_ofNat_of_lt' (lt_of_lt_of_le h (by decide))

theorem word64_inj {a b : Bytes} {i : Nat} :
    word64 a i = word64 b i ↔ ∀ j < 8, a (8 * i + j) = b (8 * i + j) := by
  constructor
  · intro h j hj
    have hn := congrArg UInt64.toNat h
    rw [word64_toNat, word64_toNat] at hn
    exact UInt8.toNat_inj.mp
      (ofDigits_injective (byte_lt a i) (byte_lt b i) hn j (List.mem_range.mpr hj))
  · intro h
    unfold word64
    congr 2
    exact List.map_congr_left fun j hj => congrArg UInt8.toNat (h j (List.mem_range.mp hj))

/-- Masking a word is masking its bytes. -/
theorem maskedWord_eq (k m : Bytes) (i : Nat) : maskedWord k m i = word64 (fun j => k j &&& m j) i := by
  apply UInt64.toNat_inj.mp
  rw [maskedWord, UInt64.toNat_and, word64_toNat, word64_toNat, word64_toNat,
    ofDigits_and (byte_lt k i) (byte_lt m i)]
  simp only [UInt8.toNat_and]

theorem maskedWord_inj {a b m : Bytes} {i : Nat} :
    maskedWord a m i = maskedWord b m i ↔
      ∀ j < 8, a (8 * i + j) &&& m (8 * i + j) = b (8 * i + j) &&& m (8 * i + j) := by
  rw [maskedWord_eq, maskedWord_eq, word64_inj]

/-- Two arrays of `n` masked words are equal if and only if the bytes they are laid over,
masked, are. -/
theorem maskedWords_inj {a b m : Bytes} {n : Nat} :
    (∀ i < n, maskedWord a m i = maskedWord b m i) ↔ ∀ j < 8 * n, a j &&& m j = b j &&& m j := by
  simp only [maskedWord_inj]
  constructor
  · intro h j hj
    have := h (j / 8) (by omega) (j % 8) (by omega)
    rwa [Nat.div_add_mod] at this
  · intro h i hi j hj
    exact h (8 * i + j) (by omega)

end P4Switch.Lib.Words
