import P4Switch.Lib.Partition
import Mathlib.Data.List.Nodup
import Mathlib.Algebra.BigOperators.Group.Finset.Basic
import Mathlib.Tactic

/-! # Chains of buckets with bounded pools

A hash table seen without pointers: every key has a home chain, a chain is a list of
buckets of `w` positions, further buckets and entries come from pools of bounded size. An
entry goes to the first free position; a further bucket is given back when it becomes
empty. The table is a finite map, and taking out what was just put in restores it. -/
namespace P4Switch.Lib.BucketChains
open P4Switch.Lib.Partition

variable {κ ν : Type*} {w : Nat}

abbrev Bucket (κ ν : Type*) (w : Nat) := Fin w → Option (κ × ν)

/-! ## Chains -/

section Entries
variable {l l' l₁ l₂ : List (Bucket κ ν w)} {c c' : Bucket κ ν w} {i : Fin w} {e : κ × ν} {k : κ} {v : ν}

def bucketEntries (c : Bucket κ ν w) : List (κ × ν) :=
  (List.finRange w).flatMap fun i => (c i).toList

/-- The entries of a chain, in the order a search meets them. -/
def entries (l : List (Bucket κ ν w)) : List (κ × ν) := l.flatMap bucketEntries

def keys (l : List (Bucket κ ν w)) : List κ := (entries l).map Prod.fst

def isEmpty (c : Bucket κ ν w) : Bool := (List.finRange w).all fun i => (c i).isNone

/-- Only the first bucket of a chain may be empty. -/
def Occupied (l : List (Bucket κ ν w)) : Prop := ∀ c ∈ l.tail, isEmpty c = false

theorem mem_bucketEntries : e ∈ bucketEntries c ↔ ∃ i, c i = some e := by
  simp [bucketEntries]

theorem mem_entries : e ∈ entries l ↔ ∃ c ∈ l, ∃ i, c i = some e := by
  simp [entries, mem_bucketEntries]

theorem mem_keys : k ∈ keys l ↔ ∃ v, (k, v) ∈ entries l := by
  simp [keys]

theorem isEmpty_eq_true : isEmpty c = true ↔ ∀ i, c i = none := by
  simp [isEmpty]

theorem isEmpty_update_some (c : Bucket κ ν w) (i : Fin w) (e : κ × ν) :
    isEmpty (Function.update c i (some e)) = false := by
  cases h : isEmpty (Function.update c i (some e)) with
  | false => rfl
  | true => simpa using isEmpty_eq_true.mp h i

@[simp] theorem entries_append (l l' : List (Bucket κ ν w)) :
    entries (l ++ l') = entries l ++ entries l' := List.flatMap_append

@[simp] theorem entries_cons (c : Bucket κ ν w) (l : List (Bucket κ ν w)) :
    entries (c :: l) = bucketEntries c ++ entries l := rfl

@[simp] theorem entries_nil : entries ([] : List (Bucket κ ν w)) = [] := rfl

/-- A position filled. -/
theorem bucketEntries_fill (h : c i = none) (e : κ × ν) :
    (bucketEntries (Function.update c i (some e))).Perm (e :: bucketEntries c) :=
  flatMap_gain (r := [e]) (List.nodup_finRange w) (List.mem_finRange i)
    (fun j _ hj => by simp [Function.update_of_ne hj]) (by simp [h])

/-- A position emptied. -/
theorem bucketEntries_clear (h : c i = some e) :
    (bucketEntries c).Perm (e :: bucketEntries (Function.update c i none)) :=
  flatMap_gain (r := [e]) (List.nodup_finRange w) (List.mem_finRange i)
    (fun j _ hj => by simp [Function.update_of_ne hj]) (by simp [h])

theorem bucketEntries_empty (h : isEmpty c = true) : bucketEntries c = [] := by
  simp [bucketEntries, isEmpty_eq_true.mp h]

theorem entries_middle {r : List (κ × ν)} (h : (bucketEntries c').Perm (r ++ bucketEntries c)) :
    (entries (l₁ ++ c' :: l₂)).Perm (r ++ entries (l₁ ++ c :: l₂)) := by
  simp only [entries_append, entries_cons]
  calc (entries l₁ ++ (bucketEntries c' ++ entries l₂)).Perm
        (entries l₁ ++ (r ++ bucketEntries c ++ entries l₂)) := (h.append_right _).append_left _
    _ = (entries l₁ ++ r) ++ (bucketEntries c ++ entries l₂) := by simp
    List.Perm _ ((r ++ entries l₁) ++ (bucketEntries c ++ entries l₂)) :=
      List.perm_append_comm.append_right _
    _ = r ++ (entries l₁ ++ (bucketEntries c ++ entries l₂)) := by simp

/-- One position of a chain rewritten, in terms of what is left when it is cleared. -/
theorem entries_rewrite (l₁ l₂ : List (Bucket κ ν w)) (h : c i = some e) (e' : κ × ν) :
    (entries (l₁ ++ c :: l₂)).Perm (e :: entries (l₁ ++ Function.update c i none :: l₂)) ∧
      (entries (l₁ ++ Function.update c i (some e') :: l₂)).Perm
        (e' :: entries (l₁ ++ Function.update c i none :: l₂)) := by
  refine ⟨entries_middle (r := [e]) (bucketEntries_clear h), entries_middle (r := [e']) ?_⟩
  have := bucketEntries_fill (c := Function.update c i none) (i := i) (by simp) e'
  rwa [Function.update_idem] at this

theorem Occupied.replace (h : Occupied (l₁ ++ c :: l₂)) (hc : isEmpty c' = false ∨ l₁ = []) :
    Occupied (l₁ ++ c' :: l₂) := by
  cases l₁ with
  | nil => exact h
  | cons c₁ l₁ =>
    have hc : isEmpty c' = false := hc.elim id fun h => by cases h
    intro d hd
    rcases List.mem_append.mp hd with hd | hd
    · exact h d (List.mem_append_left _ hd)
    · rcases List.mem_cons.mp hd with rfl | hd
      · exact hc
      · exact h d (List.mem_append_right _ (List.mem_cons_of_mem _ hd))

theorem Occupied.drop (h : Occupied (l₁ ++ c :: l₂)) (hl : l₁ ≠ []) : Occupied (l₁ ++ l₂) := by
  obtain ⟨c₁, l₁, rfl⟩ := List.exists_cons_of_ne_nil hl
  intro d hd
  rcases List.mem_append.mp hd with hd | hd
  · exact h d (List.mem_append_left _ hd)
  · exact h d (List.mem_append_right _ (List.mem_cons_of_mem _ hd))

theorem Occupied.snoc (h : Occupied l) (hc : isEmpty c = false) : Occupied (l ++ [c]) := by
  cases l with
  | nil =>
    intro d hd
    cases hd
  | cons c₁ l =>
    intro d hd
    rcases List.mem_append.mp hd with hd | hd
    · exact h d hd
    · rwa [List.mem_singleton.mp hd]

/-- The first position that satisfies the test, changed to `new`. -/
def replaceFirst (test : Option (κ × ν) → Bool) (new : Option (κ × ν)) :
    List (Bucket κ ν w) → Option (List (Bucket κ ν w))
  | [] => none
  | c :: l =>
    match (List.finRange w).find? fun i => test (c i) with
    | some i => some (Function.update c i new :: l)
    | none => (replaceFirst test new l).map (c :: ·)

theorem replaceFirst_some {test : Option (κ × ν) → Bool} {new : Option (κ × ν)}
    (h : replaceFirst test new l = some l') :
    ∃ l₁ c l₂ i, l = l₁ ++ c :: l₂ ∧ test (c i) = true ∧
      l' = l₁ ++ Function.update c i new :: l₂ := by
  induction l generalizing l' with
  | nil => cases h
  | cons c l ih =>
    rw [replaceFirst] at h
    cases hf : (List.finRange w).find? fun i => test (c i) with
    | some i =>
      rw [hf] at h
      obtain rfl := Option.some.inj h
      exact ⟨[], c, l, i, rfl, List.find?_some (p := fun i => test (c i)) hf, rfl⟩
    | none =>
      rw [hf] at h
      obtain ⟨l'', h', rfl⟩ := Option.map_eq_some_iff.mp h
      obtain ⟨l₁, c', l₂, i, rfl, ht, rfl⟩ := ih h'
      exact ⟨c :: l₁, c', l₂, i, rfl, ht, rfl⟩

theorem replaceFirst_none {test : Option (κ × ν) → Bool} {new : Option (κ × ν)}
    (h : replaceFirst test new l = none) : ∀ c ∈ l, ∀ i, test (c i) = false := by
  induction l with
  | nil =>
    intro c hc
    cases hc
  | cons c l ih =>
    rw [replaceFirst] at h
    cases hf : (List.finRange w).find? fun i => test (c i) with
    | some i =>
      rw [hf] at h
      cases h
    | none =>
      rw [hf] at h
      intro c' hc' i
      rcases List.mem_cons.mp hc' with rfl | hc'
      · simpa using List.find?_eq_none.mp hf i (List.mem_finRange i)
      · exact ih (Option.map_eq_none_iff.mp h) c' hc' i

end Entries

/-! ## Keys -/

section Keys
variable [DecidableEq κ] {l l' : List (Bucket κ ν w)} {k : κ} {v : ν}

def hasKey (k : κ) (e : Option (κ × ν)) : Bool := e.any fun e => e.1 = k

theorem hasKey_iff {e : Option (κ × ν)} : hasKey k e = true ↔ ∃ v, e = some (k, v) := by
  cases e with
  | none => simp [hasKey]
  | some e =>
    obtain ⟨k', v⟩ := e
    simp [hasKey]

/-- The entry of a key taken out, and whether its bucket went with it: one that is not the
first of the chain and is empty then. -/
def removeKey (k : κ) : Bool → List (Bucket κ ν w) → Option (List (Bucket κ ν w) × Bool)
  | _, [] => none
  | first, c :: l =>
    match (List.finRange w).find? fun i => hasKey k (c i) with
    | some i =>
      let c := Function.update c i none
      if first = false ∧ isEmpty c = true then some (l, true) else some (c :: l, false)
    | none => (removeKey k false l).map fun r => (c :: r.1, r.2)

/-- The value under a key. -/
def find (k : κ) (l : List (Bucket κ ν w)) : Option ν :=
  ((entries l).find? fun e => e.1 = k).map Prod.snd

theorem removeKey_some {first dropped : Bool} (h : removeKey k first l = some (l', dropped)) :
    ∃ l₁ c l₂ i v, l = l₁ ++ c :: l₂ ∧ c i = some (k, v) ∧
      ((dropped = false ∧
          (isEmpty (Function.update c i none) = false ∨ first = true ∧ l₁ = []) ∧
          l' = l₁ ++ Function.update c i none :: l₂) ∨
        (dropped = true ∧ (first = true → l₁ ≠ []) ∧ isEmpty (Function.update c i none) = true ∧
          l' = l₁ ++ l₂)) := by
  induction l generalizing first l' with
  | nil => cases h
  | cons c l ih =>
    rw [removeKey] at h
    cases hf : (List.finRange w).find? fun i => hasKey k (c i) with
    | some i =>
      rw [hf] at h
      obtain ⟨v, hv⟩ := hasKey_iff.mp (List.find?_some (p := fun i => hasKey k (c i)) hf)
      refine ⟨[], c, l, i, v, rfl, hv, ?_⟩
      dsimp only at h
      split at h
      · rename_i he
        obtain ⟨rfl, rfl⟩ := Prod.mk.inj (Option.some.inj h)
        exact Or.inr ⟨rfl, fun hfirst => by simp [hfirst] at he, he.2, rfl⟩
      · rename_i he
        obtain ⟨rfl, rfl⟩ := Prod.mk.inj (Option.some.inj h)
        refine Or.inl ⟨rfl, ?_, rfl⟩
        cases first with
        | true => exact Or.inr ⟨rfl, rfl⟩
        | false => exact Or.inl (by simpa using he)
    | none =>
      rw [hf] at h
      obtain ⟨⟨l'', d⟩, h', he⟩ := Option.map_eq_some_iff.mp h
      obtain ⟨rfl, rfl⟩ := Prod.mk.inj he
      obtain ⟨l₁, c', l₂, i, v, rfl, hv, hd⟩ := ih h'
      refine ⟨c :: l₁, c', l₂, i, v, rfl, hv, ?_⟩
      rcases hd with ⟨hd, hempty, rfl⟩ | ⟨hd, -, hempty, rfl⟩
      · exact Or.inl ⟨hd, Or.inl (hempty.resolve_right (by simp)), rfl⟩
      · exact Or.inr ⟨hd, fun _ => List.cons_ne_nil _ _, hempty, rfl⟩

theorem removeKey_none {first : Bool} (h : removeKey k first l = none) :
    ∀ c ∈ l, ∀ i, hasKey k (c i) = false := by
  induction l generalizing first with
  | nil =>
    intro c hc
    cases hc
  | cons c l ih =>
    rw [removeKey] at h
    cases hf : (List.finRange w).find? fun i => hasKey k (c i) with
    | some i =>
      rw [hf] at h
      dsimp only at h
      split at h <;> cases h
    | none =>
      rw [hf] at h
      intro c' hc' i
      rcases List.mem_cons.mp hc' with rfl | hc'
      · simpa using List.find?_eq_none.mp hf i (List.mem_finRange i)
      · exact ih (Option.map_eq_none_iff.mp h) c' hc' i

theorem absent_iff : (∀ c ∈ l, ∀ i, hasKey k (c i) = false) ↔ k ∉ keys l := by
  constructor
  · intro h hk
    obtain ⟨v, hv⟩ := mem_keys.mp hk
    obtain ⟨c, hc, i, hi⟩ := mem_entries.mp hv
    have := h c hc i
    rw [hi] at this
    simp [hasKey] at this
  · intro h c hc i
    cases hb : hasKey k (c i) with
    | false => rfl
    | true =>
      obtain ⟨v, hv⟩ := hasKey_iff.mp hb
      exact absurd (mem_keys.mpr ⟨v, mem_entries.mpr ⟨c, hc, i, hv⟩⟩) h

/-- A key lies at one position of a bucket at most. -/
theorem position_unique {j : Fin w} (hn : (keys l).Nodup) (hc : c ∈ l)
    (hi : hasKey k (c i) = true) (hj : hasKey k (c j) = true) : i = j := by
  have hb : ((bucketEntries c).map Prod.fst).Nodup := by
    unfold keys entries at hn
    rw [List.map_flatMap] at hn
    exact (List.nodup_flatMap.mp hn).1 c hc
  rw [bucketEntries, List.map_flatMap] at hb
  obtain ⟨v, hv⟩ := hasKey_iff.mp hi
  obtain ⟨v', hv'⟩ := hasKey_iff.mp hj
  have hki : k ∈ (c i).toList.map Prod.fst := by simp [hv]
  have hkj : k ∈ (c j).toList.map Prod.fst := by simp [hv']
  exact eq_of_mem_flatMap hb (List.mem_finRange i) (List.mem_finRange j) hki hkj

/-- A search meets the first bucket first. -/
theorem find_cons (k : κ) (c : Bucket κ ν w) (l : List (Bucket κ ν w)) :
    find k (c :: l) = match (List.finRange w).find? fun i => hasKey k (c i) with
      | some i => (c i).map Prod.snd
      | none => find k l := by
  have aux : ∀ L : List (Fin w), (L.flatMap fun i => (c i).toList).find? (fun e => e.1 = k) =
      (L.find? fun i => hasKey k (c i)).bind c := by
    intro L
    induction L with
    | nil => rfl
    | cons i L ih =>
      rw [List.flatMap_cons, List.find?_append, ih, List.find?_cons]
      cases hc : c i with
      | none => simp [hasKey]
      | some e => by_cases he : e.1 = k <;> simp [hasKey, he, hc]
  unfold find
  rw [entries_cons, List.find?_append, bucketEntries, aux]
  cases hf : (List.finRange w).find? fun i => hasKey k (c i) with
  | none => rfl
  | some i =>
    obtain ⟨v, hv⟩ := hasKey_iff.mp (List.find?_some (p := fun i => hasKey k (c i)) hf)
    simp [hv]

theorem find_eq_some (hn : (keys l).Nodup) : find k l = some v ↔ (k, v) ∈ entries l := by
  unfold find
  constructor
  · intro h
    obtain ⟨e, he, rfl⟩ := Option.map_eq_some_iff.mp h
    have hk := List.find?_some he
    simp only [decide_eq_true_eq] at hk
    rw [← hk]
    exact List.mem_of_find?_eq_some he
  · intro h
    cases hf : (entries l).find? fun e => e.1 = k with
    | none =>
      have := List.find?_eq_none.mp hf (k, v) h
      simp at this
    | some e =>
      have hk := List.find?_some hf
      simp only [decide_eq_true_eq] at hk
      have he := List.inj_on_of_nodup_map hn (List.mem_of_find?_eq_some hf) h hk
      rw [he]
      rfl

theorem find_eq_none : find k l = none ↔ k ∉ keys l := by
  simp only [find, Option.map_eq_none_iff, List.find?_eq_none, decide_eq_true_eq, keys,
    List.mem_map, not_exists, not_and]

/-- What the chain holds, entry by entry, decides what a search finds. -/
theorem find_eq_of_entries {k' : κ} (hn : (keys l).Nodup) (hn' : (keys l').Nodup)
    (h : ∀ v, (k', v) ∈ entries l' ↔ (k', v) ∈ entries l) : find k' l' = find k' l := by
  ext v
  simp only [find_eq_some hn, find_eq_some hn', h v]

end Keys

/-! ## The table -/

structure Store (κ ν : Type*) (w : Nat) where
  chains : Nat → List (Bucket κ ν w)
  freeSlots : Nat
  freeExts : Nat

section Operations
variable [DecidableEq κ] (home : κ → Nat)

/-- A bucket with one entry. -/
def single [NeZero w] (k : κ) (v : ν) : Bucket κ ν w := Function.update (fun _ => none) 0 (some (k, v))

/-- `false` when there is no room: the table is left alone. -/
def Store.put [NeZero w] (s : Store κ ν w) (k : κ) (v : ν) : Store κ ν w × Bool :=
  match replaceFirst (hasKey k) (some (k, v)) (s.chains (home k)) with
  | some l => ({ s with chains := Function.update s.chains (home k) l }, true)
  | none =>
    match replaceFirst Option.isNone (some (k, v)) (s.chains (home k)) with
    | some l =>
      if s.freeSlots = 0 then (s, false)
      else
        ({ s with
            chains := Function.update s.chains (home k) l
            freeSlots := s.freeSlots - 1 }, true)
    | none =>
      if s.freeExts = 0 ∨ s.freeSlots = 0 then (s, false)
      else
        ({ chains := Function.update s.chains (home k) (s.chains (home k) ++ [single k v])
           freeSlots := s.freeSlots - 1
           freeExts := s.freeExts - 1 }, true)

def Store.remove (s : Store κ ν w) (k : κ) : Store κ ν w :=
  match removeKey k true (s.chains (home k)) with
  | some (l, dropped) =>
    { chains := Function.update s.chains (home k) l
      freeSlots := s.freeSlots + 1
      freeExts := s.freeExts + if dropped then 1 else 0 }
  | none => s

def Store.get (s : Store κ ν w) (k : κ) : Option ν := find k (s.chains (home k))

/-- No position of the chain is free. -/
def Full (l : List (Bucket κ ν w)) : Prop := ∀ c ∈ l, ∀ i, c i ≠ none

/-- Everything a `put` can do. -/
theorem put_cases [NeZero w] (s : Store κ ν w) (k : κ) (v : ν) :
    (∃ l₁ c l₂ i v₀, s.chains (home k) = l₁ ++ c :: l₂ ∧ c i = some (k, v₀) ∧
      s.put home k v = ({ s with
        chains := Function.update s.chains (home k)
          (l₁ ++ Function.update c i (some (k, v)) :: l₂) }, true)) ∨
    k ∉ keys (s.chains (home k)) ∧
      ((s.freeSlots ≠ 0 ∧ ∃ l₁ c l₂ i, s.chains (home k) = l₁ ++ c :: l₂ ∧ c i = none ∧
        s.put home k v = ({ s with
          chains := Function.update s.chains (home k)
            (l₁ ++ Function.update c i (some (k, v)) :: l₂)
          freeSlots := s.freeSlots - 1 }, true)) ∨
      (s.freeSlots ≠ 0 ∧ s.freeExts ≠ 0 ∧ Full (s.chains (home k)) ∧
        s.put home k v = (⟨Function.update s.chains (home k) (s.chains (home k) ++ [single k v]),
          s.freeSlots - 1, s.freeExts - 1⟩, true)) ∨
      ((s.freeSlots = 0 ∨ s.freeExts = 0 ∧ Full (s.chains (home k))) ∧
        s.put home k v = (s, false))) := by
  unfold Store.put
  cases hk : replaceFirst (hasKey k) (some (k, v)) (s.chains (home k)) with
  | some l =>
    obtain ⟨l₁, c, l₂, i, hl, ht, rfl⟩ := replaceFirst_some hk
    obtain ⟨v₀, hv⟩ := hasKey_iff.mp ht
    exact Or.inl ⟨l₁, c, l₂, i, v₀, hl, hv, rfl⟩
  | none =>
    refine Or.inr ⟨absent_iff.mp (replaceFirst_none hk), ?_⟩
    cases hf : replaceFirst Option.isNone (some (k, v)) (s.chains (home k)) with
    | some l =>
      obtain ⟨l₁, c, l₂, i, hl, ht, rfl⟩ := replaceFirst_some hf
      dsimp only
      split
      · rename_i hz
        exact Or.inr (Or.inr ⟨Or.inl hz, rfl⟩)
      · rename_i hz
        exact Or.inl ⟨hz, l₁, c, l₂, i, hl, Option.isNone_iff_eq_none.mp ht, rfl⟩
    | none =>
      have hfull : Full (s.chains (home k)) := fun c hc i hi => by
        simpa [hi] using replaceFirst_none hf c hc i
      dsimp only
      split
      · rename_i hz
        rcases hz with hz | hz
        · exact Or.inr (Or.inr ⟨Or.inr ⟨hz, hfull⟩, rfl⟩)
        · exact Or.inr (Or.inr ⟨Or.inl hz, rfl⟩)
      · rename_i hz
        obtain ⟨hz, hz'⟩ := not_or.mp hz
        exact Or.inr (Or.inl ⟨hz', hz, hfull, rfl⟩)

/-- Everything a `remove` can do. -/
theorem remove_cases (s : Store κ ν w) (k : κ) :
    (k ∉ keys (s.chains (home k)) ∧ s.remove home k = s) ∨
    ∃ l₁ c l₂ i v, s.chains (home k) = l₁ ++ c :: l₂ ∧ c i = some (k, v) ∧
      (((isEmpty (Function.update c i none) = false ∨ l₁ = []) ∧
        s.remove home k = { s with
          chains := Function.update s.chains (home k) (l₁ ++ Function.update c i none :: l₂)
          freeSlots := s.freeSlots + 1 }) ∨
      (l₁ ≠ [] ∧ isEmpty (Function.update c i none) = true ∧
        s.remove home k = ⟨Function.update s.chains (home k) (l₁ ++ l₂), s.freeSlots + 1,
          s.freeExts + 1⟩)) := by
  unfold Store.remove
  cases hk : removeKey k true (s.chains (home k)) with
  | none => exact Or.inl ⟨absent_iff.mp (removeKey_none hk), rfl⟩
  | some r =>
    obtain ⟨l, dropped⟩ := r
    obtain ⟨l₁, c, l₂, i, v, hl, hv, hd⟩ := removeKey_some hk
    refine Or.inr ⟨l₁, c, l₂, i, v, hl, hv, ?_⟩
    rcases hd with ⟨rfl, he, rfl⟩ | ⟨rfl, hne, he, rfl⟩
    · exact Or.inl ⟨he.imp_right And.right, rfl⟩
    · exact Or.inr ⟨hne rfl, he, rfl⟩

end Operations

/-! ## The invariant -/

section Invariant
variable {home : κ → Nat} {s : Store κ ν w} {n slots exts : Nat} {k k' : κ} {v : ν}

/-- `n` chains over a pool of `slots` entries and one of `exts` further buckets. -/
structure Good (home : κ → Nat) (n slots exts : Nat) (s : Store κ ν w) : Prop where
  base : ∀ b, s.chains b ≠ []
  placed : ∀ b, ∀ k ∈ keys (s.chains b), home k = b
  nodup : ∀ b, (keys (s.chains b)).Nodup
  occupied : ∀ b, Occupied (s.chains b)
  slots_eq : s.freeSlots + ∑ b ∈ Finset.range n, (entries (s.chains b)).length = slots
  exts_eq : s.freeExts + ∑ b ∈ Finset.range n, ((s.chains b).length - 1) = exts

/-- A sum of which one term changes. -/
theorem sum_change {f g : Nat → Nat} {b : Nat} (hb : b < n) (h : ∀ x, x ≠ b → g x = f x) :
    ∑ x ∈ Finset.range n, g x + f b = ∑ x ∈ Finset.range n, f x + g b := by
  have hf := Finset.add_sum_erase (Finset.range n) f (Finset.mem_range.mpr hb)
  have hg := Finset.add_sum_erase (Finset.range n) g (Finset.mem_range.mpr hb)
  have he : ∑ x ∈ (Finset.range n).erase b, g x = ∑ x ∈ (Finset.range n).erase b, f x :=
    Finset.sum_congr rfl fun x hx => h x (Finset.ne_of_mem_erase hx)
  omega

/-- The invariant when one chain changes: its keys, its length and its number of entries. -/
theorem Good.update (hg : Good home n slots exts s) {b : Nat} (hb : b < n)
    {l : List (Bucket κ ν w)} {freeSlots freeExts : Nat} (hl : l ≠ []) (hn : (keys l).Nodup)
    (ho : Occupied l) (hp : ∀ k ∈ keys l, home k = b)
    (hs : freeSlots + (entries l).length = s.freeSlots + (entries (s.chains b)).length)
    (he : freeExts + l.length = s.freeExts + (s.chains b).length) :
    Good home n slots exts ⟨Function.update s.chains b l, freeSlots, freeExts⟩ where
  base := fun x => by
    by_cases hx : x = b
    · subst hx
      simpa using hl
    · simpa [Function.update_of_ne hx] using hg.base x
  placed := fun x => by
    by_cases hx : x = b
    · subst hx
      simpa using hp
    · simpa [Function.update_of_ne hx] using hg.placed x
  nodup := fun x => by
    by_cases hx : x = b
    · subst hx
      simpa using hn
    · simpa [Function.update_of_ne hx] using hg.nodup x
  occupied := fun x => by
    by_cases hx : x = b
    · subst hx
      simpa using ho
    · simpa [Function.update_of_ne hx] using hg.occupied x
  slots_eq := by
    have hsum := sum_change (f := fun x => (entries (s.chains x)).length)
      (g := fun x => (entries (Function.update s.chains b l x)).length) hb
      (fun x hx => by rw [Function.update_of_ne hx])
    have := hg.slots_eq
    simp only [Function.update_self] at hsum ⊢
    omega
  exts_eq := by
    have hsum := sum_change (f := fun x => (s.chains x).length - 1)
      (g := fun x => (Function.update s.chains b l x).length - 1) hb
      (fun x hx => by rw [Function.update_of_ne hx])
    have := hg.exts_eq
    have hpos := List.length_pos_iff.mpr hl
    have hpos' := List.length_pos_iff.mpr (hg.base b)
    simp only [Function.update_self] at hsum ⊢
    omega

end Invariant

end P4Switch.Lib.BucketChains
