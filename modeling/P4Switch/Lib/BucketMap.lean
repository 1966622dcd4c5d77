import P4Switch.Lib.BucketChains

/-! # Chains of buckets as a finite map

`put` and `remove` keep the invariant and act on the entries as on a finite map; `put` is
refused only when a pool is exhausted. -/
namespace P4Switch.Lib.BucketChains

variable {κ ν : Type*} {w : Nat} {home : κ → Nat} {s : Store κ ν w} {n slots exts : Nat} {k k' : κ}
  {v : ν}

/-! ## One chain -/

section
variable {l l' : List (Bucket κ ν w)} {v₀ : ν} {rest : List (κ × ν)}

theorem keys_perm (h : (entries l).Perm ((k, v) :: rest)) :
    (keys l).Perm (k :: rest.map Prod.fst) := h.map Prod.fst

/-- The other entries, when the keys are distinct. -/
theorem mem_rest (hn : (keys l).Nodup) (h : (entries l).Perm ((k, v) :: rest)) {e : κ × ν} :
    e ∈ rest ↔ e ∈ entries l ∧ e.1 ≠ k := by
  have hk := (List.nodup_cons.mp ((keys_perm h).nodup_iff.mp hn)).1
  constructor
  · intro he
    refine ⟨h.mem_iff.mpr (List.mem_cons_of_mem _ he), ?_⟩
    rintro rfl
    exact hk (List.mem_map_of_mem he)
  · rintro ⟨he, hne⟩
    rcases List.mem_cons.mp (h.mem_iff.mp he) with rfl | he
    · exact absurd rfl hne
    · exact he

/-- The entry of a key replaced. -/
theorem replaced (hn : (keys l).Nodup) (h : (entries l).Perm ((k, v₀) :: rest))
    (h' : (entries l').Perm ((k, v) :: rest)) :
    (keys l').Nodup ∧ ∀ e, e ∈ entries l' ↔ e = (k, v) ∨ e ∈ entries l ∧ e.1 ≠ k := by
  refine ⟨(keys_perm h').nodup_iff.mpr ((keys_perm h).nodup_iff.mp hn), fun e => ?_⟩
  rw [h'.mem_iff, List.mem_cons, mem_rest hn h]

/-- An entry under a new key. -/
theorem added (hn : (keys l).Nodup) (hk : k ∉ keys l) (h' : (entries l').Perm ((k, v) :: entries l)) :
    (keys l').Nodup ∧ ∀ e, e ∈ entries l' ↔ e = (k, v) ∨ e ∈ entries l ∧ e.1 ≠ k := by
  refine ⟨(keys_perm h').nodup_iff.mpr (List.nodup_cons.mpr ⟨hk, hn⟩), fun e => ?_⟩
  rw [h'.mem_iff, List.mem_cons]
  refine or_congr_right (iff_self_and.mpr fun he => ?_)
  rintro rfl
  exact hk (List.mem_map_of_mem he)

/-- The entry of a key taken out. -/
theorem removed (hn : (keys l).Nodup) (h : (entries l).Perm ((k, v₀) :: entries l')) :
    (keys l').Nodup ∧ ∀ e, e ∈ entries l' ↔ e ∈ entries l ∧ e.1 ≠ k :=
  ⟨(List.nodup_cons.mp ((keys_perm h).nodup_iff.mp hn)).2, fun _ => mem_rest hn h⟩

end

/-! ## Counting -/

def size (n : Nat) (s : Store κ ν w) : Nat := ∑ b ∈ Finset.range n, (entries (s.chains b)).length

/-- All buckets but the last are full. -/
def Packed (l : List (Bucket κ ν w)) : Prop := Full l.dropLast

theorem bucketEntries_length_full {c : Bucket κ ν w} (h : ∀ i, c i ≠ none) :
    (bucketEntries c).length = w := by
  have : ∀ i ∈ List.finRange w, (c i).toList.length = 1 := fun i _ => by
    obtain ⟨e, he⟩ := Option.ne_none_iff_exists'.mp (h i)
    simp [he]
  rw [bucketEntries, List.length_flatMap, List.map_congr_left this]
  simp

theorem entries_length_full {l : List (Bucket κ ν w)} (h : Full l) :
    (entries l).length = w * l.length := by
  induction l with
  | nil => rfl
  | cons c l ih =>
    have hc := bucketEntries_length_full (h c List.mem_cons_self)
    have hl := ih fun d hd => h d (List.mem_cons_of_mem c hd)
    rw [entries_cons, List.length_append, hc, hl, List.length_cons]
    ring

/-- Every further bucket holds an entry. -/
theorem Occupied.le_entries {l : List (Bucket κ ν w)} (h : Occupied l) :
    l.length - 1 ≤ (entries l).length := by
  have aux : ∀ l : List (Bucket κ ν w), (∀ c ∈ l, isEmpty c = false) →
      l.length ≤ (entries l).length := by
    intro l
    induction l with
    | nil => simp
    | cons c l ih =>
      intro h
      have hl := ih fun d hd => h d (List.mem_cons_of_mem c hd)
      have hc : (bucketEntries c).length ≠ 0 := fun hz => by
        have : isEmpty c = true := isEmpty_eq_true.mpr fun i => by
          cases hi : c i with
          | none => rfl
          | some e =>
            have := mem_bucketEntries.mpr ⟨i, hi⟩
            rw [List.eq_nil_of_length_eq_zero hz] at this
            cases this
        rw [h c List.mem_cons_self] at this
        cases this
      rw [entries_cons, List.length_append, List.length_cons]
      omega
  cases l with
  | nil => simp
  | cons c l =>
    have := aux l h
    rw [entries_cons, List.length_append, List.length_cons]
    omega

theorem Packed.le_entries {l : List (Bucket κ ν w)} (h : Packed l) :
    w * (l.length - 1) ≤ (entries l).length := by
  rcases List.eq_nil_or_concat l with rfl | ⟨l, c, rfl⟩
  · simp
  · rw [Packed, List.concat_eq_append, List.dropLast_concat] at h
    simp [entries_length_full h]

theorem Packed.replace {l₁ l₂ : List (Bucket κ ν w)} {c : Bucket κ ν w} {i : Fin w} {e : κ × ν}
    (h : Packed (l₁ ++ c :: l₂)) : Packed (l₁ ++ Function.update c i (some e) :: l₂) := by
  rw [Packed, List.dropLast_append_cons] at h ⊢
  cases l₂ with
  | nil => exact h
  | cons d l₂ =>
    intro c' hc' j
    rcases List.mem_append.mp hc' with hc' | hc'
    · exact h c' (List.mem_append_left _ hc') j
    · rcases List.mem_cons.mp hc' with rfl | hc'
      · by_cases hj : j = i
        · subst hj
          simp
        · rw [Function.update_of_ne hj]
          exact h c (List.mem_append_right _ List.mem_cons_self) j
      · exact h c' (List.mem_append_right _ (List.mem_cons_of_mem _ hc')) j

/-- Entries counted chain by chain, the full chain apart. -/
theorem size_ge {f : Nat → Nat} {b : Nat} (hb : b < n)
    (h : ∀ x, x ≠ b → f x ≤ (entries (s.chains x)).length) :
    (∑ x ∈ Finset.range n, f x) + (entries (s.chains b)).length ≤ size n s + f b := by
  have hf := Finset.add_sum_erase (Finset.range n) f (Finset.mem_range.mpr hb)
  have hs := Finset.add_sum_erase (Finset.range n) (fun x => (entries (s.chains x)).length)
    (Finset.mem_range.mpr hb)
  have hle : ∑ x ∈ (Finset.range n).erase b, f x ≤
      ∑ x ∈ (Finset.range n).erase b, (entries (s.chains x)).length :=
    Finset.sum_le_sum fun x hx => h x (Finset.ne_of_mem_erase hx)
  unfold size
  omega

/-! ## The invariant -/

/-- The keys of a chain whose entries are old ones or at home there. -/
theorem placed_of_entries (hg : Good home n slots exts s) {b : Nat} {l : List (Bucket κ ν w)}
    (h : ∀ e ∈ entries l, home e.1 = b ∨ e ∈ entries (s.chains b)) : ∀ k ∈ keys l, home k = b := by
  intro k hk
  obtain ⟨v, hv⟩ := mem_keys.mp hk
  exact (h _ hv).elim id fun h => hg.placed b k (List.mem_map_of_mem h)

/-- Two tables over the same pools with the same chains are the same table. -/
theorem Good.ext {s' : Store κ ν w} (hg : Good home n slots exts s) (hg' : Good home n slots exts s')
    (h : ∀ b, s.chains b = s'.chains b) : s = s' := by
  have hc : s.chains = s'.chains := funext h
  have h₁ := hg.slots_eq
  have h₂ := hg'.slots_eq
  have h₃ := hg.exts_eq
  have h₄ := hg'.exts_eq
  rw [hc] at h₁ h₃
  cases s
  cases s'
  simp only [Store.mk.injEq] at hc h₁ h₂ h₃ h₄ ⊢
  exact ⟨hc, by omega, by omega⟩

variable [DecidableEq κ]

/-! ## put -/

section
variable [NeZero w] (hg : Good home n slots exts s)
include hg

/-- What an accepted `put` does to the home chain; the other chains stay. -/
theorem put_effect (hh : ∀ k, home k < n) (k : κ) (v : ν) :
    Good home n slots exts (s.put home k v).1 ∧
      (((s.put home k v).2 = true ∧
          (∀ b, b ≠ home k → (s.put home k v).1.chains b = s.chains b) ∧
          ∀ e, e ∈ entries ((s.put home k v).1.chains (home k)) ↔
            e = (k, v) ∨ e ∈ entries (s.chains (home k)) ∧ e.1 ≠ k) ∨
        ((s.put home k v) = (s, false) ∧ k ∉ keys (s.chains (home k)) ∧
          (s.freeSlots = 0 ∨ s.freeExts = 0 ∧ Full (s.chains (home k))))) := by
  have hn := hg.nodup (home k)
  have ho := hg.occupied (home k)
  have hplaced : ∀ l : List (Bucket κ ν w), (∀ e, e ∈ entries l ↔
      e = (k, v) ∨ e ∈ entries (s.chains (home k)) ∧ e.1 ≠ k) → ∀ k' ∈ keys l, home k' = home k :=
    fun l he => placed_of_entries hg fun e hel => by
      rcases (he e).mp hel with rfl | ⟨h, -⟩
      · exact Or.inl rfl
      · exact Or.inr h
  rcases put_cases home s k v with ⟨l₁, c, l₂, i, v₀, hl, hc, hput⟩ | ⟨habs, hput⟩
  · obtain ⟨h, h'⟩ := entries_rewrite l₁ l₂ hc (k, v)
    rw [hl] at hn ho
    obtain ⟨hn', he⟩ := replaced hn h h'
    rw [← hl] at he
    rw [hput]
    refine ⟨hg.update (hh k) (by simp) hn'
      (ho.replace (Or.inl (isEmpty_update_some _ _ _))) (hplaced _ he) ?_ ?_,
      Or.inl ⟨rfl, ?_, ?_⟩⟩
    · rw [hl, h.length_eq, h'.length_eq]
      rfl
    · rw [hl]
      simp
    · exact fun b hb => Function.update_of_ne hb _ _
    · intro e
      simp only [Function.update_self]
      exact he e
  · rcases hput with ⟨hz, l₁, c, l₂, i, hl, hc, hput⟩ | ⟨hz, hz', hfull, hput⟩ | ⟨hroom, hput⟩
    · have h' : (entries (l₁ ++ Function.update c i (some (k, v)) :: l₂)).Perm
          ((k, v) :: entries (l₁ ++ c :: l₂)) :=
        entries_middle (r := [(k, v)]) (bucketEntries_fill hc (k, v))
      rw [hl] at hn ho habs
      obtain ⟨hn', he⟩ := added hn habs h'
      rw [← hl] at he
      rw [hput]
      refine ⟨hg.update (hh k) (by simp) hn'
        (ho.replace (Or.inl (isEmpty_update_some _ _ _))) (hplaced _ he) ?_ ?_,
        Or.inl ⟨rfl, ?_, ?_⟩⟩
      · rw [hl, h'.length_eq, List.length_cons]
        omega
      · rw [hl]
        simp
      · exact fun b hb => Function.update_of_ne hb _ _
      · intro e
        simp only [Function.update_self]
        exact he e
    · have h' : (entries (s.chains (home k) ++ [single k v])).Perm
          ((k, v) :: entries (s.chains (home k))) := by
        have hs := bucketEntries_fill (c := fun _ : Fin w => (none : Option (κ × ν))) (i := 0) rfl
          (k, v)
        rw [bucketEntries_empty (c := fun _ : Fin w => (none : Option (κ × ν)))
          (isEmpty_eq_true.mpr fun _ => rfl)] at hs
        simp only [entries_append, entries_cons, entries_nil, List.append_nil]
        exact (hs.append_left _).trans (List.perm_append_singleton _ _)
      obtain ⟨hn', he⟩ := added hn habs h'
      rw [hput]
      refine ⟨hg.update (hh k) (by simp) hn' (ho.snoc (isEmpty_update_some _ _ _)) (hplaced _ he)
        ?_ ?_, Or.inl ⟨rfl, ?_, ?_⟩⟩
      · rw [h'.length_eq, List.length_cons]
        omega
      · rw [List.length_append, List.length_singleton]
        omega
      · exact fun b hb => Function.update_of_ne hb _ _
      · intro e
        simp only [Function.update_self]
        exact he e
    · rw [hput]
      exact ⟨hg, Or.inr ⟨rfl, habs, hroom⟩⟩

theorem get_put (hh : ∀ k, home k < n) (h : (s.put home k v).2 = true) (k' : κ) :
    (s.put home k v).1.get home k' = if k' = k then some v else s.get home k' := by
  obtain ⟨hg', ⟨-, hother, he⟩ | ⟨hput, -⟩⟩ := put_effect hg hh k v
  · split
    · rename_i hk
      subst hk
      exact (find_eq_some (hg'.nodup _)).mpr ((he _).mpr (Or.inl rfl))
    · rename_i hk
      by_cases hb : home k' = home k
      · unfold Store.get
        rw [hb]
        refine find_eq_of_entries (hg.nodup _) (hg'.nodup _) fun v' => ?_
        rw [he]
        simp [hk]
      · rw [Store.get, hother _ hb, Store.get]
  · rw [hput] at h
    cases h

end

/-! ## remove -/

section
variable (hg : Good home n slots exts s)
include hg

theorem remove_effect (hh : ∀ k, home k < n) (k : κ) :
    Good home n slots exts (s.remove home k) ∧
      (∀ b, b ≠ home k → (s.remove home k).chains b = s.chains b) ∧
      ∀ e, e ∈ entries ((s.remove home k).chains (home k)) ↔
        e ∈ entries (s.chains (home k)) ∧ e.1 ≠ k := by
  have hn := hg.nodup (home k)
  have ho := hg.occupied (home k)
  have hplaced : ∀ l : List (Bucket κ ν w), (∀ e, e ∈ entries l ↔
      e ∈ entries (s.chains (home k)) ∧ e.1 ≠ k) → ∀ k' ∈ keys l, home k' = home k :=
    fun l he => placed_of_entries hg fun e hel => Or.inr ((he e).mp hel).1
  rcases remove_cases home s k with ⟨habs, hrem⟩ | ⟨l₁, c, l₂, i, v, hl, hc, hrem⟩
  · rw [hrem]
    refine ⟨hg, fun _ _ => rfl, fun e => iff_self_and.mpr fun he => ?_⟩
    rintro rfl
    exact habs (List.mem_map_of_mem he)
  · obtain ⟨h, -⟩ := entries_rewrite l₁ l₂ hc (k, v)
    rw [hl] at hn ho
    rcases hrem with ⟨hfirst, hrem⟩ | ⟨hne, hempty, hrem⟩
    · obtain ⟨hn', he⟩ := removed hn h
      rw [← hl] at he
      rw [hrem]
      refine ⟨hg.update (hh k) (by simp) hn' (ho.replace hfirst) (hplaced _ he) ?_ ?_, ?_, ?_⟩
      · rw [hl, h.length_eq, List.length_cons]
        omega
      · rw [hl]
        simp
      · exact fun b hb => Function.update_of_ne hb _ _
      · intro e
        simp only [Function.update_self]
        exact he e
    · have hdrop : entries (l₁ ++ Function.update c i none :: l₂) = entries (l₁ ++ l₂) := by
        simp [bucketEntries_empty hempty]
      rw [hdrop] at h
      obtain ⟨hn', he⟩ := removed hn h
      rw [← hl] at he
      rw [hrem]
      refine ⟨hg.update (hh k) (by simp [hne]) hn' (ho.drop hne) (hplaced _ he) ?_ ?_, ?_, ?_⟩
      · rw [hl, h.length_eq, List.length_cons]
        omega
      · rw [hl]
        simp only [List.length_append, List.length_cons]
        omega
      · exact fun b hb => Function.update_of_ne hb _ _
      · intro e
        simp only [Function.update_self]
        exact he e

theorem get_remove (hh : ∀ k, home k < n) (k' : κ) :
    (s.remove home k).get home k' = if k' = k then none else s.get home k' := by
  obtain ⟨hg', hother, he⟩ := remove_effect hg hh k
  split
  · rename_i hk
    subst hk
    refine find_eq_none.mpr fun hk => ?_
    obtain ⟨v, hv⟩ := mem_keys.mp hk
    exact ((he _).mp hv).2 rfl
  · rename_i hk
    by_cases hb : home k' = home k
    · unfold Store.get
      rw [hb]
      refine find_eq_of_entries (hg.nodup _) (hg'.nodup _) fun v' => ?_
      rw [he]
      simp [hk]
    · rw [Store.get, hother _ hb, Store.get]

end

/-! ## When there is no room -/

section
variable [NeZero w] (hg : Good home n slots exts s)
include hg

/-- A refused `put` found the pool of entries exhausted, or the other pool and a full chain. -/
theorem refused_size (hh : ∀ k, home k < n) (h : (s.put home k v).2 = false) :
    size n s = slots ∨ exts + w ≤ size n s := by
  obtain ⟨-, ⟨hacc, -⟩ | ⟨-, -, hz | ⟨hz, hfull⟩⟩⟩ := put_effect hg hh k v
  · rw [hacc] at h
    cases h
  · have := hg.slots_eq
    left
    unfold size
    omega
  · right
    have hsum := size_ge (s := s) (f := fun x => (s.chains x).length - 1) (hh k)
      fun x _ => (hg.occupied x).le_entries
    have hexts := hg.exts_eq
    have hlen := entries_length_full hfull
    have hpos := List.length_pos_iff.mpr (hg.base (home k))
    have hw : 0 < w := Nat.pos_of_ne_zero (NeZero.ne w)
    have hmul : w + ((s.chains (home k)).length - 1) ≤ w * (s.chains (home k)).length := by
      obtain ⟨m, hm⟩ := Nat.exists_eq_succ_of_ne_zero hpos.ne'
      rw [hm, Nat.succ_sub_one, Nat.mul_succ]
      have := Nat.le_mul_of_pos_left m hw
      omega
    omega

/-- While the chains are packed, `put` is refused exactly when the entries are used up. -/
theorem refused_iff_of_packed (hh : ∀ k, home k < n) (hp : ∀ b, Packed (s.chains b))
    (hroom : slots < w * (exts + 1)) :
    (s.put home k v).2 = false ↔ k ∉ keys (s.chains (home k)) ∧ size n s = slots := by
  have hslots := hg.slots_eq
  obtain ⟨-, ⟨hacc, -, he⟩ | ⟨hput, habs, hz⟩⟩ := put_effect hg hh k v
  · rw [hacc]
    simp only [Bool.true_eq_false, false_iff, not_and]
    intro habs hsize
    rcases put_cases home s k v with ⟨l₁, c, l₂, i, v₀, hl, hc, -⟩ | ⟨-, h⟩
    · refine habs (mem_keys.mpr ⟨v₀, ?_⟩)
      rw [hl]
      exact mem_entries.mpr ⟨c, by simp, i, hc⟩
    · unfold size at hsize
      rcases h with ⟨hz, -⟩ | ⟨hz, -⟩ | ⟨-, hput⟩
      · omega
      · omega
      · rw [hput] at hacc
        cases hacc
  · rw [hput]
    refine iff_of_true rfl ⟨habs, ?_⟩
    rcases hz with hz | ⟨hz, hfull⟩
    · unfold size
      omega
    · exfalso
      have hsum := size_ge (s := s) (f := fun x => w * ((s.chains x).length - 1)) (hh k)
        fun x _ => (hp x).le_entries
      have hexts := hg.exts_eq
      have hlen := entries_length_full hfull
      have hpos := List.length_pos_iff.mpr (hg.base (home k))
      have hmul : w * (s.chains (home k)).length = w * ((s.chains (home k)).length - 1) + w := by
        obtain ⟨m, hm⟩ := Nat.exists_eq_succ_of_ne_zero hpos.ne'
        rw [hm, Nat.succ_sub_one, Nat.mul_succ]
      have hfac : ∑ x ∈ Finset.range n, w * ((s.chains x).length - 1) = w * exts := by
        rw [← Finset.mul_sum, ← hexts, hz, Nat.zero_add]
      rw [Nat.mul_succ] at hroom
      unfold size at hsum
      omega

end

/-- As long as nothing is taken out, chains stay packed. -/
theorem packed_put [NeZero w] (hp : ∀ b, Packed (s.chains b)) (k : κ) (v : ν) :
    ∀ b, Packed ((s.put home k v).1.chains b) := by
  intro b
  by_cases hb : b = home k
  · subst hb
    have hpk := hp (home k)
    rcases put_cases home s k v with ⟨l₁, c, l₂, i, v₀, hl, hc, hput⟩ |
      ⟨-, ⟨-, l₁, c, l₂, i, hl, hc, hput⟩ | ⟨-, -, hfull, hput⟩ | ⟨-, hput⟩⟩
    all_goals rw [hput]
    · rw [hl] at hpk
      simpa using hpk.replace
    · rw [hl] at hpk
      simpa using hpk.replace
    · simpa [Packed] using hfull
    · exact hpk
  · rcases put_cases home s k v with ⟨l₁, c, l₂, i, v₀, hl, hc, hput⟩ |
      ⟨-, ⟨-, l₁, c, l₂, i, hl, hc, hput⟩ | ⟨-, -, hfull, hput⟩ | ⟨-, hput⟩⟩
    all_goals
      rw [hput]
      simp [Function.update_of_ne hb, hp b]

/-! ## All keys -/

def allKeys (n : Nat) (s : Store κ ν w) : List κ := (List.range n).flatMap fun b => keys (s.chains b)

omit [DecidableEq κ] in
theorem length_allKeys (n : Nat) (s : Store κ ν w) : (allKeys n s).length = size n s := by
  unfold allKeys keys
  rw [List.length_flatMap]
  simp only [List.length_map]
  rfl

omit [DecidableEq κ] in
theorem Good.allKeys_nodup (hg : Good home n slots exts s) : (allKeys n s).Nodup := by
  refine List.nodup_flatMap.mpr ⟨fun b _ => hg.nodup b, List.nodup_range.imp fun {b b'} hne => ?_⟩
  exact fun k hk hk' => hne ((hg.placed b k hk).symm.trans (hg.placed b' k hk'))

theorem mem_allKeys (hg : Good home n slots exts s) (hh : ∀ k, home k < n) :
    k ∈ allKeys n s ↔ s.get home k ≠ none := by
  rw [Store.get, Ne, find_eq_none, not_not, allKeys, List.mem_flatMap]
  constructor
  · rintro ⟨b, -, hk⟩
    rwa [hg.placed b k hk]
  · exact fun hk => ⟨home k, List.mem_range.mpr (hh k), hk⟩

/-- The entries are counted by any list of the keys. -/
theorem Good.size_eq (hg : Good home n slots exts s) (hh : ∀ k, home k < n) {L : List κ}
    (hn : L.Nodup) (hL : ∀ k, k ∈ L ↔ s.get home k ≠ none) : size n s = L.length := by
  rw [← length_allKeys]
  refine ((List.perm_ext_iff_of_nodup hg.allKeys_nodup hn).mpr fun k => ?_).length_eq
  rw [mem_allKeys hg hh, hL]

/-! ## Nothing stored -/

omit [DecidableEq κ] in
theorem Good.empty (home : κ → Nat) (n slots exts : Nat) :
    Good home n slots exts (⟨fun _ => [fun _ => none], slots, exts⟩ : Store κ ν w) := by
  have he : entries [(fun _ => none : Bucket κ ν w)] = [] := by
    simp [bucketEntries]
  have hk : keys [(fun _ => none : Bucket κ ν w)] = [] := by
    rw [keys, he]
    rfl
  constructor
  case base => exact fun _ => List.cons_ne_nil _ _
  case placed =>
    intro _ k hmem
    rw [hk] at hmem
    cases hmem
  case nodup =>
    intro _
    rw [hk]
    exact List.nodup_nil
  case occupied =>
    intro _ c hc
    cases hc
  case slots_eq => simp [he]
  case exts_eq => simp

omit [DecidableEq κ] in
/-- Without entries both pools are complete. -/
theorem Good.pools_of_size_zero (hg : Good home n slots exts s) (h : size n s = 0) :
    s.freeSlots = slots ∧ s.freeExts = exts := by
  have hs := hg.slots_eq
  have he := hg.exts_eq
  have hle : ∑ b ∈ Finset.range n, ((s.chains b).length - 1) ≤ size n s :=
    Finset.sum_le_sum fun b _ => (hg.occupied b).le_entries
  unfold size at h hle
  omega

end P4Switch.Lib.BucketChains
