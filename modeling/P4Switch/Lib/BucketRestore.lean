import P4Switch.Lib.BucketMap

/-! # Taking out what was put in

New keys put into a table and taken out again, in any order, leave every entry where it
was: a chain without its new keys and without the buckets that held only new keys is the
chain there was before. -/
namespace P4Switch.Lib.BucketChains

variable {κ ν : Type*} {w : Nat} [DecidableEq κ] {home : κ → Nat} {s s' : Store κ ν w}
  {n slots exts : Nat} {k : κ} {v : ν} {new : List κ}

/-- A bucket without the entries under `new`. -/
def strip (new : List κ) (c : Bucket κ ν w) : Bucket κ ν w := fun i => (c i).filter (·.1 ∉ new)

/-- A chain without the entries under `new` and the further buckets that held only these. -/
def stripChain (new : List κ) : List (Bucket κ ν w) → List (Bucket κ ν w)
  | [] => []
  | c :: l => strip new c :: (l.map (strip new)).filter (isEmpty · = false)

theorem filter_new (hk : k ∈ new) (v : ν) : (some (k, v)).filter (·.1 ∉ new) = none := by
  simp [hk]

section
variable {l l₁ l₂ : List (Bucket κ ν w)} {c c' : Bucket κ ν w} {i : Fin w}

theorem strip_of_disjoint (h : ∀ i e, c i = some e → e.1 ∉ new) : strip new c = c := by
  funext i
  cases hc : c i with
  | none => simp [strip, hc]
  | some e => simp [strip, hc, h i e hc]

theorem stripChain_of_disjoint (h : ∀ k ∈ new, k ∉ keys l) (ho : Occupied l) :
    stripChain new l = l := by
  have hs : ∀ c ∈ l, strip new c = c := fun c hc => strip_of_disjoint fun i e he hk =>
    h e.1 hk (List.mem_map_of_mem (mem_entries.mpr ⟨c, hc, i, he⟩))
  cases l with
  | nil => rfl
  | cons c l =>
    rw [stripChain, hs c List.mem_cons_self,
      List.map_congr_left fun d hd => hs d (List.mem_cons_of_mem c hd), List.map_id',
      List.filter_eq_self.mpr fun d hd => by simpa using ho d hd]

/-- Only the stripped buckets matter. -/
theorem stripChain_replace (h : strip new c' = strip new c) :
    stripChain new (l₁ ++ c' :: l₂) = stripChain new (l₁ ++ c :: l₂) := by
  cases l₁ with
  | nil => simp only [List.nil_append, stripChain, h]
  | cons d l₁ => simp only [List.cons_append, stripChain, List.map_append, List.map_cons, h]

/-- A further bucket of new keys only does not matter. -/
theorem stripChain_drop (l₂ : List (Bucket κ ν w)) (h : isEmpty (strip new c) = true)
    (hl : l₁ ≠ []) :
    stripChain new (l₁ ++ c :: l₂) = stripChain new (l₁ ++ l₂) := by
  obtain ⟨d, l₁, rfl⟩ := List.exists_cons_of_ne_nil hl
  simp [stripChain, h]

theorem strip_update (e : Option (κ × ν)) (h : (e.filter (·.1 ∉ new)) = (c i).filter (·.1 ∉ new)) :
    strip new (Function.update c i e) = strip new c := by
  funext j
  by_cases hj : j = i
  · subst hj
    simpa [strip] using h
  · simp [strip, Function.update_of_ne hj]

end

/-- A new key put in. -/
theorem stripChain_put [NeZero w] (hb : ∀ b, s.chains b ≠ []) (hk : k ∈ new)
    (hacc : (s.put home k v).2 = true) (b : Nat) :
    stripChain new ((s.put home k v).1.chains b) = stripChain new (s.chains b) := by
  by_cases hbk : b = home k
  · subst hbk
    rcases put_cases home s k v with ⟨l₁, c, l₂, i, v₀, hl, hc, hput⟩ |
      ⟨-, ⟨-, l₁, c, l₂, i, hl, hc, hput⟩ | ⟨-, -, -, hput⟩ | ⟨-, hput⟩⟩
    · rw [hput, hl]
      simp only [Function.update_self]
      exact stripChain_replace (strip_update _ (by rw [hc, filter_new hk, filter_new hk]))
    · rw [hput, hl]
      simp only [Function.update_self]
      exact stripChain_replace (strip_update _ (by rw [hc, filter_new hk, Option.filter_none]))
    · rw [hput]
      simp only [Function.update_self]
      have hempty : isEmpty (strip new (single k v : Bucket κ ν w)) = true := by
        refine isEmpty_eq_true.mpr fun i => ?_
        by_cases hi : i = 0
        · subst hi
          simp [strip, single, hk]
        · simp [strip, single, Function.update_of_ne hi]
      have := stripChain_drop [] hempty (hb (home k))
      rwa [List.append_nil] at this
    · rw [hput] at hacc
      cases hacc
  · rcases put_cases home s k v with ⟨l₁, c, l₂, i, v₀, hl, hc, hput⟩ |
      ⟨-, ⟨-, l₁, c, l₂, i, hl, hc, hput⟩ | ⟨-, -, -, hput⟩ | ⟨-, hput⟩⟩
    all_goals simp [hput, Function.update_of_ne hbk]

/-- A new key taken out. -/
theorem stripChain_remove (hk : k ∈ new) (b : Nat) :
    stripChain new ((s.remove home k).chains b) = stripChain new (s.chains b) := by
  by_cases hbk : b = home k
  · subst hbk
    rcases remove_cases home s k with ⟨-, hrem⟩ | ⟨l₁, c, l₂, i, v, hl, hc, hrem⟩
    · rw [hrem]
    · have hs : strip new (Function.update c i none) = strip new c :=
        strip_update _ (by rw [hc, filter_new hk, Option.filter_none])
      rcases hrem with ⟨-, hrem⟩ | ⟨hne, hempty, hrem⟩
      · rw [hrem, hl]
        simp only [Function.update_self]
        exact stripChain_replace hs
      · rw [hrem, hl]
        simp only [Function.update_self]
        refine (stripChain_drop _ ?_ hne).symm
        rw [← hs]
        exact isEmpty_eq_true.mpr fun j => by simp [strip, isEmpty_eq_true.mp hempty j]
  · rcases remove_cases home s k with ⟨-, hrem⟩ | ⟨l₁, c, l₂, i, v, hl, hc, hrem⟩
    · rw [hrem]
    · rcases hrem with ⟨-, hrem⟩ | ⟨-, -, hrem⟩
      all_goals simp [hrem, Function.update_of_ne hbk]

/-! ## Runs of puts and removes -/

def Store.putAll [NeZero w] (home : κ → Nat) (s : Store κ ν w) (es : List (κ × ν)) : Store κ ν w :=
  es.foldl (fun s e => (s.put home e.1 e.2).1) s

/-- None of the entries is refused. -/
def Accepts [NeZero w] (home : κ → Nat) : Store κ ν w → List (κ × ν) → Prop
  | _, [] => True
  | s, e :: es => (s.put home e.1 e.2).2 = true ∧ Accepts home (s.put home e.1 e.2).1 es

def Store.removeAll (home : κ → Nat) (s : Store κ ν w) (ks : List κ) : Store κ ν w :=
  ks.foldl (fun s k => s.remove home k) s

theorem Good.putAll [NeZero w] (hh : ∀ k, home k < n) {es : List (κ × ν)}
    (hg : Good home n slots exts s) : Good home n slots exts (s.putAll home es) := by
  induction es generalizing s with
  | nil => exact hg
  | cons e es ih => exact ih (put_effect hg hh e.1 e.2).1

theorem Good.removeAll (hh : ∀ k, home k < n) {ks : List κ} (hg : Good home n slots exts s) :
    Good home n slots exts (s.removeAll home ks) := by
  induction ks generalizing s with
  | nil => exact hg
  | cons k ks ih => exact ih (remove_effect hg hh k).1

theorem stripChain_putAll [NeZero w] (hh : ∀ k, home k < n) {es : List (κ × ν)}
    (hg : Good home n slots exts s) (hnew : ∀ e ∈ es, e.1 ∈ new) (hacc : Accepts home s es) (b : Nat) :
    stripChain new ((s.putAll home es).chains b) = stripChain new (s.chains b) := by
  induction es generalizing s with
  | nil => rfl
  | cons e es ih =>
    have h := ih (put_effect hg hh e.1 e.2).1 (fun d hd => hnew d (List.mem_cons_of_mem e hd)) hacc.2
    exact h.trans (stripChain_put hg.base (hnew e List.mem_cons_self) hacc.1 b)

theorem stripChain_removeAll {ks : List κ} (hnew : ∀ k ∈ ks, k ∈ new) (b : Nat) :
    stripChain new ((s.removeAll home ks).chains b) = stripChain new (s.chains b) := by
  induction ks generalizing s with
  | nil => rfl
  | cons k ks ih =>
    exact (ih fun d hd => hnew d (List.mem_cons_of_mem k hd)).trans
      (stripChain_remove (hnew k List.mem_cons_self) b)

/-- Nothing is left under a key taken out. -/
theorem removeAll_keys (hh : ∀ k, home k < n) {ks : List κ} (hg : Good home n slots exts s) (b : Nat) :
    ∀ k ∈ keys ((s.removeAll home ks).chains b), k ∈ keys (s.chains b) ∧ k ∉ ks := by
  induction ks generalizing s with
  | nil => exact fun k hk => ⟨hk, List.not_mem_nil⟩
  | cons k ks ih =>
    intro k' hk'
    obtain ⟨hg', hother, he⟩ := remove_effect hg hh k
    obtain ⟨hin, hout⟩ := ih hg' k' hk'
    by_cases hb : b = home k
    · subst hb
      obtain ⟨v, hv⟩ := mem_keys.mp hin
      obtain ⟨hold, hne⟩ := (he _).mp hv
      exact ⟨List.mem_map_of_mem hold, List.not_mem_cons_of_ne_of_not_mem hne hout⟩
    · rw [hother b hb] at hin
      refine ⟨hin, List.not_mem_cons_of_ne_of_not_mem ?_ hout⟩
      rintro rfl
      exact hb (hg.placed b k' hin).symm

/-- New entries put in and their keys taken out again, in any order: the table is what it
was. -/
theorem removeAll_putAll [NeZero w] (hh : ∀ k, home k < n) {es : List (κ × ν)} {ks : List κ}
    (hg : Good home n slots exts s) (hacc : Accepts home s es)
    (habs : ∀ e ∈ es, e.1 ∉ keys (s.chains (home e.1))) (hks : ∀ k, k ∈ ks ↔ ∃ v, (k, v) ∈ es) :
    (s.putAll home es).removeAll home ks = s := by
  have hg₁ : Good home n slots exts (s.putAll home es) := hg.putAll hh
  have hg₂ : Good home n slots exts ((s.putAll home es).removeAll home ks) := hg₁.removeAll hh
  refine hg₂.ext hg fun b => ?_
  have hnew : ∀ e ∈ es, e.1 ∈ ks := fun e he => (hks e.1).mpr ⟨e.2, he⟩
  have hremoved : stripChain ks (((s.putAll home es).removeAll home ks).chains b) = _ :=
    stripChain_removeAll (fun _ h => h) b
  have hs := hremoved.trans (stripChain_putAll hh hg hnew hacc b)
  rw [stripChain_of_disjoint ?_ (hg₂.occupied b), stripChain_of_disjoint ?_ (hg.occupied b)] at hs
  · exact hs
  · intro k hk hkeys
    obtain ⟨v, hv⟩ := (hks k).mp hk
    have := hg.placed b k hkeys
    subst this
    exact habs _ hv hkeys
  · exact fun k hk hkeys => (removeAll_keys hh hg₁ b k hkeys).2 hk

/-- Keys that are absent change nothing. -/
theorem removeAll_absent {ks : List κ} (h : ∀ k ∈ ks, k ∉ keys (s.chains (home k))) :
    s.removeAll home ks = s := by
  induction ks with
  | nil => rfl
  | cons k ks ih =>
    have hk : s.remove home k = s := by
      rcases remove_cases home s k with ⟨-, hrem⟩ | ⟨l₁, c, l₂, i, v, hl, hc, -⟩
      · exact hrem
      · refine absurd (mem_keys.mpr ⟨v, ?_⟩) (h k List.mem_cons_self)
        rw [hl]
        exact mem_entries.mpr ⟨c, by simp, i, hc⟩
    rw [Store.removeAll, List.foldl_cons, hk]
    exact ih fun k' hk' => h k' (List.mem_cons_of_mem k hk')

theorem get_removeAll (hh : ∀ k, home k < n) (hg : Good home n slots exts s) (ks : List κ) (k : κ) :
    (s.removeAll home ks).get home k = if k ∈ ks then none else s.get home k := by
  induction ks generalizing s with
  | nil => simp [Store.removeAll]
  | cons k' ks ih =>
    rw [Store.removeAll, List.foldl_cons]
    refine (ih (remove_effect hg hh k').1).trans ?_
    rw [get_remove hg hh]
    by_cases hk : k = k'
    · simp [hk]
    · simp [hk]

/-! ## Values overwritten -/

/-- The keys of a bucket, position by position. -/
def shape (c : Bucket κ ν w) : Fin w → Option κ := fun i => (c i).map Prod.fst

omit [DecidableEq κ] in
theorem shape_overwrite {c : Bucket κ ν w} {i : Fin w} {v₀ : ν} (h : c i = some (k, v₀)) (v : ν) :
    shape (Function.update c i (some (k, v))) = shape c := by
  funext j
  by_cases hj : j = i
  · subst hj
    simp [shape, h]
  · simp [shape, Function.update_of_ne hj]

theorem present_iff (s : Store κ ν w) (k : κ) :
    k ∈ keys (s.chains (home k)) ↔ s.get home k ≠ none := by
  rw [Store.get, Ne, find_eq_none, not_not]

/-- A key that is there keeps its place. -/
theorem put_present [NeZero w] (h : s.get home k ≠ none) (v : ν) :
    (s.put home k v).2 = true ∧
      ∀ b, ((s.put home k v).1.chains b).map shape = (s.chains b).map shape := by
  rcases put_cases home s k v with ⟨l₁, c, l₂, i, v₀, hl, hc, hput⟩ | ⟨habs, -⟩
  · rw [hput]
    refine ⟨rfl, fun b => ?_⟩
    by_cases hb : b = home k
    · subst hb
      simp [hl, shape_overwrite hc]
    · simp [Function.update_of_ne hb]
  · exact absurd ((present_iff s k).mpr h) habs

/-- The same keys in the same places, with the same values, are the same table. -/
theorem Good.ext_shape (hg : Good home n slots exts s) (hg' : Good home n slots exts s')
    (hshape : ∀ b, (s'.chains b).map shape = (s.chains b).map shape)
    (hget : ∀ k, s'.get home k = s.get home k) : s' = s := by
  refine hg'.ext hg fun b => ?_
  have hlen : (s'.chains b).length = (s.chains b).length := by
    simpa using congrArg List.length (hshape b)
  refine List.ext_getElem hlen fun m hm' hm => funext fun i => ?_
  have hi : shape (s'.chains b)[m] i = shape (s.chains b)[m] i := by
    have := congrArg (·[m]?) (hshape b)
    simp only [List.getElem?_map, List.getElem?_eq_getElem hm', List.getElem?_eq_getElem hm,
      Option.map_some, Option.some.injEq] at this
    exact congrFun this i
  unfold shape at hi
  cases hc : (s.chains b)[m] i with
  | none =>
    rw [hc] at hi
    exact Option.map_eq_none_iff.mp hi
  | some e =>
    obtain ⟨k, v⟩ := e
    rw [hc] at hi
    obtain ⟨e', he', hk⟩ := Option.map_eq_some_iff.mp hi
    obtain ⟨k', v'⟩ := e'
    obtain rfl : k' = k := hk
    have hmem : (k', v) ∈ entries (s.chains b) := mem_entries.mpr ⟨_, List.getElem_mem hm, i, hc⟩
    have hmem' : (k', v') ∈ entries (s'.chains b) :=
      mem_entries.mpr ⟨_, List.getElem_mem hm', i, he'⟩
    have hb := hg.placed b k' (List.mem_map_of_mem hmem)
    subst hb
    have hv := hget k'
    rw [Store.get, Store.get, (find_eq_some (hg'.nodup _)).mpr hmem',
      (find_eq_some (hg.nodup _)).mpr hmem] at hv
    rw [he', Option.some.inj hv]

section
variable [NeZero w] (hh : ∀ k, home k < n) (hg : Good home n slots exts s)
include hh hg

/-- What is there already, put in once more. -/
theorem put_same (h : s.get home k = some v) : s.put home k v = (s, true) := by
  obtain ⟨hacc, hshape⟩ := put_present (by rw [h]; exact Option.some_ne_none v) v
  refine Prod.ext (hg.ext_shape (put_effect hg hh k v).1 hshape fun k' => ?_) hacc
  rw [get_put hg hh hacc]
  split
  · rename_i hk
    rw [hk, h]
  · rfl

theorem putAll_same {es : List (κ × ν)} (h : ∀ e ∈ es, s.get home e.1 = some e.2) :
    s.putAll home es = s := by
  induction es with
  | nil => rfl
  | cons e es ih =>
    rw [Store.putAll, List.foldl_cons, put_same hh hg (h e List.mem_cons_self)]
    exact ih fun e' he' => h e' (List.mem_cons_of_mem e he')

theorem get_putAll_of_not_mem {es : List (κ × ν)} (hacc : Accepts home s es)
    (hk : k ∉ es.map Prod.fst) : (s.putAll home es).get home k = s.get home k := by
  induction es generalizing s with
  | nil => rfl
  | cons e es ih =>
    obtain ⟨hne, hk⟩ := not_or.mp fun h => hk (List.mem_cons.mpr h)
    refine (ih (put_effect hg hh e.1 e.2).1 hacc.2 hk).trans ?_
    rw [get_put hg hh hacc.1, if_neg hne]

theorem get_putAll_of_mem {es : List (κ × ν)} (hacc : Accepts home s es)
    (hn : (es.map Prod.fst).Nodup) {e : κ × ν} (he : e ∈ es) :
    (s.putAll home es).get home e.1 = some e.2 := by
  induction es generalizing s with
  | nil => cases he
  | cons d es ih =>
    obtain ⟨hd, hn⟩ := List.nodup_cons.mp hn
    have hg' := (put_effect hg hh d.1 d.2).1
    rcases List.mem_cons.mp he with rfl | he
    · refine (get_putAll_of_not_mem hh hg' hacc.2 hd).trans ?_
      rw [get_put hg hh hacc.1, if_pos rfl]
    · exact ih hg' hacc.2 hn he

/-- No key is lost. -/
theorem present_putAll {es : List (κ × ν)} (hacc : Accepts home s es) (h : s.get home k ≠ none) :
    (s.putAll home es).get home k ≠ none := by
  induction es generalizing s with
  | nil => exact h
  | cons e es ih =>
    refine ih (put_effect hg hh e.1 e.2).1 hacc.2 ?_
    rw [get_put hg hh hacc.1]
    split
    · exact Option.some_ne_none _
    · exact h

/-- Values overwritten: nothing is refused, and every key keeps its place. -/
theorem putAll_present {es : List (κ × ν)} (h : ∀ e ∈ es, s.get home e.1 ≠ none) :
    Accepts home s es ∧
      ∀ b, ((s.putAll home es).chains b).map shape = (s.chains b).map shape := by
  induction es generalizing s with
  | nil => exact ⟨trivial, fun _ => rfl⟩
  | cons e es ih =>
    obtain ⟨hacc, hshape⟩ := put_present (h e List.mem_cons_self) e.2
    obtain ⟨haccs, hshapes⟩ := ih (put_effect hg hh e.1 e.2).1 fun e' he' => by
      rw [get_put hg hh hacc]
      split
      · exact Option.some_ne_none _
      · exact h e' (List.mem_cons_of_mem e he')
    exact ⟨⟨hacc, haccs⟩, fun b => (hshapes b).trans (hshape b)⟩

/-- Values overwritten and then put back. -/
theorem putAll_putAll {es old : List (κ × ν)} (hold : ∀ e ∈ old, s.get home e.1 = some e.2)
    (hn : (old.map Prod.fst).Nodup) (hes : ∀ e ∈ es, e.1 ∈ old.map Prod.fst) :
    (s.putAll home es).putAll home old = s := by
  have hpres : ∀ e ∈ es, s.get home e.1 ≠ none := fun e he => by
    obtain ⟨d, hd, hk⟩ := List.mem_map.mp (hes e he)
    rw [← hk, hold d hd]
    exact Option.some_ne_none _
  obtain ⟨hacc, hshape⟩ := putAll_present hh hg hpres
  have hg₁ : Good home n slots exts (s.putAll home es) := hg.putAll hh
  have hpres₁ : ∀ d ∈ old, (s.putAll home es).get home d.1 ≠ none := fun d hd => by
    refine present_putAll hh hg hacc ?_
    rw [hold d hd]
    exact Option.some_ne_none _
  obtain ⟨hacc₁, hshape₁⟩ := putAll_present hh hg₁ hpres₁
  refine hg.ext_shape (hg₁.putAll hh) (fun b => (hshape₁ b).trans (hshape b)) fun k => ?_
  by_cases hk : k ∈ old.map Prod.fst
  · obtain ⟨d, hd, rfl⟩ := List.mem_map.mp hk
    rw [get_putAll_of_mem hh hg₁ hacc₁ hn hd, hold d hd]
  · rw [get_putAll_of_not_mem hh hg₁ hacc₁ hk, get_putAll_of_not_mem hh hg hacc fun h => hk ?_]
    obtain ⟨e, he, rfl⟩ := List.mem_map.mp h
    exact hes e he

end

/-! ## Room -/

theorem size_put_le [NeZero w] (hh : ∀ k, home k < n) (hg : Good home n slots exts s) (k : κ)
    (v : ν) : size n (s.put home k v).1 ≤ size n s + 1 := by
  have hs := hg.slots_eq
  have hs' := (put_effect hg hh k v).1.slots_eq
  have hfree : s.freeSlots ≤ (s.put home k v).1.freeSlots + 1 := by
    rcases put_cases home s k v with ⟨l₁, c, l₂, i, v₀, -, -, hput⟩ |
      ⟨-, ⟨-, l₁, c, l₂, i, -, -, hput⟩ | ⟨-, -, -, hput⟩ | ⟨-, hput⟩⟩
    all_goals
      rw [hput]
      dsimp only
      omega
  unfold size
  omega

/-- As long as neither pool can run out, nothing is refused. -/
theorem accepts_of_room [NeZero w] (hh : ∀ k, home k < n) {es : List (κ × ν)}
    (hg : Good home n slots exts s) (hslots : size n s + es.length ≤ slots)
    (hexts : size n s + es.length ≤ exts + w) : Accepts home s es := by
  induction es generalizing s with
  | nil => trivial
  | cons e es ih =>
    rw [List.length_cons] at hslots hexts
    have hle := size_put_le hh hg e.1 e.2
    refine ⟨?_, ih (put_effect hg hh e.1 e.2).1 (by omega) (by omega)⟩
    cases hput : (s.put home e.1 e.2).2 with
    | true => rfl
    | false =>
      have := refused_size hg hh hput
      omega

end P4Switch.Lib.BucketChains
