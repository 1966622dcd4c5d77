import P4Switch.Control.Transactions

/-! # Pending lists

What the lists of a table stand for: a map and the one that takes its place at the next
commit. `key` and `val` read an entry. -/
namespace P4Switch.Control
open P4Switch.Lib.Words P4Switch.Tables

/-- A map and its successor. -/
structure Txn (κ ν : Type*) where
  committed : κ → Option ν
  pending : κ → Option ν

namespace Txn
variable {κ ν : Type*} [DecidableEq κ]

def put (m : Txn κ ν) (k : κ) (v : ν) : Txn κ ν :=
  { m with pending := Function.update m.pending k (some v) }

def remove (m : Txn κ ν) (k : κ) : Txn κ ν :=
  { m with pending := Function.update m.pending k none }

def commit (m : Txn κ ν) : Txn κ ν := ⟨m.pending, m.pending⟩

def abort (m : Txn κ ν) : Txn κ ν := ⟨m.committed, m.committed⟩

end Txn

section
variable {κ ν : Type*} (key : TableEntry → κ) (val : TableEntry → ν)

/-- The entries of `l` are those of the map. -/
def Holds (l : List TableEntry) (f : κ → Option ν) : Prop :=
  ∀ k v, f k = some v ↔ ∃ e ∈ l, key e = k ∧ val e = v

/-- The lists share out the keys, and stand for the two maps. -/
structure Tracks (t : CtlTable) (m : Txn κ ν) : Prop where
  nodup : ((t.entries ++ t.pendingAdd ++ t.pendingModify0 ++ t.pendingDelete).map key).Nodup
  modify : (t.pendingModify1.map key).Perm (t.pendingModify0.map key)
  committed : Holds key val (t.entries ++ t.pendingModify0 ++ t.pendingDelete) m.committed
  pending : Holds key val (t.entries ++ t.pendingAdd ++ t.pendingModify1) m.pending

/-- The entries in any of the lists. -/
def CtlTable.all (t : CtlTable) : List TableEntry :=
  t.entries ++ t.pendingAdd ++ t.pendingModify0 ++ t.pendingModify1 ++ t.pendingDelete

end

/-! ## Lists -/

section
variable {κ ν : Type*} {key : TableEntry → κ} {val : TableEntry → ν} {l l' : List TableEntry}
  {f : κ → Option ν} {k : κ} {new e x : TableEntry} {test : TableEntry → Bool}

theorem Holds.congr (h : Holds key val l f) (hl : ∀ e, e ∈ l' ↔ e ∈ l) : Holds key val l' f := by
  intro k v
  rw [h k v]
  simp only [hl]

theorem Holds.put [DecidableEq κ] (h : Holds key val l f) (hk : key new = k)
    (hl : ∀ e, e ∈ l' ↔ e = new ∨ e ∈ l ∧ key e ≠ k) :
    Holds key val l' (Function.update f k (some (val new))) := by
  intro k' v
  by_cases hk' : k' = k
  · subst hk'
    rw [Function.update_self, Option.some.injEq]
    constructor
    · rintro rfl
      exact ⟨new, (hl new).mpr (Or.inl rfl), hk, rfl⟩
    · rintro ⟨e, he, hek, rfl⟩
      rcases (hl e).mp he with rfl | ⟨-, hne⟩
      · rfl
      · exact absurd hek hne
  · rw [Function.update_of_ne hk', h k' v]
    constructor
    · rintro ⟨e, he, rfl, hv⟩
      exact ⟨e, (hl e).mpr (Or.inr ⟨he, hk'⟩), rfl, hv⟩
    · rintro ⟨e, he, rfl, hv⟩
      rcases (hl e).mp he with rfl | ⟨he, -⟩
      · exact absurd hk hk'
      · exact ⟨e, he, rfl, hv⟩

theorem Holds.remove [DecidableEq κ] (h : Holds key val l f)
    (hl : ∀ e, e ∈ l' ↔ e ∈ l ∧ key e ≠ k) : Holds key val l' (Function.update f k none) := by
  intro k' v
  by_cases hk' : k' = k
  · subst hk'
    rw [Function.update_self]
    refine iff_of_false (Option.some_ne_none v).symm ?_
    rintro ⟨e, he, hek, -⟩
    exact ((hl e).mp he).2 hek
  · rw [Function.update_of_ne hk', h k' v]
    constructor
    · rintro ⟨e, he, rfl, hv⟩
      exact ⟨e, (hl e).mpr ⟨he, hk'⟩, rfl, hv⟩
    · rintro ⟨e, he, rfl, hv⟩
      exact ⟨e, ((hl e).mp he).1, rfl, hv⟩

/-- What was found, and the list without it. -/
theorem find_perm (h : l.find? test = some x) : l.Perm (x :: l.eraseP test) := by
  obtain ⟨hx, l₁, l₂, rfl, hl⟩ := List.find?_eq_some_iff_append.mp h
  have hnot : ∀ b ∈ l₁, ¬test b = true := fun b hb => by simpa using hl b hb
  rw [List.eraseP_append_right _ hnot, List.eraseP_cons_of_pos hx]
  exact List.perm_middle

theorem replace_perm (new : TableEntry) (h : l.find? test = some x) :
    (tailqReplace test new l).Perm (new :: l.eraseP test) := by
  induction l with
  | nil => cases h
  | cons e l ih =>
    rw [List.find?_cons] at h
    rw [tailqReplace, List.eraseP_cons]
    cases he : test e with
    | true => exact List.Perm.refl _
    | false =>
      rw [he] at h
      exact ((ih h).cons e).trans (List.Perm.swap _ _ _)

theorem eraseP_absent (h : l.find? test = none) : l.eraseP test = l :=
  List.eraseP_of_forall_not fun e he => by simpa using List.find?_eq_none.mp h e he

/-- The key of what was found is nowhere else. -/
theorem mem_erased (hn : (l.map key).Nodup) (h : l.Perm (x :: l')) (hk : key x = k) :
    ∀ e, e ∈ l' ↔ e ∈ l ∧ key e ≠ k := by
  have hx := (List.nodup_cons.mp ((h.map key).nodup_iff.mp hn)).1
  intro e
  constructor
  · intro he
    refine ⟨h.mem_iff.mpr (List.mem_cons_of_mem x he), fun hek => hx ?_⟩
    rw [hk, ← hek]
    exact List.mem_map_of_mem he
  · rintro ⟨he, hne⟩
    rcases List.mem_cons.mp (h.mem_iff.mp he) with rfl | he
    · exact absurd hk hne
    · exact he

end

/-! ## The entry functions -/

section
variable {κ ν : Type*} {key : TableEntry → κ} {val : TableEntry → ν} {t : CtlTable}
  {m : Txn κ ν} {k : κ} {entry new x : TableEntry} {l l' : List TableEntry}

/-- The searches for `entry` look for the key `k`. -/
def Tests [DecidableEq κ] (key : TableEntry → κ) (t : CtlTable) (entry : TableEntry) (k : κ) : Prop :=
  ∀ e ∈ t.all, t.sameKey entry e = decide (key e = k)

theorem Tests.found [DecidableEq κ] (ht : Tests key t entry k) (hl : ∀ e ∈ l, e ∈ t.all)
    (h : l.find? (t.sameKey entry) = some x) : key x = k := by
  have hx := List.find?_some h
  rw [ht x (hl x (List.mem_of_find?_eq_some h))] at hx
  exact of_decide_eq_true hx

theorem Tests.absent [DecidableEq κ] (ht : Tests key t entry k) (hl : ∀ e ∈ l, e ∈ t.all)
    (h : l.find? (t.sameKey entry) = none) : ∀ e ∈ l, key e ≠ k := by
  intro e he
  have hx := List.find?_eq_none.mp h e he
  rw [ht e (hl e he)] at hx
  exact fun hk => hx (decide_eq_true hk)

/-- The entries of the lists that are searched. -/
theorem mem_all (t : CtlTable) : (∀ e ∈ t.entries, e ∈ t.all) ∧ (∀ e ∈ t.pendingAdd, e ∈ t.all) ∧
    (∀ e ∈ t.pendingModify0, e ∈ t.all) ∧ (∀ e ∈ t.pendingModify1, e ∈ t.all) ∧
    ∀ e ∈ t.pendingDelete, e ∈ t.all := by
  refine ⟨?_, ?_, ?_, ?_, ?_⟩ <;> intro e he <;> simp [CtlTable.all, he]

theorem Tracks.modify1_absent (h : Tracks key val t m) (h0 : ∀ e ∈ t.pendingModify0, key e ≠ k) :
    ∀ e ∈ t.pendingModify1, key e ≠ k := by
  intro e he hk
  obtain ⟨e', he', hk'⟩ := List.mem_map.mp (h.modify.mem_iff.mp (List.mem_map_of_mem he))
  exact h0 e' he' (hk'.trans hk)

theorem Tracks.modify0_absent (h : Tracks key val t m) (h1 : ∀ e ∈ t.pendingModify1, key e ≠ k) :
    ∀ e ∈ t.pendingModify0, key e ≠ k := by
  intro e he hk
  obtain ⟨e', he', hk'⟩ := List.mem_map.mp (h.modify.mem_iff.mpr (List.mem_map_of_mem he))
  exact h1 e' he' (hk'.trans hk)

/-- A key that was found in one place is nowhere else. -/
theorem Tracks.only (h : Tracks key val t m)
    (hp : (t.entries ++ t.pendingAdd ++ t.pendingModify0 ++ t.pendingDelete).Perm (x :: l))
    (hk : key x = k) : ∀ e ∈ l, key e ≠ k := fun e he =>
  ((mem_erased h.nodup hp hk e).mp he).2

variable [DecidableEq κ]

theorem Tracks.add_existing (h : Tracks key val t m) (ht : Tests key t entry k) (hnew : key new = k)
    (hx : t.entries.find? (t.sameKey entry) = some x) :
    Tracks key val
      { t with
        pendingModify1 := t.pendingModify1 ++ [new]
        entries := t.entries.eraseP (t.sameKey entry)
        pendingModify0 := t.pendingModify0 ++ [x] } (m.put k (val new)) := by
  have hk := ht.found (mem_all t).1 hx
  have hE := find_perm hx
  have hp : (t.entries ++ t.pendingAdd ++ t.pendingModify0 ++ t.pendingDelete).Perm
      (x :: (t.entries.eraseP (t.sameKey entry) ++ t.pendingAdd ++ t.pendingModify0 ++
        t.pendingDelete)) := ((hE.append_right _).append_right _).append_right _
  have honly := h.only hp hk
  simp only [List.mem_append, or_imp, forall_and] at honly
  obtain ⟨⟨⟨hE₁, hA⟩, hM⟩, -⟩ := honly
  have hM1 := h.modify1_absent hM
  have hmem := fun e => hE.mem_iff (a := e)
  constructor
  case nodup =>
    refine ((List.Perm.map key ?_).nodup_iff).mp h.nodup
    refine hp.trans ?_
    simpa using (@List.perm_middle _ x (t.entries.eraseP (t.sameKey entry) ++
      t.pendingAdd ++ t.pendingModify0) t.pendingDelete).symm
  case modify => simpa [hnew, hk] using h.modify.append_right [k]
  case committed =>
    refine h.committed.congr fun e => ?_
    simp only [List.mem_append, hmem, List.mem_cons, List.not_mem_nil, or_false]
    grind
  case pending =>
    refine h.pending.put hnew fun e => ?_
    have hxk : e = x → key e = k := fun he => he ▸ hk
    have hE₁ := hE₁ e
    have hA := hA e
    have hM1 := hM1 e
    simp only [List.mem_append, hmem, List.mem_cons, List.not_mem_nil, or_false]
    grind

theorem Tracks.add_pending (h : Tracks key val t m) (ht : Tests key t entry k) (hnew : key new = k)
    (hx : t.pendingAdd.find? (t.sameKey entry) = some x) :
    Tracks key val { t with pendingAdd := tailqReplace (t.sameKey entry) new t.pendingAdd }
      (m.put k (val new)) := by
  have hk := ht.found (mem_all t).2.1 hx
  have hA := find_perm hx
  have hA' := replace_perm new hx
  have hp : (t.entries ++ t.pendingAdd ++ t.pendingModify0 ++ t.pendingDelete).Perm
      (x :: (t.entries ++ t.pendingAdd.eraseP (t.sameKey entry) ++ t.pendingModify0 ++
        t.pendingDelete)) := by
    refine (((hA.append_left t.entries).append_right _).append_right _).trans ?_
    simp
  have honly := h.only hp hk
  simp only [List.mem_append, or_imp, forall_and] at honly
  obtain ⟨⟨⟨hE, hA₁⟩, hM⟩, -⟩ := honly
  have hM1 := h.modify1_absent hM
  constructor
  case nodup =>
    have hkeys : ((tailqReplace (t.sameKey entry) new t.pendingAdd).map key).Perm
        (t.pendingAdd.map key) := by
      refine (hA'.map key).trans (List.Perm.trans ?_ (hA.map key).symm)
      rw [List.map_cons, List.map_cons, hnew, hk]
    have := h.nodup
    simp only [List.map_append] at this ⊢
    exact (((hkeys.append_left _).append_right _).append_right _).nodup_iff.mpr this
  case modify => exact h.modify
  case committed => exact h.committed
  case pending =>
    refine h.pending.put hnew fun e => ?_
    have hxk : e = x → key e = k := fun he => he ▸ hk
    have hE := hE e
    have hA₁ := hA₁ e
    have hM1 := hM1 e
    simp only [List.mem_append, hA.mem_iff, hA'.mem_iff, List.mem_cons]
    grind

theorem Tracks.add_modified (h : Tracks key val t m) (ht : Tests key t entry k) (hnew : key new = k)
    (hx : t.pendingModify1.find? (t.sameKey entry) = some x) :
    Tracks key val { t with pendingModify1 := tailqReplace (t.sameKey entry) new t.pendingModify1 }
      (m.put k (val new)) := by
  have hk := ht.found (mem_all t).2.2.2.1 hx
  have hM1 := find_perm hx
  have hM1' := replace_perm new hx
  have hkeys : ((tailqReplace (t.sameKey entry) new t.pendingModify1).map key).Perm
      (t.pendingModify1.map key) := by
    refine (hM1'.map key).trans (List.Perm.trans ?_ (hM1.map key).symm)
    rw [List.map_cons, List.map_cons, hnew, hk]
  obtain ⟨y, hy, hyk⟩ := List.mem_map.mp (h.modify.mem_iff.mp
    (List.mem_map_of_mem (f := key) (List.mem_of_find?_eq_some hx)))
  obtain ⟨l₁, l₂, hM⟩ := List.append_of_mem hy
  have hp : (t.entries ++ t.pendingAdd ++ t.pendingModify0 ++ t.pendingDelete).Perm
      (y :: (t.entries ++ t.pendingAdd ++ (l₁ ++ l₂) ++ t.pendingDelete)) := by
    rw [hM]
    simpa using @List.perm_middle _ y (t.entries ++ t.pendingAdd ++ l₁) (l₂ ++ t.pendingDelete)
  have honly := h.only hp (hyk.trans hk)
  simp only [List.mem_append, or_imp, forall_and] at honly
  obtain ⟨⟨⟨hE, hA⟩, -⟩, -⟩ := honly
  have hM1n : (t.pendingModify1.map key).Nodup := by
    refine h.modify.nodup_iff.mpr ?_
    have := h.nodup
    simp only [List.map_append] at this
    exact (List.nodup_append.mp (List.nodup_append.mp this).1).2.1
  constructor
  case nodup => exact h.nodup
  case modify => exact hkeys.trans h.modify
  case committed => exact h.committed
  case pending =>
    refine h.pending.put hnew fun e => ?_
    have hxk : e = x → key e = k := fun he => he ▸ hk
    have hE := hE e
    have hA := hA e
    have hM1e := mem_erased hM1n hM1 hk e
    simp only [List.mem_append, hM1'.mem_iff, List.mem_cons]
    grind

theorem Tracks.add_deleted (h : Tracks key val t m) (ht : Tests key t entry k) (hnew : key new = k)
    (hx : t.pendingDelete.find? (t.sameKey entry) = some x) :
    Tracks key val
      { t with
        pendingModify1 := t.pendingModify1 ++ [new]
        pendingDelete := t.pendingDelete.eraseP (t.sameKey entry)
        pendingModify0 := t.pendingModify0 ++ [x] } (m.put k (val new)) := by
  have hk := ht.found (mem_all t).2.2.2.2 hx
  have hD := find_perm hx
  have hp : (t.entries ++ t.pendingAdd ++ t.pendingModify0 ++ t.pendingDelete).Perm
      (x :: (t.entries ++ t.pendingAdd ++ t.pendingModify0 ++
        t.pendingDelete.eraseP (t.sameKey entry))) :=
    (hD.append_left _).trans List.perm_middle
  have honly := h.only hp hk
  simp only [List.mem_append, or_imp, forall_and] at honly
  obtain ⟨⟨⟨hE, hA⟩, hM⟩, -⟩ := honly
  have hM1 := h.modify1_absent hM
  constructor
  case nodup =>
    refine ((List.Perm.map key ?_).nodup_iff).mp h.nodup
    simpa using hD.append_left (t.entries ++ t.pendingAdd ++ t.pendingModify0)
  case modify => simpa [hnew, hk] using h.modify.append_right [k]
  case committed =>
    refine h.committed.congr fun e => ?_
    simp only [List.mem_append, hD.mem_iff, List.mem_cons, List.not_mem_nil, or_false]
    grind
  case pending =>
    refine h.pending.put hnew fun e => ?_
    have hE := hE e
    have hA := hA e
    have hM1 := hM1 e
    simp only [List.mem_append, List.mem_cons, List.not_mem_nil, or_false]
    grind

theorem Tracks.add_new (h : Tracks key val t m) (hnew : key new = k)
    (hE : ∀ e ∈ t.entries, key e ≠ k) (hA : ∀ e ∈ t.pendingAdd, key e ≠ k)
    (hM1 : ∀ e ∈ t.pendingModify1, key e ≠ k) (hD : ∀ e ∈ t.pendingDelete, key e ≠ k) :
    Tracks key val { t with pendingAdd := t.pendingAdd ++ [new] } (m.put k (val new)) := by
  have hM := h.modify0_absent hM1
  constructor
  case nodup =>
    have hp : (t.entries ++ (t.pendingAdd ++ [new]) ++ t.pendingModify0 ++ t.pendingDelete).Perm
        (new :: (t.entries ++ t.pendingAdd ++ t.pendingModify0 ++ t.pendingDelete)) := by
      simpa using @List.perm_middle _ new (t.entries ++ t.pendingAdd)
        (t.pendingModify0 ++ t.pendingDelete)
    refine ((hp.map key).nodup_iff).mpr (List.nodup_cons.mpr ⟨fun hmem => ?_, h.nodup⟩)
    obtain ⟨e, he, hek⟩ := List.mem_map.mp hmem
    rw [hnew] at hek
    simp only [List.mem_append] at he
    rcases he with ((he | he) | he) | he
    exacts [hE e he hek, hA e he hek, hM e he hek, hD e he hek]
  case modify => exact h.modify
  case committed => exact h.committed
  case pending =>
    refine h.pending.put hnew fun e => ?_
    have hE := hE e
    have hA := hA e
    have hM1 := hM1 e
    simp only [List.mem_append, List.mem_cons, List.not_mem_nil, or_false]
    grind

/-- An addition puts the entry into the map to come. -/
theorem Tracks.entryAdd (h : Tracks key val t m) (ht : Tests key t entry k) (hnew : key new = k) :
    Tracks key val (t.entryAdd entry new) (m.put k (val new)) := by
  obtain ⟨hE, hA, -, hM1, hD⟩ := mem_all t
  unfold CtlTable.entryAdd
  cases hxE : t.entries.find? (t.sameKey entry) with
  | some x => exact h.add_existing ht hnew hxE
  | none =>
    cases hxA : t.pendingAdd.find? (t.sameKey entry) with
    | some x => exact h.add_pending ht hnew hxA
    | none =>
      cases hxM : t.pendingModify1.find? (t.sameKey entry) with
      | some x => exact h.add_modified ht hnew hxM
      | none =>
        cases hxD : t.pendingDelete.find? (t.sameKey entry) with
        | some x => exact h.add_deleted ht hnew hxD
        | none =>
          exact h.add_new hnew (ht.absent hE hxE) (ht.absent hA hxA) (ht.absent hM1 hxM)
            (ht.absent hD hxD)

theorem Tracks.delete_existing (h : Tracks key val t m) (ht : Tests key t entry k)
    (hx : t.entries.find? (t.sameKey entry) = some x) :
    Tracks key val
      { t with
        entries := t.entries.eraseP (t.sameKey entry)
        pendingDelete := t.pendingDelete ++ [x] } (m.remove k) := by
  have hk := ht.found (mem_all t).1 hx
  have hE := find_perm hx
  have hp : (t.entries ++ t.pendingAdd ++ t.pendingModify0 ++ t.pendingDelete).Perm
      (x :: (t.entries.eraseP (t.sameKey entry) ++ t.pendingAdd ++ t.pendingModify0 ++
        t.pendingDelete)) := ((hE.append_right _).append_right _).append_right _
  have honly := h.only hp hk
  simp only [List.mem_append, or_imp, forall_and] at honly
  obtain ⟨⟨⟨hE₁, hA⟩, hM⟩, -⟩ := honly
  have hM1 := h.modify1_absent hM
  constructor
  case nodup =>
    refine ((List.Perm.map key ?_).nodup_iff).mp h.nodup
    rw [← List.append_assoc]
    exact hp.trans (List.perm_append_singleton _ _).symm
  case modify => exact h.modify
  case committed =>
    refine h.committed.congr fun e => ?_
    simp only [List.mem_append, hE.mem_iff, List.mem_cons, List.not_mem_nil, or_false]
    grind
  case pending =>
    refine h.pending.remove fun e => ?_
    have hxk : e = x → key e = k := fun he => he ▸ hk
    have hE₁ := hE₁ e
    have hA := hA e
    have hM1 := hM1 e
    simp only [List.mem_append, hE.mem_iff, List.mem_cons]
    grind

/-- The key is not in use, or only about to be. -/
theorem Tracks.delete_pending (h : Tracks key val t m) (ht : Tests key t entry k)
    (hE : ∀ e ∈ t.entries, key e ≠ k) (hM1 : ∀ e ∈ t.pendingModify1, key e ≠ k) :
    Tracks key val { t with pendingAdd := t.pendingAdd.eraseP (t.sameKey entry) }
      (m.remove k) := by
  have hsub : (t.entries ++ t.pendingAdd.eraseP (t.sameKey entry) ++ t.pendingModify0 ++
      t.pendingDelete).Sublist
        (t.entries ++ t.pendingAdd ++ t.pendingModify0 ++ t.pendingDelete) :=
    ((List.eraseP_sublist.append_left _).append_right _).append_right _
  have hAn : (t.pendingAdd.map key).Nodup := by
    have := h.nodup
    simp only [List.map_append] at this
    exact (List.nodup_append.mp (List.nodup_append.mp (List.nodup_append.mp this).1).1).2.1
  have hA : ∀ e, e ∈ t.pendingAdd.eraseP (t.sameKey entry) ↔ e ∈ t.pendingAdd ∧ key e ≠ k := by
    cases hxA : t.pendingAdd.find? (t.sameKey entry) with
    | some x => exact mem_erased hAn (find_perm hxA) (ht.found (mem_all t).2.1 hxA)
    | none =>
      rw [eraseP_absent hxA]
      exact fun e => iff_self_and.mpr (ht.absent (mem_all t).2.1 hxA e)
  constructor
  case nodup => exact h.nodup.sublist (hsub.map key)
  case modify => exact h.modify
  case committed => exact h.committed
  case pending =>
    refine h.pending.remove fun e => ?_
    have hE := hE e
    have hM1 := hM1 e
    simp only [List.mem_append, hA]
    grind

theorem Tracks.delete_modified {y : TableEntry} (h : Tracks key val t m) (ht : Tests key t entry k)
    (hx : t.pendingModify1.find? (t.sameKey entry) = some x)
    (hy : t.pendingModify0.find? (t.sameKey entry) = some y) :
    Tracks key val
      { t with
        pendingAdd := t.pendingAdd.eraseP (t.sameKey entry)
        pendingModify1 := t.pendingModify1.eraseP (t.sameKey entry)
        pendingModify0 := t.pendingModify0.eraseP (t.sameKey entry)
        pendingDelete := t.pendingDelete ++ [y] } (m.remove k) := by
  have hxk := ht.found (mem_all t).2.2.2.1 hx
  have hyk := ht.found (mem_all t).2.2.1 hy
  have hM1 := find_perm hx
  have hM := find_perm hy
  have hp : (t.entries ++ t.pendingAdd ++ t.pendingModify0 ++ t.pendingDelete).Perm
      (y :: (t.entries ++ t.pendingAdd ++ t.pendingModify0.eraseP (t.sameKey entry) ++
        t.pendingDelete)) := by
    refine ((hM.append_left (t.entries ++ t.pendingAdd)).append_right _).trans ?_
    simpa using @List.perm_middle _ y (t.entries ++ t.pendingAdd)
      (t.pendingModify0.eraseP (t.sameKey entry) ++ t.pendingDelete)
  have honly := h.only hp hyk
  simp only [List.mem_append, or_imp, forall_and] at honly
  obtain ⟨⟨⟨hE, hA⟩, -⟩, -⟩ := honly
  have hmodify : ((t.pendingModify1.eraseP (t.sameKey entry)).map key).Perm
      ((t.pendingModify0.eraseP (t.sameKey entry)).map key) := by
    have := ((hM1.map key).symm.trans h.modify).trans (hM.map key)
    rw [List.map_cons, List.map_cons, hxk, hyk] at this
    exact this.cons_inv
  have hM1n : (t.pendingModify1.map key).Nodup := by
    refine h.modify.nodup_iff.mpr ?_
    have := h.nodup
    simp only [List.map_append] at this
    exact (List.nodup_append.mp (List.nodup_append.mp this).1).2.1
  have hAe : t.pendingAdd.eraseP (t.sameKey entry) = t.pendingAdd := by
    refine List.eraseP_of_forall_not fun e he => ?_
    rw [ht e ((mem_all t).2.1 e he), decide_eq_true_eq]
    exact hA e he
  rw [hAe]
  constructor
  case nodup =>
    refine ((List.Perm.map key ?_).nodup_iff).mp h.nodup
    rw [← List.append_assoc]
    exact hp.trans (List.perm_append_singleton _ _).symm
  case modify => exact hmodify
  case committed =>
    refine h.committed.congr fun e => ?_
    simp only [List.mem_append, hM.mem_iff, List.mem_cons, List.not_mem_nil, or_false]
    grind
  case pending =>
    refine h.pending.remove fun e => ?_
    have hE := hE e
    have hA := hA e
    have hM1e := mem_erased hM1n hM1 hxk e
    simp only [List.mem_append]
    grind

/-- A deletion takes the key out of the map to come, and cannot fail. -/
theorem Tracks.entryDelete (h : Tracks key val t m) (ht : Tests key t entry k) :
    (t.entryDelete entry).2 = 0 ∧ Tracks key val (t.entryDelete entry).1 (m.remove k) := by
  obtain ⟨hE, hA, hM0, hM1, hD⟩ := mem_all t
  unfold CtlTable.entryDelete
  dsimp only
  cases hxE : t.entries.find? (t.sameKey entry) with
  | some x => exact ⟨rfl, h.delete_existing ht hxE⟩
  | none =>
    dsimp only
    cases hxM : t.pendingModify1.find? (t.sameKey entry) with
    | none => exact ⟨rfl, h.delete_pending ht (ht.absent hE hxE) (ht.absent hM1 hxM)⟩
    | some x =>
      dsimp only
      cases hyM : t.pendingModify0.find? (t.sameKey entry) with
      | some y => exact ⟨rfl, h.delete_modified ht hxM hyM⟩
      | none =>
        exact absurd (ht.found hM1 hxM)
          (h.modify1_absent (ht.absent hM0 hyM) x (List.mem_of_find?_eq_some hxM))

end

/-! ## Commit and abort -/

section
variable {κ ν : Type*} {key : TableEntry → κ} {val : TableEntry → ν} {t : CtlTable}
  {m : Txn κ ν}

theorem Tracks.rollfwd2 (h : Tracks key val t m) : Tracks key val t.rollfwd2 m.commit := by
  have hmem : ∀ e, e ∈ t.entries ++ t.pendingAdd ++ t.pendingModify1 ++ [] ++ [] ↔
      e ∈ t.entries ++ t.pendingAdd ++ t.pendingModify1 := fun e => by simp
  constructor
  case nodup =>
    have hn := h.nodup
    simp only [CtlTable.rollfwd2, List.map_append, List.append_nil] at hn ⊢
    exact ((h.modify.append_left _).nodup_iff).mpr (List.nodup_append.mp hn).1
  case modify => exact List.Perm.refl _
  case committed => exact h.pending.congr hmem
  case pending => exact h.pending.congr hmem

theorem Tracks.abort (h : Tracks key val t m) : Tracks key val t.abort m.abort := by
  have hmem : ∀ e, e ∈ t.entries ++ t.pendingModify0 ++ t.pendingDelete ++ [] ++ [] ↔
      e ∈ t.entries ++ t.pendingModify0 ++ t.pendingDelete := fun e => by simp
  have hsub : (t.entries ++ t.pendingModify0 ++ t.pendingDelete).Sublist
      (t.entries ++ t.pendingAdd ++ t.pendingModify0 ++ t.pendingDelete) :=
    ((List.sublist_append_left _ _).append_right _).append_right _
  constructor
  case nodup =>
    simp only [CtlTable.abort, List.append_nil]
    exact h.nodup.sublist (hsub.map key)
  case modify => exact List.Perm.refl _
  case committed => exact h.committed.congr hmem
  case pending => exact h.committed.congr hmem

/-- The counters do not matter. -/
theorem Tracks.counters (h : Tracks key val t m) (nAdd nModify nDelete : Nat) :
    Tracks key val { t with nAdd := nAdd, nModify := nModify, nDelete := nDelete } m :=
  ⟨h.nodup, h.modify, h.committed, h.pending⟩

end

end P4Switch.Control
