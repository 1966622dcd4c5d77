import Mathlib.Data.List.Basic
import Mathlib.Tactic

/-! # Lists that are searched by a key

Entries are added at the end and never removed, so an entry is denoted by its place. -/
namespace P4Switch.Lib.NamedList

variable {α κ : Type*} [DecidableEq κ] (key : α → κ)

/-- The place of the first entry under a key. -/
def find (l : List α) (k : κ) : Option Nat := l.findIdx? fun a => key a = k

variable {key}

theorem find_eq_none {l : List α} {k : κ} : find key l k = none ↔ k ∉ l.map key := by
  unfold find
  rw [List.findIdx?_eq_none_iff]
  constructor
  · intro h hk
    obtain ⟨a, ha, rfl⟩ := List.mem_map.mp hk
    exact absurd rfl (of_decide_eq_false (h a ha))
  · intro h a ha
    exact decide_eq_false fun hk => h (hk ▸ List.mem_map_of_mem ha)

theorem mem_of_find {l : List α} {k : κ} {i : Nat} (h : find key l k = some i) :
    k ∈ l.map key := by
  by_contra hn
  rw [find_eq_none.mpr hn] at h
  cases h

/-- A new entry is found under its key if there was none. -/
theorem find_append_new {l : List α} {a : α} (h : find key l (key a) = none) :
    find key (l ++ [a]) (key a) = some l.length := by
  unfold find at h ⊢
  rw [List.findIdx?_append, h, List.findIdx?_singleton, decide_eq_true rfl]
  simp

/-- Entries that were found stay where they are. -/
theorem find_append_old {l : List α} {a : α} {k : κ} {i : Nat} (h : find key l k = some i) :
    find key (l ++ [a]) k = some i := by
  unfold find at h ⊢
  rw [List.findIdx?_append, h]
  rfl

theorem nodup_append {l : List α} {a : α} (hl : (l.map key).Nodup)
    (h : find key l (key a) = none) : ((l ++ [a]).map key).Nodup := by
  rw [List.map_append, List.map_singleton, List.nodup_append]
  refine ⟨hl, List.nodup_singleton _, ?_⟩
  intro k hk k' hk' he
  rw [List.mem_singleton.mp hk'] at he
  exact find_eq_none.mp h (he ▸ hk)

end P4Switch.Lib.NamedList
