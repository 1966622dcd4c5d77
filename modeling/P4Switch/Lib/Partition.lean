import Mathlib.Data.List.Nodup
import Mathlib.Data.List.Perm.Basic
import Mathlib.Tactic

/-! # Items shared out over places

`L.flatMap f` lists the items that the places `L` hold. How the list changes, up to order,
when one place changes; and that an item listed once is held by one place. -/
namespace P4Switch.Lib.Partition

variable {α β : Type*} [DecidableEq α] {L : List α} {a b : α} {f g : α → List β} {r : List β} {x : β}

theorem flatMap_perm_erase (f : α → List β) (ha : a ∈ L) :
    (L.flatMap f).Perm (f a ++ (L.erase a).flatMap f) :=
  (List.perm_cons_erase ha).flatMap_right f

/-- One place gains the items `r`. -/
theorem flatMap_gain (hn : L.Nodup) (ha : a ∈ L) (h : ∀ x ∈ L, x ≠ a → g x = f x)
    (hp : (g a).Perm (r ++ f a)) : (L.flatMap g).Perm (r ++ L.flatMap f) := by
  have he : (L.erase a).flatMap g = (L.erase a).flatMap f :=
    List.flatMap_congr fun x hx => h x (List.mem_of_mem_erase hx) (hn.mem_erase_iff.mp hx).1
  calc (L.flatMap g).Perm (g a ++ (L.erase a).flatMap f) := he ▸ flatMap_perm_erase g ha
    (g a ++ (L.erase a).flatMap f).Perm (r ++ f a ++ (L.erase a).flatMap f) := hp.append_right _
    _ = r ++ (f a ++ (L.erase a).flatMap f) := List.append_assoc _ _ _
    (r ++ (f a ++ (L.erase a).flatMap f)).Perm (r ++ L.flatMap f) :=
      (flatMap_perm_erase f ha).symm.append_left r

theorem eq_of_mem_flatMap (hn : (L.flatMap f).Nodup) (ha : a ∈ L) (hb : b ∈ L) (hx : x ∈ f a)
    (hy : x ∈ f b) : a = b := by
  by_contra hne
  have hp := (flatMap_perm_erase f ha).nodup_iff.mp hn
  refine List.disjoint_of_nodup_append hp hx (List.mem_flatMap.mpr ⟨b, ?_, hy⟩)
  exact (List.mem_erase_of_ne (Ne.symm hne)).mpr hb

end P4Switch.Lib.Partition
