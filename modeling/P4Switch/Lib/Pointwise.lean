import Mathlib.Data.List.Nodup
import Mathlib.Data.List.FinRange

/-! # Loops over independent parts

A loop whose step changes one part of the state only, and each part once, changes all of
them at the same time. -/
namespace P4Switch.Lib.Pointwise

variable {σ ι τ : Type*}

/-- `step` changes part `i`, by `g i`, as long as `P` holds, which it keeps. -/
structure Local (part : σ → ι → τ) (P : σ → Prop) (step : σ → ι → σ) (g : ι → τ → τ) : Prop where
  keeps : ∀ s i, P s → P (step s i)
  same : ∀ s i, P s → part (step s i) i = g i (part s i)
  other : ∀ s i j, P s → j ≠ i → part (step s i) j = part s j

variable {part : σ → ι → τ} {P : σ → Prop} {step : σ → ι → σ} {g : ι → τ → τ}

theorem Local.foldl_keeps (h : Local part P step g) (l : List ι) {s : σ} (hs : P s) :
    P (l.foldl step s) := by
  induction l generalizing s with
  | nil => exact hs
  | cons i l ih => exact ih (h.keeps s i hs)

theorem Local.foldl_other (h : Local part P step g) {l : List ι} {j : ι} (hj : j ∉ l) {s : σ}
    (hs : P s) : part (l.foldl step s) j = part s j := by
  induction l generalizing s with
  | nil => rfl
  | cons i l ih =>
    obtain ⟨hne, hj⟩ := not_or.mp fun hm => hj (List.mem_cons.mpr hm)
    exact (ih hj (h.keeps s i hs)).trans (h.other s i j hs hne)

theorem Local.foldl_mem (h : Local part P step g) {l : List ι} (hn : l.Nodup) {j : ι} (hj : j ∈ l)
    {s : σ} (hs : P s) : part (l.foldl step s) j = g j (part s j) := by
  induction l generalizing s with
  | nil => cases hj
  | cons i l ih =>
    obtain ⟨hi, hn⟩ := List.nodup_cons.mp hn
    rcases List.mem_cons.mp hj with rfl | hj
    · exact (h.foldl_other hi (h.keeps s j hs)).trans (h.same s j hs)
    · have hne : j ≠ i := ne_of_mem_of_not_mem hj hi
      refine (ih hn hj (h.keeps s i hs)).trans ?_
      rw [h.other s i j hs hne]

/-- One step after the other, on the same part. -/
theorem Local.comp {step' : σ → ι → σ} {g' : ι → τ → τ} (h : Local part P step g)
    (h' : Local part P step' g') :
    Local part P (fun s i => step' (step s i) i) (fun i x => g' i (g i x)) where
  keeps := fun s i hs => h'.keeps _ i (h.keeps s i hs)
  same := fun s i hs => by rw [h'.same _ i (h.keeps s i hs), h.same s i hs]
  other := fun s i j hs hne => by rw [h'.other _ i j (h.keeps s i hs) hne, h.other s i j hs hne]

/-- The loop over all parts. -/
theorem Local.foldl_finRange {n : Nat} {part : σ → Fin n → τ} {step : σ → Fin n → σ}
    {g : Fin n → τ → τ} (h : Local part P step g) {s : σ} (hs : P s) (j : Fin n) :
    part ((List.finRange n).foldl step s) j = g j (part s j) :=
  h.foldl_mem (List.nodup_finRange n) (List.mem_finRange j) hs

end P4Switch.Lib.Pointwise
