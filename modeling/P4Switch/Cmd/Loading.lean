import P4Switch.Cmd.Loader
import P4Switch.Lib.Lines

/-! # Files loaded line by line

What a right verdict on a file is, and that the loaders of table entries give it. -/
namespace P4Switch.Cmd
open P4Switch.App P4Switch.Lib.Lines

/-- The lines of a file, with their newlines. -/
def textLines (f : List UInt8) : List Line :=
  (split newline f).done.map (· ++ [newline]) ++
    if (split newline f).rest = [] then [] else [(split newline f).rest]

/-! ## What a right loader does -/

section
variable {σ α : Type} (blank : Line → Prop) (entry : Line → α → Prop)
  (apply : σ → Nat → α → Int × σ)

/-- From line `id` on, every line that is not blank is an entry, and is applied. -/
inductive AllApplied : σ → Nat → List Line → Prop
  | nil (s : σ) (id : Nat) : AllApplied s id []
  | skip {s : σ} {id : Nat} {l : Line} {ls : List Line} :
      blank l → AllApplied s (id + 1) ls → AllApplied s id (l :: ls)
  | apply {s s' : σ} {id : Nat} {l : Line} {ls : List Line} {a : α} :
      entry l a → apply s id a = (0, s') → AllApplied s' (id + 1) ls → AllApplied s id (l :: ls)

/-- Line `k` is the first that is neither blank nor an entry that can be applied. -/
inductive FirstOffending : σ → Nat → List Line → Nat → Prop
  | malformed {s : σ} {id : Nat} {l : Line} {ls : List Line} :
      ¬blank l → (∀ a, ¬entry l a) → FirstOffending s id (l :: ls) id
  | refused {s : σ} {id : Nat} {l : Line} {ls : List Line} {a : α} :
      entry l a → (apply s id a).1 ≠ 0 → FirstOffending s id (l :: ls) id
  | skip {s : σ} {id k : Nat} {l : Line} {ls : List Line} :
      blank l → FirstOffending s (id + 1) ls k → FirstOffending s id (l :: ls) k
  | apply {s s' : σ} {id k : Nat} {l : Line} {ls : List Line} {a : α} :
      entry l a → apply s id a = (0, s') → FirstOffending s' (id + 1) ls k →
        FirstOffending s id (l :: ls) k

end

/-- A reader of lines that tells blank lines and entries. -/
structure Reads {α : Type} (read : List UInt8 → LineRead α) (blank : Line → Prop)
    (entry : Line → α → Prop) : Prop where
  blank : ∀ l, read (cString l) = .blank ↔ blank l
  entry : ∀ l a, read (cString l) = .entry a ↔ entry l a

section
variable {σ α : Type} {read : List UInt8 → LineRead α} {blank : Line → Prop}
  {entry : Line → α → Prop}

theorem Reads.malformed (hr : Reads read blank entry) {l : Line}
    (h : read (cString l) = .malformed) : ¬blank l ∧ ∀ a, ¬entry l a := by
  constructor
  · intro hb
    rw [(hr.blank l).mpr hb] at h
    cases h
  · intro a ha
    rw [(hr.entry l a).mpr ha] at h
    cases h

theorem einval_ne : -EINVAL ≠ 0 := by decide

/-- The loader of entries gives the right verdict and reports the right line. -/
theorem entriesLoop_right (hr : Reads read blank entry) (apply : σ → α → Int × σ) (id : Nat)
    (s : σ) (ls : List Line) :
    ((entriesLoop read apply 0 id s ls).status = 0 ∧
        AllApplied blank entry (fun s _ a => apply s a) s id ls) ∨
      ((entriesLoop read apply 0 id s ls).status ≠ 0 ∧
        FirstOffending blank entry (fun s _ a => apply s a) s id ls
          (entriesLoop read apply 0 id s ls).line) := by
  induction ls generalizing id s with
  | nil => exact .inl ⟨rfl, .nil s id⟩
  | cons l ls ih =>
    unfold entriesLoop
    cases hl : read (cString l) with
    | blank =>
      have hb := (hr.blank l).mp hl
      obtain ⟨hs, h⟩ | ⟨hs, h⟩ := ih (id + 1) s
      · exact .inl ⟨hs, .skip hb h⟩
      · exact .inr ⟨hs, .skip hb h⟩
    | malformed =>
      obtain ⟨hb, he⟩ := hr.malformed hl
      exact .inr ⟨einval_ne, .malformed hb he⟩
    | entry a =>
      have he := (hr.entry l a).mp hl
      obtain ⟨status, s', happly⟩ : ∃ status s', apply s a = (status, s') := ⟨_, _, rfl⟩
      dsimp only
      rw [happly]
      by_cases hstatus : status ≠ 0
      · rw [if_pos hstatus]
        refine .inr ⟨hstatus, .refused he ?_⟩
        rwa [happly]
      · rw [if_neg hstatus]
        rw [not_not] at hstatus
        subst hstatus
        obtain ⟨hs, h⟩ | ⟨hs, h⟩ := ih (id + 1) s'
        · exact .inl ⟨hs, .apply he happly h⟩
        · exact .inr ⟨hs, .apply he happly h⟩

end

/-! ## Lines that fit the buffer -/

theorem fgets_all {n : Nat} {l : List UInt8} (hl : newline ∉ l) (hn : l.length ≤ n) :
    fgets n l = (l, []) := by
  induction l generalizing n with
  | nil => cases n <;> rfl
  | cons b l ih =>
    cases n with
    | zero => cases hn
    | succ n =>
      have hb : b ≠ newline := fun e => hl (by simp [e])
      simp only [fgets, if_neg hb]
      rw [ih (fun hm => hl (List.mem_cons_of_mem _ hm)) (Nat.le_of_succ_le_succ hn)]

theorem split_line {l : List UInt8} (hl : newline ∉ l) (f : List UInt8) :
    split newline (l ++ newline :: f) =
      ⟨l :: (split newline f).done, (split newline f).rest⟩ := by
  unfold split
  rw [feedAll_append, feedAll_open hl, feedAll_cons, feed_nl, feedAll_done]
  simp

theorem textLines_line {l : List UInt8} (hl : newline ∉ l) (f : List UInt8) :
    textLines (l ++ newline :: f) = (l ++ [newline]) :: textLines f := by
  unfold textLines
  rw [split_line hl]
  rfl

theorem textLines_open {f : List UInt8} (hf : newline ∉ f) (hne : f ≠ []) : textLines f = [f] := by
  unfold textLines split
  rw [feedAll_open hf]
  simp [hne]

/-- Lines that fit are delivered one by one. -/
theorem fileLines_eq (f : List UInt8) (hfit : ∀ l ∈ textLines f, l.length < MAX_LINE_SIZE) :
    fileLines f = textLines f := by
  induction hn : f.length using Nat.strong_induction_on generalizing f with
  | _ n ih =>
    by_cases hf : f = []
    · rw [hf, fileLines, dif_pos rfl]
      rfl
    · rw [fileLines, dif_neg hf]
      by_cases hnl : newline ∈ f
      · obtain ⟨l, f', rfl, hl⟩ := List.eq_append_cons_of_mem hnl
        rw [textLines_line hl] at hfit ⊢
        have hlen : (l ++ [newline]).length < MAX_LINE_SIZE := hfit _ (List.mem_cons_self ..)
        rw [List.length_append, List.length_singleton] at hlen
        rw [fgets_line hl (Nat.lt_sub_of_add_lt hlen)]
        have hshort : f'.length < n := by
          rw [← hn, List.length_append, List.length_cons]
          omega
        exact congrArg _ (ih _ hshort f' (fun l' hl' => hfit l' (List.mem_cons_of_mem _ hl')) rfl)
      · rw [textLines_open hnl hf] at hfit ⊢
        have hlen : f.length < MAX_LINE_SIZE := hfit f (List.mem_singleton_self f)
        have hroom : f.length ≤ MAX_LINE_SIZE - 1 := Nat.le_pred_of_lt hlen
        rw [fgets_all hnl hroom, fileLines, dif_pos rfl]

/-- The sibling loaders are right on every file. -/
theorem loadEntries_right {σ α : Type} {read : List UInt8 → LineRead α} {blank : Line → Prop}
    {entry : Line → α → Prop} (hr : Reads read blank entry) (apply : σ → α → Int × σ) (s : σ)
    (f : List UInt8) (hfit : ∀ l ∈ textLines f, l.length < MAX_LINE_SIZE) :
    ((loadEntries read apply s f).status = 0 ∧
        AllApplied blank entry (fun s _ a => apply s a) s 1 (textLines f)) ∨
      ((loadEntries read apply s f).status ≠ 0 ∧
        FirstOffending blank entry (fun s _ a => apply s a) s 1 (textLines f)
          (loadEntries read apply s f).line) := by
  rw [loadEntries, fileLines_eq f hfit]
  exact entriesLoop_right hr apply 1 s (textLines f)

end P4Switch.Cmd
