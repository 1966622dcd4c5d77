import Mathlib.Data.List.Basic
import Mathlib.Tactic

/-! # Streams cut into lines

A stream of symbols is the lines that have ended, each with its separator, and the rest.
`feed` takes the pair over one symbol, so cutting the stream into chunks changes nothing. -/
namespace P4Switch.Lib.Lines

variable {α : Type*} [DecidableEq α]

/-- The lines that have ended, and the symbols of the one that has not. -/
structure Split (α : Type*) where
  done : List (List α)
  rest : List α

def feed (nl : α) (s : Split α) (a : α) : Split α :=
  if a = nl then ⟨s.done ++ [s.rest], []⟩ else ⟨s.done, s.rest ++ [a]⟩

def feedAll (nl : α) (s : Split α) (as : List α) : Split α := as.foldl (feed nl) s

/-- The lines of a whole stream. -/
def split (nl : α) (as : List α) : Split α := feedAll nl ⟨[], []⟩ as

section
variable {nl : α}

@[simp] theorem feedAll_nil (s : Split α) : feedAll nl s [] = s := rfl

@[simp] theorem feedAll_cons (s : Split α) (a : α) (as : List α) :
    feedAll nl s (a :: as) = feedAll nl (feed nl s a) as := rfl

theorem feedAll_append (s : Split α) (as bs : List α) :
    feedAll nl s (as ++ bs) = feedAll nl (feedAll nl s as) bs := List.foldl_append

theorem feed_nl (s : Split α) : feed nl s nl = ⟨s.done ++ [s.rest], []⟩ := if_pos rfl

theorem feed_other {a : α} (h : a ≠ nl) (s : Split α) : feed nl s a = ⟨s.done, s.rest ++ [a]⟩ :=
  if_neg h

/-- The lines ended before stay in front of the new ones. -/
theorem feedAll_done (d : List (List α)) (r as : List α) :
    feedAll nl ⟨d, r⟩ as =
      ⟨d ++ (feedAll nl ⟨[], r⟩ as).done, (feedAll nl ⟨[], r⟩ as).rest⟩ := by
  induction as generalizing d r with
  | nil => simp
  | cons a as ih =>
    by_cases ha : a = nl
    · subst ha
      rw [feedAll_cons, feedAll_cons, feed_nl, feed_nl, ih (d ++ [r]), ih ([] ++ [r])]
      simp
    · rw [feedAll_cons, feedAll_cons, feed_other ha, feed_other ha, ih d]

/-- A cut anywhere: the second part goes on from the unfinished line of the first. -/
theorem feedAll_cut (r as bs : List α) :
    feedAll nl ⟨[], r⟩ (as ++ bs) =
      ⟨(feedAll nl ⟨[], r⟩ as).done ++ (feedAll nl ⟨[], (feedAll nl ⟨[], r⟩ as).rest⟩ bs).done,
        (feedAll nl ⟨[], (feedAll nl ⟨[], r⟩ as).rest⟩ bs).rest⟩ := by
  rw [feedAll_append, ← feedAll_done]

theorem split_append (as bs : List α) :
    split nl (as ++ bs) =
      ⟨(split nl as).done ++ (feedAll nl ⟨[], (split nl as).rest⟩ bs).done,
        (feedAll nl ⟨[], (split nl as).rest⟩ bs).rest⟩ :=
  feedAll_cut [] as bs

/-- The unfinished line is the front of the line it becomes. -/
theorem prefix_feedAll (d : List (List α)) (r as : List α) :
    r <+: (feedAll nl ⟨d, r⟩ as).rest ∨ ∃ l ∈ (feedAll nl ⟨d, r⟩ as).done, r <+: l := by
  induction as generalizing d r with
  | nil => exact .inl (List.prefix_refl r)
  | cons a as ih =>
    by_cases ha : a = nl
    · subst ha
      rw [feedAll_cons, feed_nl, feedAll_done]
      exact .inr ⟨r, by simp, List.prefix_refl r⟩
    · rw [feedAll_cons, feed_other ha]
      have hr : r <+: r ++ [a] := List.prefix_append r [a]
      exact (ih d (r ++ [a])).imp hr.trans fun ⟨l, hl, hp⟩ => ⟨l, hl, hr.trans hp⟩

/-- Symbols without a separator only make the unfinished line longer. -/
theorem feedAll_open {as : List α} (h : nl ∉ as) (s : Split α) :
    feedAll nl s as = ⟨s.done, s.rest ++ as⟩ := by
  induction as generalizing s with
  | nil => simp
  | cons a as ih =>
    have ha : a ≠ nl := fun e => h (by simp [e])
    rw [feedAll_cons, feed_other ha, ih fun hm => h (List.mem_cons_of_mem _ hm)]
    simp

/-- A text of whole lines gives these lines. -/
theorem split_lines {ls : List (List α)} (h : ∀ l ∈ ls, nl ∉ l) :
    split nl (ls.flatMap (· ++ [nl])) = ⟨ls, []⟩ := by
  suffices hs : ∀ d, feedAll nl ⟨d, []⟩ (ls.flatMap (· ++ [nl])) = ⟨d ++ ls, []⟩ by
    exact hs []
  induction ls with
  | nil => intro d; simp
  | cons l ls ih =>
    intro d
    rw [List.flatMap_cons, List.append_assoc, feedAll_append, feedAll_open (h l (by simp)),
      List.singleton_append, feedAll_cons, feed_nl,
      ih (fun l' hl' => h l' (List.mem_cons_of_mem _ hl'))]
    simp

end

end P4Switch.Lib.Lines
