import Mathlib.Data.List.Basic
import Mathlib.Data.List.Nodup
import Mathlib.Logic.Function.Basic
import Mathlib.Tactic

/-! # Singly linked lists in a memory

`next` reads the link of a node. `Chain next o l e` says that following the links from
`o` meets exactly the nodes `l` and then the link `e`; `walk` follows links until the
null one, `fuel` nodes at most. Linking a node in behind the last one and unlinking a
node are updates of one link. -/
namespace P4Switch.Lib.LinkedChain

variable {α : Type*} {next next' : α → Option α} {o e : Option α} {l l' : List α} {p q : α}

def Chain (next : α → Option α) : Option α → List α → Option α → Prop
  | o, [], e => o = e
  | o, p :: l, e => o = some p ∧ Chain next (next p) l e

def walk (next : α → Option α) : Nat → Option α → List α
  | 0, _ => []
  | _ + 1, none => []
  | fuel + 1, some p => p :: walk next fuel (next p)

@[simp] theorem chain_nil : Chain next o [] e ↔ o = e := Iff.rfl

@[simp] theorem chain_cons :
    Chain next o (p :: l) e ↔ o = some p ∧ Chain next (next p) l e := Iff.rfl

theorem chain_append :
    Chain next o (l ++ l') e ↔ ∃ m, Chain next o l m ∧ Chain next m l' e := by
  induction l generalizing o with
  | nil => simp
  | cons p l ih => simp [ih, and_assoc]

/-- Enough fuel walks the whole chain. -/
theorem Chain.walk_eq {fuel : Nat} (h : Chain next o l none) (hf : l.length ≤ fuel) :
    walk next fuel o = l := by
  induction l generalizing o fuel with
  | nil =>
    obtain rfl := h
    cases fuel <;> rfl
  | cons p l ih =>
    obtain ⟨rfl, h⟩ := h
    cases fuel with
    | zero => cases hf
    | succ fuel => rw [walk, ih h (Nat.le_of_succ_le_succ hf)]

theorem Chain.congr (h : Chain next o l e) (he : ∀ p ∈ l, next' p = next p) :
    Chain next' o l e := by
  induction l generalizing o with
  | nil => exact h
  | cons p l ih =>
    refine ⟨h.1, ?_⟩
    rw [he p List.mem_cons_self]
    exact ih h.2 fun q hq => he q (List.mem_cons_of_mem p hq)

section
variable [DecidableEq α]

/-- The link of the last node redirected. -/
theorem Chain.setLast (h : Chain next o (l ++ [p]) e) (hp : p ∉ l) (e' : Option α) :
    Chain (Function.update next p e') o (l ++ [p]) e' := by
  obtain ⟨m, hl, rfl, -⟩ := chain_append.mp h
  refine chain_append.mpr ⟨some p, hl.congr fun q hq => ?_, by simp⟩
  exact Function.update_of_ne (ne_of_mem_of_not_mem hq hp) _ _

/-- A node with a null link behind the last one. -/
theorem Chain.link (h : Chain next o (l ++ [p]) none) (hn : (l ++ [p]).Nodup)
    (hq : q ∉ l ++ [p]) :
    Chain (Function.update (Function.update next q none) p (some q)) o (l ++ [p] ++ [q])
      none := by
  have hp : p ∉ l := fun hp => List.disjoint_of_nodup_append hn hp (List.mem_singleton_self p)
  have hc : Chain (Function.update next q none) o (l ++ [p]) none :=
    h.congr fun r hr => Function.update_of_ne (ne_of_mem_of_not_mem hr hq) _ _
  have hqp : q ≠ p := fun e => hq (by simp [e])
  exact chain_append.mpr ⟨some q, hc.setLast hp (some q), by simp [Function.update_of_ne hqp]⟩

/-- The node behind `p` taken out. -/
theorem Chain.unlink (h : Chain next o (l ++ p :: q :: l') none)
    (hn : (l ++ p :: q :: l').Nodup) :
    Chain (Function.update next p (next q)) o (l ++ p :: l') none := by
  obtain ⟨m, hl, rfl, hpq, ht⟩ := chain_append.mp h
  obtain ⟨-, hn', hd⟩ := List.nodup_append.mp hn
  have hp : p ∉ l' := fun hp => (List.nodup_cons.mp hn').1 (List.mem_cons_of_mem q hp)
  have hpl : ∀ r ∈ l, r ≠ p := fun r hr => hd r hr p List.mem_cons_self
  refine chain_append.mpr ⟨some p, hl.congr fun r hr => Function.update_of_ne (hpl r hr) _ _,
    rfl, ?_⟩
  rw [Function.update_self]
  exact ht.congr fun r hr => Function.update_of_ne (ne_of_mem_of_not_mem hr hp) _ _

end

end P4Switch.Lib.LinkedChain
