import Mathlib.Tactic

/-! # Programs that exit early

A program over a state `σ` ends with a value or exits with an `ε`, and keeps its state
either way. `Holds` is the weakest precondition of a pair of postconditions; the simp
lemmas push it through the program, one construct after the other. -/
namespace P4Switch.Lib.EarlyExit

variable {ε σ α β : Type} {Q : α → σ → Prop} {E : ε → σ → Prop} {s : σ}

/-- From `s`, the program ends in `Q` or exits in `E`. -/
def Holds (m : EStateM ε σ α) (Q : α → σ → Prop) (E : ε → σ → Prop) (s : σ) : Prop :=
  match m s with
  | .ok a s' => Q a s'
  | .error e s' => E e s'

@[simp] theorem holds_pure (a : α) : Holds (pure a) Q E s ↔ Q a s := Iff.rfl

@[simp] theorem holds_throw (e : ε) : Holds (throw e : EStateM ε σ α) Q E s ↔ E e s := Iff.rfl

@[simp] theorem holds_get {Q : σ → σ → Prop} :
    Holds (get : EStateM ε σ σ) Q E s ↔ Q s s := Iff.rfl

@[simp] theorem holds_modify (f : σ → σ) {Q : PUnit → σ → Prop} :
    Holds (modify f : EStateM ε σ PUnit) Q E s ↔ Q ⟨⟩ (f s) := Iff.rfl

@[simp] theorem holds_set (s' : σ) {Q : PUnit → σ → Prop} :
    Holds (set s' : EStateM ε σ PUnit) Q E s ↔ Q ⟨⟩ s' := Iff.rfl

@[simp] theorem holds_bind (m : EStateM ε σ α) (f : α → EStateM ε σ β) {Q : β → σ → Prop} :
    Holds (m >>= f) Q E s ↔ Holds m (fun a => Holds (f a) Q E) E s := by
  have hbind : (m >>= f) s = EStateM.bind m f s := rfl
  unfold Holds
  rw [hbind, EStateM.bind]
  cases m s <;> rfl

@[simp] theorem holds_map (f : α → β) (m : EStateM ε σ α) {Q : β → σ → Prop} :
    Holds (f <$> m) Q E s ↔ Holds m (fun a => Q (f a)) E s := by
  rw [map_eq_pure_bind, holds_bind]
  rfl

@[simp] theorem holds_ite (c : Prop) [Decidable c] (m m' : EStateM ε σ α) :
    Holds (if c then m else m') Q E s ↔ (c → Holds m Q E s) ∧ (¬c → Holds m' Q E s) := by
  by_cases hc : c
  · rw [if_pos hc]
    exact ⟨fun h => ⟨fun _ => h, fun hn => absurd hc hn⟩, fun h => h.1 hc⟩
  · rw [if_neg hc]
    exact ⟨fun h => ⟨fun h' => absurd h' hc, fun _ => h⟩, fun h => h.2 hc⟩

/-- Weaker postconditions. -/
theorem Holds.mono {m : EStateM ε σ α} {Q' : α → σ → Prop} {E' : ε → σ → Prop}
    (h : Holds m Q E s) (hQ : ∀ a s', Q a s' → Q' a s') (hE : ∀ e s', E e s' → E' e s') :
    Holds m Q' E' s := by
  unfold Holds at h ⊢
  cases hm : m s with
  | ok a s' =>
    rw [hm] at h
    exact hQ a s' h
  | error e s' =>
    rw [hm] at h
    exact hE e s' h

/-- Postconditions that exclude each other are not both met. -/
theorem Holds.exclusive {m : EStateM ε σ α} {Q' : α → σ → Prop} {E' : ε → σ → Prop}
    (h : Holds m Q E s) (h' : Holds m Q' E' s) (hQ : ∀ a s', Q a s' → ¬Q' a s')
    (hE : ∀ e s', E e s' → ¬E' e s') : False := by
  unfold Holds at h h'
  cases hm : m s with
  | ok a s' =>
    rw [hm] at h h'
    exact hQ a s' h h'
  | error e s' =>
    rw [hm] at h h'
    exact hE e s' h h'

/-- The rule for loops: an invariant of the body is one of the loop. -/
theorem holds_forM {I : σ → Prop} {f : α → EStateM ε σ PUnit} {l : List α}
    (hf : ∀ a ∈ l, ∀ s, I s → Holds (f a) (fun _ => I) E s) (hs : I s) :
    Holds (l.forM f) (fun _ => I) E s := by
  induction l generalizing s with
  | nil => exact hs
  | cons a l ih =>
    show Holds (f a >>= fun _ => l.forM f) _ _ _
    rw [holds_bind]
    refine (hf a (List.mem_cons_self ..) s hs).mono ?_ fun _ _ h => h
    intro _ s' hs'
    exact ih (fun b hb => hf b (List.mem_cons_of_mem _ hb)) hs'

end P4Switch.Lib.EarlyExit
