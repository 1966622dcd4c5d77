import Mathlib.Data.List.Nodup
import Mathlib.Tactic

/-! # Positions on a ring of `n` slots

`slot n a j` is the slot `j` places after `a`, `gap n a b` the number of places from
`a` to `b`, and `span n a w` the `w` slots from `a` on, in ring order. -/
namespace P4Switch.Lib.Circular

def slot (n a j : Nat) : Nat := (a + j) % n

def gap (n a b : Nat) : Nat := (b + n - a) % n

def span (n a w : Nat) : List Nat := (List.range w).map (slot n a)

theorem slot_lt {n : Nat} (hn : 0 < n) (a j : Nat) : slot n a j < n := Nat.mod_lt _ hn

theorem gap_lt {n : Nat} (hn : 0 < n) (a b : Nat) : gap n a b < n := Nat.mod_lt _ hn

theorem slot_of_lt {n a j : Nat} (h : a + j < n) : slot n a j = a + j := Nat.mod_eq_of_lt h

theorem slot_of_ge {n a j : Nat} (h : n ≤ a + j) (hl : a + j < 2 * n) : slot n a j = a + j - n := by
  unfold slot
  rw [Nat.mod_eq_sub_mod h, Nat.mod_eq_of_lt (by omega)]

/-- The two shapes of a slot less than one turn away. -/
theorem slot_cases {n a j : Nat} (ha : a < n) (hj : j ≤ n) :
    (a + j < n ∧ slot n a j = a + j) ∨ (n ≤ a + j ∧ slot n a j = a + j - n) := by
  rcases Nat.lt_or_ge (a + j) n with h | h
  · exact .inl ⟨h, slot_of_lt h⟩
  · exact .inr ⟨h, slot_of_ge h (by omega)⟩

theorem gap_cases {n a b : Nat} (ha : a < n) (hb : b < n) :
    (a ≤ b ∧ gap n a b = b - a) ∨ (b < a ∧ gap n a b = b + n - a) := by
  unfold gap
  rcases Nat.lt_or_ge b a with h | h
  · exact .inr ⟨h, Nat.mod_eq_of_lt (by omega)⟩
  · refine .inl ⟨h, ?_⟩
    rw [show b + n - a = (b - a) + n by omega, Nat.add_mod_right, Nat.mod_eq_of_lt (by omega)]

theorem slot_gap {n a b : Nat} (ha : a < n) (hb : b < n) : slot n a (gap n a b) = b := by
  rcases gap_cases ha hb with ⟨h, e⟩ | ⟨h, e⟩ <;> rw [e]
  · rw [slot_of_lt (by omega)]; omega
  · rw [slot_of_ge (by omega) (by omega)]; omega

theorem gap_slot {n a j : Nat} (ha : a < n) (hj : j < n) : gap n a (slot n a j) = j := by
  rcases slot_cases ha (Nat.le_of_lt hj) with ⟨h, e⟩ | ⟨h, e⟩ <;> rw [e]
  · rcases gap_cases ha (b := a + j) h with ⟨_, e⟩ | ⟨h', _⟩ <;> omega
  · rcases gap_cases ha (b := a + j - n) (by omega) with ⟨h', _⟩ | ⟨_, e⟩ <;> omega

/-- The gap to a slot behind `b`, through `b`. -/
theorem gap_slot_cases {n a b j : Nat} (ha : a < n) (hb : b < n) (hj : j < n) :
    (gap n a b + j < n ∧ gap n a (slot n b j) = gap n a b + j) ∨
    (n ≤ gap n a b + j ∧ gap n a (slot n b j) = gap n a b + j - n) := by
  have hs := slot_lt (show 0 < n by omega) b j
  rcases slot_cases hb (Nat.le_of_lt hj) with ⟨h1, e1⟩ | ⟨h1, e1⟩ <;>
  rcases gap_cases ha hb with ⟨h2, e2⟩ | ⟨h2, e2⟩ <;>
  rcases gap_cases ha hs with ⟨h3, e3⟩ | ⟨h3, e3⟩ <;> omega

theorem slot_inj {n a i j : Nat} (ha : a < n) (hi : i < n) (hj : j < n)
    (h : slot n a i = slot n a j) : i = j := by
  rw [← gap_slot ha hi, ← gap_slot ha hj, h]

@[simp] theorem span_length (n a w : Nat) : (span n a w).length = w := by simp [span]

theorem mem_span {n a w i : Nat} : i ∈ span n a w ↔ ∃ j, j < w ∧ slot n a j = i := by
  simp [span]

theorem slot_mem_span {n a w j : Nat} (ha : a < n) (hw : w ≤ n) (hj : j < n) :
    slot n a j ∈ span n a w ↔ j < w := by
  rw [mem_span]
  constructor
  · rintro ⟨i, hi, he⟩
    exact slot_inj ha (by omega) hj he ▸ hi
  · exact fun h => ⟨j, h, rfl⟩

/-! ## Positions of an unbounded sequence

Entry `x` of a sequence that is laid around the ring stands at `slot n 0 x`. -/

theorem slot_slot (n a i j : Nat) : slot n (slot n a i) j = slot n a (i + j) := by
  unfold slot
  rw [Nat.mod_add_mod, Nat.add_assoc]

theorem gap_positions {n d a : Nat} (h : d ≤ a) (hl : a < d + n) :
    gap n (slot n 0 d) (slot n 0 a) = a - d := by
  obtain ⟨j, rfl⟩ := Nat.exists_eq_add_of_le h
  rw [← slot_slot, gap_slot (slot_lt (by omega) ..) (by omega), Nat.add_sub_cancel_left]

/-- Less than a turn apart, two entries stand at different slots. -/
theorem position_inj {n d x y : Nat} (hx : d ≤ x ∧ x < d + n) (hy : d ≤ y ∧ y < d + n)
    (h : slot n 0 x = slot n 0 y) : x = y := by
  obtain ⟨i, rfl⟩ := Nat.exists_eq_add_of_le hx.1
  obtain ⟨j, rfl⟩ := Nat.exists_eq_add_of_le hy.1
  rw [← slot_slot, ← slot_slot] at h
  rw [slot_inj (slot_lt (by omega) ..) (by omega) (by omega) h]

theorem span_succ {n t : Nat} (ht : t < n) (w : Nat) :
    span n t (w + 1) = t :: span n (slot n t 1) w := by
  have h0 : slot n t 0 = t := slot_of_lt ht
  simp only [span, List.range_succ_eq_map, List.map_cons, List.map_map, h0]
  congr 1
  refine List.map_congr_left ?_
  intro j _
  rw [slot_slot, Nat.add_comm 1 j]
  rfl

end P4Switch.Lib.Circular
