import P4Switch.Counter.System
import P4Switch.Ixgbe.Admission
import P4Switch.Lib.GuardedRun

/-! # The worker, iteration by iteration

What the files hold when they are read is up to the other process, so an iteration is given
the text it reads. `FIFO_SIZE` is declared outside the loop: an iteration that reads no
number goes on with what an earlier one has left there. -/
namespace P4Switch.Counter
open P4Switch.QosBuffer P4Switch.Lib.Decimal P4Switch.Lib.GuardedRun P4Switch.Ixgbe

/-- The variables of the worker's `main`. -/
structure WorkerVars where
  FIFO_SIZE : Int
  turn : BufferFile

/-- One iteration of `while (true)` on a file that reads `text`: the variables after it, and
the number written to the file of `turn`, if it comes to that. -/
def WorkerVars.iteration (w : WorkerVars) (text : List Char) : WorkerVars × Option Int :=
  let fifo := (fscanfInt text).getD w.FIFO_SIZE
  if fifo < QUEUE_SIZE then (⟨fifo + 1, w.turn.nextTurn⟩, some (fifo + 1))
  else (⟨fifo, w.turn.nextTurn⟩, none)

/-- An iteration that is over. -/
structure Turn where
  file : BufferFile
  text : List Char
  written : Option Int
  deriving DecidableEq

/-- The worker and its iterations so far, the last one in front. -/
structure WorkerRun where
  vars : WorkerVars
  turns : List Turn

def WorkerRun.start : WorkerRun := ⟨⟨0, .rrLower20⟩, []⟩

def WorkerRun.step (s : WorkerRun) (text : List Char) : WorkerRun where
  vars := (s.vars.iteration text).1
  turns := ⟨s.vars.turn, text, (s.vars.iteration text).2⟩ :: s.turns

/-- What is written is one more than the number read in the same iteration. -/
def Turn.Own (t : Turn) : Prop :=
  ∀ v, t.written = some v → ∃ n, fscanfInt t.text = some n ∧ v = n + 1

/-- No iteration writes a count that is not its own file's. -/
def OwnCounts (s : WorkerRun) : Prop := ∀ t ∈ s.turns, t.Own

/-- The number read last. -/
def WorkerRun.lastRead (s : WorkerRun) : Option Int := (s.turns.filterMap (fscanfInt ·.text)).head?

/-- A text without a number comes after a number that left `FIFO_SIZE` at `QUEUE_SIZE` or
more, and no smaller number since. -/
def ReadsAfterFull (s : WorkerRun) (text : List Char) : Prop :=
  fscanfInt text = none → ∃ n, s.lastRead = some n ∧ QUEUE_SIZE - 1 ≤ n

/-! ## One iteration -/

section
variable (w : WorkerVars) (text : List Char)

theorem iteration_cases :
    ((fscanfInt text).getD w.FIFO_SIZE < QUEUE_SIZE ∧
      w.iteration text = (⟨(fscanfInt text).getD w.FIFO_SIZE + 1, w.turn.nextTurn⟩,
        some ((fscanfInt text).getD w.FIFO_SIZE + 1))) ∨
    (QUEUE_SIZE ≤ (fscanfInt text).getD w.FIFO_SIZE ∧
      w.iteration text = (⟨(fscanfInt text).getD w.FIFO_SIZE, w.turn.nextTurn⟩, none)) := by
  unfold WorkerVars.iteration
  dsimp only
  split
  · rename_i h
    exact .inl ⟨h, rfl⟩
  · rename_i h
    exact .inr ⟨Int.not_lt.mp h, rfl⟩

/-- The iteration is what the worker's steps in the system do, whatever the driver does to the
files between them: its read decides whether it writes, and what. -/
theorem workerRead_iteration (s : System) :
    (workerRead s).workerFifo =
        (WorkerVars.iteration ⟨s.workerFifo, s.turn⟩ (s.file s.turn)).1.FIFO_SIZE ∧
      ((WorkerVars.iteration ⟨s.workerFifo, s.turn⟩ (s.file s.turn)).2 =
        if (fscanfInt (s.file s.turn)).getD s.workerFifo < QUEUE_SIZE then
          some (workerRead s).workerFifo
        else none) := by
  obtain ⟨hv, e⟩ | ⟨hv, e⟩ := iteration_cases ⟨s.workerFifo, s.turn⟩ (s.file s.turn) <;> rw [e]
  · rcases workerRead_cases s with ⟨-, hr⟩ | ⟨hge, -⟩
    · rw [hr, if_pos hv]
      exact ⟨rfl, rfl⟩
    · exact absurd hv (Int.not_lt.mpr hge)
  · rcases workerRead_cases s with ⟨hlt, -⟩ | ⟨-, hr⟩
    · exact absurd hlt (Int.not_lt.mpr hv)
    · rw [hr, if_neg (Int.not_lt.mpr hv)]
      exact ⟨rfl, rfl⟩

end

/-! ## Runs -/

/-- The invariant: `FIFO_SIZE` stands at `QUEUE_SIZE` or more exactly when the number read last
put it there. -/
structure TurnsInv (s : WorkerRun) : Prop where
  own : OwnCounts s
  full : QUEUE_SIZE ≤ s.vars.FIFO_SIZE ↔ ∃ n, s.lastRead = some n ∧ QUEUE_SIZE - 1 ≤ n

section
variable {s : WorkerRun} {text : List Char}

theorem lastRead_step_some {n : Int} (h : fscanfInt text = some n) :
    (s.step text).lastRead = some n := by
  simp [WorkerRun.lastRead, WorkerRun.step, h]

theorem lastRead_step_none (h : fscanfInt text = none) :
    (s.step text).lastRead = s.lastRead := by
  simp [WorkerRun.lastRead, WorkerRun.step, h]

theorem OwnCounts.step (h : OwnCounts s)
    (hnew : Turn.Own ⟨s.vars.turn, text, (s.vars.iteration text).2⟩) : OwnCounts (s.step text) := by
  intro t ht
  obtain rfl | ht := List.mem_cons.mp ht
  · exact hnew
  · exact h t ht

theorem TurnsInv.step (h : TurnsInv s) (hok : ReadsAfterFull s text) : TurnsInv (s.step text) := by
  cases hread : fscanfInt text with
  | some n =>
    have hlast := lastRead_step_some (s := s) hread
    obtain ⟨hv, e⟩ | ⟨hv, e⟩ := iteration_cases s.vars text <;>
      rw [hread, Option.getD_some] at hv e
    · refine ⟨h.own.step ?_, ?_⟩
      · intro v hw
        rw [e] at hw
        exact ⟨n, hread, (Option.some.inj hw).symm⟩
      · rw [hlast]
        show QUEUE_SIZE ≤ (s.vars.iteration text).1.FIFO_SIZE ↔ _
        rw [e]
        constructor
        · intro hq
          exact ⟨n, rfl, by dsimp only at hq; omega⟩
        · rintro ⟨m, hm, hq⟩
          cases hm
          dsimp only
          omega
    · refine ⟨h.own.step ?_, ?_⟩
      · intro v hw
        rw [e] at hw
        cases hw
      · rw [hlast]
        show QUEUE_SIZE ≤ (s.vars.iteration text).1.FIFO_SIZE ↔ _
        rw [e]
        exact iff_of_true hv ⟨n, rfl, by omega⟩
  | none =>
    have hfull := h.full.mpr (hok hread)
    obtain ⟨hv, -⟩ | ⟨-, e⟩ := iteration_cases s.vars text
    · rw [hread] at hv
      exact absurd hv (Int.not_lt.mpr hfull)
    · rw [hread] at e
      refine ⟨h.own.step ?_, ?_⟩
      · intro v hw
        rw [e] at hw
        cases hw
      · rw [lastRead_step_none hread]
        show QUEUE_SIZE ≤ (s.vars.iteration text).1.FIFO_SIZE ↔ _
        rw [e]
        exact h.full

/-- An iteration that reads no number with `FIFO_SIZE` below `QUEUE_SIZE` writes all the same. -/
theorem readsAfterFull_of_step (h : TurnsInv s) (hp : OwnCounts (s.step text)) :
    ReadsAfterFull s text := by
  intro hread
  apply h.full.mp
  obtain ⟨-, e⟩ | ⟨hv, -⟩ := iteration_cases s.vars text
  · have hown := hp _ (List.mem_cons_self ..)
    obtain ⟨n, hn, -⟩ := hown _ (by rw [e])
    rw [hread] at hn
    cases hn
  · rw [hread] at hv
    exact hv

theorem start_turnsInv : TurnsInv .start := by
  refine ⟨?_, ?_⟩
  · intro t ht
    cases ht
  · refine iff_of_false (by decide) ?_
    rintro ⟨n, hn, -⟩
    cases hn

end

/-- **Each file gets its own count** in all iterations exactly when every text without a number
is read after a number of `QUEUE_SIZE - 1` or more. -/
theorem ownCounts_always_iff (texts : List (List Char)) :
    Always WorkerRun.step OwnCounts .start texts ↔
      Meets WorkerRun.step ReadsAfterFull .start texts :=
  always_iff_meets (I := TurnsInv) (fun _ _ h hok => h.step hok) (fun _ h => h.own)
    (fun _ _ h hp => readsAfterFull_of_step h hp) start_turnsInv texts

/-- After 10 in the first file, the second is found empty: it gets 12. -/
theorem ownCounts_broken :
    ¬∀ texts, Always WorkerRun.step OwnCounts .start texts := by
  intro h
  have hown := h [['1', '0'], []] _ (List.prefix_refl _)
  obtain ⟨n, hn, -⟩ := hown ⟨.range_20_80, [], some 12⟩ (by decide +kernel) 12 rfl
  cases hn

end P4Switch.Counter
