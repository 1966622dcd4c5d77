import P4Switch.Counter.System
import P4Switch.Lib.GuardedRun

/-! # How large a counter can get

Both processes write numbers from 0 to `QUEUE_SIZE`, but each truncates the file before it
writes, so that a number of one digit can land on one of two digits and leave the second
digit standing. -/
namespace P4Switch.Counter
open P4Switch.QosBuffer P4Switch.Lib.Decimal P4Switch.Lib.GuardedRun

/-- The file is empty or holds a number from 0 to `QUEUE_SIZE`. -/
def FileOk (cs : List Char) : Prop := cs = [] ∨ (Numeral cs ∧ (value cs : Int) ≤ QUEUE_SIZE)

/-- The free-space bound: on the files, and on what the driver has made of them. -/
structure Bounded (s : System) : Prop where
  files : ∀ f, FileOk (s.file f)
  driver : 0 ≤ s.driverFifo ∧ s.driverFifo ≤ QUEUE_SIZE

/-- A digit written over two digits makes a number within the bound. -/
def Fits (w : Int) (cs : List Char) : Prop :=
  w < 10 → ∀ a b, cs = [a, b] → 10 * w + value [b] ≤ QUEUE_SIZE

/-- What a step must meet: a write of one digit that finds two digits, put there by the other
process since the file was truncated, must fit. -/
def WriteFits (s : System) : Proc → Prop
  | .driver _ => ∀ f, s.driver = .writing f → Fits s.driverFifo (s.file f)
  | .worker => s.worker = .writing → Fits s.workerFifo (s.file s.turn)

structure SpaceInv (s : System) : Prop where
  bounded : Bounded s
  short : ∀ f, (s.file f).length ≤ 2
  worker : 0 ≤ s.workerFifo ∧ s.workerFifo ≤ QUEUE_SIZE

/-! ## One write -/

theorem fileOk_nil : FileOk [] := .inl rfl

theorem fileOk_toDigits {n : Nat} (h : n ≤ 33) : FileOk (Nat.toDigits 10 n) := by
  refine .inr ⟨numeral_toDigits n, ?_⟩
  rw [value_toDigits]
  exact Int.ofNat_le.mpr h

theorem length_toDigits_le {n : Nat} (h : n ≤ 33) : (Nat.toDigits 10 n).length ≤ 2 := by
  rw [Nat.length_toDigits_le_iff (by decide) (by decide)]
  omega

/-- **When a write keeps the file within the bound.** -/
theorem fileOk_overwrite {w : Int} (h0 : 0 ≤ w) (hw : w ≤ QUEUE_SIZE) {cs : List Char}
    (hcs : FileOk cs) (hl : cs.length ≤ 2) :
    (FileOk (overwrite (printInt w) cs) ↔ Fits w cs) ∧
      (overwrite (printInt w) cs).length ≤ 2 := by
  obtain ⟨n, rfl⟩ := Int.eq_ofNat_of_zero_le h0
  have hn : n ≤ 33 := Int.ofNat_le.mp hw
  rw [printInt_natCast]
  rcases Nat.lt_or_ge n 10 with hlt | hge
  · rw [toDigits_one hlt]
    have hone : FileOk [n.digitChar] := toDigits_one hlt ▸ fileOk_toDigits hn
    match cs, hl with
    | [], _ => exact ⟨iff_of_true hone fun _ a b h => (by cases h), Nat.le_succ 1⟩
    | [a], _ => exact ⟨iff_of_true hone fun _ a b h => (by cases h), Nat.le_succ 1⟩
    | [a, b], _ =>
      rw [overwrite_one_two]
      refine ⟨⟨?_, fun h => .inr ⟨⟨List.cons_ne_nil _ _, ?_⟩, ?_⟩⟩, Nat.le_refl 2⟩
      · intro h _ x y hxy
        obtain ⟨-, hby⟩ := List.cons.inj hxy
        obtain ⟨hb, -⟩ := List.cons.inj hby
        rcases h with hnil | ⟨-, hv⟩
        · cases hnil
        · rw [value_two hlt] at hv
          rw [← hb]
          exact_mod_cast hv
      · intro c hc
        rcases hcs with hnil | ⟨hnum, -⟩
        · cases hnil
        · rcases List.mem_cons.mp hc with rfl | hc
          · exact Nat.isDigit_of_mem_toDigits (b := 10) (n := n) (by decide) (by decide)
              (toDigits_one hlt ▸ List.mem_cons_self ..)
          · exact hnum.digits c (List.mem_cons_of_mem _ hc)
      · have hf := h (by omega) a b rfl
        rw [value_two hlt]
        exact_mod_cast hf
  · have hlen := length_toDigits_two hge (by omega)
    rw [overwrite_of_le (by omega)]
    exact ⟨iff_of_true (fileOk_toDigits hn) fun h => absurd h (by omega), hlen.le⟩

/-- What is read from such a file. -/
theorem FileOk.scan {cs : List Char} (h : FileOk cs) {d : Int} (h0 : 0 ≤ d)
    (hd : d ≤ QUEUE_SIZE) : 0 ≤ (fscanfInt cs).getD d ∧ (fscanfInt cs).getD d ≤ QUEUE_SIZE := by
  rcases h with rfl | ⟨hn, hv⟩
  · exact ⟨h0, hd⟩
  · have hlt : (value cs : Int) < 2 ^ 31 := hv.trans_lt (by decide)
    rw [fscanfInt_of_scanInt hn.scanInt (by omega) hlt, Option.getD_some]
    exact ⟨Int.natCast_nonneg _, hv⟩

/-! ## The steps -/

section
variable {s : System}

theorem setFile_all {P : List Char → Prop} (h : ∀ f, P (s.file f)) {g : BufferFile}
    {cs : List Char} (hcs : P cs) (f : BufferFile) : P ((s.setFile g cs).file f) := by
  by_cases hf : f = g
  · rw [hf, setFile_self]
    exact hcs
  · rw [setFile_of_ne s g cs hf]
    exact h f

theorem queueSize_nonneg : (0 : Int) ≤ QUEUE_SIZE := by decide

theorem SpaceInv.driverRead (h : SpaceInv s) (f : BufferFile) : SpaceInv (driverRead f s) := by
  have hv := (h.bounded.files f).scan (Int.le_refl 0) queueSize_nonneg
  rcases driverRead_cases s f with ⟨-, hr⟩ | ⟨hpos, hr⟩ <;> rw [hr]
  · exact ⟨⟨h.bounded.files, hv⟩, h.short, h.worker⟩
  · exact ⟨⟨h.bounded.files, by dsimp only; omega, by dsimp only; omega⟩, h.short, h.worker⟩

theorem SpaceInv.workerRead (h : SpaceInv s) : SpaceInv (workerRead s) := by
  have hv := (h.bounded.files s.turn).scan h.worker.1 h.worker.2
  rcases workerRead_cases s with ⟨hlt, hr⟩ | ⟨-, hr⟩ <;> rw [hr]
  · exact ⟨⟨h.bounded.files, h.bounded.driver⟩, h.short, by dsimp only; omega, by dsimp only; omega⟩
  · exact ⟨⟨h.bounded.files, h.bounded.driver⟩, h.short, hv⟩

/-- The step lemma, with the condition it needs. -/
theorem step_spaceInv (s : System) (p : Proc) (h : SpaceInv s) (hok : WriteFits s p) :
    SpaceInv (step s p) := by
  cases p with
  | driver f =>
    change SpaceInv (driverStep f s)
    cases hdr : s.driver with
    | idle =>
      rw [driverStep_idle s f hdr]
      exact h.driverRead f
    | opening g =>
      rw [driverStep_opening s f hdr]
      exact ⟨⟨setFile_all h.bounded.files fileOk_nil, h.bounded.driver⟩,
        setFile_all (P := (·.length ≤ 2)) h.short (Nat.zero_le 2), h.worker⟩
    | writing g =>
      rw [driverStep_writing s f hdr]
      obtain ⟨hiff, hlen⟩ := fileOk_overwrite h.bounded.driver.1 h.bounded.driver.2
        (h.bounded.files g) (h.short g)
      exact ⟨⟨setFile_all h.bounded.files (hiff.mpr (hok g hdr)), h.bounded.driver⟩,
        setFile_all (P := (·.length ≤ 2)) h.short hlen, h.worker⟩
  | worker =>
    change SpaceInv (workerStep s)
    cases hwk : s.worker with
    | reading =>
      rw [workerStep_reading s hwk]
      exact h.workerRead
    | opening =>
      rw [workerStep_opening s hwk]
      exact ⟨⟨setFile_all h.bounded.files fileOk_nil, h.bounded.driver⟩,
        setFile_all (P := (·.length ≤ 2)) h.short (Nat.zero_le 2), h.worker⟩
    | writing =>
      rw [workerStep_writing s hwk]
      obtain ⟨hiff, hlen⟩ := fileOk_overwrite h.worker.1 h.worker.2 (h.bounded.files s.turn)
        (h.short s.turn)
      exact ⟨⟨setFile_all h.bounded.files (hiff.mpr (hok hwk)), h.bounded.driver⟩,
        setFile_all (P := (·.length ≤ 2)) h.short hlen, h.worker⟩

/-- A write that keeps the bound fits. -/
theorem writeFits_of_step (s : System) (p : Proc) (h : SpaceInv s) (hb : Bounded (step s p)) :
    WriteFits s p := by
  cases p with
  | driver f =>
    intro g hdr
    have hfile := hb.files g
    change FileOk ((driverStep f s).file g) at hfile
    rw [driverStep_writing s f hdr] at hfile
    change FileOk ((s.setFile g _).file g) at hfile
    rw [setFile_self] at hfile
    exact (fileOk_overwrite h.bounded.driver.1 h.bounded.driver.2 (h.bounded.files g)
      (h.short g)).1.mp hfile
  | worker =>
    intro hwk
    have hfile := hb.files s.turn
    change FileOk ((workerStep s).file s.turn) at hfile
    rw [workerStep_writing s hwk] at hfile
    change FileOk ((s.setFile s.turn _).file s.turn) at hfile
    rw [setFile_self] at hfile
    exact (fileOk_overwrite h.worker.1 h.worker.2 (h.bounded.files s.turn)
      (h.short s.turn)).1.mp hfile

theorem start_spaceInv {init : BufferFile → Int} (h : ∀ f, 0 ≤ init f ∧ init f ≤ QUEUE_SIZE) :
    SpaceInv (.start init) := by
  have hfile : ∀ f, ∃ n : Nat, n ≤ 33 ∧ printInt (init f) = Nat.toDigits 10 n := by
    intro f
    obtain ⟨n, hn⟩ := Int.eq_ofNat_of_zero_le (h f).1
    refine ⟨n, Int.ofNat_le.mp (hn ▸ (h f).2), ?_⟩
    rw [hn, printInt_natCast]
  refine ⟨⟨?_, Int.le_refl 0, queueSize_nonneg⟩, ?_, Int.le_refl 0, queueSize_nonneg⟩
  · intro f
    obtain ⟨n, hn, he⟩ := hfile f
    change FileOk (printInt (init f))
    rw [he]
    exact fileOk_toDigits hn
  · intro f
    obtain ⟨n, hn, he⟩ := hfile f
    change (printInt (init f)).length ≤ 2
    rw [he]
    exact length_toDigits_le hn

end

/-- **The free-space bound, exactly.** From numbers within the bound, it holds in every state
of a run if and only if every write of one digit over two fits. -/
theorem bounded_always_iff {init : BufferFile → Int}
    (h : ∀ f, 0 ≤ init f ∧ init f ≤ QUEUE_SIZE) (ps : List Proc) :
    Always step Bounded (.start init) ps ↔ Meets step WriteFits (.start init) ps :=
  always_iff_meets step_spaceInv (fun _ hs => hs.bounded) writeFits_of_step (start_spaceInv h) ps

theorem bounded_always_iff_full :
    Always step Bounded (.start fun _ => 33)
        [.driver .rrLower20, .worker, .driver .rrLower20, .driver .rrLower20] ↔
      Meets step WriteFits (.start fun _ => 33)
        [.driver .rrLower20, .worker, .driver .rrLower20, .driver .rrLower20] :=
  bounded_always_iff (fun _ => by decide) _

/-- Both read 10 and truncate; the worker writes 11, then the driver 9: the file says 91. -/
theorem bounded_broken :
    ¬Bounded (run step (.start fun _ => 10)
      [.driver .rrLower20, .worker, .driver .rrLower20, .worker, .worker, .driver .rrLower20]) := by
  intro h
  have hf := h.files .rrLower20
  have hfile : (run step (.start fun _ => 10) [.driver .rrLower20, .worker, .driver .rrLower20,
      .worker, .worker, .driver .rrLower20]).file .rrLower20 = ['9', '1'] := by decide +kernel
  rw [hfile] at hf
  rcases hf with hnil | ⟨-, hv⟩
  · cases hnil
  · revert hv
    decide

end P4Switch.Counter
