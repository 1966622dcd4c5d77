import P4Switch.Counter.System
import P4Switch.Lib.GuardedRun

/-! # Which interleavings lose no update

A counter is read, truncated and written in three steps, so that the other process can read
it in between. Nothing is lost as long as no such read is followed by a write. -/
namespace P4Switch.Counter
open P4Switch.QosBuffer P4Switch.Lib.Decimal P4Switch.Lib.GuardedRun

/-- The driver is between its read and its write of the file. -/
def System.DriverBusy (s : System) (f : BufferFile) : Prop :=
  s.driver = .opening f ∨ s.driver = .writing f

/-- The worker is between its read and its write of the file. -/
def System.WorkerBusy (s : System) (f : BufferFile) : Prop := s.turn = f ∧ s.worker ≠ .reading

/-- What the counter should be. -/
def System.expected (init : BufferFile → Int) (s : System) (f : BufferFile) : Int :=
  init f - s.admitted f + s.served f

/-- Each file that no process is in the middle of updating holds its initial value, less the
packets admitted, plus the services. -/
def Exact (init : BufferFile → Int) (s : System) : Prop :=
  ∀ f, ¬s.DriverBusy f → ¬s.WorkerBusy f → s.file f = printInt (s.expected init f)

/-- The number in the file is not the one an `int` gets from it. -/
def System.Misread (s : System) (f : BufferFile) : Prop := fscanfInt (s.file f) ≠ scanInt (s.file f)

/-- What a step must meet: a process that reads a file in the middle of the other's update, or
one whose number is no `int`, must go away without a write, the driver with a dropped packet,
the worker to its next turn. -/
def Apart (s : System) : Proc → Prop
  | .driver f => s.driver = .idle → s.WorkerBusy f ∨ s.Misread f →
      (fscanfInt (s.file f)).getD 0 ≤ 0
  | .worker => s.worker = .reading → s.DriverBusy s.turn ∨ s.Misread s.turn →
      QUEUE_SIZE ≤ (fscanfInt (s.file s.turn)).getD s.workerFifo

instance (s : System) (f : BufferFile) : Decidable (s.DriverBusy f) :=
  inferInstanceAs (Decidable (_ ∨ _))

instance (s : System) (f : BufferFile) : Decidable (s.WorkerBusy f) :=
  inferInstanceAs (Decidable (_ ∧ _))

instance (s : System) (f : BufferFile) : Decidable (s.Misread f) :=
  inferInstanceAs (Decidable (_ ≠ _))

instance (s : System) (p : Proc) : Decidable (Apart s p) :=
  match p with
  | .driver _ => inferInstanceAs (Decidable (_ → _))
  | .worker => inferInstanceAs (Decidable (_ → _))

/-- The invariant: the two processes are never in the middle of updating the same file, and
each is about to write what is expected. -/
structure CounterInv (init : BufferFile → Int) (s : System) : Prop where
  exact : Exact init s
  apart : ∀ f, s.DriverBusy f → ¬s.WorkerBusy f
  driver : ∀ f, s.DriverBusy f → s.driverFifo = s.expected init f
  driverFile : ∀ f, s.driver = .writing f → s.file f = []
  worker : s.worker ≠ .reading → s.workerFifo = s.expected init s.turn
  workerFile : s.worker = .writing → s.file s.turn = []

section
variable {init : BufferFile → Int} {s : System}

theorem not_driverBusy_of_idle (h : s.driver = .idle) (f : BufferFile) : ¬s.DriverBusy f := by
  rintro (hf | hf) <;> rw [h] at hf <;> cases hf

theorem driverBusy_opening {f g : BufferFile} (h : s.driver = .opening f) :
    s.DriverBusy g ↔ g = f := by
  unfold System.DriverBusy
  rw [h]
  constructor
  · rintro (hg | hg) <;> cases hg
    rfl
  · rintro rfl
    exact .inl rfl

theorem driverBusy_writing {f g : BufferFile} (h : s.driver = .writing f) :
    s.DriverBusy g ↔ g = f := by
  unfold System.DriverBusy
  rw [h]
  constructor
  · rintro (hg | hg) <;> cases hg
    rfl
  · rintro rfl
    exact .inr rfl

theorem not_workerBusy_of_reading (h : s.worker = .reading) (f : BufferFile) :
    ¬s.WorkerBusy f := fun hf => hf.2 h

theorem ne_reading_of_writing (h : s.worker = .writing) : s.worker ≠ .reading := by
  rw [h]
  exact fun hc => by cases hc

theorem ne_reading_of_opening (h : s.worker = .opening) : s.worker ≠ .reading := by
  rw [h]
  exact fun hc => by cases hc

/-- A file at rest is read as what is expected, if that is an `int`. -/
theorem CounterInv.scan (h : CounterInv init s) {f : BufferFile} (hd : ¬s.DriverBusy f)
    (hw : ¬s.WorkerBusy f) (hm : ¬s.Misread f) :
    fscanfInt (s.file f) = some (s.expected init f) := by
  rw [not_not.mp hm, h.exact f hd hw, scanInt_printInt]

/-- The driver reads. -/
theorem CounterInv.driverRead (h : CounterInv init s) {f : BufferFile} (hi : s.driver = .idle)
    (hok : s.WorkerBusy f ∨ s.Misread f → (fscanfInt (s.file f)).getD 0 ≤ 0) :
    CounterInv init (driverRead f s) := by
  have hd := not_driverBusy_of_idle hi
  rcases driverRead_cases s f with ⟨-, hr⟩ | ⟨hv, hr⟩ <;> rw [hr]
  · refine ⟨fun g _ hg => h.exact g (hd g) hg, fun g hg => ?_, fun g hg => ?_, h.driverFile,
      h.worker, h.workerFile⟩ <;> exact absurd hg (hd g)
  · have hw : ¬s.WorkerBusy f := fun hw => absurd (hok (.inl hw)) (Int.not_le.mpr hv)
    have hm : ¬s.Misread f := fun hm => absurd (hok (.inr hm)) (Int.not_le.mpr hv)
    rw [h.scan (hd f) hw hm, Option.getD_some]
    have hother : ∀ g, g ≠ f → (Function.update s.admitted f (s.admitted f + 1)) g =
        s.admitted g := fun g hg => Function.update_of_ne hg ..
    have hself : (Function.update s.admitted f (s.admitted f + 1)) f = s.admitted f + 1 :=
      Function.update_self ..
    refine ⟨?_, ?_, ?_, ?_, ?_, h.workerFile⟩
    · intro g hg hwg
      have hgf : g ≠ f := fun he => hg ((driverBusy_opening rfl).mpr he)
      have he := h.exact g (hd g) hwg
      simp only [System.expected, hother g hgf] at he ⊢
      exact he
    · intro g hg
      rw [(driverBusy_opening rfl).mp hg]
      exact hw
    · intro g hg
      rw [(driverBusy_opening rfl).mp hg]
      simp only [System.expected, hself]
      push_cast
      ring
    · intro g hg
      cases hg
    · intro hwr
      have htf : s.turn ≠ f := fun he => hw ⟨he, hwr⟩
      have he := h.worker hwr
      simp only [System.expected, hother _ htf] at he ⊢
      exact he

/-- The driver truncates the file, or writes it. -/
theorem CounterInv.driverStep (h : CounterInv init s) {f : BufferFile}
    (hok : Apart s (.driver f)) : CounterInv init (driverStep f s) := by
  cases hdr : s.driver with
  | idle =>
    rw [driverStep_idle s f hdr]
    exact h.driverRead hdr (hok hdr)
  | opening g =>
    rw [driverStep_opening s f hdr]
    have hbusy : s.DriverBusy g := (driverBusy_opening hdr).mpr rfl
    have hw := h.apart g hbusy
    refine ⟨?_, ?_, ?_, ?_, h.worker, ?_⟩
    · intro e he hwe
      have heg : e ≠ g := fun heq => he ((driverBusy_writing rfl).mpr heq)
      have hfile : (s.setFile g []).file e = s.file e := setFile_of_ne s g [] heg
      exact hfile.trans (h.exact e (fun hb => heg ((driverBusy_opening hdr).mp hb)) hwe)
    · intro e he
      rw [(driverBusy_writing rfl).mp he]
      exact hw
    · intro e he
      rw [(driverBusy_writing rfl).mp he]
      exact h.driver g hbusy
    · intro e he
      cases he
      exact setFile_self s g []
    · intro hwr
      have htg : s.turn ≠ g := fun heq => hw ⟨heq, ne_reading_of_writing hwr⟩
      exact (setFile_of_ne s g [] htg).trans (h.workerFile hwr)
  | writing g =>
    rw [driverStep_writing s f hdr]
    have hbusy : s.DriverBusy g := (driverBusy_writing hdr).mpr rfl
    have hw := h.apart g hbusy
    refine ⟨?_, ?_, ?_, ?_, h.worker, ?_⟩
    · intro e he hwe
      by_cases heg : e = g
      · subst heg
        rw [h.driverFile e hdr, overwrite_nil, h.driver e hbusy]
        exact setFile_self s e _
      · exact (setFile_of_ne s g _ heg).trans
          (h.exact e (fun hb => heg ((driverBusy_writing hdr).mp hb)) hwe)
    · intro e he
      exact absurd he (not_driverBusy_of_idle rfl e)
    · intro e he
      exact absurd he (not_driverBusy_of_idle rfl e)
    · intro e he
      cases he
    · intro hwr
      have htg : s.turn ≠ g := fun heq => hw ⟨heq, ne_reading_of_writing hwr⟩
      exact (setFile_of_ne s g _ htg).trans (h.workerFile hwr)

/-- The worker reads. -/
theorem CounterInv.workerRead (h : CounterInv init s) (hr : s.worker = .reading)
    (hok : s.DriverBusy s.turn ∨ s.Misread s.turn →
      QUEUE_SIZE ≤ (fscanfInt (s.file s.turn)).getD s.workerFifo) :
    CounterInv init (workerRead s) := by
  have hnw := not_workerBusy_of_reading hr
  rcases workerRead_cases s with ⟨hv, he⟩ | ⟨-, he⟩ <;> rw [he]
  · have hd : ¬s.DriverBusy s.turn := fun hb => absurd (hok (.inl hb)) (Int.not_le.mpr hv)
    have hm : ¬s.Misread s.turn := fun hm => absurd (hok (.inr hm)) (Int.not_le.mpr hv)
    rw [h.scan hd (hnw _) hm, Option.getD_some]
    have hother : ∀ g, g ≠ s.turn →
        (Function.update s.served s.turn (s.served s.turn + 1)) g = s.served g :=
      fun g hg => Function.update_of_ne hg ..
    have hself : (Function.update s.served s.turn (s.served s.turn + 1)) s.turn =
        s.served s.turn + 1 := Function.update_self ..
    refine ⟨?_, ?_, ?_, h.driverFile, ?_, fun hc => by cases hc⟩
    · intro g hg hwg
      have hgt : g ≠ s.turn := fun heq => hwg ⟨heq.symm, fun hc => by cases hc⟩
      have hex := h.exact g hg (hnw g)
      simp only [System.expected, hother g hgt] at hex ⊢
      exact hex
    · intro g hg hwg
      exact hd (hwg.1 ▸ hg)
    · intro g hg
      have hgt : g ≠ s.turn := fun heq => hd (heq ▸ hg)
      have hdr := h.driver g hg
      simp only [System.expected, hother g hgt] at hdr ⊢
      exact hdr
    · intro _
      simp only [System.expected, hself]
      push_cast
      ring
  · exact ⟨fun g hg _ => h.exact g hg (hnw g), fun g _ hwg => hwg.2 hr, h.driver, h.driverFile,
      fun hc => absurd hr hc, fun hc => by rw [hr] at hc; cases hc⟩

theorem CounterInv.workerStep (h : CounterInv init s) (hok : Apart s .worker) :
    CounterInv init (workerStep s) := by
  cases hwk : s.worker with
  | reading =>
    rw [workerStep_reading s hwk]
    exact h.workerRead hwk (hok hwk)
  | opening =>
    rw [workerStep_opening s hwk]
    have hne := ne_reading_of_opening hwk
    have hd : ¬s.DriverBusy s.turn := fun hb => h.apart _ hb ⟨rfl, hne⟩
    refine ⟨?_, ?_, h.driver, ?_, fun _ => h.worker hne, fun _ => setFile_self s s.turn []⟩
    · intro g hg hwg
      have hgt : g ≠ s.turn := fun heq => hwg ⟨heq.symm, fun hc => by cases hc⟩
      exact (setFile_of_ne s s.turn [] hgt).trans
        (h.exact g hg fun hb => hgt hb.1.symm)
    · intro g hg hwg
      exact hd (hwg.1 ▸ hg)
    · intro g hg
      have hgt : g ≠ s.turn := fun heq => hd (heq ▸ .inr hg)
      exact (setFile_of_ne s s.turn [] hgt).trans (h.driverFile g hg)
  | writing =>
    rw [workerStep_writing s hwk]
    have hne := ne_reading_of_writing hwk
    have hd : ¬s.DriverBusy s.turn := fun hb => h.apart _ hb ⟨rfl, hne⟩
    refine ⟨?_, fun g _ hwg => hwg.2 rfl, h.driver, ?_,
      fun hc => absurd rfl hc, fun hc => by cases hc⟩
    · intro g hg _
      by_cases hgt : g = s.turn
      · rw [hgt, h.workerFile hwk, overwrite_nil, h.worker hne]
        exact setFile_self s s.turn _
      · exact (setFile_of_ne s s.turn _ hgt).trans (h.exact g hg fun hb => hgt hb.1.symm)
    · intro g hg
      have hgt : g ≠ s.turn := fun heq => hd (heq ▸ .inr hg)
      exact (setFile_of_ne s s.turn _ hgt).trans (h.driverFile g hg)

/-- The step lemma. -/
theorem step_counterInv (s : System) (p : Proc) (h : CounterInv init s) (hok : Apart s p) :
    CounterInv init (step s p) := by
  cases p with
  | driver f => exact h.driverStep hok
  | worker => exact h.workerStep hok

theorem start_counterInv (init : BufferFile → Int) : CounterInv init (.start init) := by
  refine ⟨?_, fun f hf => absurd hf (not_driverBusy_of_idle rfl f),
    fun f hf => absurd hf (not_driverBusy_of_idle rfl f), fun f hf => (by cases hf),
    fun hc => absurd rfl hc, fun hc => (by cases hc)⟩
  intro f _ _
  simp [System.start, System.expected]

end

/-- **No update is lost** in any run in which no process writes a file that it read in the
middle of the other's update, or whose number was no `int`. -/
theorem exact_always (init : BufferFile → Int) {ps : List Proc}
    (hm : Meets step Apart (.start init) ps) : Always step (Exact init) (.start init) ps :=
  hm.always step_counterInv (fun _ h => h.exact) (start_counterInv init)

/-- A full file, a file with places left, and a number that is no `int`. -/
def mixedStart : BufferFile → Int
  | .rrLower20 => 33
  | .range_20_80 => 10
  | .bigger_80 => 4294967296

/-- The worker reads the full file in the middle of the driver's update and goes on to the
next; a packet that finds the large number is dropped. -/
theorem exact_always_in_turn :
    Always step (Exact mixedStart) (.start mixedStart)
      [.driver .rrLower20, .worker, .driver .rrLower20, .driver .rrLower20, .driver .bigger_80,
        .worker, .worker, .worker] :=
  exact_always mixedStart (by decide +kernel)

/-- Both read 10; the driver writes 9, then the worker writes 11. -/
theorem exact_broken :
    ¬Exact (fun _ => 10) (run step (.start fun _ => 10)
      [.driver .rrLower20, .worker, .driver .rrLower20, .driver .rrLower20, .worker, .worker]) := by
  intro h
  have hf := h .rrLower20 (not_driverBusy_of_idle (by decide +kernel) _)
    (not_workerBusy_of_reading (by decide +kernel) _)
  revert hf
  decide +kernel

end P4Switch.Counter
