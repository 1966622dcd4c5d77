import P4Switch.Ixgbe.Vtx
import P4Switch.Lib.Decimal

/-! # The driver and the worker on the counter files

Two processes take file steps in any order: `davidis_vtx1`, once for each packet, and the
`while (true)` of the worker. Each reads a counter, opens the file again for writing, which
truncates it, and writes. The calls of `flock` are given a `FILE *` and lock nothing.
What `fscanf` makes of a text is an `int`; the driver decrements a positive one and the worker
increments one below `QUEUE_SIZE`, so that `FIFO_SIZE` stays in the range of `int`. -/
namespace P4Switch.Counter
open P4Switch.QosBuffer P4Switch.Lib.Decimal P4Switch.Ixgbe

/-- Where the driver stands in `davidis_vtx1`: before the read, before it opens the file for
writing, before the write. -/
inductive DriverPc where
  | idle
  | opening (f : BufferFile)
  | writing (f : BufferFile)
  deriving DecidableEq, Repr

inductive WorkerPc where
  | reading
  | opening
  | writing
  deriving DecidableEq, Repr

/-- The files, the two processes with their `FIFO_SIZE`, and how many packets of each class
have been admitted and served. The worker's `FIFO_SIZE` lives on from one turn to the next;
the driver's starts at zero in each call. -/
structure System where
  file : BufferFile → List Char
  driver : DriverPc
  driverFifo : Int
  worker : WorkerPc
  workerFifo : Int
  turn : BufferFile
  admitted : BufferFile → Nat
  served : BufferFile → Nat

def System.setFile (s : System) (f : BufferFile) (cs : List Char) : System :=
  { s with file := Function.update s.file f cs }

/-- `fscanf(BUFFER, "%d", &FIFO_SIZE)` and the test on what was read. -/
def driverRead (f : BufferFile) (s : System) : System :=
  let fifo := (fscanfInt (s.file f)).getD 0
  if fifo ≤ 0 then { s with driverFifo := fifo }
  else
    { s with driver := .opening f, driverFifo := fifo - 1
             admitted := Function.update s.admitted f (s.admitted f + 1) }

/-- The driver's next step; `f` is the file of the next packet's class. -/
def driverStep (f : BufferFile) (s : System) : System :=
  match s.driver with
  | .idle => driverRead f s
  | .opening g => { s.setFile g [] with driver := .writing g }
  | .writing g =>
    { s.setFile g (overwrite (printInt s.driverFifo) (s.file g)) with driver := .idle }

def workerRead (s : System) : System :=
  let fifo := (fscanfInt (s.file s.turn)).getD s.workerFifo
  if fifo < QUEUE_SIZE then
    { s with worker := .opening, workerFifo := fifo + 1
             served := Function.update s.served s.turn (s.served s.turn + 1) }
  else { s with workerFifo := fifo, turn := s.turn.nextTurn }

def workerStep (s : System) : System :=
  match s.worker with
  | .reading => workerRead s
  | .opening => { s.setFile s.turn [] with worker := .writing }
  | .writing =>
    { s.setFile s.turn (overwrite (printInt s.workerFifo) (s.file s.turn)) with
      worker := .reading, turn := s.turn.nextTurn }

/-- Whose step is next. -/
inductive Proc where
  | driver (f : BufferFile)
  | worker

def step (s : System) : Proc → System
  | .driver f => driverStep f s
  | .worker => workerStep s

/-- Both processes at their start, with a number in each file. -/
def System.start (init : BufferFile → Int) : System where
  file := fun f => printInt (init f)
  driver := .idle
  driverFifo := 0
  worker := .reading
  workerFifo := 0
  turn := .rrLower20
  admitted := fun _ => 0
  served := fun _ => 0

section
variable (s : System) (f : BufferFile) (cs : List Char)

@[simp] theorem setFile_self : (s.setFile f cs).file f = cs := Function.update_self ..

theorem setFile_of_ne {g : BufferFile} (h : g ≠ f) : (s.setFile f cs).file g = s.file g :=
  Function.update_of_ne h ..

/-- What an idle driver reads is zero when there is no number. -/
theorem driverRead_cases :
    ((fscanfInt (s.file f)).getD 0 ≤ 0 ∧
      driverRead f s = { s with driverFifo := (fscanfInt (s.file f)).getD 0 }) ∨
    (0 < (fscanfInt (s.file f)).getD 0 ∧
      driverRead f s = { s with
        driver := .opening f, driverFifo := (fscanfInt (s.file f)).getD 0 - 1
        admitted := Function.update s.admitted f (s.admitted f + 1) }) := by
  unfold driverRead
  dsimp only
  split
  · rename_i h
    exact .inl ⟨h, rfl⟩
  · rename_i h
    exact .inr ⟨Int.not_le.mp h, rfl⟩

theorem driverStep_idle (h : s.driver = .idle) : driverStep f s = driverRead f s := by
  unfold driverStep
  rw [h]

theorem driverStep_opening {g : BufferFile} (h : s.driver = .opening g) :
    driverStep f s = { s.setFile g [] with driver := .writing g } := by
  unfold driverStep
  rw [h]

theorem driverStep_writing {g : BufferFile} (h : s.driver = .writing g) :
    driverStep f s =
      { s.setFile g (overwrite (printInt s.driverFifo) (s.file g)) with driver := .idle } := by
  unfold driverStep
  rw [h]

theorem workerRead_cases :
    ((fscanfInt (s.file s.turn)).getD s.workerFifo < QUEUE_SIZE ∧
      workerRead s = { s with
        worker := .opening, workerFifo := (fscanfInt (s.file s.turn)).getD s.workerFifo + 1
        served := Function.update s.served s.turn (s.served s.turn + 1) }) ∨
    (QUEUE_SIZE ≤ (fscanfInt (s.file s.turn)).getD s.workerFifo ∧
      workerRead s = { s with
        workerFifo := (fscanfInt (s.file s.turn)).getD s.workerFifo, turn := s.turn.nextTurn }) := by
  unfold workerRead
  dsimp only
  split
  · rename_i h
    exact .inl ⟨h, rfl⟩
  · rename_i h
    exact .inr ⟨Int.not_lt.mp h, rfl⟩

theorem workerStep_reading (h : s.worker = .reading) : workerStep s = workerRead s := by
  unfold workerStep
  rw [h]

theorem workerStep_opening (h : s.worker = .opening) :
    workerStep s = { s.setFile s.turn [] with worker := .writing } := by
  unfold workerStep
  rw [h]

theorem workerStep_writing (h : s.worker = .writing) :
    workerStep s =
      { s.setFile s.turn (overwrite (printInt s.workerFifo) (s.file s.turn)) with
        worker := .reading, turn := s.turn.nextTurn } := by
  unfold workerStep
  rw [h]

end

/-! ## The driver's steps are those of `davidis_vtx1` -/

def isFileOp : Event → Bool
  | .bufRead _ => true
  | .bufTrunc _ => true
  | .bufWrite _ _ => true
  | _ => false

/-- The steps on counter files in a trace. -/
def fileOps (es : List Event) : List Event := es.filter isFileOp

/-- The step the driver is about to take. -/
def driverOp (f : BufferFile) (s : System) : Event :=
  match s.driver with
  | .idle => .bufRead f
  | .opening g => .bufTrunc g
  | .writing g => .bufWrite g s.driverFifo

theorem fileOps_free {h : Heap} {m : MbufPtr} : fileOps (rtePktmbufFree h m) = [] := by
  have hseg : ∀ k m, fileOps (rtePktmbufFreeSeg h k m) = [] := by
    intro k m
    unfold rtePktmbufFreeSeg
    split <;> rfl
  have hall : ∀ ms : List MbufPtr, fileOps (ms.flatMap (rtePktmbufFreeSeg h .seg)) = [] := by
    intro ms
    induction ms with
    | nil => rfl
    | cons x xs ih =>
      rw [List.flatMap_cons, fileOps, List.filter_append]
      exact List.append_eq_nil_iff.mpr ⟨hseg _ _, ih⟩
  rw [rtePktmbufFree, fileOps, List.filter_append]
  exact List.append_eq_nil_iff.mpr ⟨hseg _ _, hall _⟩

/-- **One packet**: when the driver's read finds what the call finds, its steps are the file
steps of the call, and it is idle again after them. -/
theorem driver_follows_vtx1 (b : Burst) (flags txdp p : Nat) {s : System} {f : BufferFile}
    (hf : f = bufferFile (b.pkt p).currentQoS) (hi : s.driver = .idle)
    (hs : fscanfInt (s.file f) = b.scan p) :
    (b.admits p = false → fileOps (vtx1Events b flags txdp p) = [driverOp f s] ∧
      (driverStep f s).driver = .idle) ∧
    (b.admits p = true →
      fileOps (vtx1Events b flags txdp p) =
        [driverOp f s, driverOp f (driverStep f s), driverOp f (driverStep f (driverStep f s))] ∧
      (driverStep f (driverStep f (driverStep f s))).driver = .idle) := by
  have h1 := driverStep_idle s f hi
  have h0 : driverOp f s = .bufRead f := by
    unfold driverOp
    rw [hi]
  have hev : ∀ es, fileOps ([.readPkt p, .fopen, .fclose, .fopen, .bufRead f, .fclose] ++ es) =
      .bufRead f :: fileOps es := fun _ => rfl
  rw [h0, h1]
  unfold vtx1Events
  dsimp only
  rw [← hf, hev]
  rcases driverRead_cases s f with ⟨hv, hr⟩ | ⟨hv, hr⟩ <;> rw [hs] at hv hr <;> rw [hr]
  · have ha : b.admits p = false := decide_eq_false (Int.not_lt.mpr hv)
    rw [ha]
    refine ⟨fun _ => ⟨?_, hi⟩, fun h => by cases h⟩
    rw [if_neg Bool.false_ne_true, fileOps_free]
  · have ha : b.admits p = true := decide_eq_true hv
    rw [ha]
    exact ⟨fun h => (by cases h), fun _ => ⟨rfl, rfl⟩⟩

end P4Switch.Counter
