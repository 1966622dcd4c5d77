import Mathlib.Tactic

/-! # The three sub-buffer counters

Each sub-buffer's free space is the decimal number in one text file, shared by the
driver and the worker process. The driver picks the file from the packet's QoS byte,
the worker walks the files in the order of its `filename` array. -/
namespace P4Switch.QosBuffer

/-- Byte of the frame that holds the packet's QoS. -/
def CoS_OFFSET : Nat := 29

/-- The counter files, by the end of their names: `bufferEmulatorRRLower20.txt`,
`bufferEmulatorRange_20_80.txt` and `bufferEmulatorBigger_80.txt`. -/
inductive BufferFile where
  | rrLower20
  | range_20_80
  | bigger_80
  deriving DecidableEq, Repr

/-- The `if` chain of `davidis_vtx1`. It stands there twice, before the read and before
the write, with the same tests; the last one, `current_QoS >= 80`, is all that is left. -/
def bufferFile (current_QoS : Int) : BufferFile :=
  if current_QoS ≤ 20 then .rrLower20
  else if current_QoS < 80 ∧ current_QoS > 20 then .range_20_80
  else .bigger_80

/-- `NUM_OF_QUEUES` and `QUEUE_SIZE` of the worker. -/
def NUM_OF_QUEUES : Nat := 3
def QUEUE_SIZE : Int := 33

/-- `(turn + 1) % NUM_OF_QUEUES` on the worker's `filename` array. -/
def BufferFile.nextTurn : BufferFile → BufferFile
  | .rrLower20 => .range_20_80
  | .range_20_80 => .bigger_80
  | .bigger_80 => .rrLower20

end P4Switch.QosBuffer
