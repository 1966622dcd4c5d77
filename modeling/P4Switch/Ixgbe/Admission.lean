import P4Switch.Ixgbe.Accounting
import P4Switch.Ixgbe.Ownership
import P4Switch.Lib.Decimal
import P4Switch.Lib.Quota

/-! # Admission by class

A list of packets, one call of `davidis_vtx1` each, with nobody else at the counter files.
What a call reads is what the calls before it left in the file of its class, so that the
files are budgets and the packets requests against them. -/
namespace P4Switch.Ixgbe
open P4Switch.QosBuffer P4Switch.Lib.MachineInt P4Switch.Lib.Decimal P4Switch.Lib.Quota

/-! ## The files -/

/-- The texts of the counter files. -/
abbrev Files := BufferFile → List Char

/-- `FIFO_SIZE` after the read; it stays zero when there is no number. -/
def counter (files : Files) (f : BufferFile) : Int := (fscanfInt (files f)).getD 0

/-- What an event does to the files. -/
def Files.next (files : Files) : Event → Files
  | .bufTrunc f => Function.update files f []
  | .bufWrite f v => Function.update files f (overwrite (printInt v) (files f))
  | _ => files

theorem counter_bounds (files : Files) (f : BufferFile) :
    -2 ^ 31 ≤ counter files f ∧ counter files f < 2 ^ 31 := by
  unfold counter fscanfInt
  cases scanInt (files f) with
  | none => decide
  | some v =>
    have hb : -2 ^ 32 ≤ i32 (max (-2 ^ 63) (min v (2 ^ 63 - 1))) * 2 ∧
        i32 (max (-2 ^ 63) (min v (2 ^ 63 - 1))) * 2 < 2 ^ 32 := signed_bounds (by decide) _
    simp only [Option.map_some, Option.getD_some]
    omega

theorem next_free {es : List Event} (h : ∀ e ∈ es, e.isFree = true) (files : Files) :
    es.foldl Files.next files = files := by
  induction es with
  | nil => rfl
  | cons e es ih =>
    have he : Files.next files e = files := by
      have hf := h e (by simp)
      cases e <;> first | rfl | exact absurd hf (by simp [Event.isFree])
    rw [List.foldl_cons, he]
    exact ih fun e' he' => h e' (List.mem_cons_of_mem _ he')

/-! ## One call after the other -/

/-- A packet on its way to `davidis_vtx1`, with the mbufs as they are then and what the
policy makes of it. -/
structure Vtx1Call extends Heap where
  pkt : MbufPtr
  flags : Nat
  txdp : Nat
  policy : Option Bool

def Vtx1Call.currentQoS (c : Vtx1Call) : Int := (c.mbuf c.pkt).currentQoS

/-- The class of the packet, by its file. -/
def Vtx1Call.file (c : Vtx1Call) : BufferFile := bufferFile c.currentQoS

/-- The call as a burst of one packet that finds the files as they are. -/
def Vtx1Call.burst (c : Vtx1Call) (files : Files) : Burst where
  toHeap := c.toHeap
  txPkts := fun _ => c.pkt
  nbPkts := 1
  policy := fun _ => c.policy
  scan := fun _ => fscanfInt (files c.file)
  ret := 0

/-- The driver and the files. -/
structure DriverFiles where
  drv : Driver
  files : Files

def DriverFiles.vtx1 (a : DriverFiles) (c : Vtx1Call) : Nat × DriverFiles :=
  let (v, s) := davidisVtx1 (c.burst a.files) c.flags c.txdp 0 (a.drv.emit [.readPkt 0])
  (v, ⟨s, (gained a.drv s).foldl Files.next a.files⟩)

/-- The values returned for a list of packets, and the state after the last. -/
def DriverFiles.vtx1s (a : DriverFiles) : List Vtx1Call → List Nat × DriverFiles
  | [] => ([], a)
  | c :: cs =>
    let (v, a) := a.vtx1 c
    let (vs, a) := a.vtx1s cs
    (v :: vs, a)

section
variable (a : DriverFiles) (c : Vtx1Call)

theorem burst_admits :
    (c.burst a.files).admits 0 = decide (0 < counter a.files c.file) := rfl

theorem gained_vtx1 :
    gained a.drv (davidisVtx1 (c.burst a.files) c.flags c.txdp 0 (a.drv.emit [.readPkt 0])).2 =
      vtx1Events (c.burst a.files) c.flags c.txdp 0 := by
  refine gained_of_append ?_
  rw [davidisVtx1_eq]
  split <;> rfl

theorem vtx1_fst : (a.vtx1 c).1 = (decide (0 < counter a.files c.file)).toNat := by
  rw [← burst_admits]
  exact davidisVtx1_fst ..

/-- An admitted packet takes one off its own file; a dropped one leaves the files alone. -/
theorem vtx1_files :
    (a.vtx1 c).2.files =
      if 0 < counter a.files c.file then
        Function.update a.files c.file (printInt (counter a.files c.file - 1))
      else a.files := by
  have hg : (a.vtx1 c).2.files =
      (vtx1Events (c.burst a.files) c.flags c.txdp 0).foldl Files.next a.files :=
    congrArg (List.foldl Files.next a.files) (gained_vtx1 a c)
  rw [hg, vtx1Events, burst_admits, List.foldl_append]
  by_cases h : 0 < counter a.files c.file
  · rw [if_pos (decide_eq_true h), if_pos h]
    show Function.update (Function.update a.files c.file []) c.file
      (overwrite _ (Function.update a.files c.file [] c.file)) = _
    rw [Function.update_self, overwrite_nil, Function.update_idem]
    rfl
  · rw [if_neg (by simpa using h), if_neg h]
    exact next_free (fun e he => rtePktmbufFree_isFree he) _

theorem vtx1_counter (f : BufferFile) :
    counter (a.vtx1 c).2.files f =
      if f = c.file ∧ 0 < counter a.files c.file then counter a.files f - 1
      else counter a.files f := by
  rw [vtx1_files]
  by_cases h : 0 < counter a.files c.file
  · rw [if_pos h]
    by_cases hf : f = c.file
    · subst hf
      have hb := counter_bounds a.files c.file
      rw [if_pos ⟨rfl, h⟩]
      show (fscanfInt (Function.update a.files c.file _ c.file)).getD 0 = _
      rw [Function.update_self, fscanfInt_printInt (by omega) (by omega)]
      rfl
    · rw [if_neg fun hc => hf hc.1]
      exact congrArg (fun t => (fscanfInt t).getD 0) (Function.update_of_ne hf ..)
  · rw [if_neg h, if_neg fun hc => h hc.2]

/-- The free places of the classes, as budgets. -/
def places (files : Files) (f : BufferFile) : Nat := (counter files f).toNat

theorem vtx1_places : places (a.vtx1 c).2.files = spend (places a.files) c.file := by
  funext f
  unfold places
  rw [vtx1_counter]
  by_cases hf : f = c.file
  · subst hf
    rw [spend_self]
    by_cases h : 0 < counter a.files c.file
    · rw [if_pos ⟨rfl, h⟩]
      omega
    · rw [if_neg fun hc => h hc.2]
      omega
  · rw [if_neg fun hc => hf hc.1, spend_of_ne _ _ hf]

/-- The values returned are the verdicts on the classes of the packets. -/
theorem vtx1s_fst (cs : List Vtx1Call) :
    (a.vtx1s cs).1 = (grants (places a.files) (cs.map (·.file))).map Bool.toNat := by
  induction cs generalizing a with
  | nil => rfl
  | cons c cs ih =>
    have hpos : decide (0 < counter a.files c.file) = decide (0 < places a.files c.file) := by
      unfold places
      simp
    show (a.vtx1 c).1 :: ((a.vtx1 c).2.vtx1s cs).1 = _
    rw [ih, vtx1_places, vtx1_fst, hpos]
    rfl

/-! ## The classes -/

/-- The verdicts on the packets of class `f`. -/
def verdicts (cs : List Vtx1Call) (vs : List Nat) (f : BufferFile) : List Nat :=
  ((cs.zip vs).filter (·.1.file = f)).map Prod.snd

/-- How many packets of class `f` there are. -/
def arrivals (cs : List Vtx1Call) (f : BufferFile) : Nat := cs.countP (·.file = f)

theorem vtx1s_verdicts (cs : List Vtx1Call) (f : BufferFile) :
    verdicts cs (a.vtx1s cs).1 f =
      List.replicate (min (places a.files f) (arrivals cs f)) 1 ++
        List.replicate (arrivals cs f - places a.files f) 0 := by
  have hcount : (cs.map (·.file)).count f = arrivals cs f := by
    unfold arrivals
    rw [List.count, List.countP_map]
    exact List.countP_congr fun c _ => by simp
  have hkeys : verdicts cs (a.vtx1s cs).1 f =
      (verdictsOf (places a.files) f (cs.map (·.file))).map Bool.toNat := by
    have hzip : (cs.map (·.file)).zip (grants (places a.files) (cs.map (·.file))) =
        (cs.zip (grants (places a.files) (cs.map (·.file)))).map fun e => (e.1.file, e.2) := by
      rw [List.zip_map_left]
      rfl
    unfold verdicts verdictsOf
    rw [vtx1s_fst, List.zip_map_right, hzip, List.filter_map, List.filter_map, List.map_map,
      List.map_map, List.map_map]
    rfl
  rw [hkeys, verdictsOf_eq, hcount, List.map_append, List.map_replicate, List.map_replicate]
  rfl

theorem vtx1_file (f : BufferFile) :
    (a.vtx1 c).2.files f =
      if f = c.file ∧ 0 < counter a.files c.file then printInt (counter a.files f - 1)
      else a.files f := by
  rw [vtx1_files]
  by_cases h : 0 < counter a.files c.file
  · rw [if_pos h]
    by_cases hf : f = c.file
    · subst hf
      rw [if_pos ⟨rfl, h⟩, Function.update_self]
    · rw [if_neg fun hc => hf hc.1, Function.update_of_ne hf]
  · rw [if_neg h, if_neg fun hc => h hc.2]

/-- The text of a file after the list: as before when no packet of the class was admitted,
else the number of places that are left. -/
theorem vtx1s_file (cs : List Vtx1Call) (f : BufferFile) :
    (a.vtx1s cs).2.files f =
      if min (places a.files f) (arrivals cs f) = 0 then a.files f
      else printInt (counter a.files f - min (places a.files f) (arrivals cs f) : Int) := by
  induction cs generalizing a with
  | nil => simp [DriverFiles.vtx1s, arrivals]
  | cons c cs ih =>
    have hstep : (a.vtx1s (c :: cs)).2 = ((a.vtx1 c).2.vtx1s cs).2 := rfl
    have harr : arrivals (c :: cs) f = arrivals cs f + if f = c.file then 1 else 0 := by
      unfold arrivals
      rw [List.countP_cons]
      simp [eq_comm]
    have hfile := vtx1_file a c f
    have hcount := vtx1_counter a c f
    have hplaces : places (a.vtx1 c).2.files f = (counter (a.vtx1 c).2.files f).toNat := rfl
    rw [hstep, ih]
    by_cases hf : f = c.file ∧ 0 < counter a.files c.file
    · rw [if_pos hf] at hfile hcount
      rw [if_pos hf.1] at harr
      have hpos : 0 < counter a.files f := hf.1 ▸ hf.2
      have hmin : min (places a.files f) (arrivals (c :: cs) f) =
          min (places (a.vtx1 c).2.files f) (arrivals cs f) + 1 := by
        rw [hplaces, hcount, harr]
        unfold places
        omega
      rw [hmin, if_neg (Nat.succ_ne_zero _), hfile, hcount]
      split
      · next h0 => rw [h0]; rfl
      · congr 1
        push_cast
        ring
    · rw [if_neg hf] at hfile hcount
      have hmin : min (places a.files f) (arrivals (c :: cs) f) =
          min (places (a.vtx1 c).2.files f) (arrivals cs f) := by
        rw [hplaces, hcount]
        by_cases hc : f = c.file
        · have hz : ¬0 < counter a.files f := hc ▸ not_and.mp hf hc
          unfold places
          omega
        · rw [harr, if_neg hc]
          rfl
      rw [hmin, hfile, hcount]

theorem vtx1s_counter (cs : List Vtx1Call) (f : BufferFile) :
    counter (a.vtx1s cs).2.files f =
      counter a.files f - (min (places a.files f) (arrivals cs f) : Nat) := by
  have hb := counter_bounds a.files f
  unfold counter at hb ⊢
  rw [vtx1s_file]
  split
  · next h0 => rw [h0]; simp
  · next h0 =>
    have hle : (min (places a.files f) (arrivals cs f) : Int) ≤ counter a.files f := by
      unfold places at h0 ⊢
      omega
    unfold counter at hle
    rw [fscanfInt_printInt (by unfold counter; omega) (by unfold counter; omega)]
    rfl

theorem arrivals_own (cs : List Vtx1Call) (f : BufferFile) :
    arrivals (cs.filter (·.file = f)) f = arrivals cs f := by
  unfold arrivals
  rw [List.countP_filter]
  exact List.countP_congr fun c _ => by simp

theorem vtx1s_length (cs : List Vtx1Call) : (a.vtx1s cs).1.length = cs.length := by
  rw [vtx1s_fst, List.length_map, grants_length, List.length_map]

/-- The packets of `f` get among all packets what they get alone. -/
theorem vtx1s_alone (cs : List Vtx1Call) (f : BufferFile) :
    (a.vtx1s (cs.filter (·.file = f))).1 = verdicts cs (a.vtx1s cs).1 f := by
  have hown : verdicts (cs.filter (·.file = f)) (a.vtx1s (cs.filter (·.file = f))).1 f =
      (a.vtx1s (cs.filter (·.file = f))).1 := by
    have hall : ∀ e ∈ (cs.filter (·.file = f)).zip (a.vtx1s (cs.filter (·.file = f))).1,
        decide (e.1.file = f) = true := fun e he =>
      (List.mem_filter.mp (List.of_mem_zip (show (e.1, e.2) ∈ _ from he)).1).2
    unfold verdicts
    rw [List.filter_eq_self.mpr hall, List.map_snd_zip]
    rw [vtx1s_length]
  rw [← hown, vtx1s_verdicts, vtx1s_verdicts, arrivals_own]

/-! ## The totals -/

/-- The QoS of the admitted packets, summed. -/
def admittedQoS (cs : List Vtx1Call) (vs : List Nat) : Int :=
  (((cs.zip vs).filter (·.2 = 1)).map (·.1.currentQoS)).sum

theorem vtx1_cases (h : a.drv.InRange) :
    ((a.vtx1 c).1 = 1 ∧ (a.vtx1 c).2.drv.sum_QoS = i64 (a.drv.sum_QoS + c.currentQoS) ∧
      (a.vtx1 c).2.drv.skipped = i64 a.drv.skipped ∧
      (a.vtx1 c).2.drv.packets_sent = i32 (a.drv.packets_sent + 1)) ∨
    ((a.vtx1 c).1 = 0 ∧ (a.vtx1 c).2.drv.sum_QoS = i64 a.drv.sum_QoS ∧
      (a.vtx1 c).2.drv.skipped = i64 (a.drv.skipped + 1) ∧
      (a.vtx1 c).2.drv.packets_sent = i32 a.drv.packets_sent) := by
  have he : a.vtx1 c = ((a.vtx1 c).1, (a.vtx1 c).2) := rfl
  unfold DriverFiles.vtx1
  dsimp only
  rw [davidisVtx1_eq]
  by_cases hadm : (c.burst a.files).admits 0 = true
  · rw [if_pos hadm]
    exact .inl ⟨rfl, rfl, h.skipped.symm, rfl⟩
  · rw [if_neg hadm]
    exact .inr ⟨rfl, h.sum_QoS.symm, rfl, h.packets_sent.symm⟩

theorem vtx1_inRange (h : a.drv.InRange) : (a.vtx1 c).2.drv.InRange := by
  obtain ⟨-, h1, h2, h3⟩ | ⟨-, h1, h2, h3⟩ := vtx1_cases a c h
  · exact ⟨h1 ▸ signed_signed 64 _, h2 ▸ signed_signed 64 _, h3 ▸ signed_signed 32 _⟩
  · exact ⟨h1 ▸ signed_signed 64 _, h2 ▸ signed_signed 64 _, h3 ▸ signed_signed 32 _⟩

theorem vtx1s_totals (h : a.drv.InRange) (cs : List Vtx1Call) :
    (a.vtx1s cs).2.drv.sum_QoS = i64 (a.drv.sum_QoS + admittedQoS cs (a.vtx1s cs).1) ∧
    (a.vtx1s cs).2.drv.skipped = i64 (a.drv.skipped + (a.vtx1s cs).1.count 0) ∧
    (a.vtx1s cs).2.drv.packets_sent = i32 (a.drv.packets_sent + (a.vtx1s cs).1.count 1) := by
  have h64 : ∀ x y, i64 (i64 x + y) = i64 (x + y) := signed_add_signed 64
  have h32 : ∀ x y, i32 (i32 x + y) = i32 (x + y) := signed_add_signed 32
  induction cs generalizing a with
  | nil => simp [DriverFiles.vtx1s, admittedQoS, h.sum_QoS, h.skipped, h.packets_sent]
  | cons c cs ih =>
    obtain ⟨hq, hk, hs⟩ := ih (a.vtx1 c).2 (vtx1_inRange a c h)
    show ((a.vtx1 c).2.vtx1s cs).2.drv.sum_QoS =
        i64 (a.drv.sum_QoS + admittedQoS (c :: cs) ((a.vtx1 c).1 :: ((a.vtx1 c).2.vtx1s cs).1)) ∧
      ((a.vtx1 c).2.vtx1s cs).2.drv.skipped =
        i64 (a.drv.skipped + ((a.vtx1 c).1 :: ((a.vtx1 c).2.vtx1s cs).1).count 0) ∧
      ((a.vtx1 c).2.vtx1s cs).2.drv.packets_sent =
        i32 (a.drv.packets_sent + ((a.vtx1 c).1 :: ((a.vtx1 c).2.vtx1s cs).1).count 1)
    rw [hq, hk, hs]
    obtain ⟨hv, h1, h2, h3⟩ | ⟨hv, h1, h2, h3⟩ := vtx1_cases a c h
    · rw [hv, h1, h2, h3, h64, h64, h32]
      refine ⟨?_, by simp, ?_⟩
      · simp [admittedQoS, Int.add_assoc]
      · rw [List.count_cons_self]
        congr 1
        push_cast
        ring
    · rw [hv, h1, h2, h3, h64, h64, h32]
      refine ⟨by simp [admittedQoS], ?_, by simp⟩
      rw [List.count_cons_self]
      congr 1
      push_cast
      ring

end

/-- From `a` to `a'` the packets of each class got what the class's counter gave: the first
`max 0 F` of them are admitted, and everything else follows from that. -/
structure AdmittedByClass (a : DriverFiles) (cs : List Vtx1Call) (vs : List Nat)
    (a' : DriverFiles) : Prop where
  length : vs.length = cs.length
  first : ∀ f, verdicts cs vs f =
    List.replicate (min (counter a.files f).toNat (arrivals cs f)) 1 ++
      List.replicate (arrivals cs f - (counter a.files f).toNat) 0
  counters : ∀ f,
    counter a'.files f = counter a.files f - (verdicts cs vs f).count 1
  texts : ∀ f,
    a'.files f = if (verdicts cs vs f).count 1 = 0 then a.files f else printInt (counter a'.files f)
  sum_QoS : a'.drv.sum_QoS = i64 (a.drv.sum_QoS + admittedQoS cs vs)
  skipped : a'.drv.skipped = i64 (a.drv.skipped + vs.count 0)
  packets_sent : a'.drv.packets_sent = i32 (a.drv.packets_sent + vs.count 1)
  /-- Without an overflow these are the sums themselves. -/
  exact_QoS : a.drv.sum_QoS + admittedQoS cs vs < 2 ^ 63 →
    a'.drv.sum_QoS = a.drv.sum_QoS + admittedQoS cs vs
  exact_skipped : a.drv.skipped + vs.count 0 < 2 ^ 63 →
    a'.drv.skipped = a.drv.skipped + vs.count 0
  exact_sent : a.drv.packets_sent + vs.count 1 < 2 ^ 31 →
    a'.drv.packets_sent = a.drv.packets_sent + vs.count 1
  /-- A class gets what it gets without the others. -/
  alone : ∀ f, (a.vtx1s (cs.filter (·.file = f))).1 = verdicts cs vs f ∧
    (a.vtx1s (cs.filter (·.file = f))).2.files f = a'.files f

/-- **Admission by class**, for every list of packets and whatever the files hold. -/
theorem vtx1s_byClass (a : DriverFiles) (h : a.drv.InRange) (cs : List Vtx1Call) :
    AdmittedByClass a cs (a.vtx1s cs).1 (a.vtx1s cs).2 := by
  obtain ⟨hq, hk, hs⟩ := vtx1s_totals a h cs
  have hcount : ∀ f, (verdicts cs (a.vtx1s cs).1 f).count 1 =
      min (places a.files f) (arrivals cs f) := by
    intro f
    rw [vtx1s_verdicts]
    simp [List.count_replicate]
  have hcounter : ∀ f, counter (a.vtx1s cs).2.files f =
      counter a.files f - ((verdicts cs (a.vtx1s cs).1 f).count 1 : Nat) := by
    intro f
    rw [hcount, vtx1s_counter]
  have hqos : 0 ≤ admittedQoS cs (a.vtx1s cs).1 := by
    refine List.sum_nonneg ?_
    intro x hx
    obtain ⟨e, -, rfl⟩ := List.mem_map.mp hx
    exact Int.natCast_nonneg _
  have hlow := signed_bounds (w := 64) (by decide) a.drv.sum_QoS
  have hlow' := signed_bounds (w := 64) (by decide) a.drv.skipped
  have hlow'' := signed_bounds (w := 32) (by decide) a.drv.packets_sent
  rw [show signed 64 a.drv.sum_QoS = _ from h.sum_QoS] at hlow
  rw [show signed 64 a.drv.skipped = _ from h.skipped] at hlow'
  rw [show signed 32 a.drv.packets_sent = _ from h.packets_sent] at hlow''
  exact {
    length := vtx1s_length a cs
    first := vtx1s_verdicts a cs
    counters := hcounter
    texts := fun f => by
      rw [hcounter, hcount]
      exact vtx1s_file a cs f
    sum_QoS := hq
    skipped := hk
    packets_sent := hs
    exact_QoS := fun hlt => hq.trans (signed_of_bounds (by omega) (by omega))
    exact_skipped := fun hlt => hk.trans (signed_of_bounds (by omega) (by omega))
    exact_sent := fun hlt => hs.trans (signed_of_bounds (by omega) (by omega))
    alone := fun f => ⟨vtx1s_alone a cs f, by
      rw [vtx1s_file, vtx1s_file, arrivals_own]⟩ }

/-- A packet with the given QoS byte. -/
def classCall (qos : UInt8) : Vtx1Call where
  toHeap := ⟨fun _ => ⟨4096, 128, 60, 60, 0, [], fun _ => qos⟩, fun _ => true⟩
  pkt := 1
  flags := flags
  txdp := 0
  policy := some true

/-- The driver at its start, with one place in the first file, two in the second, and none
that can be read in the third. -/
def threeFiles : DriverFiles where
  drv := Driver.reset conf64
  files := fun
    | .rrLower20 => "1".toList
    | .range_20_80 => "2".toList
    | .bigger_80 => []

theorem vtx1s_byClass_threeFiles :
    (threeFiles.vtx1s ([20, 21, 5, 80, 79, 50].map classCall)).1 = [1, 1, 0, 0, 1, 0] ∧
      AdmittedByClass threeFiles ([20, 21, 5, 80, 79, 50].map classCall)
        (threeFiles.vtx1s ([20, 21, 5, 80, 79, 50].map classCall)).1
        (threeFiles.vtx1s ([20, 21, 5, 80, 79, 50].map classCall)).2 :=
  ⟨by decide +kernel, vtx1s_byClass threeFiles ⟨rfl, rfl, rfl⟩ _⟩

end P4Switch.Ixgbe
