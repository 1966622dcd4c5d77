import P4Switch.L3.Forwarding
import P4Switch.L3.SwitchRuns

/-! # Frames between commits

Whatever the control plane does meanwhile, a frame is forwarded by the map that was
committed when it was received. -/
namespace P4Switch.L3
open P4Switch.Lib.Memory P4Switch.Lib.GuardedRun P4Switch.Lib.Words P4Switch.Ixgbe
  P4Switch.Tables P4Switch.Control

section
variable {s : Switch × (Fin 1 → TableTxn)} {i j : ThreadId} {op : SwitchOp}

theorem l3Mbuf_congr {tbl tbl' : Ipv4Host} (h : ∀ dst, tbl.lookup dst = tbl'.lookup dst)
    (m : RteMbuf) : l3Mbuf tbl m = l3Mbuf tbl' m := by
  unfold l3Mbuf sendEntry
  rw [h]

/-! ## A frame -/

def SwitchOp.isExec (i : ThreadId) : SwitchOp → Bool
  | .exec j => j = i
  | _ => false

/-- The step is thread `i`'s own, or it leaves the buffer's bytes as they are. -/
def Leaves (i : ThreadId) (handle : MbufPtr) (s : Switch × (Fin 1 → TableTxn)) : SwitchOp → Prop
  | .exec j => j = i ∨
      ∀ k, (s.1.exec j).engine.mem ⟨.mbuf handle, k⟩ = s.1.engine.mem ⟨.mbuf handle, k⟩
  | _ => True

section
variable {tbl : Ipv4Host} {handle : MbufPtr} {m : RteMbuf} {D : List Done} {n : Nat}

theorem Progress.busy {e : Engine} (h : Progress tbl i handle m D n e) (hn : n ≠ 0) :
    (e.threads i).ip ≠ 0 := by
  cases n with
  | zero => exact absurd rfl hn
  | succ n => exact h.1.at_.ip_ne_zero

/-- One step of the switch, seen from the frame. -/
theorem frame_step (h : SwitchInv s) (hp : Progress tbl i handle m D n s.1.engine)
    (ht : n ≠ 0 → hostOf (s.1.tableState i) = tbl) (hm : IsIpv4 m) (hu : Leaves i handle s op) :
    if op.isExec i then ∀ n', n = n' + 1 → Progress tbl i handle m D n' (Switch.step s op).1.engine
    else Progress tbl i handle m D n (Switch.step s op).1.engine := by
  cases op with
  | rx j port pkt => exact hp.rx j port pkt
  | exec j =>
    have hengine := (h.executes j).engine
    change if decide (j = i) = true then
        ∀ n', n = n' + 1 → Progress tbl i handle m D n' (s.1.exec j).engine
      else Progress tbl i handle m D n (s.1.exec j).engine
    by_cases hj : j = i
    · subst hj
      rw [if_pos (decide_eq_true rfl), hengine]
      rintro n' rfl
      rw [ht (Nat.succ_ne_zero n')]
      exact hp.own hm
    · rw [if_neg (by rw [decide_eq_true_eq]; exact hj)]
      have hleft := hu.resolve_left hj
      rw [hengine] at hleft ⊢
      exact hp.other hj hleft
  | control op =>
    have heng : (Switch.step s (.control op)).1.engine = s.1.engine := by
      unfold Switch.step
      dsimp only
      split
      · rfl
      · exact (control_engine s.1 op).1
    rw [heng]
    exact hp
  | settle =>
    have heng : (Switch.step s .settle).1.engine = s.1.engine := by
      unfold Switch.step
      dsimp only
      split
      · rfl
      · rfl
    rw [heng]
    exact hp

/-- As many instructions of the thread as the frame takes. -/
theorem frame_run (hm : IsIpv4 m) {ops : List SwitchOp} (h : SwitchInv s)
    (hp : Progress tbl i handle m D n s.1.engine)
    (ht : n ≠ 0 → hostOf (s.1.tableState i) = tbl) (hg : Meets Switch.step GraceOver s ops)
    (hu : Meets Switch.step (Leaves i handle) s ops) (hn : ops.countP (SwitchOp.isExec i) = n) :
    Progress tbl i handle m D 0 (run Switch.step s ops).1.engine := by
  induction ops generalizing s n with
  | nil =>
    subst hn
    exact hp
  | cons op ops ih =>
    have hnext := switchInv_step s op h hg.1
    have hstep := frame_step h hp ht hm hu.1
    have hkeep : n ≠ 0 → hostOf ((Switch.step s op).1.tableState i) = tbl := by
      intro hn
      rw [h.held hg.1 (hp.busy hn)]
      exact ht hn
    rw [List.countP_cons] at hn
    by_cases hop : op.isExec i = true
    · rw [if_pos hop] at hn hstep
      exact ih hnext (hstep _ hn.symm) (fun _ => hkeep (by omega)) hg.2 hu.2 rfl
    · rw [if_neg hop] at hn hstep
      exact ih hnext hstep hkeep hg.2 hu.2 hn

end

end

/-- With entries for ports that exist, a frame is forwarded by the map that was committed when it
was received, and no frame of the run is handed past the last port. -/
theorem frame_committed (nPorts : Nat) (unspecified : UInt32) (before ops : List SwitchOp)
    (i : ThreadId) (port : UInt32) (handle : MbufPtr) (m : RteMbuf)
    (hgrace : Meets Switch.step GraceOver (Switch.build nPorts)
      (before ++ .rx i port (some (handle, m)) :: ops))
    (hports : ∀ op ∈ before ++ .rx i port (some (handle, m)) :: ops, NamesPort nPorts op)
    (hidle : ((Switch.after nPorts before).1.engine.threads i).ip = 0)
    (hfree : ¬ (Switch.after nPorts before).1.engine.InFlight handle)
    (hip : Ipv4Reached (frameOf m))
    (hu : Meets Switch.step (Leaves i handle)
      (Switch.after nPorts (before ++ [.rx i port (some (handle, m))])) ops)
    (hn : ops.countP (SwitchOp.isExec i) = blockLength m) :
    ∃ pkt o, pkt.handle = handle ∧ pkt.mbuf = m ∧
      doneBy i (Switch.after nPorts (before ++ .rx i port (some (handle, m)) :: ops)).1.engine =
        ⟨i, pkt, o⟩ :: doneBy i (Switch.after nPorts before).1.engine ∧
      Forwarded nPorts (hostMap ((Switch.after nPorts before).2 0)) unspecified m o ∧
      ∀ d ∈ (Switch.after nPorts (before ++ .rx i port (some (handle, m)) :: ops)).1.engine.done,
        ∀ out, d.outcome ≠ .fault out := by
  have hm : IsIpv4 m := ((ipv4Reached_iff m).mp hip).1
  have h := switchInv_after (hgrace.initial (List.prefix_append before _))
  have hrest : Meets Switch.step GraceOver (Switch.after nPorts before)
      (.rx i port (some (handle, m)) :: ops) := hgrace.rest
  obtain ⟨hg, hgops⟩ := hrest
  have hnext := switchInv_step _ _ h hg
  have hfit : SwitchPorts nPorts (Switch.after nPorts (before ++ .rx i port (some (handle, m)) :: ops)) :=
    switchPorts_run (switchInv_build nPorts) (switchPorts_build nPorts) hgrace hports
  have hstart : Switch.after nPorts (before ++ [.rx i port (some (handle, m))]) =
      Switch.step (Switch.after nPorts before) (.rx i port (some (handle, m))) :=
    run_append _ _ _
  have hend : Switch.after nPorts (before ++ .rx i port (some (handle, m)) :: ops) =
      run Switch.step
        (Switch.step (Switch.after nPorts before) (.rx i port (some (handle, m)))) ops :=
    run_append _ _ _
  rw [hstart] at hu
  rw [hend] at hfit ⊢
  generalize Switch.after nPorts before = s at *
  have hp : Progress (hostOf (s.1.ctl.ts 0)) i handle m (doneBy i s.1.engine) (blockLength m)
      (s.1.engine.rx i port (some (handle, m))) :=
    progress_rx (h.idle i (by omega)) port hidle hfree
  -- the thread takes the published copy
  have htaken : (s.1.rx i port (some (handle, m))).stale i = false := by
    unfold Switch.rx
    dsimp only
    rw [if_pos hidle, Function.update_self]
  have hrun := frame_run hm hnext hp (fun _ => congrArg hostOf (tableState_fresh htaken)) hgops hu hn
  obtain ⟨pkt, o, hmeant, hh, hb, hd⟩ := hrun
  rw [hfit.engine.ports] at hmeant
  have ho : o = (l3Mbuf (hostMap (s.2 0)) m).onPorts (nPorts + 1) :=
    (hmeant.1 hm).trans (congrArg _ (l3Mbuf_congr h.published_lookup m))
  rw [ho] at hd
  exact ⟨pkt, _, hh, hb, hd, forwarded_l3Mbuf nPorts _ unspecified hip, hfit.engine.done⟩

/-! ## A frame and its entry -/

/-- No other thread executes an instruction. -/
def SwitchOp.noOther (i : ThreadId) : SwitchOp → Bool
  | .exec j => j = i
  | _ => true

theorem leaves_alone {i : ThreadId} {ops : List SwitchOp} (h : ops.all (SwitchOp.noOther i) = true)
    (handle : MbufPtr) (s : Switch × (Fin 1 → TableTxn)) :
    Meets Switch.step (Leaves i handle) s ops := by
  induction ops generalizing s with
  | nil => trivial
  | cons op ops ih =>
    rw [List.all_cons, Bool.and_eq_true] at h
    refine ⟨?_, ih h.2 _⟩
    cases op with
    | exec j => exact Or.inl (of_decide_eq_true h.1)
    | _ => trivial

/-- `match 0x00000008 action send port 0x1 class 276`. -/
def sendTo8 : TableEntry where
  key := fun j => (beBytes 8).getD j 0
  keyMask := none
  keyPriority := 0
  actionId := 1
  actionData := some fun j => [1, 0, 0, 0, 0x14, 1, 0, 0].getD j 0

def added : List SwitchOp :=
  [.control (.entryAdd "ipv4_host" sendTo8), .control (.commit true), .settle]

/-- The entry is deleted while the frame is on its way. -/
def deletedMeanwhile : List SwitchOp :=
  List.replicate 6 (.exec 0) ++
    [.control (.entryDelete "ipv4_host" sendTo8), .control (.commit true)] ++
    List.replicate 5 (.exec 0) ++ [.settle]

def taggedTo8 : RteMbuf := mbufOf (ethernetHeader 0x81 0 ++ [0, 5, 8, 0] ++ ipv4Packet 8)

theorem frame_committed_deleted :
    ∃ pkt m', doneBy 0 (Switch.after 2
      (added ++ .rx 0 0 (some (7, taggedTo8)) :: deletedMeanwhile)).1.engine =
        ⟨0, pkt, .tx 1 m'⟩ :: doneBy 0 (Switch.after 2 added).1.engine ∧
      SentWith 276 taggedTo8 m' := by
  obtain ⟨pkt, o, -, -, hd, hf, -⟩ := frame_committed 2 0 added deletedMeanwhile 0 0 7 taggedTo8
    (by decide +kernel) (by decide +kernel) (by decide +kernel) (by decide +kernel)
    (by decide +kernel) (leaves_alone rfl 7 _) (by decide +kernel)
  obtain ⟨m', rfl, hsent⟩ := hf.sent 1 276 (by decide +kernel) (by decide)
  exact ⟨pkt, m', hd, hsent⟩

end P4Switch.L3
