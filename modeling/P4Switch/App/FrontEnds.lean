import P4Switch.App.Conn

/-! # Telnet and script agree

A text of whole lines, sent over one connection in any chunks, runs the commands it runs as
a script. -/
namespace P4Switch.App
open P4Switch.Lib.Lines P4Switch.Lib.GuardedRun

/-- The commands `cli_process` gets from the strings passed to it. -/
def Conn.commands (s : Conn) : List Command :=
  s.passed.filterMap fun w => command (text w.2)

/-- The only client's chunks, each with the fate of its responses. -/
def oneClient (chunks : List (List UInt8 × List Reply)) : List Event :=
  .pollForConn true ::
    chunks.map fun ch => .pollForMsg 0 (some (.bytes ch.1, ch.2)) false

theorem Fits.cut {max : Nat} {r as bs : List UInt8}
    (h : Fits max (feedAll newline ⟨[], r⟩ (as ++ bs))) :
    Fits max (feedAll newline ⟨[], r⟩ as) ∧
      Fits max (feedAll newline ⟨[], (feedAll newline ⟨[], r⟩ as).rest⟩ bs) := by
  rw [feedAll_cut] at h
  have hrest : Fits max (feedAll newline ⟨[], (feedAll newline ⟨[], r⟩ as).rest⟩ bs) :=
    ⟨fun l hl => h.1 l (List.mem_append_right _ hl), h.2⟩
  exact ⟨⟨fun l hl => h.1 l (List.mem_append_left _ hl), hrest.open⟩, hrest⟩

/-- One chunk: the lines it ends are passed, the open line stays in the buffer. -/
theorem step_chunk (p : ConnParams) {s : Conn} {c : Client} {r bs : List UInt8}
    (hc : c ∈ s.group) (hr : s.msgIn = tag c r) {replies : List Reply}
    (hw : Reply.failed ∉ replies)
    (hfit : Fits p.msgInLenMax (feedAll newline ⟨[], r⟩ bs)) :
    let s' := s.step p (.pollForMsg c (some (.bytes bs, replies)) false)
    s'.group = s.group ∧ s'.msgIn = tag c (feedAll newline ⟨[], r⟩ bs).rest ∧
      s'.commands = s.commands ++
        (feedAll newline ⟨[], r⟩ bs).done.filterMap fun l => command (cString l) := by
  have hserved := dataLoop_serves p c replies hfit
  obtain ⟨hpassed, hmsg⟩ := hserved.whole (hserved.written hw)
  have hstep : s.step p (.pollForMsg c (some (.bytes bs, replies)) false) =
      s.dataEventHandle p c (.bytes bs) replies := if_pos hc
  intro s'
  show (s.step p _).group = _ ∧ (s.step p _).msgIn = _ ∧ (s.step p _).commands = _
  rw [hstep]
  unfold Conn.dataEventHandle Conn.commands Read.input
  dsimp only
  rw [hr, hpassed, hmsg]
  refine ⟨rfl, rfl, ?_⟩
  rw [List.filterMap_append, List.map_map, List.filterMap_map]
  congr 2
  funext l
  show command (text (terminated (tag c l))) = _
  rw [text_terminated, text_tag]

/-- All chunks, from an open line `r`. -/
theorem run_chunks (p : ConnParams) {s : Conn} {c : Client} {r : List UInt8}
    (hc : c ∈ s.group) (hr : s.msgIn = tag c r) {chunks : List (List UInt8 × List Reply)}
    (hw : ∀ ch ∈ chunks, Reply.failed ∉ ch.2)
    (hfit : Fits p.msgInLenMax (feedAll newline ⟨[], r⟩ (chunks.map (·.1)).flatten)) :
    (run (Conn.step p) s
        (chunks.map fun ch => .pollForMsg c (some (.bytes ch.1, ch.2)) false)).commands =
      s.commands ++ (feedAll newline ⟨[], r⟩ (chunks.map (·.1)).flatten).done.filterMap
        fun l => command (cString l) := by
  induction chunks generalizing s r with
  | nil => simp
  | cons ch chunks ih =>
    rw [List.map_cons, List.flatten_cons] at hfit
    obtain ⟨hfirst, hrest⟩ := hfit.cut
    obtain ⟨hgroup, hmsg, hcmd⟩ := step_chunk p hc hr (hw ch (by simp)) hfirst
    rw [List.map_cons, List.map_cons, List.flatten_cons, feedAll_cut, run_cons,
      ih (hgroup ▸ hc) hmsg (fun ch' h => hw ch' (List.mem_cons_of_mem _ h)) hrest, hcmd,
      List.filterMap_append, List.append_assoc]

/-- The two front ends run the same commands, those of the lines. -/
theorem telnet_eq_script (p : ConnParams) (lines : List (List UInt8))
    (hnl : ∀ l ∈ lines, newline ∉ l) (hlen : ∀ l ∈ lines, l.length ≤ p.msgInLenMax)
    (chunks : List (List UInt8 × List Reply))
    (hcut : (chunks.map (·.1)).flatten = lines.flatMap (· ++ [newline]))
    (hw : ∀ ch ∈ chunks, Reply.failed ∉ ch.2) :
    (run (Conn.step p) Conn.init (oneClient chunks)).commands =
        (cliScriptProcess p.msgInLenMax (lines.flatMap (· ++ [newline]))).filterMap command ∧
      (run (Conn.step p) Conn.init (oneClient chunks)).commands =
        lines.filterMap fun l => command (cString l) := by
  have hsplit : feedAll newline ⟨[], []⟩ (chunks.map (·.1)).flatten = ⟨lines, []⟩ := by
    rw [hcut]
    exact split_lines hnl
  have hfit : Fits p.msgInLenMax
      (feedAll newline ⟨[], []⟩ (chunks.map (·.1)).flatten) := by
    rw [hsplit]
    exact ⟨hlen, Nat.zero_le _⟩
  have hgroup : 0 ∈ (Conn.init.step p (.pollForConn true)).group := by
    simp [Conn.step, Conn.init]
  have hrun := run_chunks p hgroup (r := []) rfl hw hfit
  rw [hsplit] at hrun
  rw [cliScriptProcess_lines p.msgInLenMax_ne hnl hlen]
  exact ⟨hrun, hrun⟩

theorem telnet_eq_script_reads :
    (run (Conn.step ⟨3, by decide, by decide, id⟩) Conn.init
        (oneClient [([97, 32], []), ([98, 10, 13], [.sent]), ([10], []), ([99, 10], [])])).commands =
      (cliScriptProcess 3 [97, 32, 98, 10, 13, 10, 99, 10]).filterMap command :=
  (telnet_eq_script ⟨3, by decide, by decide, id⟩ [[97, 32, 98], [13], [99]] (by decide)
    (by decide) [([97, 32], []), ([98, 10, 13], [.sent]), ([10], []), ([99, 10], [])] rfl
    (by decide)).1

end P4Switch.App
