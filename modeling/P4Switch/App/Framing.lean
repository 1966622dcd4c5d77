import Mathlib.Data.List.TakeWhile
import P4Switch.App.Conn

/-! # Telnet commands framed per client

The buffer is shared, so a client is served from its own line only while no other client
has an unfinished line in it. -/
namespace P4Switch.App
open P4Switch.Lib.Lines P4Switch.Lib.GuardedRun

/-- Every string passed to `msg_handle` is a complete line of the client served, made of
bytes of this client alone. -/
def Framed (s : Conn) : Prop :=
  ∀ w ∈ s.passed,
    (∀ b ∈ w.2, b.1 = w.1) ∧ text w.2 ∈ (split newline (s.stream w.1)).done

instance (s : Conn) : Decidable (Framed s) := inferInstanceAs (Decidable (∀ w ∈ s.passed, _))

/-- `c` may be read from: the buffer holds no byte of another client, no response to `c`
has failed to be written, every line fits the buffer and no line ended holds a NUL. -/
structure Undisturbed (p : ConnParams) (s : Conn) (c : Client) (bs : List UInt8) : Prop where
  alone : ∀ b ∈ s.msgIn, b.1 = c
  written : c ∉ s.failed
  fits : Fits p.msgInLenMax (feedAll newline ⟨[], text s.msgIn⟩ bs)
  noNul : ∀ l ∈ (feedAll newline ⟨[], text s.msgIn⟩ bs).done, 0 ∉ l

instance (p : ConnParams) (s : Conn) (c : Client) (bs : List UInt8) :
    Decidable (Undisturbed p s c bs) :=
  decidable_of_iff
    ((∀ b ∈ s.msgIn, b.1 = c) ∧ c ∉ s.failed ∧
      Fits p.msgInLenMax (feedAll newline ⟨[], text s.msgIn⟩ bs) ∧
      ∀ l ∈ (feedAll newline ⟨[], text s.msgIn⟩ bs).done, 0 ∉ l)
    ⟨fun ⟨h₁, h₂, h₃, h₄⟩ => ⟨h₁, h₂, h₃, h₄⟩, fun ⟨h₁, h₂, h₃, h₄⟩ => ⟨h₁, h₂, h₃, h₄⟩⟩

/-- Every chunk comes from an undisturbed client; the other events are free. -/
def ReadsUndisturbed (p : ConnParams) (s : Conn) : Event → Prop
  | .pollForMsg c (some (r, _)) _ => c ∈ s.group → r.input ≠ [] → Undisturbed p s c r.input
  | _ => True

instance (p : ConnParams) (s : Conn) (e : Event) : Decidable (ReadsUndisturbed p s e) :=
  match e with
  | .pollForConn _ => inferInstanceAs (Decidable True)
  | .pollForMsg _ none _ => inferInstanceAs (Decidable True)
  | .pollForMsg _ (some _) _ => inferInstanceAs (Decidable (_ → _ → _))

/-- The buffer is the unfinished line of each client whose responses were written. -/
structure Framing (s : Conn) : Prop where
  framed : Framed s
  opened : ∀ d, d ∉ s.failed →
    s.msgIn.filter (·.1 = d) = tag d (split newline (s.stream d)).rest

theorem filter_own {c : Client} {m : List Byte} (h : ∀ b ∈ m, b.1 = c) :
    m.filter (·.1 = c) = m :=
  List.filter_eq_self.mpr fun b hb => decide_eq_true (h b hb)

theorem filter_other {c d : Client} (hd : d ≠ c) {m : List Byte} (h : ∀ b ∈ m, b.1 = c) :
    m.filter (·.1 = d) = [] :=
  List.filter_eq_nil_iff.mpr fun b hb hbd => hd (of_decide_eq_true hbd ▸ h b hb)

theorem terminated_tag {c : Client} {l : List UInt8} (h : 0 ∉ l) :
    terminated (tag c l) = tag c l := by
  refine List.takeWhile_eq_self_iff.mpr ?_
  intro b hb
  obtain ⟨a, ha, rfl⟩ := List.mem_map.mp hb
  exact decide_eq_true fun h0 => h (h0 ▸ ha)

theorem dataEventHandle_empty (p : ConnParams) (s : Conn) (c : Client) {r : Read}
    (hr : r.input = []) (replies : List Reply) : s.dataEventHandle p c r replies = s := by
  unfold Conn.dataEventHandle
  rw [hr]
  simp [dataLoop]

/-- An undisturbed client is served its own lines. -/
theorem Framing.served {p : ConnParams} {s : Conn} (hs : Framing s) {c : Client} {r : Read}
    (h : Undisturbed p s c r.input) (replies : List Reply) :
    Framing (s.dataEventHandle p c r replies) := by
  have hrest : text s.msgIn = (split newline (s.stream c)).rest := by
    have ho := hs.opened c h.written
    rw [filter_own h.alone] at ho
    rw [ho, text_tag]
  have hserved := dataLoop_serves p c replies h.fits
  rw [← eq_tag h.alone] at hserved
  have hsplit : split newline (s.stream c ++ r.input) = _ := split_append (s.stream c) r.input
  rw [← hrest] at hsplit
  constructor
  · intro w hw
    obtain hw | hw := List.mem_append.mp hw
    · -- a string passed before
      obtain ⟨hown, hline⟩ := hs.framed w hw
      refine ⟨hown, ?_⟩
      show text w.2 ∈ (split newline (Function.update s.stream c _ w.1)).done
      by_cases hc : w.1 = c
      · rw [hc, Function.update_self, hsplit]
        exact List.mem_append_left _ (hc ▸ hline)
      · rwa [Function.update_of_ne hc]
    · obtain ⟨x, hx, rfl⟩ := List.mem_map.mp hw
      obtain ⟨l, hl, rfl⟩ := List.mem_map.mp (hserved.passed.subset hx)
      show (∀ b ∈ terminated (tag c l), b.1 = c) ∧
        text (terminated (tag c l)) ∈ (split newline (Function.update s.stream c _ c)).done
      rw [terminated_tag (h.noNul l hl), text_tag, Function.update_self, hsplit]
      exact ⟨fun b hb => mem_tag hb, List.mem_append_right _ hl⟩
  · intro d hd
    show (dataLoop p c s.msgIn r.input replies).msgIn.filter (·.1 = d) =
      tag d (split newline (Function.update s.stream c _ d)).rest
    by_cases hc : d = c
    · subst hc
      have hcut : (dataLoop p d s.msgIn r.input replies).cut = false := by
        by_contra hcut
        exact hd (by simp [Conn.dataEventHandle, hcut])
      rw [filter_own hserved.own, Function.update_self, hsplit]
      exact (hserved.whole hcut).2
    · have hnot : d ∉ s.failed := by
        intro hm
        refine hd ?_
        unfold Conn.dataEventHandle
        dsimp only
        split
        · exact List.mem_cons_of_mem _ hm
        · exact hm
      have ho := hs.opened d hnot
      rw [filter_other hc h.alone] at ho
      rw [filter_other hc hserved.own, Function.update_of_ne hc, ← ho]

theorem Framing.step {p : ConnParams} {s : Conn} {e : Event} (hs : Framing s)
    (h : ReadsUndisturbed p s e) : Framing (s.step p e) := by
  cases e with
  | pollForConn joined => exact ⟨hs.framed, hs.opened⟩
  | pollForMsg c input hangup =>
    unfold Conn.step
    by_cases hc : c ∈ s.group
    · have hserved : ∀ s' : Conn, Framing s' →
          Framing (if hangup then s'.controlEventHandle c else s') := by
        intro s' hs'
        split
        · exact ⟨hs'.framed, hs'.opened⟩
        · exact hs'
      dsimp only
      rw [if_pos hc]
      cases input with
      | none => exact hserved s hs
      | some input =>
        obtain ⟨r, replies⟩ := input
        refine hserved (s.dataEventHandle p c r replies) ?_
        by_cases hr : r.input = []
        · rw [dataEventHandle_empty p s c hr]
          exact hs
        · exact hs.served (h hc hr) replies
    · dsimp only
      rwa [if_neg hc]

theorem framing_init : Framing Conn.init := ⟨by simp [Framed, Conn.init], fun _ _ => rfl⟩

/-- Clients read from undisturbed are framed, in every state of the run. -/
theorem commands_framed (p : ConnParams) (es : List Event)
    (h : Meets (Conn.step p) (ReadsUndisturbed p) Conn.init es) :
    Always (Conn.step p) Framed Conn.init es :=
  h.always (fun _ _ hs ha => hs.step ha) (fun _ hs => hs.framed) framing_init

/-- Lines of eight bytes, and a handler that leaves its string as it is. -/
def shortLines : ConnParams := ⟨8, by decide, by decide, id⟩

/-- Two clients type `a b` and `c`, the first in two reads. -/
def twoClients : List Event :=
  [.pollForConn true, .pollForConn true,
    .pollForMsg 0 (some (.bytes [97, 32], [])) false,
    .pollForMsg 0 (some (.bytes [98, 10], [.sent])) false,
    .pollForMsg 1 (some (.bytes [99, 10], [.failed])) true]

theorem commands_framed_twoClients :
    Always (Conn.step shortLines) Framed Conn.init twoClients :=
  commands_framed shortLines twoClients (by decide +kernel)

/-- The first client hangs up after `a `, the second types `b`: it runs `a b`. -/
def hangupInLine : List Event :=
  [.pollForConn true, .pollForConn true,
    .pollForMsg 0 (some (.bytes [97, 32], [])) true,
    .pollForMsg 1 (some (.bytes [98, 10], [.sent])) false]

theorem commands_framed_broken :
    ¬ ∀ (p : ConnParams) (es : List Event), Always (Conn.step p) Framed Conn.init es := by
  intro h
  have hf : Framed (run (Conn.step shortLines) Conn.init hangupInLine) :=
    h shortLines hangupInLine hangupInLine (List.prefix_refl _)
  exact absurd hf (by decide +kernel)

end P4Switch.App
