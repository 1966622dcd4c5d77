import P4Switch.App.Cli
import P4Switch.Lib.GuardedRun

/-! # The telnet server

One reassembly buffer, `msg_in`, serves all clients. The buffer is modelled with the
client each byte was read from, so that the strings passed to `msg_handle` show whose
bytes they are; the code sees the bytes alone. -/
namespace P4Switch.App
open P4Switch.Lib.Lines P4Switch.Lib.GuardedRun

/-- A connection, numbered in the order of arrival. -/
abbrev Client := Nat

/-- A byte and the client it was read from. -/
abbrev Byte := Client × UInt8

def tag (c : Client) (l : List UInt8) : List Byte := l.map (c, ·)

def text (w : List Byte) : List UInt8 := w.map (·.2)

/-- The string at the start of a buffer, as `msg_handle` sees it. -/
def terminated (m : List Byte) : List Byte := m.takeWhile (·.2 ≠ 0)

/-- What becomes of a response: none is due, it is written, or the write fails. -/
inductive Reply where
  | silent
  | sent
  | failed
  deriving DecidableEq

def INT_MAX : Nat := 2 ^ 31 - 1

/-- The parameters `conn_init` accepts. `main` hands the same length to `cli_script_process`,
whose `fgets` takes one more than it as an `int`. -/
structure ConnParams where
  msgInLenMax : Nat
  msgInLenMax_ne : msgInLenMax ≠ 0
  msgInLenMax_lt : msgInLenMax < INT_MAX
  /-- What `msg_handle` leaves in the string it is given. -/
  left : List UInt8 → List UInt8

/-- The outcome of `data_event_handle`: the strings passed to `msg_handle`, the buffer, and
whether a write failed before the end of the input. -/
structure Served where
  passed : List (List Byte)
  msgIn : List Byte
  cut : Bool

/-- The loop of `data_event_handle` over the bytes read, with the fate of each response. -/
def dataLoop (p : ConnParams) (c : Client) : List Byte → List UInt8 → List Reply → Served
  | m, [], _ => ⟨[], m, false⟩
  | m, b :: bs, replies =>
    if b = newline then
      if replies.headD .sent = .failed then
        -- `msg_in_len` keeps its value
        ⟨[terminated m], (m.map (·.1)).zip (p.left (text m)), true⟩
      else
        let rest := dataLoop p c [] bs replies.tail
        { rest with passed := terminated m :: rest.passed }
    else if m.length < p.msgInLenMax then dataLoop p c (m ++ [(c, b)]) bs replies
    else if replies.headD .sent = .failed then ⟨[], m, true⟩
    else dataLoop p c [] bs replies.tail

/-- What `read` gives. -/
inductive Read where
  | wouldBlock
  | error
  | bytes (bs : List UInt8)

def Read.input : Read → List UInt8
  | .wouldBlock => []
  | .error => []
  | .bytes bs => bs

/-- The connection group. The last three fields record the bytes read from each client, the
clients served last with a failed write, and the strings passed to `msg_handle` with the
client being served; nothing reads them. -/
structure Conn where
  msgIn : List Byte
  accepted : Nat
  group : List Client
  stream : Client → List UInt8
  failed : List Client
  passed : List (Client × List Byte)

def Conn.init : Conn := ⟨[], 0, [], fun _ => [], [], []⟩

def Conn.dataEventHandle (p : ConnParams) (s : Conn) (c : Client) (r : Read)
    (replies : List Reply) : Conn :=
  let served := dataLoop p c s.msgIn r.input replies
  { s with
    msgIn := served.msgIn
    stream := Function.update s.stream c (s.stream c ++ r.input)
    failed := if served.cut then c :: s.failed else s.failed
    passed := s.passed ++ served.passed.map (c, ·) }

def Conn.controlEventHandle (s : Conn) (c : Client) : Conn :=
  { s with group := s.group.erase c }

inductive Event where
  /-- A client is accepted; it joins the group unless that or the greeting fails. -/
  | pollForConn (joined : Bool)
  /-- `epoll_wait` reports `c`: with input, hung up, or both. -/
  | pollForMsg (c : Client) (input : Option (Read × List Reply)) (hangup : Bool)

def Conn.step (p : ConnParams) (s : Conn) : Event → Conn
  | .pollForConn joined =>
    { s with
      accepted := s.accepted + 1
      group := if joined then s.group ++ [s.accepted] else s.group }
  | .pollForMsg c input hangup =>
    if c ∈ s.group then
      let s := match input with
        | none => s
        | some (r, replies) => s.dataEventHandle p c r replies
      if hangup then s.controlEventHandle c else s
    else s

/-! ## The loop and the lines of the stream -/

@[simp] theorem tag_append (c : Client) (l l' : List UInt8) :
    tag c (l ++ l') = tag c l ++ tag c l' := List.map_append

@[simp] theorem length_tag (c : Client) (l : List UInt8) : (tag c l).length = l.length :=
  List.length_map _

@[simp] theorem text_tag (c : Client) (l : List UInt8) : text (tag c l) = l := by
  simp [text, tag]

theorem mem_tag {c : Client} {l : List UInt8} {b : Byte} (h : b ∈ tag c l) : b.1 = c := by
  obtain ⟨_, -, rfl⟩ := List.mem_map.mp h
  rfl

theorem text_terminated (m : List Byte) : text (terminated m) = cString (text m) := by
  induction m with
  | nil => rfl
  | cons b m ih =>
    by_cases hb : b.2 = 0
    · simp [terminated, text, cString, hb]
    · simpa [terminated, text, cString, hb] using ih

/-- A buffer that holds bytes of `c` alone. -/
theorem eq_tag {c : Client} {m : List Byte} (h : ∀ b ∈ m, b.1 = c) : m = tag c (text m) := by
  induction m with
  | nil => rfl
  | cons b m ih =>
    have hb : b = (c, b.2) := Prod.ext (h b (by simp)) rfl
    have hm : m = tag c (text m) := ih fun b' hb' => h b' (List.mem_cons_of_mem _ hb')
    rw [hb]
    exact congrArg ((c, b.2) :: ·) hm

/-- Every line ended in `t` and the open one fit the buffer. -/
def Fits (max : Nat) (t : Split UInt8) : Prop :=
  (∀ l ∈ t.done, l.length ≤ max) ∧ t.rest.length ≤ max

instance (max : Nat) (t : Split UInt8) : Decidable (Fits max t) :=
  inferInstanceAs (Decidable (_ ∧ _))

theorem Fits.open {max : Nat} {r bs : List UInt8}
    (h : Fits max (feedAll newline ⟨[], r⟩ bs)) : r.length ≤ max := by
  have hopen : r <+: (feedAll newline ⟨[], r⟩ bs).rest ∨
      ∃ l ∈ (feedAll newline ⟨[], r⟩ bs).done, r <+: l := prefix_feedAll [] r bs
  obtain hr | ⟨l, hl, hr⟩ := hopen
  · exact hr.length_le.trans h.2
  · exact hr.length_le.trans (h.1 l hl)

theorem Fits.ended {max : Nat} {r bs : List UInt8}
    (h : Fits max (feedAll newline ⟨[r], []⟩ bs)) :
    Fits max (feedAll newline ⟨[], []⟩ bs) := by
  rw [feedAll_done] at h
  exact ⟨fun l hl => h.1 l (List.mem_append_right _ hl), h.2⟩

/-- What the loop owes to a client whose lines fit, from the open line `r`. -/
structure Serves (c : Client) (t : Split UInt8) (replies : List Reply) (s : Served) : Prop where
  passed : s.passed <+: t.done.map fun l => terminated (tag c l)
  whole : s.cut = false → s.passed = t.done.map (fun l => terminated (tag c l)) ∧
    s.msgIn = tag c t.rest
  own : ∀ b ∈ s.msgIn, b.1 = c
  written : .failed ∉ replies → s.cut = false

theorem dataLoop_serves (p : ConnParams) (c : Client) {r bs : List UInt8} (replies : List Reply)
    (h : Fits p.msgInLenMax (feedAll newline ⟨[], r⟩ bs)) :
    Serves c (feedAll newline ⟨[], r⟩ bs) replies (dataLoop p c (tag c r) bs replies) := by
  induction bs generalizing r replies with
  | nil =>
    exact ⟨List.nil_prefix, fun _ => ⟨rfl, rfl⟩, fun b hb => mem_tag hb, fun _ => rfl⟩
  | cons b bs ih =>
    by_cases hb : b = newline
    · subst hb
      rw [feedAll_cons, feed_nl] at h ⊢
      have ht : feedAll newline ⟨[r], []⟩ bs = _ := feedAll_done [r] [] bs
      rw [List.nil_append, ht]
      unfold dataLoop
      rw [if_pos rfl]
      split
      · -- the response is not written: the line before it has been passed
        next hf =>
        refine ⟨by simp, fun hc => Bool.noConfusion hc, ?_, ?_⟩
        · intro b hb
          have hm := List.of_mem_zip (show (b.1, b.2) ∈ _ from hb)
          obtain ⟨x, hx, hxb⟩ := List.mem_map.mp hm.1
          exact hxb ▸ mem_tag hx
        · intro hw
          cases replies with
          | nil => cases hf
          | cons a _ => exact absurd (hf ▸ by simp) hw
      · obtain ⟨hp, hwh, ho, hw⟩ := ih replies.tail h.ended
        refine ⟨?_, ?_, ho, fun hf => hw fun hm => hf (List.mem_of_mem_tail hm)⟩
        · rw [List.singleton_append, List.map_cons]
          exact List.cons_prefix_cons.mpr ⟨rfl, hp⟩
        · intro hc
          obtain ⟨hpass, hmsg⟩ := hwh hc
          refine ⟨?_, hmsg⟩
          rw [List.singleton_append, List.map_cons, ← hpass]
          rfl
    · rw [feedAll_cons, feed_other hb] at h ⊢
      have hlen : r.length < p.msgInLenMax := by
        have := h.open
        rw [List.length_append] at this
        exact this
      unfold dataLoop
      rw [if_neg hb, if_pos (by rwa [length_tag])]
      have hr : tag c r ++ [(c, b)] = tag c (r ++ [b]) := (tag_append c r [b]).symm
      rw [hr]
      exact ih replies h

end P4Switch.App
