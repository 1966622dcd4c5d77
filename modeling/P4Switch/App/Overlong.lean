import Mathlib.Data.List.TakeWhile
import P4Switch.App.FrontEnds

/-! # Lines longer than the buffer

`data_event_handle` keeps a length and nothing else, so the part of a long line behind the
last too-long message is passed on like a line of its own. -/
namespace P4Switch.App
open P4Switch.Lib.Lines P4Switch.Lib.GuardedRun

/-- What a client is served with. -/
inductive Answer where
  /-- `msg_handle` gets a string. -/
  | handled (s : List UInt8)
  /-- `MSG_CMD_TOO_LONG` is written. -/
  | tooLong
  deriving DecidableEq

def Answer.string : Answer → Option (List UInt8)
  | .handled s => some s
  | .tooLong => none

/-- The loop of `data_event_handle` over the bytes read, as the answers it gives. -/
def dataAnswers (p : ConnParams) : List UInt8 → List UInt8 → List Reply → List Answer
  | _, [], _ => []
  | m, b :: bs, replies =>
    if b = newline then
      if replies.headD .sent = .failed then [.handled (cString m)]
      else .handled (cString m) :: dataAnswers p [] bs replies.tail
    else if m.length < p.msgInLenMax then dataAnswers p (m ++ [b]) bs replies
    else if replies.headD .sent = .failed then []
    else .tooLong :: dataAnswers p [] bs replies.tail

/-- The answers of one event. -/
def Conn.answer (p : ConnParams) (s : Conn) : Event → List Answer
  | .pollForMsg c (some (r, replies)) _ =>
    if c ∈ s.group then dataAnswers p (text s.msgIn) r.input replies else []
  | _ => []

/-- The answers of a run. -/
def Conn.answers (p : ConnParams) (s : Conn) : List Event → List Answer
  | [] => []
  | e :: es => s.answer p e ++ (s.step p e).answers p es

/-- The strings passed to `msg_handle`. -/
def Conn.strings (s : Conn) : List (List UInt8) := s.passed.map fun w => text w.2

/-- The answers to one line: the line itself is handled, or it is called too long and no
part of it is handled. -/
def Answered (max : Nat) (l : List UInt8) (as : List Answer) : Prop :=
  if l.length ≤ max then as = [.handled l] else .tooLong ∈ as ∧ as.filterMap Answer.string = []

/-- Overlong lines of the stream are rejected as a whole. -/
structure RejectsWhole (p : ConnParams) (es : List Event) (stream : List UInt8) : Prop where
  /-- The strings passed are the lines that fit. -/
  passed : (run (Conn.step p) Conn.init es).strings =
    (split newline stream).done.filter fun l => l.length ≤ p.msgInLenMax
  /-- The answers fall into those of each line and those of the open one. -/
  answered : ∃ groups : List (List Answer), ∃ more : List Answer,
    Conn.init.answers p es = groups.flatten ++ more ∧
      List.Forall₂ (Answered p.msgInLenMax) (split newline stream).done groups ∧
      more.filterMap Answer.string = []

/-! ## The answers are those of the connection model -/

theorem dataLoop_strings (p : ConnParams) (c : Client) (m : List Byte) (bs : List UInt8)
    (replies : List Reply) :
    (dataLoop p c m bs replies).passed.map text =
      (dataAnswers p (text m) bs replies).filterMap Answer.string := by
  induction bs generalizing m replies with
  | nil => rfl
  | cons b bs ih =>
    unfold dataLoop dataAnswers
    by_cases hb : b = newline
    · rw [if_pos hb, if_pos hb]
      by_cases hf : replies.headD .sent = .failed
      · rw [if_pos hf, if_pos hf]
        exact congrArg ([·]) (text_terminated m)
      · rw [if_neg hf, if_neg hf]
        exact congrArg₂ List.cons (text_terminated m) (ih [] replies.tail)
    · have hm : text m ++ [b] = text (m ++ [(c, b)]) := by simp [text]
      have hlen : (text m).length = m.length := List.length_map _
      rw [if_neg hb, if_neg hb, hlen, hm]
      by_cases hl : m.length < p.msgInLenMax
      · rw [if_pos hl, if_pos hl]
        exact ih _ replies
      · rw [if_neg hl, if_neg hl]
        by_cases hf : replies.headD .sent = .failed
        · rw [if_pos hf, if_pos hf]
          rfl
        · rw [if_neg hf, if_neg hf]
          exact ih [] replies.tail

theorem step_strings (p : ConnParams) (s : Conn) (e : Event) :
    (s.step p e).strings = s.strings ++ (s.answer p e).filterMap Answer.string := by
  have hserved : ∀ c (r : Read) replies, (s.dataEventHandle p c r replies).strings =
      s.strings ++ (dataAnswers p (text s.msgIn) r.input replies).filterMap Answer.string := by
    intro c r replies
    rw [← dataLoop_strings p c]
    simp [Conn.strings, Conn.dataEventHandle]
  cases e with
  | pollForConn joined => exact (List.append_nil _).symm
  | pollForMsg c input hangup =>
    by_cases hc : c ∈ s.group
    · cases input with
      | none =>
        unfold Conn.step Conn.answer
        dsimp only
        rw [if_pos hc]
        cases hangup <;> exact (List.append_nil _).symm
      | some input =>
        obtain ⟨r, replies⟩ := input
        unfold Conn.step Conn.answer
        dsimp only
        rw [if_pos hc, if_pos hc, ← hserved c r replies]
        cases hangup <;> rfl
    · unfold Conn.step
      dsimp only
      rw [if_neg hc]
      cases input with
      | none => exact (List.append_nil _).symm
      | some input =>
        unfold Conn.answer
        dsimp only
        rw [if_neg hc]
        exact (List.append_nil _).symm

theorem run_strings (p : ConnParams) (s : Conn) (es : List Event) :
    (run (Conn.step p) s es).strings =
      s.strings ++ (s.answers p es).filterMap Answer.string := by
  induction es generalizing s with
  | nil => exact (List.append_nil _).symm
  | cons e es ih =>
    rw [run_cons, ih, step_strings, Conn.answers, List.filterMap_append, List.append_assoc]

/-! ## The answers to a stream -/

/-- The too-long messages for a line. -/
def overlong (max : Nat) (l : List UInt8) : List Answer :=
  List.replicate (l.length / (max + 1)) .tooLong

/-- What is left of a line in the buffer. -/
def kept (max : Nat) (l : List UInt8) : List UInt8 := l.drop (l.length / (max + 1) * (max + 1))

def lineAnswers (max : Nat) (l : List UInt8) : List Answer :=
  overlong max l ++ [.handled (cString (kept max l))]

theorem length_kept (max : Nat) (l : List UInt8) : (kept max l).length = l.length % (max + 1) := by
  rw [kept, List.length_drop, Nat.mod_eq_sub_div_mul]

theorem kept_short {max : Nat} {l : List UInt8} (h : l.length ≤ max) : kept max l = l := by
  rw [kept, Nat.div_eq_of_lt (Nat.lt_succ_of_le h), Nat.zero_mul, List.drop_zero]

theorem overlong_short {max : Nat} {l : List UInt8} (h : l.length ≤ max) :
    overlong max l = [] := by
  rw [overlong, Nat.div_eq_of_lt (Nat.lt_succ_of_le h), List.replicate_zero]

theorem overlong_strings (max : Nat) (l : List UInt8) :
    (overlong max l).filterMap Answer.string = [] := by
  refine List.filterMap_eq_nil_iff.mpr ?_
  intro a ha
  rw [List.eq_of_mem_replicate ha]
  rfl

theorem lineAnswers_strings (max : Nat) (l : List UInt8) :
    (lineAnswers max l).filterMap Answer.string = [cString (kept max l)] := by
  rw [lineAnswers, List.filterMap_append, overlong_strings]
  rfl

/-- A byte that the buffer has room for. -/
theorem line_room {max : Nat} {l : List UInt8} (h : (kept max l).length < max) (b : UInt8) :
    overlong max (l ++ [b]) = overlong max l ∧ kept max (l ++ [b]) = kept max l ++ [b] := by
  rw [length_kept] at h
  have hdiv : (l ++ [b]).length / (max + 1) = l.length / (max + 1) := by
    rw [List.length_append, List.length_singleton, Nat.succ_div_of_not_dvd]
    intro hd
    have hm : (l.length % (max + 1) + 1) % (max + 1) = 0 := by
      rw [Nat.mod_add_mod]
      exact Nat.mod_eq_zero_of_dvd hd
    rw [Nat.mod_eq_of_lt (Nat.succ_lt_succ h)] at hm
    cases hm
  have hle : l.length / (max + 1) * (max + 1) ≤ l.length := Nat.div_mul_le_self _ _
  unfold overlong kept
  rw [hdiv, List.drop_append_of_le_length hle]
  exact ⟨rfl, rfl⟩

/-- A byte that it has no room for is dropped with the line so far. -/
theorem line_full {max : Nat} {l : List UInt8} (h : ¬(kept max l).length < max) (b : UInt8) :
    overlong max (l ++ [b]) = overlong max l ++ [.tooLong] ∧ kept max (l ++ [b]) = [] := by
  rw [length_kept] at h
  have hmod : l.length % (max + 1) = max :=
    Nat.le_antisymm (Nat.le_of_lt_succ (Nat.mod_lt _ max.succ_pos)) (Nat.le_of_not_lt h)
  have hd : max + 1 ∣ l.length + 1 := by
    refine Nat.dvd_of_mod_eq_zero ?_
    rw [← Nat.mod_add_mod, hmod, Nat.mod_self]
  have hdiv : (l ++ [b]).length / (max + 1) = l.length / (max + 1) + 1 := by
    rw [List.length_append, List.length_singleton, Nat.succ_div_of_dvd hd]
  have hkept : kept max (l ++ [b]) = [] := by
    refine List.eq_nil_of_length_eq_zero ?_
    rw [length_kept, List.length_append, List.length_singleton]
    exact Nat.mod_eq_zero_of_dvd hd
  refine ⟨?_, hkept⟩
  unfold overlong
  rw [hdiv, List.replicate_succ']

/-- One chunk, from the open line `r`, when every response is written. -/
theorem dataAnswers_lines (p : ConnParams) (c : Client) (r bs : List UInt8)
    {replies : List Reply} (hw : .failed ∉ replies) :
    let t := feedAll newline ⟨[], r⟩ bs
    overlong p.msgInLenMax r ++ dataAnswers p (kept p.msgInLenMax r) bs replies =
        t.done.flatMap (lineAnswers p.msgInLenMax) ++ overlong p.msgInLenMax t.rest ∧
      (dataLoop p c (tag c (kept p.msgInLenMax r)) bs replies).msgIn =
        tag c (kept p.msgInLenMax t.rest) := by
  induction bs generalizing r replies with
  | nil => exact ⟨List.append_nil _, rfl⟩
  | cons b bs ih =>
    have hhead : ¬replies.headD .sent = .failed := by
      intro hf
      cases replies with
      | nil => cases hf
      | cons a _ => exact hw (hf ▸ by simp)
    have htail : Reply.failed ∉ replies.tail := fun hm => hw (List.mem_of_mem_tail hm)
    intro t
    show _ = (feedAll newline ⟨[], r⟩ (b :: bs)).done.flatMap _ ++ _ ∧ _
    unfold dataAnswers dataLoop
    by_cases hb : b = newline
    · subst hb
      have ht : t = ⟨[r] ++ (feedAll newline ⟨[], []⟩ bs).done,
          (feedAll newline ⟨[], []⟩ bs).rest⟩ := by
        rw [← feedAll_done]
        rfl
      obtain ⟨hans, hmsg⟩ := ih [] htail
      rw [overlong_short (Nat.zero_le _), kept_short (Nat.zero_le _), List.nil_append] at hans
      rw [kept_short (Nat.zero_le _)] at hmsg
      rw [if_pos rfl, if_pos rfl, if_neg hhead, if_neg hhead, hans]
      show _ = t.done.flatMap _ ++ overlong _ t.rest ∧ _
      rw [ht]
      refine ⟨?_, hmsg⟩
      rw [List.flatMap_append, List.flatMap_singleton, lineAnswers]
      simp only [List.append_assoc, List.cons_append, List.nil_append]
    · have ht : t = feedAll newline ⟨[], r ++ [b]⟩ bs := by
        show feedAll newline ⟨[], r⟩ (b :: bs) = _
        rw [feedAll_cons, feed_other hb]
      rw [if_neg hb, if_neg hb, length_tag]
      show _ = t.done.flatMap _ ++ overlong _ t.rest ∧ _
      rw [ht]
      by_cases hl : (kept p.msgInLenMax r).length < p.msgInLenMax
      · obtain ⟨hans, hkept⟩ := line_room hl b
        have hmsg := ih (r ++ [b]) hw
        rw [hans, hkept, tag_append] at hmsg
        rw [if_pos hl, if_pos hl]
        exact hmsg
      · obtain ⟨hans, hkept⟩ := line_full hl b
        have hmsg := ih (r ++ [b]) htail
        rw [hans, hkept, List.append_assoc] at hmsg
        rw [if_neg hl, if_neg hl, if_neg hhead, if_neg hhead]
        exact hmsg

theorem answers_chunks (p : ConnParams) {s : Conn} {c : Client} {r : List UInt8}
    (hc : c ∈ s.group) (hr : s.msgIn = tag c (kept p.msgInLenMax r))
    {chunks : List (List UInt8 × List Reply)} (hw : ∀ ch ∈ chunks, Reply.failed ∉ ch.2) :
    let t := feedAll newline ⟨[], r⟩ (chunks.map (·.1)).flatten
    overlong p.msgInLenMax r ++ s.answers p
        (chunks.map fun ch => .pollForMsg c (some (.bytes ch.1, ch.2)) false) =
      t.done.flatMap (lineAnswers p.msgInLenMax) ++ overlong p.msgInLenMax t.rest := by
  induction chunks generalizing s r with
  | nil => exact List.append_nil _
  | cons ch chunks ih =>
    obtain ⟨hans, hmsg⟩ := dataAnswers_lines p c r ch.1 (hw ch (by simp))
    rw [← hr] at hmsg
    have hstep : s.step p (.pollForMsg c (some (.bytes ch.1, ch.2)) false) =
        s.dataEventHandle p c (.bytes ch.1) ch.2 := if_pos hc
    have hanswer : s.answer p (.pollForMsg c (some (.bytes ch.1, ch.2)) false) =
        dataAnswers p (kept p.msgInLenMax r) ch.1 ch.2 := by
      rw [← text_tag c (kept p.msgInLenMax r), ← hr]
      exact if_pos hc
    have hrest := ih (s := s.dataEventHandle p c (.bytes ch.1) ch.2) hc hmsg
      fun ch' h => hw ch' (List.mem_cons_of_mem _ h)
    intro t
    have ht : t = _ := feedAll_cut r ch.1 (chunks.map (·.1)).flatten
    rw [ht, List.map_cons, Conn.answers, hanswer, hstep, ← List.append_assoc, hans,
      List.append_assoc, hrest, List.flatMap_append, List.append_assoc]

/-- What a client is served with, whatever the cut. -/
theorem oneClient_answers (p : ConnParams) {chunks : List (List UInt8 × List Reply)}
    (hw : ∀ ch ∈ chunks, Reply.failed ∉ ch.2) :
    let t := split newline (chunks.map (·.1)).flatten
    Conn.init.answers p (oneClient chunks) =
      t.done.flatMap (lineAnswers p.msgInLenMax) ++ overlong p.msgInLenMax t.rest := by
  have hgroup : 0 ∈ (Conn.init.step p (.pollForConn true)).group := by
    simp [Conn.step, Conn.init]
  have hopen : kept p.msgInLenMax [] = [] := kept_short (Nat.zero_le _)
  have hans := answers_chunks p hgroup (r := []) (by rw [hopen]; rfl) hw
  rw [overlong_short (Nat.zero_le _), List.nil_append] at hans
  exact hans

/-- One string for each line, whatever its length. -/
theorem oneClient_strings (p : ConnParams) {chunks : List (List UInt8 × List Reply)}
    (hw : ∀ ch ∈ chunks, Reply.failed ∉ ch.2) :
    (run (Conn.step p) Conn.init (oneClient chunks)).strings =
      (split newline (chunks.map (·.1)).flatten).done.map
        fun l => cString (kept p.msgInLenMax l) := by
  rw [run_strings, oneClient_answers p hw, List.filterMap_append, overlong_strings,
    List.append_nil, List.filterMap_flatMap]
  simp only [lineAnswers_strings]
  exact List.map_eq_flatMap.symm

/-! ## Which streams are served line by line -/

theorem cString_eq {l : List UInt8} : cString l = l ↔ 0 ∉ l := by
  unfold cString
  rw [List.takeWhile_eq_self_iff]
  constructor
  · intro h hm
    exact of_decide_eq_true (h 0 hm) rfl
  · intro h b hb
    exact decide_eq_true fun h0 => h (h0 ▸ hb)

theorem lineAnswers_short {max : Nat} {l : List UInt8} (hl : l.length ≤ max) (h0 : 0 ∉ l) :
    lineAnswers max l = [.handled l] := by
  rw [lineAnswers, overlong_short hl, kept_short hl, cString_eq.mpr h0]
  rfl

/-- Overlong lines are rejected as a whole exactly when there are none, and then the lines
come through if they hold no NUL. -/
theorem rejectsWhole_iff (p : ConnParams) (chunks : List (List UInt8 × List Reply))
    (hw : ∀ ch ∈ chunks, Reply.failed ∉ ch.2) :
    RejectsWhole p (oneClient chunks) (chunks.map (·.1)).flatten ↔
      ∀ l ∈ (split newline (chunks.map (·.1)).flatten).done,
        l.length ≤ p.msgInLenMax ∧ 0 ∉ l := by
  have hstrings := oneClient_strings p hw
  have hanswers := oneClient_answers p hw
  constructor
  · intro h
    have hpassed := h.passed
    rw [hstrings] at hpassed
    -- a string for every line, so every line is one of those that fit
    have hlen := congrArg List.length hpassed
    rw [List.length_map, eq_comm, List.length_filter_eq_length_iff] at hlen
    have hshort : ∀ l ∈ (split newline (chunks.map (·.1)).flatten).done,
        l.length ≤ p.msgInLenMax := fun l hl => of_decide_eq_true (hlen l hl)
    rw [List.filter_eq_self.mpr hlen] at hpassed
    intro l hl
    refine ⟨hshort l hl, ?_⟩
    have hid : cString (kept p.msgInLenMax l) = l :=
      List.map_inj_left.mp (hpassed.trans (List.map_id _).symm) l hl
    rw [kept_short (hshort l hl)] at hid
    exact cString_eq.mp hid
  · intro h
    have hmap : ∀ l ∈ (split newline (chunks.map (·.1)).flatten).done,
        lineAnswers p.msgInLenMax l = [.handled l] := by
      intro l hl
      exact lineAnswers_short (h l hl).1 (h l hl).2
    refine ⟨?_, (split newline (chunks.map (·.1)).flatten).done.map (lineAnswers p.msgInLenMax),
      overlong p.msgInLenMax (split newline (chunks.map (·.1)).flatten).rest, ?_, ?_,
      overlong_strings p.msgInLenMax _⟩
    · rw [hstrings, List.filter_eq_self.mpr fun l hl => decide_eq_true (h l hl).1]
      refine (List.map_congr_left ?_).trans (List.map_id _)
      intro l hl
      rw [kept_short (h l hl).1, cString_eq.mpr (h l hl).2]
      rfl
    · rw [hanswers, List.flatMap_def]
    · refine List.forall₂_map_right_iff.mpr (List.forall₂_same.mpr ?_)
      intro l hl
      unfold Answered
      rw [if_pos (h l hl).1]
      exact hmap l hl

/-- Two lines, cut inside the first. -/
theorem rejectsWhole_iff_short :
    RejectsWhole ⟨3, by decide, by decide, id⟩ (oneClient [([97, 98], []), ([99, 10, 100, 10], [.sent])])
        [97, 98, 99, 10, 100, 10] ↔
      ∀ l ∈ (split newline [97, 98, 99, 10, 100, 10]).done, l.length ≤ 3 ∧ 0 ∉ l :=
  rejectsWhole_iff ⟨3, by decide, by decide, id⟩ [([97, 98], []), ([99, 10, 100, 10], [.sent])] (by decide)

/-- Three bytes fit the buffer; the tail `e` of `abcde` is run. -/
theorem rejectsWhole_broken :
    ¬∀ (p : ConnParams) (chunks : List (List UInt8 × List Reply)),
      (∀ ch ∈ chunks, Reply.failed ∉ ch.2) →
        RejectsWhole p (oneClient chunks) (chunks.map (·.1)).flatten := by
  intro h
  have hp := (h ⟨3, by decide, by decide, id⟩ [([97, 98], []), ([99, 100, 101, 10], [.sent])]
    (by decide)).passed
  exact absurd hp (by decide +kernel)

end P4Switch.App
