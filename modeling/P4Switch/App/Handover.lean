import P4Switch.App.Thread
import P4Switch.Lib.GuardedRun

/-! # Messages between the control thread and a data-plane thread

`thread_msg_send_recv` on one side, the loop of `thread_msg_handle` on the other, two
rings between them. A step is one ring operation, or what a side does with the message it
has in hand; any interleaving of steps is a run. -/
namespace P4Switch.App
open P4Switch.Lib.GuardedRun

/-- The buffer request and response share: the first word is the request's type, later
the response's status. -/
structure Msg where
  first : Int
  p : SwxPipeline
  timerPeriodMs : UInt32

/-- The request as written by the caller. -/
def ThreadMsgReq.msg : ThreadMsgReq → Msg
  | .pipelineEnable p timer_period_ms => ⟨0, p, timer_period_ms⟩
  | .pipelineDisable p => ⟨1, p, 0⟩
  | .other => ⟨2, 0, 0⟩

/-- The request as read by the `switch` on its type. -/
def Msg.req (m : Msg) : ThreadMsgReq :=
  if m.first = 0 then .pipelineEnable m.p m.timerPeriodMs
  else if m.first = 1 then .pipelineDisable m.p
  else .other

theorem msg_req (r : ThreadMsgReq) : r.msg.req = r := by
  cases r <;> rfl

/-- Where `thread_msg_send_recv` and its caller are. -/
inductive Control where
  | idle
  | sending (req : Nat)
  | receiving
  | received (rsp : Nat)
  deriving DecidableEq

/-- Where the loop of `thread_msg_handle` is. -/
inductive Loop where
  | polling
  | handling (req : Nat)
  | responding (rsp : Nat)
  deriving DecidableEq

/-- The two rings, the buffers and both threads. The last four fields record the calls
that met a full ring, the requests made, the requests handled with their status, and the
statuses returned to callers, latest first; nothing reads them. -/
structure Link where
  heap : Nat → Option Msg
  msgqReq : List Nat
  msgqRsp : List Nat
  control : Control
  loop : Loop
  td : ThreadData
  enobufs : Nat
  requests : List ThreadMsgReq
  handled : List (ThreadMsgReq × Int)
  received : List Int

inductive Turn where
  /-- The control thread makes a request, in the buffer at `ptr`. -/
  | call (r : ThreadMsgReq) (ptr : Nat)
  | control
  | data (now : UInt64)

/-- Rings of capacity `cap` between the two threads. -/
structure Rings where
  req : Nat
  rsp : Nat

/-- The control thread inside a call: `rte_ring_sp_enqueue`, `rte_ring_sc_dequeue`, or the
reading and freeing of the response. -/
def Link.controlStep (cap : Rings) (s : Link) : Link :=
  match s.control with
  | .idle => s
  | .sending ptr =>
    if s.msgqReq.length < cap.req then
      { s with msgqReq := s.msgqReq ++ [ptr], control := .receiving }
    else { s with enobufs := s.enobufs + 1 }
  | .receiving =>
    match s.msgqRsp with
    | [] => s
    | ptr :: rest => { s with msgqRsp := rest, control := .received ptr }
  | .received ptr =>
    match s.heap ptr with
    | none => s
    | some m =>
      { s with
        heap := Function.update s.heap ptr none
        control := .idle
        received := m.first :: s.received }

/-- The data-plane thread: `thread_msg_recv`, the handler, `thread_msg_send`. -/
def Link.dataStep (c : Platform) (cap : Rings) (now : UInt64) (s : Link) : Link :=
  match s.loop with
  | .polling =>
    match s.msgqReq with
    | [] => s
    | ptr :: rest => { s with msgqReq := rest, loop := .handling ptr }
  | .handling ptr =>
    match s.heap ptr with
    | none => s
    | some m =>
      let (td, status) := threadMsgHandle c s.td now m.req
      { s with
        td := td
        heap := Function.update s.heap ptr (some { m with first := status })
        loop := .responding ptr
        handled := (m.req, status) :: s.handled }
  | .responding ptr =>
    if s.msgqRsp.length < cap.rsp then
      { s with msgqRsp := s.msgqRsp ++ [ptr], loop := .polling }
    else { s with enobufs := s.enobufs + 1 }

/-- A new call waits until the last one has returned; `calloc` gives a buffer not in use. -/
def Link.step (c : Platform) (cap : Rings) (s : Link) : Turn → Link
  | .call r ptr =>
    if s.control = .idle ∧ s.heap ptr = none then
      { s with
        heap := Function.update s.heap ptr (some r.msg)
        control := .sending ptr
        requests := r :: s.requests }
    else s
  | .control => s.controlStep cap
  | .data now => s.dataStep c cap now

def Link.init (td : ThreadData) : Link where
  heap := fun _ => none
  msgqReq := []
  msgqRsp := []
  control := .idle
  loop := .polling
  td := td
  enobufs := 0
  requests := []
  handled := []
  received := []

section
variable {c : Platform} {cap : Rings} {s : Link}

/-! ## Where the message is -/

/-- The one message in flight is in exactly one place. -/
inductive Phase (s : Link) : Prop
  | idle (control : s.control = .idle) (loop : s.loop = .polling) (req : s.msgqReq = [])
      (rsp : s.msgqRsp = []) (requests : s.requests = s.handled.map Prod.fst)
      (received : s.handled.map Prod.snd = s.received)
  | sending (ptr : Nat) (r : ThreadMsgReq) (control : s.control = .sending ptr)
      (loop : s.loop = .polling) (req : s.msgqReq = []) (rsp : s.msgqRsp = [])
      (heap : s.heap ptr = some r.msg) (requests : s.requests = r :: s.handled.map Prod.fst)
      (received : s.handled.map Prod.snd = s.received)
  | queued (ptr : Nat) (r : ThreadMsgReq) (control : s.control = .receiving)
      (loop : s.loop = .polling) (req : s.msgqReq = [ptr]) (rsp : s.msgqRsp = [])
      (heap : s.heap ptr = some r.msg) (requests : s.requests = r :: s.handled.map Prod.fst)
      (received : s.handled.map Prod.snd = s.received)
  | handling (ptr : Nat) (r : ThreadMsgReq) (control : s.control = .receiving)
      (loop : s.loop = .handling ptr) (req : s.msgqReq = []) (rsp : s.msgqRsp = [])
      (heap : s.heap ptr = some r.msg) (requests : s.requests = r :: s.handled.map Prod.fst)
      (received : s.handled.map Prod.snd = s.received)
  | responding (ptr : Nat) (m : Msg) (control : s.control = .receiving)
      (loop : s.loop = .responding ptr) (req : s.msgqReq = []) (rsp : s.msgqRsp = [])
      (heap : s.heap ptr = some m) (requests : s.requests = s.handled.map Prod.fst)
      (received : s.handled.map Prod.snd = m.first :: s.received)
  | answered (ptr : Nat) (m : Msg) (control : s.control = .receiving)
      (loop : s.loop = .polling) (req : s.msgqReq = []) (rsp : s.msgqRsp = [ptr])
      (heap : s.heap ptr = some m) (requests : s.requests = s.handled.map Prod.fst)
      (received : s.handled.map Prod.snd = m.first :: s.received)
  | received (ptr : Nat) (m : Msg) (control : s.control = .received ptr)
      (loop : s.loop = .polling) (req : s.msgqReq = []) (rsp : s.msgqRsp = [])
      (heap : s.heap ptr = some m) (requests : s.requests = s.handled.map Prod.fst)
      (received : s.handled.map Prod.snd = m.first :: s.received)

/-- One message at a time, and no enqueue has met a full ring. -/
structure LinkInv (s : Link) : Prop where
  phase : Phase s
  enobufs : s.enobufs = 0

theorem linkInv_init (td : ThreadData) : LinkInv (Link.init td) :=
  ⟨.idle rfl rfl rfl rfl rfl rfl, rfl⟩

/-- Steps until the call in progress returns, waiting not counted. -/
def Link.left (s : Link) : Nat :=
  match s.control with
  | .idle => 0
  | .received _ => 1
  | .sending _ => 6
  | .receiving =>
    match s.loop with
    | .responding _ => 3
    | .handling _ => 4
    | .polling => if s.msgqReq = [] then 2 else 5

/-- The side that has to move next: the data-plane thread from the request ring to the
response ring, the control thread otherwise. -/
def dataTurn (left : Nat) : Bool := 3 ≤ left && left ≤ 5

/-- What a step does to a call in progress, with `mine` telling whether the side that has
to move is the one that stepped. -/
structure Moves (s s' : Link) (mine : Bool) : Prop where
  inv : LinkInv s'
  requests : s'.requests = s.requests
  left : s'.left = if mine ∧ s.left ≠ 0 then s.left - 1 else s.left

theorem LinkInv.controlStep (hc : 1 ≤ cap.req) (h : LinkInv s) :
    Moves s (s.controlStep cap) (!dataTurn s.left) := by
  obtain ⟨hp, he⟩ := h
  cases hp with
  | idle control loop req rsp requests received =>
    have e : s.controlStep cap = s := by simp [Link.controlStep, control]
    rw [e]
    exact ⟨⟨.idle control loop req rsp requests received, he⟩, rfl, by simp [Link.left, control]⟩
  | sending ptr r control loop req rsp heap requests received =>
    have e : s.controlStep cap = { s with msgqReq := [ptr], control := .receiving } := by
      have hlen : 0 < cap.req := hc
      simp [Link.controlStep, control, req, hlen]
    rw [e]
    exact ⟨⟨.queued ptr r rfl loop rfl rsp heap requests received, he⟩, rfl,
      by simp [Link.left, control, loop, dataTurn]⟩
  | queued ptr r control loop req rsp heap requests received =>
    have e : s.controlStep cap = s := by simp [Link.controlStep, control, rsp]
    rw [e]
    exact ⟨⟨.queued ptr r control loop req rsp heap requests received, he⟩, rfl,
      by simp [Link.left, control, loop, req, dataTurn]⟩
  | handling ptr r control loop req rsp heap requests received =>
    have e : s.controlStep cap = s := by simp [Link.controlStep, control, rsp]
    rw [e]
    exact ⟨⟨.handling ptr r control loop req rsp heap requests received, he⟩, rfl,
      by simp [Link.left, control, loop, dataTurn]⟩
  | responding ptr m control loop req rsp heap requests received =>
    have e : s.controlStep cap = s := by simp [Link.controlStep, control, rsp]
    rw [e]
    exact ⟨⟨.responding ptr m control loop req rsp heap requests received, he⟩, rfl,
      by simp [Link.left, control, loop, dataTurn]⟩
  | answered ptr m control loop req rsp heap requests received =>
    have e : s.controlStep cap = { s with msgqRsp := [], control := .received ptr } := by
      simp [Link.controlStep, control, rsp]
    rw [e]
    exact ⟨⟨.received ptr m rfl loop req rfl heap requests received, he⟩, rfl,
      by simp [Link.left, control, loop, req, dataTurn]⟩
  | received ptr m control loop req rsp heap requests received =>
    have e : s.controlStep cap = { s with
        heap := Function.update s.heap ptr none
        control := .idle
        received := m.first :: s.received } := by
      simp [Link.controlStep, control, heap]
    rw [e]
    exact ⟨⟨.idle rfl loop req rsp requests received, he⟩, rfl,
      by simp [Link.left, control, dataTurn]⟩

theorem LinkInv.dataStep (hc : 1 ≤ cap.rsp) (h : LinkInv s) (now : UInt64) :
    Moves s (s.dataStep c cap now) (dataTurn s.left) := by
  obtain ⟨hp, he⟩ := h
  cases hp with
  | idle control loop req rsp requests received =>
    have e : s.dataStep c cap now = s := by simp [Link.dataStep, loop, req]
    rw [e]
    exact ⟨⟨.idle control loop req rsp requests received, he⟩, rfl, by simp [Link.left, control]⟩
  | sending ptr r control loop req rsp heap requests received =>
    have e : s.dataStep c cap now = s := by simp [Link.dataStep, loop, req]
    rw [e]
    exact ⟨⟨.sending ptr r control loop req rsp heap requests received, he⟩, rfl,
      by simp [Link.left, control, dataTurn]⟩
  | queued ptr r control loop req rsp heap requests received =>
    have e : s.dataStep c cap now = { s with msgqReq := [], loop := .handling ptr } := by
      simp [Link.dataStep, loop, req]
    rw [e]
    exact ⟨⟨.handling ptr r control rfl rfl rsp heap requests received, he⟩, rfl,
      by simp [Link.left, control, loop, req, dataTurn]⟩
  | handling ptr r control loop req rsp heap requests received =>
    have e : s.dataStep c cap now = { s with
        td := (threadMsgHandle c s.td now r).1
        heap := Function.update s.heap ptr
          (some { r.msg with first := (threadMsgHandle c s.td now r).2 })
        loop := .responding ptr
        handled := (r, (threadMsgHandle c s.td now r).2) :: s.handled } := by
      simp [Link.dataStep, loop, heap, msg_req]
    rw [e]
    refine ⟨⟨.responding ptr { r.msg with first := (threadMsgHandle c s.td now r).2 } control rfl req
      rsp (Function.update_self _ _ _) ?_ ?_, he⟩, rfl, by simp [Link.left, control, loop, dataTurn]⟩
    · simpa using requests
    · simpa using received
  | responding ptr m control loop req rsp heap requests received =>
    have e : s.dataStep c cap now = { s with msgqRsp := [ptr], loop := .polling } := by
      have hlen : 0 < cap.rsp := hc
      simp [Link.dataStep, loop, rsp, hlen]
    rw [e]
    exact ⟨⟨.answered ptr m control rfl req rfl heap requests received, he⟩, rfl,
      by simp [Link.left, control, loop, req, dataTurn]⟩
  | answered ptr m control loop req rsp heap requests received =>
    have e : s.dataStep c cap now = s := by simp [Link.dataStep, loop, req]
    rw [e]
    exact ⟨⟨.answered ptr m control loop req rsp heap requests received, he⟩, rfl,
      by simp [Link.left, control, loop, req, dataTurn]⟩
  | received ptr m control loop req rsp heap requests received =>
    have e : s.dataStep c cap now = s := by simp [Link.dataStep, loop, req]
    rw [e]
    exact ⟨⟨.received ptr m control loop req rsp heap requests received, he⟩, rfl,
      by simp [Link.left, control, dataTurn]⟩

theorem LinkInv.call (h : LinkInv s) (r : ThreadMsgReq) (ptr : Nat) :
    LinkInv (s.step c cap (.call r ptr)) ∧
      (s.step c cap (.call r ptr) = s ∨ (s.step c cap (.call r ptr)).requests = r :: s.requests) := by
  unfold Link.step
  dsimp only
  split
  · rename_i hc
    refine ⟨⟨?_, h.enobufs⟩, .inr rfl⟩
    cases h.phase with
    | idle control loop req rsp requests received =>
      exact .sending ptr r rfl loop req rsp (Function.update_self _ _ _)
        (congrArg (List.cons r) requests) received
    | sending _ _ control | queued _ _ control | handling _ _ control | responding _ _ control
    | answered _ _ control | received _ _ control =>
      rw [control] at hc
      exact absurd hc.1 (by simp)
  · exact ⟨h, .inl rfl⟩

theorem LinkInv.step (hreq : 1 ≤ cap.req) (hrsp : 1 ≤ cap.rsp) (h : LinkInv s) (op : Turn) :
    LinkInv (s.step c cap op) := by
  cases op with
  | call r ptr => exact (h.call r ptr).1
  | control => exact (h.controlStep hreq).inv
  | data now => exact (h.dataStep hrsp now).inv

theorem LinkInv.steps (hreq : 1 ≤ cap.req) (hrsp : 1 ≤ cap.rsp) (h : LinkInv s) (ops : List Turn) :
    LinkInv (run (Link.step c cap) s ops) := by
  induction ops generalizing s with
  | nil => exact h
  | cons op ops ih => exact ih (h.step hreq hrsp op)

/-! ## Exactly once, and to its own caller -/

/-- At most one message is under way; no ring was full; the requests handled are the ones
made, in order, but for the last; the statuses returned are those the handler gave, in
order, but for the last; and between calls every request has been handled once and its
caller has its status. -/
structure ExactlyOnce (s : Link) : Prop where
  single : s.msgqReq.length + s.msgqRsp.length + (if s.loop = .polling then 0 else 1) ≤ 1
  neverFull : s.enobufs = 0
  handled : s.handled.map Prod.fst = s.requests ∨ ∃ r, s.requests = r :: s.handled.map Prod.fst
  returned : s.handled.map Prod.snd = s.received ∨ ∃ st, s.handled.map Prod.snd = st :: s.received
  matched : s.control = .idle → s.handled = s.requests.zip s.received

theorem LinkInv.exactlyOnce (h : LinkInv s) : ExactlyOnce s := by
  obtain ⟨hp, he⟩ := h
  have hzip : ∀ l : List (ThreadMsgReq × Int), l = (l.map Prod.fst).zip (l.map Prod.snd) := by
    intro l
    induction l with
    | nil => rfl
    | cons a l ih => simpa using ih
  cases hp with
  | idle control loop req rsp requests received =>
    refine ⟨by simp [req, rsp, loop], he, .inl requests.symm, .inl received, ?_⟩
    intro _
    rw [requests, ← received]
    exact hzip _
  | sending ptr r control loop req rsp heap requests received =>
    exact ⟨by simp [req, rsp, loop], he, .inr ⟨r, requests⟩, .inl received, by simp [control]⟩
  | queued ptr r control loop req rsp heap requests received =>
    exact ⟨by simp [req, rsp, loop], he, .inr ⟨r, requests⟩, .inl received, by simp [control]⟩
  | handling ptr r control loop req rsp heap requests received =>
    exact ⟨by simp [req, rsp, loop], he, .inr ⟨r, requests⟩, .inl received, by simp [control]⟩
  | responding ptr m control loop req rsp heap requests received =>
    exact ⟨by simp [req, rsp, loop], he, .inl requests.symm, .inr ⟨_, received⟩, by simp [control]⟩
  | answered ptr m control loop req rsp heap requests received =>
    exact ⟨by simp [req, rsp, loop], he, .inl requests.symm, .inr ⟨_, received⟩, by simp [control]⟩
  | received ptr m control loop req rsp heap requests received =>
    exact ⟨by simp [req, rsp, loop], he, .inl requests.symm, .inr ⟨_, received⟩, by simp [control]⟩

/-! ## Every call returns -/

theorem LinkInv.returned_of_left (h : LinkInv s) :
    s.requests.length ≤ s.received.length + 1 ∧
      (s.left = 0 → s.received.length = s.requests.length) := by
  cases h.phase with
  | idle control loop req rsp requests received =>
    have hl := congrArg List.length received
    rw [List.length_map] at hl
    rw [requests, List.length_map]
    exact ⟨by omega, fun _ => hl.symm⟩
  | sending ptr r control loop req rsp heap requests received
  | queued ptr r control loop req rsp heap requests received
  | handling ptr r control loop req rsp heap requests received =>
    have hl := congrArg List.length received
    rw [List.length_map] at hl
    rw [requests, List.length_cons, List.length_map]
    exact ⟨by omega, fun h0 => by simp [Link.left, control, loop, req] at h0⟩
  | responding ptr m control loop req rsp heap requests received
  | answered ptr m control loop req rsp heap requests received
  | received ptr m control loop req rsp heap requests received =>
    have hl := congrArg List.length received
    rw [List.length_map, List.length_cons] at hl
    rw [requests, List.length_map]
    exact ⟨by omega, fun h0 => by simp [Link.left, control, loop, req] at h0⟩

/-- The `k`-th call has returned, or it is the last one and at most `n` steps from it. -/
def Near (k n : Nat) (s : Link) : Prop :=
  LinkInv s ∧ (k < s.requests.length ∨ (s.requests.length = k ∧ s.left ≤ n))

/-- The step is one of the side whose turn it is with `n` steps to go. -/
def Turn.isFor (n : Nat) : Turn → Bool
  | .call _ _ => false
  | .control => !dataTurn n
  | .data _ => dataTurn n

theorem Moves.near {s' : Link} {mine : Bool} (m : Moves s s' mine) {k n : Nat} (h : Near k n s) :
    Near k n s' := by
  refine ⟨m.inv, ?_⟩
  rw [m.requests, m.left]
  refine h.2.imp_right fun ⟨hk, hl⟩ => ⟨hk, ?_⟩
  split <;> omega

theorem Moves.nearer {s' : Link} {mine : Bool} (m : Moves s s' mine) {k n : Nat}
    (h : Near k (n + 1) s) (hmine : s.left = n + 1 → mine = true) : Near k n s' := by
  refine ⟨m.inv, ?_⟩
  rw [m.requests, m.left]
  refine h.2.imp_right fun ⟨hk, hl⟩ => ⟨hk, ?_⟩
  split
  · omega
  · rename_i hn
    by_cases he : s.left = n + 1
    · exact (hn ⟨hmine he, by omega⟩).elim
    · omega

theorem Near.step (hreq : 1 ≤ cap.req) (hrsp : 1 ≤ cap.rsp) {k n : Nat} (h : Near k n s) (op : Turn) :
    Near k n (s.step c cap op) := by
  cases op with
  | control => exact (h.1.controlStep hreq).near h
  | data now => exact (h.1.dataStep hrsp now).near h
  | call r ptr =>
    have hcall : LinkInv (s.step c cap (.call r ptr)) ∧
        (s.step c cap (.call r ptr) = s ∨
          (s.step c cap (.call r ptr)).requests = r :: s.requests) := h.1.call r ptr
    obtain ⟨hi, e | e⟩ := hcall
    · rwa [e]
    · refine ⟨hi, .inl ?_⟩
      rw [e, List.length_cons]
      obtain hk | ⟨hk, -⟩ := h.2 <;> omega

theorem Near.step_turn (hreq : 1 ≤ cap.req) (hrsp : 1 ≤ cap.rsp) {k n : Nat} (h : Near k (n + 1) s)
    {op : Turn} (ht : op.isFor (n + 1) = true) : Near k n (s.step c cap op) := by
  cases op with
  | call r ptr => contradiction
  | control => exact (h.1.controlStep hreq).nearer h fun e => by rw [e]; exact ht
  | data now => exact (h.1.dataStep hrsp now).nearer h fun e => by rw [e]; exact ht

theorem Near.steps (hreq : 1 ≤ cap.req) (hrsp : 1 ≤ cap.rsp) {k n : Nat} (h : Near k n s)
    (ops : List Turn) : Near k n (run (Link.step c cap) s ops) := by
  induction ops generalizing s with
  | nil => exact h
  | cons op ops ih => exact ih (h.step hreq hrsp op)

/-- Steps in which both sides move at least once. -/
def Round (ops : List Turn) : Prop := .control ∈ ops ∧ ∃ now, .data now ∈ ops

theorem Round.exists_turn {ops : List Turn} (h : Round ops) (n : Nat) :
    ∃ op ∈ ops, op.isFor n = true := by
  obtain ⟨hc, now, hd⟩ := h
  cases hn : dataTurn n with
  | true => exact ⟨_, hd, hn⟩
  | false => exact ⟨_, hc, by simp [Turn.isFor, hn]⟩

theorem Near.steps_turn (hreq : 1 ≤ cap.req) (hrsp : 1 ≤ cap.rsp) {k n : Nat} (h : Near k (n + 1) s)
    {ops : List Turn} (ht : ∃ op ∈ ops, op.isFor (n + 1) = true) :
    Near k n (run (Link.step c cap) s ops) := by
  induction ops generalizing s with
  | nil =>
    obtain ⟨op, hm, -⟩ := ht
    cases hm
  | cons op ops ih =>
    obtain ⟨op', hm, ht'⟩ := ht
    obtain rfl | hm := List.mem_cons.mp hm
    · exact (h.step_turn hreq hrsp ht').steps hreq hrsp ops
    · exact ih (h.step hreq hrsp op) ⟨op', hm, ht'⟩

theorem Near.rounds (hreq : 1 ≤ cap.req) (hrsp : 1 ≤ cap.rsp) {k n : Nat} {rounds : List (List Turn)}
    (hr : ∀ r ∈ rounds, Round r) (hn : n ≤ rounds.length) (h : Near k n s) :
    Near k 0 (run (Link.step c cap) s rounds.flatten) := by
  induction rounds generalizing s n with
  | nil =>
    obtain rfl : n = 0 := Nat.le_zero.mp hn
    exact h
  | cons r rounds ih =>
    rw [List.flatten_cons, run_append]
    have hr' : ∀ r' ∈ rounds, Round r' := fun r' hm => hr r' (List.mem_cons_of_mem _ hm)
    cases n with
    | zero => exact ih hr' (Nat.zero_le _) (h.steps hreq hrsp r)
    | succ n =>
      have hlen : n + 1 ≤ rounds.length + 1 := hn
      exact ih hr' (by omega)
        (h.steps_turn hreq hrsp ((hr r (List.mem_cons_self)).exists_turn (n + 1)))

theorem left_le_six (s : Link) : s.left ≤ 6 := by
  unfold Link.left
  split
  · omega
  · omega
  · omega
  · split
    · omega
    · omega
    · split <;> omega

/-! ## What is made and what is done -/

/-- The request a turn makes, if the control thread takes it. -/
def Link.accepts (s : Link) : Turn → Option ThreadMsgReq
  | .call r ptr => if s.control = .idle ∧ s.heap ptr = none then some r else none
  | _ => none

/-- The requests of the calls taken in a run. -/
def accepted (c : Platform) (cap : Rings) : Link → List Turn → List ThreadMsgReq
  | _, [] => []
  | s, op :: ops => (s.accepts op).toList ++ accepted c cap (s.step c cap op) ops

/-- The thread's data after the handlers of the requests, latest first, from `td₀` on. -/
inductive HandledFrom (c : Platform) (td₀ : ThreadData) :
    List (ThreadMsgReq × Int) → ThreadData → Prop
  | nil : HandledFrom c td₀ [] td₀
  | cons {done : List (ThreadMsgReq × Int)} {td : ThreadData} (h : HandledFrom c td₀ done td)
      (r : ThreadMsgReq) (now : UInt64) :
      HandledFrom c td₀ ((r, (threadMsgHandle c td now r).2) :: done) (threadMsgHandle c td now r).1

theorem requests_step (s : Link) (op : Turn) :
    (s.step c cap op).requests = (s.accepts op).toList ++ s.requests := by
  cases op with
  | call r ptr =>
    unfold Link.step Link.accepts
    dsimp only
    split
    · rfl
    · rfl
  | control =>
    show (s.controlStep cap).requests = s.requests
    unfold Link.controlStep
    split
    · rfl
    · split
      · rfl
      · rfl
    · split
      · rfl
      · rfl
    · split
      · rfl
      · rfl
  | data now =>
    show (s.dataStep c cap now).requests = s.requests
    unfold Link.dataStep
    split
    · split
      · rfl
      · rfl
    · split
      · rfl
      · rfl
    · split
      · rfl
      · rfl

theorem requests_run (s : Link) (ops : List Turn) :
    (run (Link.step c cap) s ops).requests = (accepted c cap s ops).reverse ++ s.requests := by
  induction ops generalizing s with
  | nil => rfl
  | cons op ops ih =>
    have hone : ((s.accepts op).toList).reverse = (s.accepts op).toList := by
      cases s.accepts op <;> rfl
    rw [run_cons, ih, requests_step, accepted, List.reverse_append, hone, List.append_assoc]

theorem HandledFrom.step {td₀ : ThreadData} (h : HandledFrom c td₀ s.handled s.td) (op : Turn) :
    HandledFrom c td₀ (s.step c cap op).handled (s.step c cap op).td := by
  cases op with
  | call r ptr =>
    unfold Link.step
    dsimp only
    split
    · exact h
    · exact h
  | control =>
    show HandledFrom c td₀ (s.controlStep cap).handled (s.controlStep cap).td
    unfold Link.controlStep
    split
    · exact h
    · split
      · exact h
      · exact h
    · split
      · exact h
      · exact h
    · split
      · exact h
      · exact h
  | data now =>
    show HandledFrom c td₀ (s.dataStep c cap now).handled (s.dataStep c cap now).td
    unfold Link.dataStep
    split
    · split
      · exact h
      · exact h
    · split
      · exact h
      · exact h.cons _ now
    · split
      · exact h
      · exact h

theorem HandledFrom.run {td₀ : ThreadData} (h : HandledFrom c td₀ s.handled s.td) (ops : List Turn) :
    HandledFrom c td₀ (run (Link.step c cap) s ops).handled (run (Link.step c cap) s ops).td := by
  induction ops generalizing s with
  | nil => exact h
  | cons op ops ih => exact ih (h.step op)

/-- In every interleaving, with rings of any capacity from one on, messages are handed over
exactly once and matched: the requests are those of the calls taken, and the thread's data is
what their handlers made of it. Once both sides have moved six times, every call made so far
has returned. -/
theorem handover_exactlyOnce (c : Platform) (cap : Rings) (td : ThreadData) (ops : List Turn)
    (hreq : 1 ≤ cap.req) (hrsp : 1 ≤ cap.rsp) :
    ExactlyOnce (run (Link.step c cap) (Link.init td) ops) ∧
    (run (Link.step c cap) (Link.init td) ops).requests =
      (accepted c cap (Link.init td) ops).reverse ∧
    HandledFrom c td (run (Link.step c cap) (Link.init td) ops).handled
      (run (Link.step c cap) (Link.init td) ops).td ∧
    ∀ rounds : List (List Turn), 6 ≤ rounds.length → (∀ r ∈ rounds, Round r) →
      (run (Link.step c cap) (Link.init td) ops).requests.length ≤
        (run (Link.step c cap) (run (Link.step c cap) (Link.init td) ops)
          rounds.flatten).received.length := by
  have h : LinkInv (run (Link.step c cap) (Link.init td) ops) := (linkInv_init td).steps hreq hrsp ops
  have hrequests : (run (Link.step c cap) (Link.init td) ops).requests = _ :=
    requests_run (Link.init td) ops
  refine ⟨h.exactlyOnce, hrequests.trans (List.append_nil _), HandledFrom.run .nil ops, ?_⟩
  intro rounds hlen hr
  have hnear := Near.rounds (c := c) hreq hrsp hr hlen ⟨h, .inr ⟨rfl, left_le_six _⟩⟩
  obtain ⟨hle, h0⟩ := hnear.1.returned_of_left
  obtain hk | ⟨hk, hl⟩ := hnear.2
  · omega
  · rw [h0 (Nat.le_zero.mp hl), hk]

/-- An enable and a disable request, the two sides taking turns on rings of one slot. -/
theorem handover_exactlyOnce_turns :
    ExactlyOnce (run (Link.step ⟨128, 2000000000⟩ ⟨1, 1⟩)
      (Link.init ⟨fun _ => 0, 0, fun _ => ⟨0, 0, 0⟩⟩)
      ([.call (.pipelineEnable 7 10) 100] ++
        (List.replicate 6 [Turn.control, Turn.data 3]).flatten ++ [.call (.pipelineDisable 7) 100])) :=
  (handover_exactlyOnce ⟨128, 2000000000⟩ ⟨1, 1⟩ _ _ (by decide) (by decide)).1

end

end P4Switch.App
