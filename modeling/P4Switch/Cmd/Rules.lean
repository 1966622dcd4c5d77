import P4Switch.Cmd.Session

/-! # What the steps of a handler do

The rules for `Holds`, one for each step that the handlers are made of. A token that is there
is read. -/
namespace P4Switch.Cmd
open P4Switch.Lib.EarlyExit

variable {α : Type} {Q : α → Session → Prop} {E : Exit → Session → Prop} {s : Session}

/-- A session that has written one more message. -/
def Session.wrote (s : Session) (msg : String) : Session := { s with out := s.out ++ [msg] }

@[simp] theorem Session.wrote_streams (s : Session) (msg : String) :
    (s.wrote msg).streams = s.streams := rfl

theorem Session.wrote_out_ne {s s' : Session} (h : s'.out = s.out) (msg : String) :
    (s'.wrote msg).out ≠ s.out := by
  unfold Session.wrote
  rw [h]
  exact fun hsame => List.cons_ne_nil _ _ (List.self_eq_append_right.mp hsame.symm)

@[simp] theorem holds_reply (msg : String) {Q : Unit → Session → Prop} :
    Holds (reply msg) Q E s ↔ Q () (s.wrote msg) := Iff.rfl

@[simp] theorem holds_fail (msg : String) :
    Holds (fail msg : Handler α) Q E s ↔ E .returned (s.wrote msg) := by
  simp [fail]

@[simp] theorem holds_replyIf (c : Prop) [Decidable c] (msg : String) {Q : Unit → Session → Prop} :
    Holds (replyIf c msg) Q E s ↔ (c → Q () (s.wrote msg)) ∧ (¬c → Q () s) := by
  simp [replyIf]

@[simp] theorem holds_require (c : Prop) [Decidable c] (msg : String)
    {Q : Unit → Session → Prop} :
    Holds (require c msg) Q E s ↔ (c → Q () s) ∧ (¬c → E .returned (s.wrote msg)) := by
  simp [require]

/-! ## Tokens -/

section
variable {ts : List Token} {k : Nat}

@[simp] theorem holds_token (hk : k < ts.length) {Q : Token → Session → Prop} :
    Holds (token ts k) Q E s ↔ Q ts[k] s := by
  unfold token
  rw [List.getElem?_eq_getElem hk]
  exact Iff.rfl

@[simp] theorem holds_mismatch (hk : 0 < ts.length) :
    Holds (mismatch ts : Handler α) Q E s ↔
      E .returned (s.wrote (msgArgMismatch ts[0].text)) := by
  simp [mismatch, hk]

@[simp] theorem holds_tokenIs (hk : k < ts.length) (w : String) {Q : Bool → Session → Prop} :
    Holds (tokenIs ts k w) Q E s ↔ Q (ts[k] = word w) s := by
  simp [tokenIs, hk]

@[simp] theorem holds_keyword (hk : k < ts.length) (w : String) {Q : Unit → Session → Prop} :
    Holds (keyword ts k w) Q E s ↔
      (ts[k] = word w → Q () s) ∧
        (ts[k] ≠ word w → E .returned (s.wrote (msgArgNotFound w))) := by
  simp [keyword, hk]

@[simp] theorem holds_keywords_nil (name : String) {Q : Unit → Session → Prop} :
    Holds (keywords ts [] name) Q E s ↔ Q () s := Iff.rfl

@[simp] theorem holds_keywords_cons (hk : k < ts.length) (w : String) (kws : List (Nat × String))
    (name : String) {Q : Unit → Session → Prop} :
    Holds (keywords ts ((k, w) :: kws) name) Q E s ↔
      (ts[k] = word w → Holds (keywords ts kws name) Q E s) ∧
        (ts[k] ≠ word w → E .returned (s.wrote (msgArgNotFound name))) := by
  show Holds ((do
    let t ← token ts k
    require (t = word w) (msgArgNotFound name)) >>= fun _ => keywords ts kws name) Q E s ↔ _
  simp [hk]

@[simp] theorem holds_number (read : List UInt8 → Except NumError Nat) (hk : k < ts.length)
    (name : String) {Q : Nat → Session → Prop} :
    Holds (number read ts k name) Q E s ↔
      (∀ n, read ts[k] = .ok n → Q n s) ∧
        ((∀ n, read ts[k] ≠ .ok n) → E .returned (s.wrote (msgArgInvalid name))) := by
  unfold number
  rw [holds_bind, holds_token hk]
  cases h : read ts[k] <;> simp

@[simp] theorem holds_found (find : Obj → Name → Option Nat) (hk : k < ts.length) (msg : String)
    {Q : Nat → Session → Prop} :
    Holds (found find ts k msg) Q E s ↔
      (∀ i, find s.obj ts[k] = some i → Q i s) ∧
        (find s.obj ts[k] = none → E .returned (s.wrote msg)) := by
  unfold found
  rw [holds_bind, holds_token hk, holds_bind, holds_get]
  cases h : find s.obj ts[k] <;> simp

@[simp] theorem holds_builtPipeline (hk : k < ts.length) {Q : Nat → Session → Prop} :
    Holds (builtPipeline ts k) Q E s ↔
      (∀ i, pipelineFind s.obj ts[k] = some i → s.obj.isBuilt i = true → Q i s) ∧
        (∀ i, pipelineFind s.obj ts[k] = some i → s.obj.isBuilt i = false →
          E .returned (s.wrote (msgArgInvalid "pipeline_name"))) ∧
        (pipelineFind s.obj ts[k] = none →
          E .returned (s.wrote (msgArgInvalid "pipeline_name"))) := by
  unfold builtPipeline
  simp only [holds_bind, holds_found _ hk, holds_get, holds_require, holds_pure]
  cases pipelineFind s.obj ts[k] <;> simp

@[simp] theorem holds_openPipeline (h0 : 0 < ts.length) (hk : k < ts.length)
    {Q : Nat → Session → Prop} :
    Holds (openPipeline ts k) Q E s ↔
      (∀ i, pipelineFind s.obj ts[k] = some i → s.obj.isBuilt i = false → Q i s) ∧
        (∀ i, pipelineFind s.obj ts[k] = some i → s.obj.isBuilt i = true →
          E .returned (s.wrote (msgArgInvalid ts[0].text))) ∧
        (pipelineFind s.obj ts[k] = none →
          E .returned (s.wrote (msgArgInvalid ts[0].text))) := by
  unfold openPipeline
  simp only [holds_bind, holds_token h0, holds_found _ hk, holds_get, holds_require, holds_pure]
  cases pipelineFind s.obj ts[k] <;> simp

end

@[simp] theorem holds_create (f : Obj → Option Nat × Obj) (msg : String)
    {Q : Unit → Session → Prop} :
    Holds (create f msg) Q E s ↔
      ((f s.obj).1 ≠ none → Q () { s with obj := (f s.obj).2 }) ∧
        ((f s.obj).1 = none → E .returned (Session.wrote { s with obj := (f s.obj).2 } msg)) := by
  simp [create]

/-! ## Streams -/

/-- A session in which one more file is open. -/
def Session.opening (s : Session) : Session :=
  { s with streams := .file s.opened :: s.streams, opened := s.opened + 1 }

@[simp] theorem Session.opening_streams (s : Session) :
    s.opening.streams = .file s.opened :: s.streams := rfl

@[simp] theorem Session.opening_obj (s : Session) : s.opening.obj = s.obj := rfl

@[simp] theorem holds_openFile (env : Env) (name : Token) (mode : FileMode)
    {Q : Stream → Session → Prop} :
    Holds (openFile env name mode) Q E s ↔
      (env.fopen name mode = true → Q (.file s.opened) s.opening) ∧
        (env.fopen name mode = false → E .returned (s.wrote (msgCannotOpen name))) := by
  simp [openFile, Session.opening]

@[simp] theorem holds_useStream (st : Stream) {Q : Unit → Session → Prop} :
    Holds (useStream st) Q E s ↔
      (st ∈ s.streams → Q () s) ∧ (st ∉ s.streams → E (.fault .stream) s) := by
  simp [useStream]

/-- A session in which a stream has been closed. -/
def Session.closing (s : Session) (st : Stream) : Session :=
  { s with streams := s.streams.erase st }

@[simp] theorem Session.closing_streams (s : Session) (st : Stream) :
    (s.closing st).streams = s.streams.erase st := rfl

@[simp] theorem holds_fclose (st : Stream) {Q : Unit → Session → Prop} :
    Holds (fclose st) Q E s ↔
      (st ∈ s.streams → Q () (s.closing st)) ∧ (st ∉ s.streams → E (.fault .stream) s) := by
  simp [fclose, Session.closing]

end P4Switch.Cmd
