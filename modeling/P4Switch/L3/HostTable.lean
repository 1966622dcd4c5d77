import P4Switch.L3.Steps
import P4Switch.Tables.Visits
import P4Switch.Control.Publication

/-! # The table `ipv4_host`

The hash table behind `table ipv4_host`, its entries read as the actions of the program.
The three visits of a packet end as the program's lookup does, also when the key is
another one at the last visit. -/
namespace P4Switch.L3
open P4Switch.Lib.Memory P4Switch.Lib.Words P4Switch.Tables P4Switch.Control

/-! ## Keys and actions -/

/-- `table_params_get` for `ipv4_host`. -/
def ipv4HostParams : TableParams where
  matchType := .exact
  keySize := 4
  keyOffset := 16
  keyMask0 := some fun _ => 0xFF
  actionDataSize := 8
  nKeysMax := 0x10000

/-- A 32-bit field at `k` in host byte order. -/
def le32 (f : Bytes) (k : Nat) : UInt32 :=
  UInt32.ofNat ((f k).toNat + (f (k + 1)).toNat * 2 ^ 8 + (f (k + 2)).toNat * 2 ^ 16 +
    (f (k + 3)).toNat * 2 ^ 24)

/-- The action of an id, with its arguments: `NoAction` is 0, `send` 1 and `drop_1` 2. -/
def actionOf (actionId : UInt64) (data : Bytes) : Action :=
  if actionId = 1 then .send (le32 data 0) (le32 data 4)
  else if actionId = 2 then .drop_1
  else .noAction

/-- The action of a value. -/
def ofValue (v : Value) : Action := actionOf v.1 fun j => v.2.getD j 0

theorem ofValue_shown (r : UInt64 × Bytes) :
    ofValue (shown ipv4HostParams r) = actionOf r.1 r.2 := by
  unfold ofValue shown actionOf le32
  simp [ipv4HostParams]

/-- A destination address where the lookup reads it in the header. -/
def keyAt (dst : UInt32) : Bytes := fun j => (beBytes dst).getD (j - 16) 0

/-- The key of a destination address in the table. -/
def keyWords (dst : UInt32) : List UInt64 := ipv4HostParams.words ((beBytes dst).getD · 0)

/-- The header the thread points to. -/
def Engine.keyBytes (s : Engine) (i : ThreadId) : Bytes := fun j =>
  s.mem (((s.threads i).structs .ipv4).add j)

/-- The table compares the four bytes of the destination address. -/
theorem keyBytes_words {t : Table} (hc : Config ipv4HostParams t) (s : Engine) (i : ThreadId) :
    t.maskedKey (t.inputKey (s.keyBytes i)) = t.maskedKey (t.inputKey (keyAt (s.tableKey i))) := by
  rw [maskedKey_eq hc]
  intro j hj
  have hoff : t.params.keyOffset.toNat = 16 := by
    rw [hc.keyOffset]
    rfl
  unfold Table.inputKey keyAt Engine.keyBytes Engine.tableKey Mem.be32
  rw [hoff, Nat.add_sub_cancel_left, beBytes_be32 _ hj, Ptr.add_add]

/-! ## One copy of the table -/

/-- A mailbox as it is allocated. -/
def zeroMailbox : Tables.Mailbox := ⟨.bucket 0, 0, 0, 0, 0, 0⟩

/-- The copy `ts` as the program's lookup sees it. -/
def hostOf (ts : TableState) : Ipv4Host where
  entry := fun dst =>
    (tableLookupUnoptimized ts.obj (keyAt dst)).map fun d => actionOf d.actionId d.actionData
  sameBucket := fun first key =>
    ((tableLookup ts.obj (visits ts.obj zeroMailbox (keyAt first) 2).1 (keyAt key)).2.join).isSome

/-- A copy the threads may read: the default action is `NoAction`. -/
structure Reads (ts : TableState) : Prop where
  table : IsTable ipv4HostParams ts.obj
  dflt : ts.defaultActionId = 0

/-- The action of a lookup that is done: `hit ? action_id : default_action_id`. -/
def actionFor (ts : TableState) : Option KeyData → Action
  | some d => actionOf d.actionId d.actionData
  | none => actionOf ts.defaultActionId ts.defaultActionData

/-- The mailbox of a lookup of `g.key` before the visit `g.state`. -/
def Looking (t : Table) (m : Tables.Mailbox) (g : Mailbox) : Prop :=
  g.state ≤ 2 ∧ ∃ m₀ : Tables.Mailbox, m₀.state = 0 ∧ m = (visits t m₀ (keyAt g.key) g.state).1

section
variable {ts : TableState} {m : Tables.Mailbox} {g : Mailbox} (hr : Reads ts)

theorem Looking.state_eq {t : Table} (h : Looking t m g) : m.state = g.state := by
  obtain ⟨hle, m₀, hm, rfl⟩ := h
  obtain ⟨h₁, h₂⟩ := visits_two (t := t) m₀ hm (keyAt g.key)
  have hcases : g.state = 0 ∨ g.state = 1 ∨ g.state = 2 := by omega
  rcases hcases with h | h | h
  · rw [h]
    exact hm
  · rw [h, h₁]
  · rw [h, h₂]

/-- Before the first visit the table does not matter. -/
theorem looking_idle (t : Table) (hm : m.state = 0) (hg : g.state = 0) : Looking t m g := by
  refine ⟨by omega, m, hm, ?_⟩
  rw [hg]
  rfl

/-- A visit that is not the last one. -/
theorem Looking.visit {t : Table} (hc : Config ipv4HostParams t) (hs : KeySize t.keySize)
    (h : Looking t m g) (hg : g.state < 2) (s : Engine) (i : ThreadId) :
    (tableLookup t m (s.keyBytes i)).2 = none ∧
      (tableLookup t m (s.keyBytes i)).1.state = g.state + 1 ∧
      Looking t (tableLookup t m (s.keyBytes i)).1
        ⟨g.state + 1, if g.state = 0 then s.tableKey i else g.key⟩ := by
  obtain ⟨-, m₀, hm, rfl⟩ := h
  have hcases : g.state = 0 ∨ g.state = 1 := by omega
  rcases hcases with h | h
  · rw [h, visit_congr hs (keyBytes_words hc s i)]
    obtain ⟨hone, -⟩ := visits_two (t := t) m₀ hm (keyAt (s.tableKey i))
    have hstate : (tableLookup t m₀ (keyAt (s.tableKey i))).1.state = 1 :=
      congrArg Tables.Mailbox.state hone
    refine ⟨?_, hstate, ⟨Nat.le_succ 1, m₀, hm, rfl⟩⟩
    obtain ⟨bkt, sig, id, sm, smm, state⟩ := m₀
    obtain rfl : state = 0 := hm
    rfl
  · obtain ⟨hone, htwo⟩ := visits_two (t := t) m₀ hm (keyAt g.key)
    have hm₁ : (visits t m₀ (keyAt g.key) 1).1.state = 1 := congrArg Tables.Mailbox.state hone
    rw [h, second_visit hm₁ _ (keyAt g.key)]
    refine ⟨?_, congrArg Tables.Mailbox.state htwo, ⟨le_rfl, m₀, hm, rfl⟩⟩
    rw [hone]
    rfl

/-- What the mailbox held before the lookup does not matter. -/
theorem sameBucket_eq (ts : TableState) (hm : m.state = 0) (first key : UInt32) :
    (hostOf ts).sameBucket first key =
      ((tableLookup ts.obj (visits ts.obj m (keyAt first) 2).1 (keyAt key)).2.join).isSome := by
  unfold hostOf
  dsimp only
  rw [(visits_two zeroMailbox rfl _).2, (visits_two m hm _).2]

theorem last_state (t : Table) (hm : m.state = 0) (first key : Bytes) :
    (tableLookup t (visits t m first 2).1 key).1.state = 0 := by
  rw [(visits_two m hm _).2, tableLookup_two]
  split
  · rfl
  · split
    · rfl
    · rfl

include hr

theorem actionFor_miss : actionFor ts none = .noAction := by
  unfold actionFor actionOf
  rw [hr.dflt]
  rfl

theorem actionFor_lookup (dst : UInt32) :
    actionFor ts (tableLookupUnoptimized ts.obj (keyAt dst)) = (hostOf ts).lookup dst := by
  have hentry : (hostOf ts).entry dst = (tableLookupUnoptimized ts.obj (keyAt dst)).map
      fun d => actionOf d.actionId d.actionData := rfl
  unfold Ipv4Host.lookup
  rw [hentry]
  cases tableLookupUnoptimized ts.obj (keyAt dst) with
  | none => exact actionFor_miss hr
  | some d => rfl

/-- What the last visit finds. -/
theorem Looking.last (h : Looking ts.obj m g) (hg : g.state = 2) (s : Engine) (i : ThreadId)
    (hkey : (s.threads i).mailbox.key = g.key) :
    (tableLookup ts.obj m (s.keyBytes i)).1.state = 0 ∧
      ∃ r, (tableLookup ts.obj m (s.keyBytes i)).2 = some r ∧
        actionFor ts r = s.lookupResult (hostOf ts) i := by
  obtain ⟨-, m₀, hm, rfl⟩ := h
  have hv := hr.table.valid
  have hwords := keyBytes_words hr.table.config s i
  obtain ⟨exts, hi⟩ := hv.linked
  have hres : s.lookupResult (hostOf ts) i =
      if g.key = s.tableKey i ∨ (hostOf ts).sameBucket g.key (s.tableKey i) = true then
        (hostOf ts).lookup (s.tableKey i) else .noAction := by
    unfold Engine.lookupResult
    rw [hkey]
  have hplain := actionFor_lookup hr (s.tableKey i)
  have hbucket := sameBucket_eq ts hm g.key (s.tableKey i)
  rw [hg, visit_congr hi.keySize hwords]
  refine ⟨last_state ts.obj hm _ _, ?_⟩
  by_cases hfirst : g.key = s.tableKey i
  · refine ⟨tableLookupUnoptimized ts.obj (keyAt (s.tableKey i)), ?_, ?_⟩
    · rw [hfirst]
      exact (visits_eq m₀ (keyAt (s.tableKey i)) hv hm).2.2.1
    · rw [hres, if_pos (Or.inl hfirst), hplain]
  · rcases visits_other hv m₀ hm (keyAt g.key) (keyAt (s.tableKey i)) with ho | ho
    · refine ⟨none, ho, ?_⟩
      rw [ho] at hbucket
      rw [actionFor_miss hr, hres, hbucket]
      simp [hfirst]
    · refine ⟨_, ho, ?_⟩
      rw [ho] at hbucket
      rw [hplain, hres, hbucket]
      cases hl : tableLookupUnoptimized ts.obj (keyAt (s.tableKey i)) with
      | none =>
        -- a miss either way
        have hmiss : (hostOf ts).lookup (s.tableKey i) = .noAction := by
          rw [← hplain, hl, actionFor_miss hr]
        rw [hmiss, ite_self]
      | some d => simp

end

end P4Switch.L3
