import P4Switch.Cmd.Objects
import P4Switch.Lib.GuardedRun

/-! # Object names as keys

The duplicate check compares the name as it is given, the store keeps at most
`NAME_SIZE - 1` bytes of it. The four kinds of objects follow the same discipline, and one
lemma says what a creation does. -/
namespace P4Switch.Cmd
open P4Switch.Lib P4Switch.Lib.GuardedRun

inductive Kind where
  | pipeline
  | link
  | tap
  | ring
  deriving DecidableEq

/-- The stored names of a kind. -/
def Obj.names (obj : Obj) : Kind → List Name
  | .pipeline => obj.pipelineList.map Pipeline.name
  | .link => obj.linkList.map Link.name
  | .tap => obj.tapList.map Tap.name
  | .ring => obj.ringList.map Ring.name

def Obj.find (obj : Obj) : Kind → Name → Option Nat
  | .pipeline => pipelineFind obj
  | .link => linkFind obj
  | .tap => tapFind obj
  | .ring => ringFind obj

inductive Creation where
  | pipeline (numaNode : Nat)
  | link (params : LinkParams)
  | tap
  | ring (params : RingParams)

def Creation.kind : Creation → Kind
  | .pipeline _ => .pipeline
  | .link _ => .link
  | .tap => .tap
  | .ring _ => .ring

/-- The creation gets through its checks and obtains its resources. -/
def Creation.granted (h : Host) (obj : Obj) (name : Name) : Creation → Bool
  | .pipeline numaNode => (pipelineSetup h obj name numaNode).isSome
  | .link params => (linkSetup h obj name params).isSome
  | .tap => (tapSetup h obj name).isSome
  | .ring params => ringFind obj name = none ∧ params.size ≠ 0 ∧
      rteRingCreate h name params = true ∧ h.calloc = true

def Creation.create (h : Host) (obj : Obj) (name : Name) : Creation → Option Nat × Obj
  | .pipeline numaNode => pipelineCreate h obj name numaNode
  | .link params => linkCreate h obj name params
  | .tap => tapCreate h obj name
  | .ring params => ringCreate h obj name params

/-- The memory pools that links ask for are created in between. -/
inductive Request where
  | mempool (h : Host) (name : Name) (params : MempoolParams)
  | object (h : Host) (name : Name) (c : Creation)

/-- The store, and the creations that succeeded so far with the objects they returned, the
latest first; nothing reads the latter. -/
structure Store where
  obj : Obj
  made : Kind → List (Name × Nat)

def Store.init : Store := ⟨objInit, fun _ => []⟩

def Store.step (s : Store) : Request → Store
  | .mempool h name params => { s with obj := (mempoolCreate h s.obj name params).2 }
  | .object h name c =>
    let (made, obj) := c.create h s.obj name
    match made with
    | none => { s with obj := obj }
    | some i =>
      { obj := obj
        made := Function.update s.made c.kind ((name, i) :: s.made c.kind) }

/-- Names are a key. -/
structure Keyed (s : Store) : Prop where
  distinct : ∀ k, (s.obj.names k).Nodup
  /-- No creation succeeds under a name that has been used. -/
  once : ∀ k, ((s.made k).map Prod.fst).Nodup
  /-- The latest object of each kind is found under its name. -/
  found : ∀ k n i, (s.made k).head? = some (n, i) → s.obj.find k n = some i

/-- A creation that is granted has a name that fits. -/
def NameFits (s : Store) : Request → Prop
  | .mempool .. => True
  | .object h name c => c.granted h s.obj name = true → name.length < NAME_SIZE

/-- Names are stored as they were given. -/
structure Named (s : Store) : Prop where
  names : ∀ k, s.obj.names k = ((s.made k).map Prod.fst).reverse
  short : ∀ k, ∀ n ∈ s.obj.names k, n.length < NAME_SIZE
  distinct : ∀ k, (s.obj.names k).Nodup
  found : ∀ k n i, (n, i) ∈ s.made k → s.obj.find k n = some i

theorem Obj.find_none {obj : Obj} {k : Kind} {n : Name} :
    obj.find k n = none ↔ n ∉ obj.names k := by
  cases k <;> exact NamedList.find_eq_none

theorem Obj.mem_of_find {obj : Obj} {k : Kind} {n : Name} {i : Nat}
    (h : obj.find k n = some i) : n ∈ obj.names k := by
  by_contra hn
  rw [Obj.find_none.mpr hn] at h
  cases h

theorem strlcpy_short {n : Name} (h : n.length < NAME_SIZE) : strlcpy n NAME_SIZE = n :=
  List.take_of_length_le (Nat.le_pred_of_lt h)

theorem strlcpy_lt (n : Name) : (strlcpy n NAME_SIZE).length < NAME_SIZE := by
  unfold strlcpy
  rw [List.length_take]
  exact (Nat.min_le_left _ _).trans_lt (by decide)

/-! ## What a creation does -/

/-- The store of a kind gets one more entry, the others none. -/
structure Adds (obj obj' : Obj) (k : Kind) (n : Name) : Prop where
  names : obj'.names k = obj.names k ++ [strlcpy n NAME_SIZE]
  other : ∀ k', k' ≠ k → obj'.names k' = obj.names k' ∧ obj'.find k' = obj.find k'
  kept : ∀ m i, obj.find k m = some i → obj'.find k m = some i
  found : strlcpy n NAME_SIZE = n → obj'.find k n = some (obj.names k).length

theorem guard_bind {α : Type} {p : Prop} [Decidable p] {f : Unit → Option α} {a : α}
    (h : (guard p >>= f) = some a) : p ∧ f () = some a := by
  unfold guard at h
  by_cases hp : p
  · rw [if_pos hp] at h
    exact ⟨hp, h⟩
  · rw [if_neg hp] at h
    cases h

section
variable {h : Host} {obj : Obj} {name : Name}

theorem linkSetup_find {params : LinkParams} {i : Nat}
    (hs : linkSetup h obj name params = some i) : linkFind obj name = none :=
  (guard_bind hs).1.1

theorem tapSetup_find {i : Nat} (hs : tapSetup h obj name = some i) : tapFind obj name = none :=
  (guard_bind hs).1

theorem pipelineSetup_find {numaNode i : Nat} (hs : pipelineSetup h obj name numaNode = some i) :
    pipelineFind obj name = none :=
  (guard_bind hs).1

/-- The entry that a creation adds is found if its name fits. -/
theorem find_stored {α : Type} {key : α → Name} {l : List α} {a : α}
    (ha : key a = strlcpy name NAME_SIZE) (hfind : NamedList.find key l name = none)
    (hfits : strlcpy name NAME_SIZE = name) :
    NamedList.find key (l ++ [a]) name = some (l.map key).length := by
  rw [hfits] at ha
  rw [List.length_map, ← ha]
  exact NamedList.find_append_new (ha ▸ hfind)

theorem create_cases (h : Host) (obj : Obj) (name : Name) (c : Creation) :
    (c.granted h obj name = false ∧ c.create h obj name = (none, obj)) ∨
      (c.granted h obj name = true ∧ obj.find c.kind name = none ∧
        ∃ obj', c.create h obj name = (some (obj.names c.kind).length, obj') ∧
          Adds obj obj' c.kind name) := by
  cases c with
  | pipeline numaNode =>
    dsimp only [Creation.granted, Creation.create, pipelineCreate]
    cases hs : pipelineSetup h obj name numaNode with
    | none => exact .inl ⟨rfl, rfl⟩
    | some p =>
      have hfind := pipelineSetup_find hs
      refine .inr ⟨rfl, hfind, _, Prod.ext (congrArg some (List.length_map _).symm) rfl, ?_⟩
      refine ⟨List.map_append, ?_, fun _ _ => NamedList.find_append_old, find_stored rfl hfind⟩
      intro k hk
      cases k with
      | pipeline => exact absurd rfl hk
      | _ => exact ⟨rfl, rfl⟩
  | link params =>
    dsimp only [Creation.granted, Creation.create, linkCreate]
    cases hs : linkSetup h obj name params with
    | none => exact .inl ⟨rfl, rfl⟩
    | some portId =>
      have hfind := linkSetup_find hs
      refine .inr ⟨rfl, hfind, _, Prod.ext (congrArg some (List.length_map _).symm) rfl, ?_⟩
      refine ⟨List.map_append, ?_, fun _ _ => NamedList.find_append_old, find_stored rfl hfind⟩
      intro k hk
      cases k with
      | link => exact absurd rfl hk
      | _ => exact ⟨rfl, rfl⟩
  | tap =>
    dsimp only [Creation.granted, Creation.create, tapCreate]
    cases hs : tapSetup h obj name with
    | none => exact .inl ⟨rfl, rfl⟩
    | some fd =>
      have hfind := tapSetup_find hs
      refine .inr ⟨rfl, hfind, _, Prod.ext (congrArg some (List.length_map _).symm) rfl, ?_⟩
      refine ⟨List.map_append, ?_, fun _ _ => NamedList.find_append_old, find_stored rfl hfind⟩
      intro k hk
      cases k with
      | tap => exact absurd rfl hk
      | _ => exact ⟨rfl, rfl⟩
  | ring params =>
    dsimp only [Creation.granted, Creation.create, ringCreate]
    by_cases hs : ringFind obj name = none ∧ params.size ≠ 0 ∧
        rteRingCreate h name params = true ∧ h.calloc = true
    · rw [if_pos hs]
      refine .inr ⟨decide_eq_true hs, hs.1, _,
        Prod.ext (congrArg some (List.length_map _).symm) rfl, ?_⟩
      refine ⟨List.map_append, ?_, fun _ _ => NamedList.find_append_old, find_stored rfl hs.1⟩
      intro k hk
      cases k with
      | ring => exact absurd rfl hk
      | _ => exact ⟨rfl, rfl⟩
    · rw [if_neg hs]
      exact .inl ⟨decide_eq_false hs, rfl⟩

end

theorem mempoolCreate_frame (h : Host) (obj : Obj) (name : Name) (params : MempoolParams) :
    (mempoolCreate h obj name params).2.names = obj.names ∧
      (mempoolCreate h obj name params).2.find = obj.find := by
  unfold mempoolCreate
  split
  · constructor <;>
    · funext k
      cases k <;> rfl
  · exact ⟨rfl, rfl⟩

/-! ## Over a run -/

theorem Named.keyed {s : Store} (hs : Named s) : Keyed s := by
  refine ⟨hs.distinct, ?_, ?_⟩
  · intro k
    rw [← List.nodup_reverse, ← hs.names k]
    exact hs.distinct k
  · intro k n i hm
    exact hs.found k n i (List.mem_of_mem_head? hm)

/-- One object more, with a name that fits. -/
theorem Named.add {s t : Store} {k : Kind} {n : Name} (hs : Named s) (hn : n.length < NAME_SIZE)
    (hnone : s.obj.find k n = none) (hadds : Adds s.obj t.obj k n)
    (hmade : t.made k = (n, (s.obj.names k).length) :: s.made k)
    (hother : ∀ k', k' ≠ k → t.made k' = s.made k') : Named t := by
  have hnames : t.obj.names k = s.obj.names k ++ [n] := by
    rw [hadds.names, strlcpy_short hn]
  refine ⟨?_, ?_, ?_, ?_⟩
  · intro k'
    by_cases hk : k' = k
    · subst hk
      rw [hmade, hnames, hs.names, List.map_cons, List.reverse_cons]
    · rw [(hadds.other k' hk).1, hother k' hk]
      exact hs.names k'
  · intro k' m hm
    by_cases hk : k' = k
    · subst hk
      rw [hnames, List.mem_append, List.mem_singleton] at hm
      obtain hm | rfl := hm
      · exact hs.short _ m hm
      · exact hn
    · rw [(hadds.other k' hk).1] at hm
      exact hs.short k' m hm
  · intro k'
    by_cases hk : k' = k
    · subst hk
      rw [hnames, List.nodup_append]
      refine ⟨hs.distinct _, List.nodup_singleton n, ?_⟩
      intro m hm m' hm' he
      rw [List.mem_singleton.mp hm'] at he
      exact Obj.find_none.mp hnone (he ▸ hm)
    · rw [(hadds.other k' hk).1]
      exact hs.distinct k'
  · intro k' m i hm
    by_cases hk : k' = k
    · subst hk
      rw [hmade] at hm
      cases hm with
      | head => exact hadds.found (strlcpy_short hn)
      | tail _ hm => exact hadds.kept m i (hs.found _ m i hm)
    · rw [hother k' hk] at hm
      rw [(hadds.other k' hk).2]
      exact hs.found k' m i hm

theorem Named.step {s : Store} {r : Request} (hs : Named s) (hr : NameFits s r) :
    Named (s.step r) := by
  cases r with
  | mempool h name params =>
    obtain ⟨hnames, hfind⟩ := mempoolCreate_frame h s.obj name params
    refine ⟨?_, ?_, ?_, ?_⟩
    · dsimp only [Store.step]
      rw [hnames]
      exact hs.names
    · dsimp only [Store.step]
      rw [hnames]
      exact hs.short
    · dsimp only [Store.step]
      rw [hnames]
      exact hs.distinct
    · dsimp only [Store.step]
      rw [hfind]
      exact hs.found
  | object h name c =>
    dsimp only [Store.step]
    obtain ⟨-, hc⟩ | ⟨hgranted, hnone, obj', hc, hadds⟩ := create_cases h s.obj name c
    · rw [hc]
      exact hs
    · rw [hc]
      exact hs.add (hr hgranted) hnone hadds (Function.update_self ..)
        fun k' hk => Function.update_of_ne hk ..

/-- A name that is cut is not found. -/
theorem Named.fits {s : Store} {r : Request} (hs : Named s) (hk : Keyed (s.step r)) :
    NameFits s r := by
  cases r with
  | mempool h name params => trivial
  | object h name c =>
    intro hgranted
    obtain ⟨hrefused, -⟩ | ⟨-, -, obj', hc, hadds⟩ := create_cases h s.obj name c
    · rw [hgranted] at hrefused
      cases hrefused
    · have hfound := hk.found c.kind name (s.obj.names c.kind).length
      dsimp only [Store.step] at hfound
      rw [hc] at hfound
      dsimp only at hfound
      rw [Function.update_self] at hfound
      have hmem : name ∈ obj'.names c.kind := Obj.mem_of_find (hfound rfl)
      rw [hadds.names, List.mem_append, List.mem_singleton] at hmem
      obtain hmem | hmem := hmem
      · exact hs.short _ name hmem
      · rw [hmem]
        exact strlcpy_lt name

theorem named_init : Named Store.init := by
  refine ⟨?_, ?_, ?_, ?_⟩
  · intro k
    cases k <;> rfl
  · intro k n hn
    cases k <;> cases hn
  · intro k
    cases k <;> exact List.nodup_nil
  · intro k n i hm
    cases hm

/-- A creation under a name that is found fails and changes nothing. -/
theorem step_existing {s : Store} {name : Name} {c : Creation} (h : Host)
    (hfind : s.obj.find c.kind name ≠ none) : s.step (.object h name c) = s := by
  dsimp only [Store.step]
  obtain ⟨-, hc⟩ | ⟨-, hnone, -⟩ := create_cases h s.obj name c
  · rw [hc]
  · exact absurd hnone hfind

/-- Names are a key along a run exactly when every creation that is granted has a name
that fits, and then every object made is found under its name to the end, and a creation
under its name changes nothing. -/
theorem keyed_iff (rs : List Request) :
    (Always Store.step Keyed Store.init rs ↔ Meets Store.step NameFits Store.init rs) ∧
      (Meets Store.step NameFits Store.init rs →
        ∀ k n i, (n, i) ∈ (run Store.step Store.init rs).made k →
          (run Store.step Store.init rs).obj.find k n = some i ∧
            ∀ h c, c.kind = k → (run Store.step Store.init rs).step (.object h n c) =
              run Store.step Store.init rs) := by
  constructor
  · exact always_iff_meets (I := Named) (fun _ _ hs hr => hs.step hr) (fun _ hs => hs.keyed)
      (fun _ _ hs hk => hs.fits hk) named_init rs
  · intro h k n i hm
    have hnamed := h.invariant (I := Named) (fun _ _ hs hr => hs.step hr) named_init
    have hfound := hnamed.found k n i hm
    refine ⟨hfound, ?_⟩
    rintro h c rfl
    refine step_existing h ?_
    rw [hfound]
    exact Option.some_ne_none i

/-- Everything asked for is granted. -/
def Host.generous : Host where
  calloc := true
  pktmbufPoolCreate := fun _ _ => true
  portByName := fun _ => some 0
  isValidPort := fun _ => true
  devInfoGet := fun _ => some ⟨128, 16⟩
  devConfigure := fun _ => true
  promiscuousEnable := fun _ => true
  rxQueueSetup := fun _ _ => true
  txQueueSetup := fun _ _ => true
  devStart := fun _ => true
  rssSetup := fun _ => true
  setLinkUp := fun _ => true
  nameByPort := fun _ => []
  ringReserve := fun _ _ => true
  openTun := some 3
  tunSetIff := fun _ => true
  pipelineConfig := fun _ => some 0

/-- Two names of 64 bytes that differ in the last one. -/
def twins : List Request :=
  [.object .generous (List.replicate 63 97 ++ [98]) (.pipeline 0),
    .object .generous (List.replicate 63 97 ++ [99]) (.pipeline 0)]

theorem keyed_broken : ¬∀ rs : List Request, Always Store.step Keyed Store.init rs := by
  intro h
  have hkeyed : Keyed (run Store.step Store.init twins) := h twins twins (List.prefix_refl _)
  exact absurd (hkeyed.distinct .pipeline) (by decide +kernel)

end P4Switch.Cmd
