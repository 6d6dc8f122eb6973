import PMROS2.Yaml.EventLoop

/-!
# The capacities of the parameter arrays

`rcl_yaml_node_struct_init` and `node_params_init` allocate arrays of fixed capacities, and
`parse_key` and `parse_value` compute every index into them from the counters `num_nodes` and
`num_params`.  The number of parameters is checked before a name is written; the number of nodes
is not, and `num_params--` wraps for a node without parameters.

* `accesses`              the entries an event reads and writes, with their indices;
* `Within`                no index reaches a capacity, and an event that needs one more entry is
                          rejected without a write;
* `Roomy`                 the condition that the code does not check;
* `step_within_iff`       one step;
* `run_within_iff`        every run;
* `step_undefined_iff`    `step` has no result exactly where an index reaches a capacity.
-/

namespace PMROS2.Yaml

open Runs

/-! ## accesses to the arrays -/

inductive ParamArray where
  | nodeNames
  | params
  | parameterNames
  | parameterValues
  deriving DecidableEq, Repr

/-- what `zero_allocate` was called with -/
def ParamArray.capacity : ParamArray → Nat
  | .nodeNames | .params => maxNumNodeEntries
  | .parameterNames | .parameterValues => maxNumParamsPerNode

structure Access where
  array : ParamArray
  index : Nat
  write : Bool
  deriving DecidableEq, Repr

/-- `num--` on a `size_t` -/
def decrement (num : Nat) : Nat := (num + (2 ^ 64 - 1)) % 2 ^ 64

def State.nodeIdx (s : State) : Nat := s.nodes.length - 1

/-- `num_params` of the current node -/
def State.numParams (s : State) : Nat := (s.nodes.head?.map (·.params.length)).getD 0

/-- in a new map: the parameter that is given up, and its name -/
def giveUpAccesses (s : State) : List Access :=
  if s.isNewMap then
    [⟨.params, s.nodeIdx, true⟩, ⟨.parameterNames, decrement s.numParams, false⟩]
  else []

/-- the guard, and the new name in the slot `numParams` -/
def addParamAccesses (name : List Char) (s : State) (numParams : Nat) : List Access :=
  ⟨.params, s.nodeIdx, false⟩ ::
    if numParams ≥ maxNumParamsPerNode then []
    else match (keyNs s).bind (paramName name) with
      | none => []
      | some _ => [⟨.parameterNames, numParams, true⟩, ⟨.params, s.nodeIdx, true⟩]

/-- at the parameters level -/
def paramKeyAccesses (name : List Char) (s : State) : List Access :=
  giveUpAccesses s ++
    addParamAccesses name s (if s.isNewMap then decrement s.numParams else s.numParams)

def keyAccesses (k : Scalar) (s : State) : List Access :=
  if k.value.length > maxStringSize then []
  else if k.value.length = 0 then []
  else match s.mapLevel with
    | 1 =>
      if paramsKey.isPrefixOf (cstr k.value) then
        match s.nodeNs with
        | .empty => []
        | .names _ _ => [⟨.nodeNames, s.nodes.length, true⟩, ⟨.params, s.nodes.length, true⟩]
      else []
    | 2 => paramKeyAccesses (cstr k.value) s
    | _ => []

/-- a value is written unless it does not belong to its sequence -/
def valueAccesses (v : Scalar) (s : State) : List Access :=
  match s.nodes with
  | [] => []
  | n :: _ => ⟨.params, s.nodeIdx, false⟩ ::
    if n.params.length = 0 then []
    else if v.value.length > maxStringSize then []
    else if !v.quoted && v.value.length = 0 then []
    else [⟨.params, s.nodeIdx, false⟩, ⟨.parameterValues, n.params.length - 1, true⟩]

/-- the entries of the four arrays that `parse_events` uses for an event -/
def accesses (s : State) : Event → List Access
  | .scalar v =>
    if s.isKey then keyAccesses v s
    else if s.mapLevel < 2 then []
    else valueAccesses v s
  | _ => []

/-! ## what is asked of a step -/

/-- the key `ros__parameters` of a new node -/
def StartsNode (s : State) (k : Scalar) : Prop :=
  s.isKey = true ∧ keyFits k = true ∧ s.mapLevel = 1 ∧
    paramsKey.isPrefixOf (cstr k.value) = true ∧ s.nodeNs ≠ .empty

/-- the name of a parameter or of a namespace of parameters -/
def NamesParam (s : State) (k : Scalar) : Prop :=
  s.isKey = true ∧ keyFits k = true ∧ s.mapLevel = 2

/-- the entry that the event needs does not exist; a new map gives one back before -/
def Exceeds (s : State) : Event → Prop
  | .scalar k =>
    StartsNode s k ∧ s.nodes.length ≥ maxNumNodeEntries ∨
    NamesParam s k ∧
      (if s.isNewMap then s.numParams - 1 else s.numParams) ≥ maxNumParamsPerNode
  | _ => False

/-- the condition that the code leaves to the file: a new node finds an entry, and the first key
of a map finds the parameter that it gives up -/
def Roomy (s : State) : Event → Prop
  | .scalar k =>
    (StartsNode s k → s.nodes.length < maxNumNodeEntries) ∧
    (NamesParam s k → s.isNewMap = true → s.numParams ≠ 0)
  | _ => True

instance decidableStartsNode (s : State) (k : Scalar) : Decidable (StartsNode s k) :=
  inferInstanceAs (Decidable (_ ∧ _))

instance decidableNamesParam (s : State) (k : Scalar) : Decidable (NamesParam s k) :=
  inferInstanceAs (Decidable (_ ∧ _))

instance decidableRoomy (s : State) : ∀ e, Decidable (Roomy s e)
  | .scalar k => inferInstanceAs (Decidable ((StartsNode s k → _) ∧ (NamesParam s k → _)))
  | .noEvent | .streamStart | .streamEnd | .documentStart | .documentEnd | .alias
  | .sequenceStart | .sequenceEnd | .mappingStart | .mappingEnd => .isTrue trivial

section
variable (strtod : List Char → Option Float)

structure Within (s : State) (e : Event) : Prop where
  inside : ∀ a ∈ accesses s e, a.index < a.array.capacity
  rejects : Exceeds s e → (∃ text, step strtod s e = .error (.error text)) ∧
    ∀ a ∈ accesses s e, a.write = false

end

/-- the entries in use -/
structure Fits (s : State) : Prop where
  nodes : s.nodes.length ≤ maxNumNodeEntries
  params : ∀ n ∈ s.nodes, n.params.length ≤ maxNumParamsPerNode
  current : s.mapLevel = 2 → s.nodes ≠ []

/-! ## one step -/

section
variable {strtod : List Char → Option Float} {s s' : State} {k : Scalar}

theorem decrement_of_pos {num : Nat} (h : num ≠ 0) (hn : num < 2 ^ 64) :
    decrement num = num - 1 := by
  unfold decrement
  omega

theorem decrement_zero : decrement 0 = 2 ^ 64 - 1 := rfl

theorem numParams_cons (s : State) (n : Node) (others : List Node) (h : s.nodes = n :: others) :
    s.numParams = n.params.length := by
  rw [State.numParams, h]
  rfl

theorem keyFits_iff : keyFits k = true ↔ k.value.length ≤ maxStringSize ∧ k.value.length ≠ 0 := by
  rw [← Bool.not_eq_false, keyFits_eq_false]
  omega

theorem parseKey_eq (hf : keyFits k = true) : parseKey k s =
    match s.mapLevel with
    | 0 => .error (.error "Unintialized map level")
    | 1 => parseNodeKey (cstr k.value) s
    | 2 => parseParamKey (cstr k.value) s
    | _ => .error (.error "Unknown map level") := by
  obtain ⟨hlen, hne⟩ := keyFits_iff.mp hf
  rw [parseKey]
  exact (if_neg (not_lt.mpr hlen)).trans (if_neg hne)

theorem parseKey_of_not_fits (hf : ¬ keyFits k = true) : ∃ text,
    parseKey k s = .error (.error text) := by
  rw [keyFits_iff, not_and_or, not_le, not_not] at hf
  rw [parseKey]
  by_cases hlen : k.value.length > maxStringSize
  · exact ⟨_, if_pos hlen⟩
  · rw [if_neg hlen]
    exact ⟨_, if_pos (hf.resolve_left hlen)⟩

theorem accesses_startsNode (h : StartsNode s k) : accesses s (.scalar k) =
    [⟨.nodeNames, s.nodes.length, true⟩, ⟨.params, s.nodes.length, true⟩] := by
  obtain ⟨hk, hf, hl, hp, hn⟩ := h
  obtain ⟨hlen, hne⟩ := keyFits_iff.mp hf
  rw [accesses, if_pos hk, keyAccesses, if_neg (not_lt.mpr hlen), if_neg hne, hl]
  show (if _ then _ else _) = _
  rw [if_pos hp]
  cases hns : s.nodeNs with
  | empty => exact absurd hns hn
  | names str more => rfl

theorem accesses_namesParam (h : NamesParam s k) :
    accesses s (.scalar k) = paramKeyAccesses (cstr k.value) s := by
  obtain ⟨hk, hf, hl⟩ := h
  obtain ⟨hlen, hne⟩ := keyFits_iff.mp hf
  rw [accesses, if_pos hk, keyAccesses, if_neg (not_lt.mpr hlen), if_neg hne, hl]
  rfl

theorem accesses_key (hk : s.isKey = true) (hs : ¬ StartsNode s k) (hp : ¬ NamesParam s k) :
    accesses s (.scalar k) = [] := by
  rw [accesses, if_pos hk, keyAccesses]
  split
  · rfl
  rename_i hlen
  split
  · rfl
  rename_i hne
  have hf : keyFits k = true := keyFits_iff.mpr ⟨not_lt.mp hlen, hne⟩
  split
  · rename_i hl
    split
    · rename_i hpre
      split
      · rfl
      · rename_i str more hns
        refine absurd ⟨hk, hf, hl, hpre, ?_⟩ hs
        rw [hns]
        exact fun h => by cases h
    · rfl
  · rename_i hl
    exact absurd ⟨hk, hf, hl⟩ hp
  · rfl

theorem StartsNode.not_namesParam (h : StartsNode s k) : ¬ NamesParam s k := by
  rintro ⟨_, _, hl⟩
  rw [h.2.2.1] at hl
  cases hl

theorem Fits.exists_node (h : Fits s) (hl : s.mapLevel = 2) :
    ∃ n others, s.nodes = n :: others ∧ s.nodeIdx < maxNumNodeEntries ∧
      s.numParams = n.params.length ∧ n.params.length ≤ maxNumParamsPerNode := by
  obtain ⟨n, others, hn⟩ := List.exists_cons_of_ne_nil (h.current hl)
  have hlen := h.nodes
  rw [hn, List.length_cons] at hlen
  refine ⟨n, others, hn, ?_, numParams_cons s n others hn, h.params n (hn ▸ List.mem_cons_self)⟩
  rw [State.nodeIdx, hn, List.length_cons]
  omega

theorem inside_value (h : Fits s) (v : Scalar) :
    ∀ a ∈ valueAccesses v s, a.index < a.array.capacity := by
  unfold valueAccesses
  cases hn : s.nodes with
  | nil => exact fun a ha => absurd ha List.not_mem_nil
  | cons n others =>
    have hnodes := h.nodes
    have hparams := h.params n (hn ▸ List.mem_cons_self)
    have hidx : s.nodeIdx < maxNumNodeEntries := by
      rw [hn, List.length_cons] at hnodes
      rw [State.nodeIdx, hn, List.length_cons]
      omega
    rintro a (_ | ⟨_, ha⟩)
    · exact hidx
    · split at ha
      · cases ha
      rename_i hne
      split at ha
      · cases ha
      split at ha
      · cases ha
      rcases List.mem_cons.mp ha with rfl | ha
      · exact hidx
      · obtain rfl := List.mem_singleton.mp ha
        show n.params.length - 1 < maxNumParamsPerNode
        omega

theorem inside_addParam (hidx : s.nodeIdx < maxNumNodeEntries) (name : List Char) (m : Nat) :
    ∀ a ∈ addParamAccesses name s m, a.index < a.array.capacity := by
  rintro a (_ | ⟨_, ha⟩)
  · exact hidx
  split at ha
  · cases ha
  rename_i hm
  split at ha
  · cases ha
  rcases List.mem_cons.mp ha with rfl | ha
  · exact not_le.mp hm
  · obtain rfl := List.mem_singleton.mp ha
    exact hidx

theorem inside_paramKey (h : Fits s) (hl : s.mapLevel = 2) (name : List Char) :
    (∀ a ∈ paramKeyAccesses name s, a.index < a.array.capacity) ↔
      (s.isNewMap = true → s.numParams ≠ 0) := by
  obtain ⟨n, others, -, hidx, hnum, hparams⟩ := h.exists_node hl
  rw [← hnum] at hparams
  rw [paramKeyAccesses, List.forall_mem_append, giveUpAccesses]
  cases hnew : s.isNewMap with
  | false =>
    refine iff_of_true ⟨?_, inside_addParam hidx name _⟩ fun h => absurd h Bool.false_ne_true
    rw [if_neg Bool.false_ne_true]
    exact fun a ha => absurd ha List.not_mem_nil
  | true =>
    rw [if_pos rfl, if_pos rfl, List.forall_mem_cons, List.forall_mem_singleton]
    constructor
    · rintro ⟨⟨_, hname⟩, _⟩ _ hzero
      rw [hzero, decrement_zero] at hname
      exact absurd hname (by decide)
    · intro hne
      have hpos : s.numParams ≠ 0 := hne rfl
      have hdec := decrement_of_pos hpos (lt_of_le_of_lt hparams (by decide))
      refine ⟨⟨hidx, ?_⟩, inside_addParam hidx name _⟩
      show decrement s.numParams < maxNumParamsPerNode
      omega

/-- **A full node takes no more parameters**, and nothing is written. -/
theorem rejects_paramKey (h : Fits s) (hp : NamesParam s k)
    (he : (if s.isNewMap then s.numParams - 1 else s.numParams) ≥ maxNumParamsPerNode) :
    (∃ text, step strtod s (.scalar k) = .error (.error text)) ∧
      ∀ a ∈ accesses s (.scalar k), a.write = false := by
  obtain ⟨n, others, hn, -, hnum, hparams⟩ := h.exists_node hp.2.2
  have hnew : s.isNewMap = false := by
    by_contra hnew
    rw [Bool.not_eq_false] at hnew
    rw [hnew, if_pos rfl] at he
    have : 0 < maxNumParamsPerNode := by decide
    omega
  rw [hnew, if_neg Bool.false_ne_true] at he
  constructor
  · obtain ⟨hk, hf, hl⟩ := hp
    refine ⟨"Exceeded maximum allowed number of parameters for a node (512)", ?_⟩
    have hkey : parseKey k s =
        .error (.error "Exceeded maximum allowed number of parameters for a node (512)") := by
      rw [parseKey_eq hf, hl]
      show parseParamKey _ s = _
      rw [parseParamKey, hn, hnew]
      show (if n.params.length ≥ maxNumParamsPerNode then _ else _) = _
      rw [if_pos (hnum ▸ he)]
    rw [step, if_pos hk, hkey]
    rfl
  · rw [accesses_namesParam hp, paramKeyAccesses, giveUpAccesses, addParamAccesses, hnew,
      if_neg Bool.false_ne_true, if_neg Bool.false_ne_true, if_pos he]
    intro a ha
    obtain rfl := List.mem_singleton.mp ha
    rfl

/-- **One step**: where the entries in use fit, an event stays within the capacities just when it
is `Roomy`. -/
theorem step_within_iff (h : Fits s) (e : Event) : Within strtod s e ↔ Roomy s e := by
  cases e with
  | scalar k =>
    by_cases hk : s.isKey = true
    · by_cases hs : StartsNode s k
      · have hinside : (∀ a ∈ accesses s (.scalar k), a.index < a.array.capacity) ↔
            s.nodes.length < maxNumNodeEntries := by
          rw [accesses_startsNode hs, List.forall_mem_cons, List.forall_mem_singleton]
          exact and_self_iff
        constructor
        · exact fun hw => ⟨fun _ => hinside.mp hw.inside, fun hp => absurd hp hs.not_namesParam⟩
        · rintro ⟨hroom, _⟩
          refine ⟨hinside.mpr (hroom hs), ?_⟩
          rintro (⟨_, hfull⟩ | ⟨hp, _⟩)
          · exact absurd (hroom hs) (not_lt.mpr hfull)
          · exact absurd hp hs.not_namesParam
      · by_cases hp : NamesParam s k
        · have hinside := inside_paramKey h hp.2.2 (cstr k.value)
          rw [← accesses_namesParam hp] at hinside
          constructor
          · exact fun hw => ⟨fun hs' => absurd hs' hs, fun _ => hinside.mp hw.inside⟩
          · rintro ⟨_, hroom⟩
            refine ⟨hinside.mpr (hroom hp), ?_⟩
            rintro (⟨hs', _⟩ | ⟨_, he⟩)
            · exact absurd hs' hs
            · exact rejects_paramKey h hp he
        · refine iff_of_true ⟨?_, ?_⟩ ⟨fun hs' => absurd hs' hs, fun hp' => absurd hp' hp⟩
          · rw [accesses_key hk hs hp]
            exact fun a ha => absurd ha List.not_mem_nil
          · rintro (⟨hs', _⟩ | ⟨hp', _⟩)
            · exact absurd hs' hs
            · exact absurd hp' hp
    · refine iff_of_true ⟨?_, ?_⟩ ⟨fun hs => absurd hs.1 hk, fun hp => absurd hp.1 hk⟩
      · rw [accesses, if_neg hk]
        split
        · exact fun a ha => absurd ha List.not_mem_nil
        · exact inside_value h k
      · rintro (⟨hs, _⟩ | ⟨hp, _⟩)
        · exact absurd hs.1 hk
        · exact absurd hp.1 hk
  | _ =>
    refine iff_of_true ⟨fun a ha => absurd ha List.not_mem_nil, fun he => he.elim⟩ trivial

/-! ## what a step keeps -/

theorem Fits.of_same (h : Fits s) (hn : s'.nodes = s.nodes)
    (hl : s'.mapLevel = 2 → s.mapLevel = 2) : Fits s' := by
  constructor
  · exact hn ▸ h.nodes
  · exact hn ▸ h.params
  · exact fun hl' => hn ▸ h.current (hl hl')

theorem Fits.of_current (h : Fits s) {n n' : Node} {others : List Node}
    (hn : s.nodes = n :: others) (hn' : s'.nodes = n' :: others)
    (hp : n'.params.length ≤ maxNumParamsPerNode) : Fits s' := by
  have hnodes := h.nodes
  have hparams := h.params
  rw [hn] at hnodes hparams
  refine ⟨hn' ▸ hnodes, ?_, fun _ => ?_⟩
  · rw [hn']
    rintro m (_ | ⟨_, hm⟩)
    · exact hp
    · exact hparams m (List.mem_cons_of_mem n hm)
  · rw [hn']
    exact List.cons_ne_nil n' others

theorem parseParamKey_eq_bind {n : Node} {others : List Node} (hn : s.nodes = n :: others)
    (name : List Char) : parseParamKey name s =
      (if s.isNewMap then giveUpParam n s.parameterNs else .ok (n, s.parameterNs)) >>= fun p =>
        if p.1.params.length ≥ maxNumParamsPerNode then
          .error (.error "Exceeded maximum allowed number of parameters for a node (512)")
        else .ok { s with
          isNewMap := false
          parameterNs := p.2
          nodes := (match paramName name p.2 with
            | some full => p.1.addParam full
            | none => p.1) :: others } := by
  rw [parseParamKey, hn]
  cases s.isNewMap <;> rfl

theorem fits_parseParamKey (h : Fits s) {name : List Char}
    (he : parseParamKey name s = .ok s') : Fits s' := by
  cases hn : s.nodes with
  | nil =>
    rw [parseParamKey, hn] at he
    cases he
  | cons n others =>
    rw [parseParamKey_eq_bind hn] at he
    obtain ⟨⟨n₁, ns⟩, -, he⟩ := Simulation.bind_eq_ok.mp he
    by_cases hfull : n₁.params.length ≥ maxNumParamsPerNode
    · rw [if_pos hfull] at he
      cases he
    · rw [if_neg hfull] at he
      obtain rfl := Except.ok.inj he
      refine h.of_current hn rfl ?_
      show (match paramName name ns with
        | some full => n₁.addParam full
        | none => n₁).params.length ≤ maxNumParamsPerNode
      cases paramName name ns with
      | none => exact (not_le.mp hfull).le
      | some full => exact Nat.succ_le_of_lt (not_le.mp hfull)

theorem fits_parseNodeKey (h : Fits s) {name : List Char}
    (hroom : paramsKey.isPrefixOf name = true → s.nodeNs ≠ .empty →
      s.nodes.length < maxNumNodeEntries)
    (he : parseNodeKey name s = .ok s') : Fits s' := by
  rw [parseNodeKey] at he
  by_cases hp : paramsKey.isPrefixOf name = true
  · rw [if_pos hp] at he
    cases hns : s.nodeNs with
    | empty =>
      rw [hns] at he
      cases he
    | names str more =>
      have hlt := hroom hp (by rw [hns]; exact fun h => by cases h)
      rw [hns] at he
      replace he : (if s.nodes.length ≥ maxNumNodeEntries then _ else _) = Except.ok s' := he
      rw [if_neg (not_le.mpr hlt)] at he
      obtain rfl := Except.ok.inj he
      refine ⟨Nat.succ_le_of_lt hlt, ?_, fun _ => List.cons_ne_nil _ _⟩
      rintro m (_ | ⟨_, hm⟩)
      · exact Nat.zero_le _
      · exact h.params m hm
  · rw [if_neg hp] at he
    obtain ⟨ns, -, he⟩ := Simulation.bind_eq_ok.mp he
    obtain rfl := Except.ok.inj he
    exact h.of_same rfl fun hl' => hl'

theorem fits_parseKey (h : Fits s) (hk : s.isKey = true) (hroom : Roomy s (.scalar k))
    (he : parseKey k s = .ok s') : Fits s' := by
  by_cases hf : keyFits k = true
  swap
  · obtain ⟨text, htext⟩ := parseKey_of_not_fits (s := s) hf
    rw [htext] at he
    cases he
  rw [parseKey_eq hf] at he
  split at he
  · cases he
  · rename_i hl
    exact fits_parseNodeKey h (fun hp hns => hroom.1 ⟨hk, hf, hl, hp, hns⟩) he
  · exact fits_parseParamKey h he
  · cases he

theorem fits_parseValue (h : Fits s) {v : Scalar} (he : parseValue strtod v s = .ok s') :
    Fits s' := by
  rw [parseValue] at he
  cases hn : s.nodes with
  | nil =>
    rw [hn] at he
    cases he
  | cons n others =>
    rw [hn] at he
    cases hp : n.params with
    | nil =>
      simp only [hp] at he
      cases he
    | cons p ps =>
      simp only [hp] at he
      split at he
      · cases he
      split at he
      · cases he
      obtain ⟨⟨t, x⟩, -, he⟩ := Simulation.bind_eq_ok.mp he
      obtain rfl := Except.ok.inj he
      refine h.of_current hn rfl ?_
      have hparams := h.params n (hn ▸ List.mem_cons_self)
      rw [hp] at hparams
      exact hparams

theorem endMapping_nodes (s : State) : (endMapping s).nodes = s.nodes := by
  unfold endMapping
  split
  · split <;> rfl
  · split <;> rfl

theorem endMapping_mapLevel (h : (endMapping s).mapLevel = 2) : s.mapLevel = 2 := by
  unfold endMapping at h
  split at h
  · assumption
  · split at h <;> exact h

/-- **A `Roomy` event keeps the entries in use within the arrays.** -/
theorem fits_next (h : Fits s) (e : Event) (hroom : Roomy s e) (he : next strtod s e = some s') :
    Fits s' := by
  replace he : step strtod s e = .ok s' := by
    rw [next] at he
    cases hstep : step strtod s e with
    | error f =>
      rw [hstep] at he
      cases he
    | ok t =>
      rw [hstep] at he
      exact congrArg Except.ok (Option.some.inj he)
  cases e with
  | scalar k =>
    rw [step] at he
    by_cases hk : s.isKey = true
    · rw [if_pos hk] at he
      obtain ⟨t, ht, he⟩ := Simulation.bind_eq_ok.mp he
      obtain rfl := Except.ok.inj he
      exact (fits_parseKey h hk hroom ht).of_same rfl fun hl => hl
    · rw [if_neg hk] at he
      split at he
      · cases he
      obtain ⟨t, ht, he⟩ := Simulation.bind_eq_ok.mp he
      obtain rfl := Except.ok.inj he
      refine (fits_parseValue h ht).of_same ?_ fun hl => ?_
      · split <;> rfl
      · split at hl <;> exact hl
  | sequenceStart =>
    rw [step] at he
    split at he
    · cases he
    split at he
    · cases he
    obtain rfl := Except.ok.inj he
    exact h.of_same rfl fun hl => hl
  | mappingEnd =>
    obtain rfl := Except.ok.inj he
    exact h.of_same (endMapping_nodes s) endMapping_mapLevel
  | streamStart | streamEnd | documentStart | documentEnd | sequenceEnd | mappingStart =>
    obtain rfl := Except.ok.inj he
    exact h.of_same rfl fun hl => hl
  | _ => cases he

/-! ## the undefined steps -/

theorem storeValue_ne_undefined (v : Variant) (val : Value) (isSeq : Bool) (t : DataType) :
    storeValue v val isSeq t ≠ .error .undefined := by
  intro h
  cases isSeq with
  | false => cases h
  | true =>
    rw [storeValue, if_pos rfl] at h
    split at h
    · rcases Simulation.bind_eq_error.mp h with h | ⟨v', -, h⟩
      · cases h
      · dsimp only at h
        split at h <;> cases h
    · split at h
      · rcases Simulation.bind_eq_error.mp h with h | ⟨v', -, h⟩
        · cases h
        · dsimp only at h
          split at h <;> cases h
      · cases h

theorem parseValue_ne_undefined (v : Scalar) : parseValue strtod v s ≠ .error .undefined := by
  intro h
  rw [parseValue] at h
  split at h
  · cases h
  split at h
  · cases h
  split at h
  · cases h
  split at h
  · cases h
  rcases Simulation.bind_eq_error.mp h with h | ⟨x, -, h⟩
  · exact storeValue_ne_undefined _ _ _ _ h
  · cases h

theorem setErrorMsg_eq_undefined {text : String} {f : Failure}
    (h : f.setErrorMsg text = .undefined) : f = .undefined := by
  cases f with
  | error t => cases h
  | invalidArgument => cases h
  | undefined => rfl

theorem addNameToNs_ne_undefined {sep : Char} {name : List Char} {ns : Namespace}
    (hns : ∀ more, ns ≠ .names [] more) : addNameToNs sep name ns ≠ .error .undefined := by
  intro h
  rw [addNameToNs.eq_def] at h
  split at h
  · cases h
  · rename_i more
    exact hns more rfl
  · replace h : (if _ > maxStringSize then _ else _) = _ := h
    rcases ite_eq_iff.mp h with ⟨_, h⟩ | ⟨_, h⟩ <;> cases h

theorem parseNodeKey_undefined_iff (hns : ∀ more, s.nodeNs ≠ .names [] more) (name : List Char) :
    parseNodeKey name s = .error .undefined ↔
      paramsKey.isPrefixOf name = true ∧ s.nodeNs ≠ .empty ∧
        maxNumNodeEntries ≤ s.nodes.length := by
  rw [parseNodeKey]
  by_cases hp : paramsKey.isPrefixOf name = true
  · rw [if_pos hp]
    cases hs : s.nodeNs with
    | empty => exact iff_of_false (fun h => by cases h) fun h => h.2.1 rfl
    | names str more =>
      show (if s.nodes.length ≥ maxNumNodeEntries then _ else _) = _ ↔ _
      by_cases hfull : s.nodes.length ≥ maxNumNodeEntries
      · rw [if_pos hfull]
        exact iff_of_true rfl ⟨hp, fun h => (by cases h), hfull⟩
      · rw [if_neg hfull]
        exact iff_of_false (fun h => by cases h) fun h => hfull h.2.2
  · rw [if_neg hp]
    refine iff_of_false (fun h => ?_) fun h => hp h.1
    rcases Simulation.bind_eq_error.mp h with h | ⟨ns, -, h⟩
    · cases hadd : addNameToNs nodeNsSeparator name s.nodeNs with
      | error f =>
        rw [hadd] at h
        have hf := setErrorMsg_eq_undefined (Except.error.inj h)
        exact addNameToNs_ne_undefined hns (hf ▸ hadd)
      | ok ns =>
        rw [hadd] at h
        cases h
    · cases h

theorem parseParamKey_undefined_iff (h : Fits s) (hl : s.mapLevel = 2) (name : List Char) :
    parseParamKey name s = .error .undefined ↔ s.isNewMap = true ∧ s.numParams = 0 := by
  obtain ⟨n, others, hn, -, hnum, -⟩ := h.exists_node hl
  rw [parseParamKey_eq_bind hn, Simulation.bind_eq_error, hnum]
  constructor
  · rintro (he | ⟨p, -, he⟩)
    · cases hnew : s.isNewMap with
      | false =>
        rw [hnew, if_neg Bool.false_ne_true] at he
        cases he
      | true =>
        rw [hnew, if_pos rfl, giveUpParam] at he
        cases hp : n.params with
        | nil => exact ⟨rfl, rfl⟩
        | cons p ps =>
          rw [hp] at he
          cases he
    · split at he <;> cases he
  · rintro ⟨hnew, hzero⟩
    left
    rw [if_pos hnew, giveUpParam, List.length_eq_zero_iff.mp hzero]

/-- **The undefined steps are those that leave the arrays**, apart from a namespace that is an
empty string, where the code reads before the string. -/
theorem step_undefined_iff (h : Fits s) (hns : ∀ more, s.nodeNs ≠ .names [] more) (e : Event) :
    step strtod s e = .error .undefined ↔ ¬ Within strtod s e := by
  rw [step_within_iff h]
  cases e with
  | scalar k =>
    rw [step]
    by_cases hk : s.isKey = true
    · rw [if_pos hk, Simulation.bind_eq_error]
      have hparse : parseKey k s = .error .undefined ↔ ¬ Roomy s (.scalar k) := by
        by_cases hf : keyFits k = true
        · rw [parseKey_eq hf]
          split
          · rename_i hl
            refine iff_of_false (fun h => by cases h) (not_not.mpr ⟨fun hs => ?_, fun hp => ?_⟩)
            · exact absurd (hl.symm.trans hs.2.2.1) (by decide)
            · exact absurd (hl.symm.trans hp.2.2) (by decide)
          · rename_i hl
            rw [parseNodeKey_undefined_iff hns]
            constructor
            · rintro ⟨hp, hne, hfull⟩ hroom
              exact absurd (hroom.1 ⟨hk, hf, hl, hp, hne⟩) (not_lt.mpr hfull)
            · intro hroom
              by_contra hnot
              refine hroom ⟨fun hs => ?_, fun hp => ?_⟩
              · exact not_le.mp fun hfull => hnot ⟨hs.2.2.2.1, hs.2.2.2.2, hfull⟩
              · exact absurd (hl.symm.trans hp.2.2) (by decide)
          · rename_i hl
            rw [parseParamKey_undefined_iff h hl]
            constructor
            · rintro ⟨hnew, hzero⟩ hroom
              exact hroom.2 ⟨hk, hf, hl⟩ hnew hzero
            · intro hroom
              by_contra hnot
              refine hroom ⟨fun hs => ?_, fun _ hnew hzero => hnot ⟨hnew, hzero⟩⟩
              exact absurd (hl.symm.trans hs.2.2.1) (by decide)
          · rename_i hl₀ hl₁ hl₂
            refine iff_of_false (fun h => by cases h) (not_not.mpr ⟨fun hs => ?_, fun hp => ?_⟩)
            · exact absurd hs.2.2.1 hl₁
            · exact absurd hp.2.2 hl₂
        · obtain ⟨text, htext⟩ := parseKey_of_not_fits (s := s) hf
          rw [htext]
          refine iff_of_false (fun h => by cases h) (not_not.mpr ⟨fun hs => ?_, fun hp => ?_⟩)
          · exact absurd hs.2.1 hf
          · exact absurd hp.2.1 hf
      rw [hparse]
      constructor
      · rintro (hroom | ⟨t, -, ht⟩)
        · exact hroom
        · cases ht
      · exact fun hroom => .inl hroom
    · rw [if_neg hk]
      refine iff_of_false (fun he => ?_) (not_not.mpr ⟨fun hs => absurd hs.1 hk,
        fun hp => absurd hp.1 hk⟩)
      split at he
      · cases he
      rcases Simulation.bind_eq_error.mp he with he | ⟨t, -, he⟩
      · exact parseValue_ne_undefined k he
      · cases he
  | sequenceStart =>
    rw [step]
    refine iff_of_false (fun he => ?_) (not_not.mpr trivial)
    split at he
    · cases he
    · split at he <;> cases he
  | _ => exact iff_of_false (fun he => by cases he) (not_not.mpr trivial)

end

/-! ## every run -/

/-- **Every run stays within the capacities just when its events are `Roomy`.**  The arrays may
hold nodes from an earlier file. -/
theorem run_within_iff (strtod : List Char → Option Float) (nodes : List Node)
    (hnodes : nodes.length ≤ maxNumNodeEntries)
    (hparams : ∀ n ∈ nodes, n.params.length ≤ maxNumParamsPerNode) (events : List Event) :
    Meets (next strtod) (Within strtod) { nodes := nodes } events ↔
      Meets (next strtod) Roomy { nodes := nodes } events := by
  refine meets_iff_of_inv (I := Fits) (fun s e s' h he hroom => fits_next h e hroom he)
    (fun s e h => step_within_iff h e) events _ ⟨hnodes, hparams, fun hl => ?_⟩
  cases hl

/-- a file with one parameter, read after another file -/
theorem run_within_one : Meets (next fun _ => none) (Within fun _ => none)
    { nodes := [{ name := "/a".toList }] }
    [.streamStart, .documentStart, .mappingStart, .scalar { value := "b".toList }, .mappingStart,
      .scalar { value := paramsKey }, .mappingStart, .scalar { value := "c".toList },
      .scalar { value := "1".toList }, .mappingEnd, .mappingEnd, .mappingEnd, .documentEnd] :=
  (run_within_iff (fun _ => none) [{ name := "/a".toList }] (by decide) (by decide) _).mpr
    (by decide)

-- the first key of a map that is itself a key: no parameter was added before
example : ¬ Meets (next fun _ => none) Roomy {}
    [.mappingStart, .scalar { value := "b".toList }, .mappingStart,
      .scalar { value := paramsKey }, .mappingStart, .mappingStart,
      .scalar { value := "c".toList }] := by
  decide

def nodeEvents (t : List Char) : List Event :=
  [.scalar { value := 'n' :: t }, .mappingStart, .scalar { value := paramsKey }, .mappingStart,
    .mappingEnd, .mappingEnd]

section
variable {strtod : List Char → Option Float}

theorem keyFits_tail {t : List Char} (ht : t.length < maxStringSize) :
    keyFits { value := 'n' :: t } = true :=
  keyFits_iff.mpr ⟨Nat.succ_le_of_lt ht, Nat.succ_ne_zero _⟩

theorem next_nodeName {t : List Char} (ht : t.length < maxStringSize) (nodes : List Node)
    (b : Bool) : next strtod { mapDepth := 1, isNewMap := b, nodes := nodes }
      (.scalar { value := 'n' :: t }) =
    some { isKey := false, mapDepth := 1, isNewMap := b, nodeNs := .names ('n' :: cstr t) 0,
           nodes := nodes } := by
  rw [next_key rfl, parseKey_eq (keyFits_tail ht)]
  rfl

theorem exec_nodeEvents {t : List Char} (ht : t.length < maxStringSize) {nodes : List Node}
    (hn : nodes.length < maxNumNodeEntries) (b : Bool) :
    exec (next strtod) { mapDepth := 1, isNewMap := b, nodes := nodes } (nodeEvents t) =
      some { mapDepth := 1, nodes := { name := 'n' :: cstr t } :: nodes } := by
  rw [nodeEvents, exec_cons, next_nodeName ht, Option.bind_some, exec_cons]
  show exec (next strtod) _ _ = _
  rw [exec_cons, next_key rfl, parseKey_eq (by decide)]
  show ((if nodes.length ≥ maxNumNodeEntries then Except.error Failure.undefined
    else Except.ok _).toOption.map _).bind _ = _
  rw [if_neg (not_le.mpr hn)]
  rfl

variable (strtod) in
/-- as many nodes as there are entries -/
theorem exec_nodes (ts : List (List Char)) (hts : ∀ t ∈ ts, t.length < maxStringSize) :
    ∀ (nodes : List Node) (b : Bool), nodes.length + ts.length ≤ maxNumNodeEntries →
      ∃ nodes' b', exec (next strtod) { mapDepth := 1, isNewMap := b, nodes := nodes }
          (ts.flatMap nodeEvents) =
        some { mapDepth := 1, isNewMap := b', nodes := nodes' } ∧
        nodes'.length = nodes.length + ts.length := by
  induction ts with
  | nil => exact fun nodes b _ => ⟨nodes, b, rfl, rfl⟩
  | cons t ts ih =>
    intro nodes b hlen
    rw [List.length_cons] at hlen
    obtain ⟨nodes', b', he, hn'⟩ := ih (fun u hu => hts u (List.mem_cons_of_mem t hu))
      ({ name := 'n' :: cstr t } :: nodes) false (by rw [List.length_cons]; omega)
    refine ⟨nodes', b', ?_, ?_⟩
    · rw [List.flatMap_cons, exec_append,
        exec_nodeEvents (hts t List.mem_cons_self) (by omega), Option.bind_some]
      exact he
    · rw [hn', List.length_cons, List.length_cons]
      omega

/-- one more node than entries -/
theorem not_meets_full {t : List Char} (ht : t.length < maxStringSize) {nodes : List Node}
    (hn : nodes.length = maxNumNodeEntries) (b : Bool) (rest : List Event) :
    ¬ Meets (next strtod) (Within strtod) { mapDepth := 1, isNewMap := b, nodes := nodes }
      (nodeEvents t ++ rest) := by
  intro h
  have h₁ := h.2 _ (next_nodeName ht nodes b)
  let s : State :=
    { mapDepth := 2, isNewMap := true, nodeNs := .names ('n' :: cstr t) 0, nodes := nodes }
  have h₂ : Within strtod s (.scalar { value := paramsKey }) := (h₁.2 _ rfl).1
  have hstart : StartsNode s { value := paramsKey } :=
    ⟨rfl, by decide, rfl, by decide, fun h => (by cases h)⟩
  have hin := h₂.inside ⟨.nodeNames, nodes.length, true⟩ (by
    rw [accesses_startsNode hstart]
    exact List.mem_cons_self)
  exact absurd hn (ne_of_lt hin)

end

/-- two letters for each number -/
def nameTail (i : Nat) : List Char := [Char.ofNat (97 + i / 16), Char.ofNat (97 + i % 16)]

def manyNames (n : Nat) : List (List Char) := (List.range n).map nameTail

/-- **The 257th node is written behind the arrays.** -/
theorem not_run_within : ¬ Meets (next fun _ => none) (Within fun _ => none) {}
    ([.streamStart, .documentStart, .mappingStart] ++ (manyNames 257).flatMap nodeEvents ++
      [.mappingEnd, .documentEnd]) := by
  intro h
  have hnames : manyNames 257 = manyNames 256 ++ [nameTail 256] := by
    rw [manyNames, List.range_succ, List.map_append]
    rfl
  have hshort : ∀ t ∈ manyNames 256, t.length < maxStringSize := by
    intro t ht
    obtain ⟨i, -, rfl⟩ := List.mem_map.mp ht
    exact (by decide : 2 < maxStringSize)
  rw [hnames, List.flatMap_append, List.flatMap_singleton, List.append_assoc,
    List.append_assoc] at h
  have h' := h.of_append (t := { mapDepth := 1, isNewMap := true }) rfl
  obtain ⟨nodes, b, he, hlen⟩ := exec_nodes (fun _ => none) (manyNames 256) hshort [] true
    (by rw [manyNames, List.length_map, List.length_range]; decide)
  refine not_meets_full (by decide) ?_ b _ (h'.of_append he)
  rw [hlen, manyNames, List.length_map, List.length_range]
  rfl

end PMROS2.Yaml
