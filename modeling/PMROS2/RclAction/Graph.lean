import PMROS2.Lib.Slots
import PMROS2.Lib.Strings

/-!
# The names of actions in the graph

`_filter_action_names` (`graph.c`) finds the actions behind the names of topics.  The suffix that
`rcl_action_get_feedback_topic_name` (`names.c`) appends is searched for with `strstr`, which
finds the first occurrence; a name or a type in which it occurs twice is not cut.

* `Listed`                 what is to be listed: the relation between topics and actions;
* `listed_iff`             it is a function of the topics;
* `identifierEnds_iff`     the test of the code, in terms of occurrences;
* `filterActionNames_eq`   both passes agree, and the arrays are filled;
* `filterActionNames_iff`  what is listed is what should be, exactly then.

Allocations succeed.
-/

namespace PMROS2.ActionGraph
open PMROS2.Strings PMROS2.Slots

/-! ## the functions -/

def actionNameIdentifier : Text := "/_action/feedback".toList
def actionTypeIdentifier : Text := "_FeedbackMessage".toList

/-- `strstr`: the text from the first occurrence on -/
def strstr : Text → Text → Option Text
  | [], pattern => if pattern <+: [] then some [] else none
  | c :: s, pattern => if pattern <+: c :: s then some (c :: s) else strstr s pattern

/-- the condition on a name or a type: the text from the first occurrence on is as long as the
identifier -/
def identifierEnds (s identifier : Text) : Bool :=
  match strstr s identifier with
  | none => false
  | some found => found.length = identifier.length

abbrev Topic := Text × List Text

/-- `rcl_names_and_types_t`; cells that have not been written are `none` -/
structure NamesAndTypes where
  names : List (Option Text)
  types : List (Option (List Text))
  deriving DecidableEq

def actionType (typeName : Text) : Text :=
  let actionTypeLen := if identifierEnds typeName actionTypeIdentifier then
      typeName.length - actionTypeIdentifier.length
    else typeName.length
  typeName.take actionTypeLen

/-- the second pass; `j` is the next action -/
def fillLoop : List Topic → Nat → NamesAndTypes → Option NamesAndTypes
  | [], _, out => some out
  | (name, types) :: topics, j, out =>
    if identifierEnds name actionNameIdentifier then do
      let names ← write out.names j (some (name.take (name.length - actionNameIdentifier.length)))
      let types ← write out.types j (some (types.map actionType))
      fillLoop topics (j + 1) ⟨names, types⟩
    else fillLoop topics j out

/-- `_filter_action_names`; a write behind the arrays has no result -/
def filterActionNames (topics : List Topic) : Option NamesAndTypes :=
  let numActions := topics.countP fun topic => identifierEnds topic.1 actionNameIdentifier
  if numActions = 0 then some ⟨[], []⟩
  else fillLoop topics 0 ⟨List.replicate numActions none, List.replicate numActions none⟩

inductive ActionRet where
  | actionNameInvalid
  deriving DecidableEq

/-- `rcl_action_get_feedback_topic_name` -/
def getFeedbackTopicName (actionName : Text) : Except ActionRet Text :=
  if actionName.length = 0 then .error .actionNameInvalid
  else .ok (actionName ++ actionNameIdentifier)

/-! ## what is to be listed -/

/-- a type without its suffix -/
def stripFeedback (typeName : Text) : Text :=
  if actionTypeIdentifier <:+ typeName then
    typeName.take (typeName.length - actionTypeIdentifier.length)
  else typeName

/-- the actions behind some topics, in order -/
inductive Listed : List Topic → List Topic → Prop
  | nil : Listed [] []
  | action {a name : Text} {types : List Text} {topics actions : List Topic} :
      getFeedbackTopicName a = .ok name → Listed topics actions →
      Listed ((name, types) :: topics) ((a, types.map stripFeedback) :: actions)
  | other {name : Text} {types : List Text} {topics actions : List Topic} :
      (∀ a, getFeedbackTopicName a ≠ .ok name) → Listed topics actions →
      Listed ((name, types) :: topics) actions

/-- the arrays for some actions -/
def NamesAndTypes.of (actions : List Topic) : NamesAndTypes :=
  ⟨actions.map fun a => some a.1, actions.map fun a => some a.2⟩

/-- the identifier is nowhere else than at the end -/
def OnlyAtEnd (identifier s : Text) : Prop := ∀ a b, s = a ++ identifier ++ b → b = []

/-! ## the suffix -/

theorem take_suffix {s identifier : Text} (h : identifier <:+ s) :
    s.take (s.length - identifier.length) ++ identifier = s := by
  obtain ⟨a, rfl⟩ := h
  rw [List.length_append, Nat.add_sub_cancel, List.take_left]

/-- the action behind the name of a topic -/
def actionOf (name : Text) : Option Text :=
  if actionNameIdentifier <:+ name ∧ name ≠ actionNameIdentifier then
    some (name.take (name.length - actionNameIdentifier.length))
  else none

theorem actionOf_eq_some {name a : Text} :
    actionOf name = some a ↔ getFeedbackTopicName a = .ok name := by
  unfold actionOf getFeedbackTopicName
  constructor
  · intro h
    split at h
    · rename_i hname
      obtain rfl := Option.some.inj h
      have hsplit := take_suffix hname.1
      rw [if_neg, hsplit]
      intro hzero
      rw [List.eq_nil_of_length_eq_zero hzero, List.nil_append] at hsplit
      exact hname.2 hsplit.symm
    · cases h
  · intro h
    split at h
    · cases h
    · rename_i hne
      obtain rfl := Except.ok.inj h
      rw [if_pos, List.length_append, Nat.add_sub_cancel, List.take_left]
      refine ⟨List.suffix_append _ _, ?_⟩
      intro hbad
      have hlen := congrArg List.length hbad
      rw [List.length_append] at hlen
      omega

def actionOfTopic (topic : Topic) : Option Topic :=
  (actionOf topic.1).map fun a => (a, topic.2.map stripFeedback)

/-- **The actions to be listed** are a function of the topics. -/
theorem listed_iff {topics : List Topic} : ∀ {actions : List Topic},
    Listed topics actions ↔ actions = topics.filterMap actionOfTopic := by
  induction topics with
  | nil =>
    intro actions
    constructor
    · intro h
      cases h
      rfl
    · rintro rfl
      exact .nil
  | cons topic topics ih =>
    obtain ⟨name, types⟩ := topic
    intro actions
    rw [List.filterMap_cons, actionOfTopic]
    constructor
    · intro h
      cases h with
      | action ha h =>
        rw [actionOf_eq_some.mpr ha, ih.mp h]
        rfl
      | other hne h =>
        have hnone : actionOf name = none := by
          cases hname : actionOf name with
          | none => rfl
          | some a => exact absurd (actionOf_eq_some.mp hname) (hne a)
        rw [hnone]
        exact ih.mp h
    · rintro rfl
      cases hname : actionOf name with
      | none =>
        refine .other ?_ (ih.mpr rfl)
        intro a ha
        rw [actionOf_eq_some.mpr ha] at hname
        cases hname
      | some a => exact .action (actionOf_eq_some.mp hname) (ih.mpr rfl)

/-! ## the test of the code -/

theorem strstr_nil_left (identifier : Text) (h : identifier ≠ []) : strstr [] identifier = none := by
  rw [strstr, if_neg]
  intro hp
  exact h (List.prefix_nil.mp hp)

theorem OnlyAtEnd.tail {identifier s : Text} {c : Char} (h : OnlyAtEnd identifier (c :: s)) :
    OnlyAtEnd identifier s := by
  rintro a b rfl
  exact h (c :: a) b rfl

/-- the test finds the identifier at the end when it is nowhere else -/
theorem identifierEnds_iff {identifier : Text} (hne : identifier ≠ []) (s : Text) :
    identifierEnds s identifier = true ↔ identifier <:+ s ∧ OnlyAtEnd identifier s := by
  induction s with
  | nil =>
    rw [identifierEnds, strstr_nil_left identifier hne]
    refine iff_of_false (by simp) ?_
    rintro ⟨h, -⟩
    exact hne (List.suffix_nil.mp h)
  | cons c s ih =>
    rw [identifierEnds, strstr]
    by_cases hp : identifier <+: c :: s
    · rw [if_pos hp]
      obtain ⟨b, hb⟩ := hp
      show decide _ = true ↔ _
      rw [decide_eq_true_eq, ← hb, List.length_append]
      constructor
      · intro hlen
        obtain rfl := List.eq_nil_of_length_eq_zero (Nat.add_left_cancel hlen)
        rw [List.append_nil]
        refine ⟨List.suffix_rfl, ?_⟩
        intro a b' hab
        have hlen' := congrArg List.length hab
        rw [List.length_append, List.length_append] at hlen'
        apply List.eq_nil_of_length_eq_zero
        omega
      · rintro ⟨-, honly⟩
        rw [honly [] b rfl]
        rfl
    · rw [if_neg hp]
      show identifierEnds s identifier = true ↔ _
      rw [ih]
      constructor
      · rintro ⟨hsuffix, honly⟩
        refine ⟨hsuffix.trans (List.suffix_cons c s), ?_⟩
        intro a b hab
        cases a with
        | nil => exact absurd ⟨b, hab.symm⟩ hp
        | cons d a => exact honly a b (List.cons.inj hab).2
      · rintro ⟨hsuffix, honly⟩
        refine ⟨?_, honly.tail⟩
        rcases List.suffix_cons_iff.mp hsuffix with rfl | hsuffix
        · exact absurd List.prefix_rfl hp
        · exact hsuffix

/-! ## both passes -/

/-- what the second pass writes for a topic -/
def entry (topic : Topic) : Option Topic :=
  if identifierEnds topic.1 actionNameIdentifier then
    some (topic.1.take (topic.1.length - actionNameIdentifier.length), topic.2.map actionType)
  else none

theorem length_entries (topics : List Topic) :
    (topics.filterMap entry).length =
      topics.countP fun topic => identifierEnds topic.1 actionNameIdentifier := by
  induction topics with
  | nil => rfl
  | cons topic topics ih =>
    rw [List.filterMap_cons, List.countP_cons, ← ih, entry]
    split <;> simp_all

/-- the second pass, with enough room -/
theorem fillLoop_holds {capacity : Nat} (topics : List Topic) : ∀ {j : Nat} {out : NamesAndTypes}
    {done : List Topic}, Holds capacity out.names j (done.map Prod.fst) →
    Holds capacity out.types j (done.map Prod.snd) →
    j + (topics.filterMap entry).length ≤ capacity →
    ∃ out', fillLoop topics j out = some out' ∧
      Holds capacity out'.names (j + (topics.filterMap entry).length)
        ((done ++ topics.filterMap entry).map Prod.fst) ∧
      Holds capacity out'.types (j + (topics.filterMap entry).length)
        ((done ++ topics.filterMap entry).map Prod.snd) := by
  induction topics with
  | nil =>
    intro j out done hnames htypes _
    rw [List.filterMap_nil, List.append_nil]
    exact ⟨out, rfl, hnames, htypes⟩
  | cons topic topics ih =>
    intro j out done hnames htypes hroom
    obtain ⟨name, types⟩ := topic
    rw [List.filterMap_cons, entry] at hroom ⊢
    rw [fillLoop]
    by_cases hends : identifierEnds name actionNameIdentifier = true
    · rw [if_pos hends] at hroom ⊢
      dsimp only at hroom ⊢
      rw [if_pos hends]
      rw [List.length_cons] at hroom ⊢
      obtain ⟨names', hwrite, hnames'⟩ := hnames.push (by omega)
        (name.take (name.length - actionNameIdentifier.length))
      obtain ⟨types', hwrite', htypes'⟩ := htypes.push (by omega) (types.map actionType)
      rw [hwrite]
      show ∃ out', (write out.types j _).bind _ = _ ∧ _
      rw [hwrite', Option.bind_some, ← Nat.add_assoc, Nat.add_right_comm, List.append_cons]
      refine ih ?_ ?_ (by omega)
      · rw [List.map_append]
        exact hnames'
      · rw [List.map_append]
        exact htypes'
    · rw [if_neg hends] at hroom ⊢
      rw [if_neg hends]
      exact ih hnames htypes hroom

theorem Holds.full {α : Type} {n : Nat} {slots : List (Option α)} {xs : List α}
    (h : Holds n slots n xs) : slots = xs.map some := by
  rw [← h.values, List.take_of_length_le (Nat.le_of_eq h.length)]

/-- **The arrays are as long as the actions that are found, and full.** -/
theorem filterActionNames_eq (topics : List Topic) :
    filterActionNames topics = some (.of (topics.filterMap entry)) := by
  rw [filterActionNames, ← length_entries]
  by_cases hzero : (topics.filterMap entry).length = 0
  · rw [if_pos hzero, List.eq_nil_of_length_eq_zero hzero]
    rfl
  rw [if_neg hzero]
  obtain ⟨out, hout, hnames, htypes⟩ := @fillLoop_holds (topics.filterMap entry).length topics 0
    ⟨List.replicate _ none, List.replicate _ none⟩ [] (holds_replicate _) (holds_replicate _)
    (Nat.le_of_eq (Nat.zero_add _))
  rw [Nat.zero_add, List.nil_append] at hnames htypes
  have hn := Holds.full hnames
  have ht := Holds.full htypes
  rw [List.map_map] at hn ht
  rw [hout]
  show some (NamesAndTypes.mk out.names out.types) = _
  rw [hn, ht]
  rfl

/-! ## what is listed -/

theorem length_filterMap_mono {α β : Type*} {f g : α → Option β} {l : List α}
    (h : ∀ x ∈ l, (f x).isSome = true → (g x).isSome = true) :
    (l.filterMap f).length ≤ (l.filterMap g).length := by
  induction l with
  | nil => exact Nat.le_refl 0
  | cons x l ih =>
    have ihl := ih fun y hy => h y (List.mem_cons_of_mem x hy)
    have hx := h x List.mem_cons_self
    rw [List.filterMap_cons, List.filterMap_cons]
    cases hf : f x with
    | none =>
      cases g x with
      | none => exact ihl
      | some b => exact Nat.le_succ_of_le ihl
    | some a =>
      rw [hf] at hx
      obtain ⟨b, hb⟩ := Option.isSome_iff_exists.mp (hx rfl)
      rw [hb]
      exact Nat.succ_le_succ ihl

/-- a list that is picked out in two ways, by the one not more often than by the other -/
theorem eq_of_filterMap_eq {α β : Type*} {f g : α → Option β} {l : List α}
    (h : ∀ x ∈ l, (f x).isSome = true → (g x).isSome = true)
    (heq : l.filterMap f = l.filterMap g) : ∀ x ∈ l, f x = g x := by
  induction l with
  | nil => exact fun x hx => nomatch hx
  | cons x l ih =>
    have hl : ∀ y ∈ l, (f y).isSome = true → (g y).isSome = true :=
      fun y hy => h y (List.mem_cons_of_mem x hy)
    have hlen := length_filterMap_mono hl
    have hx := h x List.mem_cons_self
    rw [List.filterMap_cons, List.filterMap_cons] at heq
    intro y hy
    cases hf : f x with
    | none =>
      rw [hf] at heq
      cases hg : g x with
      | none =>
        rw [hg] at heq
        rcases List.mem_cons.mp hy with rfl | hy
        · rw [hf, hg]
        · exact ih hl heq y hy
      | some b =>
        rw [hg] at heq
        have hlen' := congrArg List.length heq
        simp only [List.length_cons] at hlen'
        omega
    | some a =>
      rw [hf] at heq hx
      obtain ⟨b, hb⟩ := Option.isSome_iff_exists.mp (hx rfl)
      rw [hb] at heq
      obtain ⟨rfl, htail⟩ := List.cons.inj heq
      rcases List.mem_cons.mp hy with rfl | hy
      · rw [hf, hb]
      · exact ih hl htail y hy

theorem of_injective : ∀ {l l' : List Topic}, NamesAndTypes.of l = NamesAndTypes.of l' → l = l' := by
  intro l
  induction l with
  | nil =>
    intro l' h
    cases l' with
    | nil => rfl
    | cons b l' => cases (NamesAndTypes.mk.inj h).1
  | cons a l ih =>
    intro l' h
    obtain ⟨hnames, htypes⟩ := NamesAndTypes.mk.inj h
    cases l' with
    | nil => cases hnames
    | cons b l' =>
      obtain ⟨hname, hnames⟩ := List.cons.inj hnames
      obtain ⟨htype, htypes⟩ := List.cons.inj htypes
      have htail : NamesAndTypes.of l = NamesAndTypes.of l' := congrArg₂ NamesAndTypes.mk hnames htypes
      rw [ih htail, Prod.ext (Option.some.inj hname) (Option.some.inj htype)]

theorem actionType_eq_iff (typeName : Text) : actionType typeName = stripFeedback typeName ↔
    (actionTypeIdentifier <:+ typeName → OnlyAtEnd actionTypeIdentifier typeName) := by
  have hends := @identifierEnds_iff actionTypeIdentifier (by decide) typeName
  rw [actionType, stripFeedback]
  by_cases hsuffix : actionTypeIdentifier <:+ typeName
  · rw [if_pos hsuffix]
    by_cases honly : OnlyAtEnd actionTypeIdentifier typeName
    · rw [if_pos (hends.mpr ⟨hsuffix, honly⟩)]
      exact iff_of_true rfl fun _ => honly
    · rw [if_neg fun h => honly (hends.mp h).2]
      refine iff_of_false ?_ fun h => honly (h hsuffix)
      intro heq
      have hlen := congrArg List.length heq
      have hle := hsuffix.length_le
      have hpos : 0 < actionTypeIdentifier.length := by decide
      rw [List.length_take, List.length_take] at hlen
      omega
  · rw [if_neg hsuffix, if_neg fun h => hsuffix (hends.mp h).1]
    exact iff_of_true List.take_length fun h => absurd h hsuffix

/-- a topic for which the code does what is expected -/
def Decoded (topic : Topic) : Prop :=
  actionNameIdentifier <:+ topic.1 → topic.1 ≠ actionNameIdentifier ∧
    OnlyAtEnd actionNameIdentifier topic.1 ∧
    ∀ typeName ∈ topic.2, actionTypeIdentifier <:+ typeName →
      OnlyAtEnd actionTypeIdentifier typeName

theorem nameEnds_iff (name : Text) : identifierEnds name actionNameIdentifier = true ↔
    actionNameIdentifier <:+ name ∧ OnlyAtEnd actionNameIdentifier name :=
  identifierEnds_iff (by decide) name

theorem onlyAtEnd_self (identifier : Text) : OnlyAtEnd identifier identifier := by
  intro a b hab
  have hlen := congrArg List.length hab
  rw [List.length_append, List.length_append] at hlen
  exact List.eq_nil_of_length_eq_zero (by omega)

theorem entry_eq_iff (topic : Topic) : entry topic = actionOfTopic topic ↔ Decoded topic := by
  obtain ⟨name, types⟩ := topic
  unfold entry actionOfTopic actionOf Decoded
  dsimp only
  by_cases hsuffix : actionNameIdentifier <:+ name
  · by_cases hself : name = actionNameIdentifier
    · rw [if_pos ((nameEnds_iff name).mpr ⟨hsuffix, hself ▸ onlyAtEnd_self _⟩),
        if_neg fun h => h.2 hself]
      exact iff_of_false (fun h => nomatch h) fun h => (h hsuffix).1 hself
    · rw [if_pos (c := _ ∧ _) ⟨hsuffix, hself⟩]
      by_cases honly : OnlyAtEnd actionNameIdentifier name
      · rw [if_pos ((nameEnds_iff name).mpr ⟨hsuffix, honly⟩), Option.map_some,
          Option.some_inj, Prod.mk.injEq, List.map_inj_left]
        constructor
        · rintro ⟨-, htypes⟩ _
          exact ⟨hself, honly, fun ty hty => (actionType_eq_iff ty).mp (htypes ty hty)⟩
        · intro h
          exact ⟨rfl, fun ty hty => (actionType_eq_iff ty).mpr ((h hsuffix).2.2 ty hty)⟩
      · rw [if_neg fun h => honly ((nameEnds_iff name).mp h).2]
        exact iff_of_false (fun h => nomatch h) fun h => honly (h hsuffix).2.1
  · rw [if_neg fun h => hsuffix ((nameEnds_iff name).mp h).1, if_neg fun h => hsuffix h.1]
    exact iff_of_true rfl fun h => absurd h hsuffix

/-- the identifier alone is listed as an action without a name -/
theorem entries_eq_iff (topics : List Topic) :
    topics.filterMap entry = topics.filterMap actionOfTopic ↔ ∀ topic ∈ topics, Decoded topic := by
  constructor
  · intro heq
    have hself : ∀ topic ∈ topics, topic.1 ≠ actionNameIdentifier := by
      rintro ⟨name, types⟩ hmem hname
      have hname : name = actionNameIdentifier := hname
      subst hname
      have hentry : entry (actionNameIdentifier, types) = some ([], types.map actionType) := by
        rw [entry, if_pos ((nameEnds_iff _).mpr ⟨List.suffix_rfl, onlyAtEnd_self _⟩), Nat.sub_self]
        rfl
      have hempty : ([], types.map actionType) ∈ topics.filterMap entry :=
        List.mem_filterMap.mpr ⟨_, hmem, hentry⟩
      rw [heq] at hempty
      obtain ⟨topic, -, htopic⟩ := List.mem_filterMap.mp hempty
      obtain ⟨a, ha, heq'⟩ := Option.map_eq_some_iff.mp htopic
      obtain rfl : a = [] := congrArg Prod.fst heq'
      cases actionOf_eq_some.mp ha
    have hmono : ∀ topic ∈ topics, (entry topic).isSome = true →
        (actionOfTopic topic).isSome = true := by
      intro topic hmem hsome
      rw [entry] at hsome
      split at hsome
      · rename_i hends
        rw [actionOfTopic, actionOf, if_pos ⟨((nameEnds_iff _).mp hends).1, hself topic hmem⟩]
        rfl
      · cases hsome
    intro topic hmem
    exact (entry_eq_iff topic).mp (eq_of_filterMap_eq hmono heq topic hmem)
  · intro h
    exact List.filterMap_congr fun topic hmem => (entry_eq_iff topic).mpr (h topic hmem)

/-- **What is listed** are the actions behind the topics exactly when each topic that ends with the
identifier has a name before it and no other occurrence of it, and neither have its types of
theirs. -/
theorem filterActionNames_iff (topics : List Topic) :
    (∃ actions, filterActionNames topics = some (.of actions) ∧ Listed topics actions) ↔
      ∀ topic ∈ topics, Decoded topic := by
  rw [filterActionNames_eq, ← entries_eq_iff]
  constructor
  · rintro ⟨actions, hout, hlisted⟩
    rw [of_injective (Option.some.inj hout)]
    exact listed_iff.mp hlisted
  · intro heq
    exact ⟨_, rfl, listed_iff.mpr heq⟩

/-- an action whose name has the suffix in it is not listed -/
theorem not_filterActionNames : ¬ ∀ topics,
    ∃ actions, filterActionNames topics = some (.of actions) ∧ Listed topics actions := by
  intro h
  obtain ⟨actions, hout, hlisted⟩ :=
    h [("/a/_action/feedback/b/_action/feedback".toList, ["pkg/A_FeedbackMessage".toList])]
  rw [filterActionNames_eq] at hout
  have hnone : ([] : List Topic) = actions := of_injective (Option.some.inj hout)
  rw [← hnone] at hlisted
  cases hlisted with
  | other hne _ => exact hne "/a/_action/feedback/b".toList rfl

end PMROS2.ActionGraph
