import PMROS2.Rosidl.IdlNumbers

/-!
# The members of a struct

A declaration of a struct has one type and several declarators, plain or with array sizes.
`add_message_members` keeps the type in a variable outside of the loop over the declarators, and an
array declarator replaces it.

* `MemberDeclaration`, `structTree`   the tree of a struct, as the grammar reads it;
* `reads_structDef`             every reading has this form;
* `declaredMembers`             each declarator with the base type and its own size;
* `members_iff`                 the walk gives these just when arrays come last.
-/

namespace PMROS2.Rosidl
open PMROS2.Strings PMROS2.Grammars PMROS2.Simulation

/-! ## declarations -/

/-- a name and the nodes `positive_int_const` of its array sizes -/
structure Declarator where
  name : Text
  sizes : List Node

namespace Declarator

def child (d : Declarator) : Node :=
  if d.sizes = [] then .node .simpleDeclarator [.token .identifier d.name]
  else .node .arrayDeclarator
    (.token .identifier d.name :: d.sizes.map fun c => .node .fixedArraySize [c])

def tree (d : Declarator) : Node := .node .declarator [d.child]

end Declarator

structure MemberDeclaration where
  annotations : List Node
  typeSpec : Node
  declarators : List Declarator

def MemberDeclaration.tree (d : MemberDeclaration) : Node :=
  .node .member
    (d.annotations ++ [d.typeSpec, .node .declarators (d.declarators.map Declarator.tree)])

def structTree (annotations : List Node) (name : Text) (ds : List MemberDeclaration) : Node :=
  .node .structDef (annotations ++ (.token .identifier name :: ds.map MemberDeclaration.tree))

/-! ## what the grammar reads -/

/-- the rule reads the tree somewhere -/
def IsRead (x : Rule) (t : Node) : Prop := ∃ s p r, Reads idl (.rule x) s [t] p r

structure MemberDeclaration.Proper (d : MemberDeclaration) : Prop where
  annotations : ∀ a ∈ d.annotations, IsRead .annotationAppl a
  typeSpec : IsRead .typeSpec d.typeSpec
  sizes : ∀ x ∈ d.declarators, ∀ c ∈ x.sizes, IsRead .positiveIntConst c

section
variable {s r : Text} {ts : List Node} {p : Nat} {x : Rule}

theorem reads_str_nil {text : String} (h : Reads idl (Rule.s text) s ts p r) : ts = [] := by
  cases h with
  | terminal _ _ => rfl

theorem reads_identifier_token (h : Reads idl (.terminal .identifier) s ts p r) :
    ∃ w, ts = [.token .identifier w] := by
  obtain ⟨w, -, -, rfl, -⟩ := reads_identifier.mp h
  exact ⟨w, rfl⟩

theorem isRead_of_reads (h : Reads idl (.rule x) s ts p r) : ∃ t, ts = [t] ∧ IsRead x t := by
  obtain ⟨us, q, rfl, -, -⟩ := reads_rule.mp h
  exact ⟨_, rfl, s, p, r, h⟩

theorem reads_many {a : Expr Rule Terminal} {P : Node → Prop}
    (ha : ∀ {s ts p r}, Reads idl a s ts p r → ∃ t, ts = [t] ∧ P t)
    (h : Reads idl (.star a) s ts p r) : ∀ t ∈ ts, P t := by
  obtain ⟨tss, rfl, htss⟩ := h.of_star
  intro t ht
  obtain ⟨us, hus, ht⟩ := List.mem_flatten.mp ht
  obtain ⟨s', q, r', hread⟩ := htss us hus
  obtain ⟨u, rfl, hu⟩ := ha hread
  rw [List.mem_singleton.mp ht]
  exact hu

theorem reads_some {a : Expr Rule Terminal} {P : Node → Prop}
    (ha : ∀ {s ts p r}, Reads idl a s ts p r → ∃ t, ts = [t] ∧ P t)
    (h : Reads idl (.plus a) s ts p r) : ts ≠ [] ∧ ∀ t ∈ ts, P t := by
  obtain ⟨s', us, q, vs, k, rfl, -, hfirst, hmore⟩ := reads_seq.mp h
  obtain ⟨t, rfl, ht⟩ := ha hfirst
  refine ⟨List.cons_ne_nil _ _, fun u hu => ?_⟩
  rcases List.mem_cons.mp hu with rfl | hu
  · exact ht
  · exact reads_many ha hmore u hu

theorem reads_between {a b : String}
    (h : Reads idl (.seqs [Rule.s a, .rule x, Rule.s b]) s ts p r) :
    ∃ t, ts = [t] ∧ IsRead x t := by
  obtain ⟨s₁, us, q, vs, k, rfl, -, ha, h⟩ := reads_seq.mp h
  obtain ⟨s₂, us', q', vs', k', rfl, -, hx, hb⟩ := reads_seq.mp h
  obtain ⟨t, rfl, ht⟩ := isRead_of_reads hx
  rw [reads_str_nil ha, reads_str_nil hb]
  exact ⟨t, rfl, ht⟩

theorem exists_map {α : Type} {f : α → Node} {P : α → Prop}
    (h : ∀ t ∈ ts, ∃ a, t = f a ∧ P a) : ∃ l : List α, ts = l.map f ∧ ∀ a ∈ l, P a := by
  induction ts with
  | nil => exact ⟨[], rfl, fun a ha => absurd ha List.not_mem_nil⟩
  | cons t ts ih =>
    obtain ⟨a, rfl, ha⟩ := h t List.mem_cons_self
    obtain ⟨l, rfl, hl⟩ := ih fun u hu => h u (List.mem_cons_of_mem _ hu)
    refine ⟨a :: l, rfl, fun b hb => ?_⟩
    rcases List.mem_cons.mp hb with rfl | hb
    · exact ha
    · exact hl b hb

theorem reads_declarator (h : Reads idl (.rule .declarator) s ts p r) :
    ∃ d : Declarator, ts = [d.tree] ∧ ∀ c ∈ d.sizes, IsRead .positiveIntConst c := by
  obtain ⟨us, q, rfl, -, hbody⟩ := reads_rule.mp h
  rcases reads_alt.mp hbody with h | h
  · obtain ⟨vs, k, rfl, -, hname⟩ := reads_rule.mp h
    obtain ⟨w, rfl⟩ := reads_identifier_token hname
    exact ⟨⟨w, []⟩, rfl, fun c hc => absurd hc List.not_mem_nil⟩
  · obtain ⟨vs, k, rfl, -, harray⟩ := reads_rule.mp h
    obtain ⟨s', ws, m, xs, n, rfl, -, hname, hsizes⟩ := reads_seq.mp harray
    obtain ⟨w, rfl⟩ := reads_identifier_token hname
    have hsize : ∀ {s ts p r}, Reads idl (.rule .fixedArraySize) s ts p r →
        ∃ t, ts = [t] ∧ ∃ c, t = .node .fixedArraySize [c] ∧ IsRead .positiveIntConst c := by
      intro s ts p r h
      obtain ⟨us, q, rfl, -, hbody⟩ := reads_rule.mp h
      obtain ⟨c, rfl, hc⟩ := reads_between hbody
      exact ⟨_, rfl, c, rfl, hc⟩
    obtain ⟨hne, hall⟩ := reads_some hsize hsizes
    obtain ⟨sizes, rfl, hread⟩ := exists_map hall
    have hsizes : sizes ≠ [] := fun he => hne (by rw [he]; rfl)
    refine ⟨⟨w, sizes⟩, ?_, hread⟩
    rw [Declarator.tree, Declarator.child, if_neg hsizes]
    rfl

theorem reads_declarators (h : Reads idl (.rule .declarators) s ts p r) :
    ∃ ds : List Declarator, ts = [.node .declarators (ds.map Declarator.tree)] ∧
      ∀ d ∈ ds, ∀ c ∈ d.sizes, IsRead .positiveIntConst c := by
  obtain ⟨us, q, rfl, -, hbody⟩ := reads_rule.mp h
  obtain ⟨s', vs, m, ws, n, rfl, -, hfirst, hmore⟩ := reads_seq.mp hbody
  obtain ⟨d, rfl, hd⟩ := reads_declarator hfirst
  have hnext : ∀ {s ts p r}, Reads idl (.seqs [Rule.s ",", .rule .declarator]) s ts p r →
      ∃ t, ts = [t] ∧ ∃ d : Declarator, t = d.tree ∧ ∀ c ∈ d.sizes, IsRead .positiveIntConst c := by
    intro s ts p r h
    obtain ⟨s₁, us, q, vs, k, rfl, -, hcomma, hread⟩ := reads_seq.mp h
    obtain ⟨d, rfl, hd⟩ := reads_declarator hread
    rw [reads_str_nil hcomma]
    exact ⟨_, rfl, d, rfl, hd⟩
  obtain ⟨ds, rfl, hds⟩ := exists_map (reads_many hnext hmore)
  refine ⟨d :: ds, rfl, fun e he => ?_⟩
  rcases List.mem_cons.mp he with rfl | he
  · exact hd
  · exact hds e he

theorem reads_member (h : Reads idl (.rule .member) s ts p r) :
    ∃ d : MemberDeclaration, ts = [d.tree] ∧ d.Proper := by
  obtain ⟨us, q, rfl, -, hbody⟩ := reads_rule.mp h
  obtain ⟨s₁, as, m, ws, n, rfl, -, hannotations, hbody⟩ := reads_seq.mp hbody
  obtain ⟨s₂, vs, m, ws, n, rfl, -, htype, hbody⟩ := reads_seq.mp hbody
  obtain ⟨s₃, xs, m, ws, n, rfl, -, hdeclarators, hend⟩ := reads_seq.mp hbody
  obtain ⟨typeSpec, rfl, htypeSpec⟩ := isRead_of_reads htype
  obtain ⟨ds, rfl, hds⟩ := reads_declarators hdeclarators
  rw [reads_str_nil hend]
  exact ⟨⟨as, typeSpec, ds⟩, rfl, reads_many isRead_of_reads hannotations, htypeSpec, hds⟩

/-- **Every reading of a struct** is the tree of some declarations. -/
theorem reads_structDef (h : Reads idl (.rule .structDef) s ts p r) :
    ∃ annotations name ds, ts = [structTree annotations name ds] ∧
      (∀ a ∈ annotations, IsRead .annotationAppl a) ∧ ∀ d ∈ ds, d.Proper := by
  obtain ⟨us, q, rfl, -, hbody⟩ := reads_rule.mp h
  obtain ⟨s₁, as, m, ws, n, rfl, -, hannotations, hbody⟩ := reads_seq.mp hbody
  obtain ⟨s₂, vs, m, ws, n, rfl, -, hstruct, hbody⟩ := reads_seq.mp hbody
  obtain ⟨s₃, xs, m, ws, n, rfl, -, hname, hbody⟩ := reads_seq.mp hbody
  obtain ⟨s₄, ys, m, ws, n, rfl, -, hopen, hbody⟩ := reads_seq.mp hbody
  obtain ⟨s₅, zs, m, ws, n, rfl, -, hmembers, hclose⟩ := reads_seq.mp hbody
  obtain ⟨w, rfl⟩ := reads_identifier_token hname
  have hmember : ∀ {s ts p r}, Reads idl (.rule .member) s ts p r →
      ∃ t, ts = [t] ∧ ∃ d : MemberDeclaration, t = d.tree ∧ d.Proper := by
    intro s ts p r h
    obtain ⟨d, rfl, hd⟩ := reads_member h
    exact ⟨_, rfl, d, rfl, hd⟩
  obtain ⟨ds, rfl, hds⟩ := exists_map (reads_some hmember hmembers).2
  rw [reads_str_nil hstruct, reads_str_nil hopen, reads_str_nil hclose]
  refine ⟨as, w, ds, ?_, reads_many isRead_of_reads hannotations, hds⟩
  rw [structTree, List.append_nil]
  rfl

end

/-! ## the searches in a struct -/

def sizeRules : List Rule := .positiveIntConst :: .floatingPtLiteralE :: firstOfExpr

def annotationRules : List Rule :=
  .annotationAppl :: .annotationApplParams :: .annotationApplParam :: .floatingPtLiteralE ::
    firstOfExpr

def typeRules : List Rule :=
  ([.typeSpec, .simpleTypeSpec, .templateTypeSpec, .baseTypeSpec, .floatingPtType,
   .floatingPtTypeFloat, .floatingPtTypeDouble, .floatingPtTypeLongDouble, .integerType, .signedInt,
   .signedShortInt, .signedLongInt, .signedLonglongInt, .signedTinyInt, .unsignedInt,
   .unsignedShortInt, .unsignedLongInt, .unsignedLonglongInt, .unsignedTinyInt, .charType,
   .wideCharType, .booleanType, .octetType, .sequenceType, .stringType, .wideStringType,
   .fixedPtType] : List Rule) ++ sizeRules

def Closed (L : List Rule) : Prop := ∀ x ∈ L, x.body.within (· ∈ L) = true

instance (L : List Rule) : Decidable (Closed L) :=
  inferInstanceAs (Decidable (∀ x ∈ L, x.body.within (· ∈ L) = true))

section
variable {t : Node} {x y : Rule} {L : List Rule}

theorem IsRead.findData_eq_nil (hL : Closed L) (h : IsRead x t) (hx : x ∈ L) (hy : y ∉ L) :
    t.findData y = [] := by
  obtain ⟨s, p, r, hread⟩ := h
  have hnil := hread.findAll_eq_nil (x := y) (f := (· ∈ L))
    (fun z hz => hL z (of_decide_eq_true hz)) (decide_eq_true hx) (decide_eq_false hy)
  rw [findAll_eq_flatMap, List.flatMap_singleton] at hnil
  exact hnil

theorem IsRead.findData_self (hL : Closed L) (h : IsRead x t)
    (hbody : x.body.within (· ∈ L) = true) (hx : x ∉ L) : t.findData x = [t] := by
  obtain ⟨s, p, r, hread⟩ := h
  obtain ⟨us, q, ht, -, hus⟩ := reads_rule.mp hread
  obtain rfl := (List.cons.inj ht).1
  have hnil := hus.findAll_eq_nil (x := x) (f := (· ∈ L))
    (fun z hz => hL z (of_decide_eq_true hz)) hbody (decide_eq_false hx)
  rw [findData_node, hnil, if_pos rfl]
  rfl

theorem IsRead.data (h : IsRead x t) : t.data? = some x := by
  obtain ⟨s, p, r, hread⟩ := h
  obtain ⟨us, q, ht, -, -⟩ := reads_rule.mp hread
  rw [(List.cons.inj ht).1]
  rfl

theorem IsRead.getLast_findData (h : IsRead x t) : (t.findData x).getLast? = some t := by
  obtain ⟨s, p, r, hread⟩ := h
  obtain ⟨us, q, ht, -, -⟩ := reads_rule.mp hread
  obtain rfl := (List.cons.inj ht).1
  rw [findData_node, if_pos rfl, List.getLast?_concat]

end

theorem closed_sizeRules : Closed sizeRules := by decide

theorem closed_annotationRules : Closed annotationRules := by decide

theorem closed_typeRules : Closed typeRules := by decide

def declaratorRules : List Rule :=
  [.declarator, .simpleDeclarator, .arrayDeclarator, .fixedArraySize]

theorem ne_of_notMem_declaratorRules {x : Rule} (hx : x ∉ declaratorRules) :
    ∀ y ∈ declaratorRules, y ≠ x := by
  rintro y hy rfl
  exact hx hy

namespace Declarator
variable {d : Declarator} (hd : ∀ c ∈ d.sizes, IsRead .positiveIntConst c)
include hd

theorem findData_size {c : Node} (hc : c ∈ d.sizes) :
    Tree.findData .positiveIntConst (.node .fixedArraySize [c] : Node) = [c] := by
  have hclosed : Closed (.floatingPtLiteralE :: firstOfExpr) := by decide
  rw [findData_single (by decide)]
  exact (hd c hc).findData_self hclosed (by decide) (by decide)

theorem findData_child (x : Rule) (hx : x ∉ sizeRules) (hne : x ∉ declaratorRules) :
    d.child.findData x = [] := by
  have hnames := ne_of_notMem_declaratorRules hne
  rw [child]
  split
  · rw [findData_single (hnames _ (by decide)), findData_token]
  · rw [findData_node, findAll_cons, findData_token, if_neg (hnames _ (by decide)),
      List.append_nil, List.nil_append]
    refine findAll_eq_nil fun t ht => ?_
    obtain ⟨c, hc, rfl⟩ := List.mem_map.mp ht
    rw [findData_single (hnames _ (by decide))]
    exact (hd c hc).findData_eq_nil closed_sizeRules (by decide) hx

theorem findData_fixedArraySize :
    d.child.findData .fixedArraySize = d.sizes.map fun c => .node .fixedArraySize [c] := by
  rw [child]
  split
  · rename_i hsizes
    rw [findData_single (by decide), findData_token, hsizes]
    rfl
  · rw [findData_node, findAll_cons, findData_token, if_neg (by decide), List.append_nil,
      List.nil_append, findAll_eq_flatMap, List.flatMap_map]
    rw [← List.flatMap_singleton' (d.sizes.map _), List.flatMap_map]
    refine List.flatMap_congr fun c hc => ?_
    rw [findData_node, if_pos rfl, findAll_eq_flatMap, List.flatMap_singleton,
      (hd c hc).findData_eq_nil closed_sizeRules (by decide) (by decide)]
    rfl

theorem findData_tree (x : Rule) (hx : x ∉ sizeRules) (hne : x ∉ declaratorRules) :
    d.tree.findData x = [] := by
  rw [tree, findData_single (ne_of_notMem_declaratorRules hne _ (by decide)),
    findData_child hd x hx hne]

theorem findData_declarator : d.tree.findData .declarator = [d.tree] := by
  have hchild : d.child.findData .declarator = [] := by
    rw [child]
    split
    · rw [findData_single (by decide), findData_token]
    · rw [findData_node, findAll_cons, findData_token, if_neg (by decide), List.append_nil,
        List.nil_append]
      refine findAll_eq_nil fun t ht => ?_
      obtain ⟨c, hc, rfl⟩ := List.mem_map.mp ht
      rw [findData_single (by decide)]
      exact (hd c hc).findData_eq_nil closed_sizeRules (by decide) (by decide)
  rw [tree, findData_node, if_pos rfl, findAll_cons, hchild]
  rfl

end Declarator

theorem MemberDeclaration.findData_tree (d : MemberDeclaration) (x : Rule) (hmember : x ≠ .member)
    (hdeclarators : x ≠ .declarators) : d.tree.findData x = findAll x d.annotations ++
      (d.typeSpec.findData x ++ findAll x (d.declarators.map Declarator.tree)) := by
  rw [tree, findData_node, if_neg hmember.symm, findAll_append, findAll_cons, findAll_cons,
    findData_node, if_neg hdeclarators.symm, List.append_nil, List.append_nil]
  show _ ++ (_ ++ (_ ++ [])) = _
  rw [List.append_nil]

namespace MemberDeclaration.Proper
variable {d : MemberDeclaration} (hd : d.Proper)
include hd

theorem findAll_annotations {x : Rule} (hx : x ∉ annotationRules) :
    findAll x d.annotations = [] :=
  findAll_eq_nil fun a ha =>
    (hd.annotations a ha).findData_eq_nil closed_annotationRules (by decide) hx

theorem findAll_declarators {x : Rule} (hx : x ∉ sizeRules) (hne : x ∉ declaratorRules) :
    findAll x (d.declarators.map Declarator.tree) = [] := by
  refine findAll_eq_nil fun t ht => ?_
  obtain ⟨e, he, rfl⟩ := List.mem_map.mp ht
  exact Declarator.findData_tree (hd.sizes e he) x hx hne

theorem typeSpec_last : (d.tree.findData .typeSpec).getLast? = some d.typeSpec := by
  rw [d.findData_tree _ (by decide) (by decide), hd.findAll_annotations (by decide),
    hd.findAll_declarators (by decide) (by decide), List.append_nil, List.nil_append]
  exact hd.typeSpec.getLast_findData

theorem findData_declarator :
    d.tree.findData .declarator = d.declarators.map Declarator.tree := by
  rw [d.findData_tree _ (by decide) (by decide), hd.findAll_annotations (by decide),
    hd.typeSpec.findData_eq_nil closed_typeRules (by decide) (by decide), findAll_eq_flatMap,
    List.flatMap_map, List.nil_append, List.nil_append,
    ← List.flatMap_singleton' (d.declarators.map _), List.flatMap_map]
  exact List.flatMap_congr fun e he => Declarator.findData_declarator (hd.sizes e he)

theorem findData_member : d.tree.findData .member = [d.tree] := by
  have hparts : findAll .member
      (d.annotations ++ [d.typeSpec, .node .declarators (d.declarators.map Declarator.tree)]) =
      [] := by
    rw [findAll_append, hd.findAll_annotations (by decide), findAll_cons, findAll_cons,
      hd.typeSpec.findData_eq_nil closed_typeRules (by decide) (by decide), findData_node,
      hd.findAll_declarators (by decide) (by decide)]
    rfl
  rw [tree, findData_node, if_pos rfl, hparts]
  rfl

theorem getAnnotations (E : Externals) :
    getAnnotations E d.tree = d.annotations.mapM (annotationOf E) := by
  have hfilter : d.tree.children.filter (fun c => c.data? = some .annotationAppl) =
      d.annotations := by
    rw [tree]
    show (d.annotations ++ _).filter _ = _
    rw [List.filter_append, List.filter_cons_of_neg (by rw [hd.typeSpec.data]; decide),
      List.filter_cons_of_neg (by simp [Tree.data?]), List.filter_nil, List.append_nil,
      List.filter_eq_self]
    intro a ha
    exact decide_eq_true (hd.annotations a ha).data
  rw [Rosidl.getAnnotations, hfilter]

end MemberDeclaration.Proper

/-! ## types of declarators -/

section
variable (E : Externals)

/-- the base type, or an array of it with the size of the declarator; arrays of more dimensions
are not supported -/
def declaredType (base : AbstractType) (d : Declarator) : Option AbstractType :=
  match d.sizes with
  | [] => some base
  | [c] => do
    let size ← (getPositiveIntConst E c).toOption
    (base.mkArray size).toOption
  | _ => none

def declaredMember (annotations : List Annotation) (base : AbstractType) (d : Declarator) :
    Option Member := do
  let type ← declaredType E base d
  return ⟨type, d.name, annotations⟩

/-- every declarator with its own type -/
def declaredMembers (d : MemberDeclaration) : Option (List Member) := do
  let base ← (getAbstractTypeFromTypeSpec E d.typeSpec).toOption
  let annotations ← (d.annotations.mapM (annotationOf E)).toOption
  d.declarators.mapM (declaredMember E annotations base)

/-- the members of a struct, in the order of the source -/
def declaredStruct (ds : List MemberDeclaration) : Option (List Member) := do
  let members ← ds.mapM (declaredMembers E)
  return members.flatten

def MemberDeclaration.ArraysLast (d : MemberDeclaration) : Prop :=
  ∀ x ∈ d.declarators.dropLast, x.sizes = []

def keptLoop (annotations : List Annotation) :
    AbstractType → List Declarator → Option (List Member)
  | _, [] => some []
  | type, x :: xs => do
    let type ← declaredType E type x
    let members ← keptLoop annotations type xs
    return ⟨type, x.name, annotations⟩ :: members

def keptMembers (d : MemberDeclaration) : Option (List Member) := do
  let base ← (getAbstractTypeFromTypeSpec E d.typeSpec).toOption
  let annotations ← (d.annotations.mapM (annotationOf E)).toOption
  keptLoop E annotations base d.declarators

theorem getFirstIdentifierValue_tree (d : Declarator) :
    getFirstIdentifierValue d.tree = .ok d.name := by
  have htokens : d.tree.tokens = d.child.tokens := by
    rw [Declarator.tree, tokens_node, tokensAll]
    exact List.append_nil _
  have hfirst : ∃ l, d.child.tokens = (.identifier, d.name) :: l := by
    rw [Declarator.child]
    split
    · exact ⟨[], rfl⟩
    · rw [tokens_node, tokensAll]
      exact ⟨_, rfl⟩
  obtain ⟨l, hl⟩ := hfirst
  rw [getFirstIdentifierValue, identifiers, htokens, hl]
  rfl

/-- one turn of the loop finds the size of its own declarator -/
theorem declaratorType_toOption (member : Node) {d : Declarator}
    (hd : ∀ c ∈ d.sizes, IsRead .positiveIntConst c) (type : AbstractType) :
    (declaratorType E member d.child type).toOption = declaredType E type d := by
  have hfind := Declarator.findData_fixedArraySize hd
  have hsize := fun {c} hc => Declarator.findData_size (c := c) hd hc
  rw [declaratorType, declaredType]
  cases hsizes : d.sizes with
  | nil =>
    have hdata : d.child.data? = some .simpleDeclarator := by
      rw [Declarator.child, if_pos hsizes]
      rfl
    rw [if_neg (by rw [hdata]; decide)]
    rfl
  | cons c cs =>
    have hdata : d.child.data? = some .arrayDeclarator := by
      rw [Declarator.child, if_neg (by rw [hsizes]; exact List.cons_ne_nil _ _)]
      rfl
    rw [hsizes] at hfind hsize
    rw [if_pos hdata, toOption_bind, arraySize, hfind]
    cases cs with
    | nil =>
      show ((next? (Tree.findData .positiveIntConst (.node .fixedArraySize [c] : Node)) >>=
        getPositiveIntConst E).toOption.bind _) = _
      rw [hsize List.mem_cons_self]
      rfl
    | cons c' cs => rfl

theorem declaratorLoop_toOption (member : Node) (annotations : List Annotation)
    {xs : List Declarator} (hxs : ∀ x ∈ xs, ∀ c ∈ x.sizes, IsRead .positiveIntConst c)
    (type : AbstractType) :
    (declaratorLoop E member annotations type (xs.map Declarator.tree)).toOption =
      keptLoop E annotations type xs := by
  induction xs generalizing type with
  | nil => rfl
  | cons x xs ih =>
    have htype := declaratorType_toOption E member (hxs x List.mem_cons_self) type
    rw [List.map_cons, declaratorLoop, keptLoop, ← htype]
    show (declaratorType E member x.child type >>= _).toOption = _
    rw [toOption_bind]
    refine congrArg _ (funext fun type' => ?_)
    rw [toOption_bind, getFirstIdentifierValue_tree]
    show Except.toOption (_ >>= _) = _
    rw [toOption_bind, ih fun y hy => hxs y (List.mem_cons_of_mem _ hy)]
    rfl

theorem memberMembers_toOption {d : MemberDeclaration} (hd : d.Proper) :
    (memberMembers E d.tree).toOption = keptMembers E d := by
  rw [memberMembers, hd.typeSpec_last, hd.findData_declarator, hd.getAnnotations E]
  show (getAbstractTypeFromTypeSpec E d.typeSpec >>= _).toOption = _
  rw [toOption_bind]
  refine congrArg _ (funext fun base => ?_)
  rw [toOption_bind]
  exact congrArg _ (funext fun annotations =>
    declaratorLoop_toOption E d.tree annotations hd.sizes base)

theorem findData_structTree {annotations : List Node} {name : Text} {ds : List MemberDeclaration}
    (hannotations : ∀ a ∈ annotations, IsRead .annotationAppl a) (hds : ∀ d ∈ ds, d.Proper) :
    (structTree annotations name ds).findData .member = ds.map MemberDeclaration.tree := by
  have hnone : findAll .member annotations = [] := findAll_eq_nil fun a ha =>
    (hannotations a ha).findData_eq_nil closed_annotationRules (by decide) (by decide)
  rw [structTree, findData_node, if_neg (by decide), findAll_append, hnone, findAll_cons,
    findData_token, findAll_eq_flatMap, List.flatMap_map, List.append_nil, List.nil_append,
    List.nil_append, ← List.flatMap_singleton' (ds.map _), List.flatMap_map]
  exact List.flatMap_congr fun d hd => (hds d hd).findData_member

/-- **The walk over a struct** keeps the type in every declaration. -/
theorem addMessageMembers_toOption {annotations : List Node} {name : Text}
    {ds : List MemberDeclaration} (hannotations : ∀ a ∈ annotations, IsRead .annotationAppl a)
    (hds : ∀ d ∈ ds, d.Proper) :
    (addMessageMembers E (structTree annotations name ds)).toOption =
      (ds.mapM (keptMembers E)).map List.flatten := by
  have hmap : (ds.map MemberDeclaration.tree).mapM (fun t => (memberMembers E t).toOption) =
      ds.mapM (keptMembers E) := by
    rw [List.mapM_map]
    exact mapM_congr fun d hd => memberMembers_toOption E (hds d hd)
  rw [addMessageMembers, findData_structTree hannotations hds, toOption_bind, toOption_mapM, hmap]
  cases ds.mapM (keptMembers E) <;> rfl

/-! ## when the type is kept -/

variable {E} {as : List Annotation} {base type : AbstractType} {x : Declarator}
  {xs : List Declarator} {n : NestableType} {k : Nat}

theorem declaredType_plain (hx : x.sizes = []) : declaredType E base x = some base := by
  rw [declaredType, hx]

theorem declaredType_sizes (hx : x.sizes ≠ []) (h : declaredType E base x = some type) :
    ∃ n k, base = .nestable n ∧ type = .array n k := by
  rw [declaredType] at h
  split at h
  · exact absurd ‹x.sizes = []› hx
  · obtain ⟨size, -, h⟩ := Option.bind_eq_some_iff.mp h
    cases base with
    | nestable n =>
      cases size with
      | number m =>
        by_cases hm : 0 < m
        · refine ⟨n, m, rfl, ?_⟩
          simp only [AbstractType.mkArray, assertNestable, assertPositive, if_pos hm, bind,
            Except.bind, pure, Except.pure, Except.toOption, Option.some.injEq] at h
          exact h.symm
        · simp [AbstractType.mkArray, assertNestable, assertPositive, hm, bind, Except.bind,
            Except.toOption] at h
      | constant name => cases h
    | array n k => cases h
    | boundedSequence n k => cases h
    | unboundedSequence n => cases h
  · cases h

/-- behind an array only plain declarators pass -/
theorem keptLoop_array {ms : List Member} (h : keptLoop E as (.array n k) xs = some ms) :
    (∀ x ∈ xs, x.sizes = []) ∧ ms = xs.map fun x => ⟨.array n k, x.name, as⟩ := by
  induction xs generalizing ms with
  | nil =>
    obtain rfl := Option.some.inj h
    exact ⟨fun x hx => absurd hx List.not_mem_nil, rfl⟩
  | cons x xs ih =>
    obtain ⟨type, htype, h⟩ := Option.bind_eq_some_iff.mp h
    obtain ⟨rest, hrest, h⟩ := Option.bind_eq_some_iff.mp h
    have hx : x.sizes = [] := by
      by_contra hx
      obtain ⟨n', k', he, -⟩ := declaredType_sizes hx htype
      cases he
    rw [declaredType_plain hx] at htype
    obtain rfl := Option.some.inj htype
    obtain ⟨hplain, rfl⟩ := ih hrest
    refine ⟨fun y hy => ?_, (Option.some.inj h).symm⟩
    rcases List.mem_cons.mp hy with rfl | hy
    · exact hx
    · exact hplain y hy

theorem mapM_declaredMember_plain (hxs : ∀ x ∈ xs, x.sizes = []) :
    xs.mapM (declaredMember E as base) = some (xs.map fun x => ⟨base, x.name, as⟩) := by
  induction xs with
  | nil => rfl
  | cons x xs ih =>
    rw [List.mapM_cons, declaredMember, declaredType_plain (hxs x List.mem_cons_self),
      ih fun y hy => hxs y (List.mem_cons_of_mem _ hy)]
    rfl

/-- **The loop gives the declared types** just when one of them does not exist or arrays come
last. -/
theorem keptLoop_eq_iff : keptLoop E as base xs = xs.mapM (declaredMember E as base) ↔
    xs.mapM (declaredMember E as base) = none ∨ ∀ x ∈ xs.dropLast, x.sizes = [] := by
  induction xs with
  | nil => exact ⟨fun _ => .inr fun x hx => absurd hx List.not_mem_nil, fun _ => rfl⟩
  | cons x xs ih =>
    rw [keptLoop, List.mapM_cons, declaredMember]
    cases htype : declaredType E base x with
    | none => exact ⟨fun _ => .inl rfl, fun _ => rfl⟩
    | some type =>
      have hcons : ∀ (a b : Option (List Member)) (m : Member),
          (a.bind fun l => some (m :: l)) = (b.bind fun l => some (m :: l)) ↔ a = b := by
        intro a b m
        cases a <;> cases b <;> simp
      have hnone : ∀ (a : Option (List Member)) (m : Member),
          (a.bind fun l => some (m :: l)) = none ↔ a = none := by
        intro a m
        cases a <;> simp
      show ((keptLoop E as type xs).bind fun l => some (_ :: l)) =
        ((xs.mapM (declaredMember E as base)).bind fun l => some (_ :: l)) ↔
        ((xs.mapM (declaredMember E as base)).bind fun l => some (_ :: l)) = none ∨ _
      rw [hcons, hnone]
      by_cases hx : x.sizes = []
      · -- a plain declarator leaves the type as it is
        rw [declaredType_plain hx] at htype
        obtain rfl := Option.some.inj htype
        rw [ih]
        cases xs with
        | nil => exact ⟨fun _ => .inr fun z hz => absurd hz List.not_mem_nil,
            fun _ => .inr fun z hz => absurd hz List.not_mem_nil⟩
        | cons y ys =>
          rw [List.dropLast_cons_cons]
          refine or_congr_right ⟨fun h z hz => ?_, fun h z hz => h z (List.mem_cons_of_mem _ hz)⟩
          rcases List.mem_cons.mp hz with rfl | hz
          · exact hx
          · exact h z hz
      · obtain ⟨n, k, rfl, rfl⟩ := declaredType_sizes hx htype
        cases xs with
        | nil => exact ⟨fun _ => .inr fun z hz => absurd hz List.not_mem_nil, fun _ => rfl⟩
        | cons y ys =>
          have hlast : ¬ ∀ z ∈ (x :: y :: ys).dropLast, z.sizes = [] := fun h =>
            hx (h x (by rw [List.dropLast_cons_cons]; exact List.mem_cons_self))
          have hboth : ∀ ms, keptLoop E as (.array n k) (y :: ys) = some ms →
              (y :: ys).mapM (declaredMember E as (.nestable n)) ≠ some ms ∧
              (y :: ys).mapM (declaredMember E as (.nestable n)) ≠ none := by
            intro ms hms
            obtain ⟨hplain, rfl⟩ := keptLoop_array hms
            rw [mapM_declaredMember_plain hplain]
            refine ⟨fun he => ?_, Option.some_ne_none _⟩
            have htype := congrArg Member.type (List.cons.inj (Option.some.inj he)).1
            cases htype
          rw [or_iff_left hlast]
          constructor
          · intro h
            cases hkept : keptLoop E as (.array n k) (y :: ys) with
            | none => rw [← h, hkept]
            | some ms => exact absurd (h.symm.trans hkept) (hboth ms hkept).1
          · intro h
            cases hkept : keptLoop E as (.array n k) (y :: ys) with
            | none => exact h.symm
            | some ms => exact absurd h (hboth ms hkept).2

theorem keptMembers_eq_iff {d : MemberDeclaration} : keptMembers E d = declaredMembers E d ↔
    declaredMembers E d = none ∨ d.ArraysLast := by
  rw [keptMembers, declaredMembers]
  cases (getAbstractTypeFromTypeSpec E d.typeSpec).toOption with
  | none => exact ⟨fun _ => .inl rfl, fun _ => rfl⟩
  | some base =>
    cases (d.annotations.mapM (annotationOf E)).toOption with
    | none => exact ⟨fun _ => .inl rfl, fun _ => rfl⟩
    | some as => exact keptLoop_eq_iff

theorem keptLoop_length {ms : List Member} (h : keptLoop E as base xs = some ms) :
    ms.length = xs.length := by
  induction xs generalizing ms base with
  | nil =>
    obtain rfl := Option.some.inj h
    rfl
  | cons x xs ih =>
    obtain ⟨type, -, h⟩ := Option.bind_eq_some_iff.mp h
    obtain ⟨rest, hrest, h⟩ := Option.bind_eq_some_iff.mp h
    obtain rfl := Option.some.inj h
    rw [List.length_cons, List.length_cons, ih hrest]

theorem keptMembers_length {d : MemberDeclaration} {ms : List Member}
    (h : keptMembers E d = some ms) : ms.length = d.declarators.length := by
  obtain ⟨base, -, h⟩ := Option.bind_eq_some_iff.mp h
  obtain ⟨as, -, h⟩ := Option.bind_eq_some_iff.mp h
  exact keptLoop_length h

theorem declaredMembers_length {d : MemberDeclaration} {ms : List Member}
    (h : declaredMembers E d = some ms) : ms.length = d.declarators.length := by
  obtain ⟨base, -, h⟩ := Option.bind_eq_some_iff.mp h
  obtain ⟨as, -, h⟩ := Option.bind_eq_some_iff.mp h
  have hlen := congrArg List.length (mapM_eq_some_iff.mp h)
  rw [List.length_map, List.length_map] at hlen
  exact hlen.symm

/-- one declaration after the other: the lists of members have the same lengths -/
theorem keptStruct_eq_iff {ds : List MemberDeclaration} :
    (ds.mapM (keptMembers E)).map List.flatten = declaredStruct E ds ↔
      declaredStruct E ds = none ∨ ∀ d ∈ ds, d.ArraysLast := by
  have hdeclared : declaredStruct E ds = (ds.mapM (declaredMembers E)).map List.flatten := by
    rw [declaredStruct]
    cases ds.mapM (declaredMembers E) <;> rfl
  rw [hdeclared, Option.map_eq_none_iff]
  cases hall : ds.mapM (declaredMembers E) with
  | none =>
    refine ⟨fun _ => .inl rfl, fun _ => ?_⟩
    obtain ⟨d, hd, hnone⟩ := mapM_eq_none_iff.mp hall
    have hkept : keptMembers E d = none :=
      (keptMembers_eq_iff.mpr (.inl hnone)).trans hnone
    rw [mapM_eq_none_iff.mpr ⟨d, hd, hkept⟩, Option.map_none]
  | some dss =>
    have hlens : ∀ {f : MemberDeclaration → Option (List Member)} {l : List (List Member)},
        (∀ d ms, f d = some ms → ms.length = d.declarators.length) → ds.mapM f = some l →
        l.map List.length = ds.map fun d => d.declarators.length := by
      intro f l hf hl
      have hmap := mapM_eq_some_iff.mp hl
      have hlength : (l.map some).map (fun o : Option (List Member) => (o.getD []).length) =
          ds.map fun d => d.declarators.length := by
        rw [← hmap, List.map_map]
        refine List.map_congr_left fun d hd => ?_
        have hmem : f d ∈ l.map some := hmap ▸ List.mem_map_of_mem hd
        obtain ⟨ms, -, hms⟩ := List.mem_map.mp hmem
        rw [Function.comp_apply, ← hms]
        exact hf d ms hms.symm
      rw [← hlength, List.map_map]
      rfl
    constructor
    · intro h
      obtain ⟨kss, hkss, hflat⟩ := Option.map_eq_some_iff.mp h
      obtain rfl : kss = dss := List.eq_iff_flatten_eq.mpr ⟨hflat,
        (hlens (fun _ _ => keptMembers_length) hkss).trans
          (hlens (fun _ _ => declaredMembers_length) hall).symm⟩
      have hsame : ds.map (keptMembers E) = ds.map (declaredMembers E) :=
        (mapM_eq_some_iff.mp hkss).trans (mapM_eq_some_iff.mp hall).symm
      refine .inr fun d hd => ?_
      rcases keptMembers_eq_iff.mp (List.map_inj_left.mp hsame d hd) with hnone | hlast
      · have hfail := mapM_eq_none_iff.mpr ⟨d, hd, hnone⟩
        rw [hall] at hfail
        cases hfail
      · exact hlast
    · rintro (h | h)
      · cases h
      · have hsame : ds.mapM (keptMembers E) = ds.mapM (declaredMembers E) :=
          mapM_congr fun d hd => keptMembers_eq_iff.mpr (.inr (h d hd))
        rw [hsame, hall]

variable (E)

/-- **Each member has its own type**, in every reading of a struct, just when one of the types does
not exist or in each declaration only the last declarator is an array. -/
theorem members_iff {s r : Text} {ts : List Node} {p : Nat}
    (h : Reads idl (.rule .structDef) s ts p r) :
    ∃ annotations name ds, ts = [structTree annotations name ds] ∧
      ((addMessageMembers E (structTree annotations name ds)).toOption = declaredStruct E ds ↔
        declaredStruct E ds = none ∨ ∀ d ∈ ds, d.ArraysLast) := by
  obtain ⟨annotations, name, ds, rfl, hannotations, hds⟩ := reads_structDef h
  refine ⟨annotations, name, ds, rfl, ?_⟩
  rw [addMessageMembers_toOption E hannotations hds]
  exact keptStruct_eq_iff

end

/-! ## an array first -/

/-- the tree of `long` -/
def longTree : Node :=
  .node .typeSpec [.node .simpleTypeSpec [.node .baseTypeSpec [.node .integerType
    [.node .signedInt [.node .signedLongInt []]]]]]

def twoTree : Node :=
  .node .positiveIntConst [exprTree (operandTree false (integerTree ['2']))]

/-- `long a[2], b;` -/
def arrayFirst : MemberDeclaration := ⟨[], longTree, [⟨['a'], [twoTree]⟩, ⟨['b'], []⟩]⟩

theorem isWord_single {c : Char} {r : Text} (hc : isLetter c = true)
    (hr : (r.head?.all fun d => !isIdentifierChar d) = true) : IsWord [c] r := by
  refine ⟨⟨c, [], rfl, hc⟩, fun d hd => ?_, fun d hd => ?_⟩
  · rw [List.mem_singleton.mp hd]
    exact isIdentifierChar_of_letter hc
  · rw [Option.mem_def.mp hd] at hr
    simpa using hr

theorem reads_name {s r : Text} {c : Char} (hs : skip s = c :: r) (hc : isLetter c = true)
    (hr : (r.head?.all fun d => !isIdentifierChar d) = true) :
    Reads idl (.terminal .identifier) s [.token .identifier [c]] 0 r :=
  reads_identifier.mpr ⟨_, hs, isWord_single hc hr, rfl, rfl⟩

theorem reads_str_skip {text : String} {s : Text} (r : Text) (htext : solidText text = true)
    (hs : skip s = text.toList ++ r) : Reads idl (Rule.s text) s [] 0 r :=
  (reads_str htext).mpr ⟨rfl, rfl, hs⟩

theorem reads_long : ∃ k, Reads idl (.rule .typeSpec) " long a[2], b; \x7d;".toList [longTree] k
    " a[2], b; \x7d;".toList := by
  have hlong : Reads idl (.rule .signedLongInt) " long a[2], b; \x7d;".toList
      [.node .signedLongInt []] _ " a[2], b; \x7d;".toList :=
    .rule (.left (reads_str_skip _ rfl rfl))
  have hinteger : Reads idl (.rule .integerType) " long a[2], b; \x7d;".toList
      [.node .integerType [.node .signedInt [.node .signedLongInt []]]] _
      " a[2], b; \x7d;".toList := .rule (.left (.rule (.right (.left hlong))))
  exact ⟨_, .rule (.left (.rule (.left (.rule (.left hinteger)))))⟩

theorem reads_two : ∃ k, Reads idl (.rule .positiveIntConst) "2], b; \x7d;".toList [twoTree] k
    "], b; \x7d;".toList := by
  have hD : Decimal ['2'] := ⟨by decide, List.all_eq_true.mp (by decide), .inr (by decide)⟩
  have hinteger : Reads idl (.rule .integerLiteral) "2], b; \x7d;".toList [integerTree ['2']] 0
      "], b; \x7d;".toList := reads_integer_of hD
  have hoperand : ∃ k, Reads idl (.rule .unaryExpr) (signText false ++ "2], b; \x7d;".toList)
      [operandTree false (integerTree ['2'])] k "], b; \x7d;".toList :=
    reads_operand_of (by decide) hinteger
  obtain ⟨k, hk⟩ := hoperand
  exact ⟨_, .rule (reads_constExpr hk)⟩

theorem reads_arrayFirst : ∃ p, Reads idl (.rule .structDef)
    "struct S \x7b long a[2], b; \x7d;".toList [structTree [] ['S'] [arrayFirst]] p [';'] := by
  obtain ⟨j, htype⟩ := reads_long
  obtain ⟨k, htwo⟩ := reads_two
  have hsize : Reads idl (.rule .fixedArraySize) "[2], b; \x7d;".toList
      [.node .fixedArraySize [twoTree]] _ ", b; \x7d;".toList :=
    .rule (.seq (reads_str_skip _ rfl rfl) (.seq htwo (reads_str_skip _ rfl rfl)))
  have harray : Reads idl (.rule .declarator) " a[2], b; \x7d;".toList
      [Declarator.tree ⟨['a'], [twoTree]⟩] _ ", b; \x7d;".toList :=
    .rule (.right (.rule (.seq (reads_name (r := "[2], b; \x7d;".toList) rfl rfl rfl)
      (.seq hsize (.done _)))))
  have hplain : Reads idl (.rule .declarator) " b; \x7d;".toList [Declarator.tree ⟨['b'], []⟩] _
      "; \x7d;".toList := .rule (.left (.rule (reads_name rfl rfl rfl)))
  have hdeclarators : Reads idl (.rule .declarators) " a[2], b; \x7d;".toList _ _
      "; \x7d;".toList := .rule (.seq harray (.more (.seq (reads_str_skip _ rfl rfl) hplain) (.done _)))
  have hmember : Reads idl (.rule .member) " long a[2], b; \x7d;".toList [arrayFirst.tree] _
      " \x7d;".toList :=
    .rule (.seq (.done _) (.seq htype (.seq hdeclarators (reads_str_skip _ rfl rfl))))
  have hopen : Reads idl (Rule.s "\x7b") " \x7b long a[2], b; \x7d;".toList [] 0
      " long a[2], b; \x7d;".toList := reads_str_skip _ rfl rfl
  have hclose : Reads idl (Rule.s "\x7d") " \x7d;".toList [] 0 [';'] := reads_str_skip _ rfl rfl
  have hmembers : Reads idl (Rule.some [.rule .member]) " long a[2], b; \x7d;".toList
      [arrayFirst.tree] _ " \x7d;".toList := .seq hmember (.done _)
  have hbody := Reads.seq hopen (Reads.seq hmembers hclose)
  have hstruct : Reads idl (Rule.s "struct") "struct S \x7b long a[2], b; \x7d;".toList [] 0
      " S \x7b long a[2], b; \x7d;".toList := reads_str_skip _ rfl rfl
  exact ⟨_, .rule (.seq (.done _) (.seq hstruct
    (.seq (reads_name (r := " \x7b long a[2], b; \x7d;".toList) rfl rfl rfl) hbody)))⟩

theorem proper_arrayFirst : arrayFirst.Proper where
  annotations a ha := absurd ha List.not_mem_nil
  typeSpec := by
    obtain ⟨k, h⟩ := reads_long
    exact ⟨_, k, _, h⟩
  sizes x hx c hc := by
    obtain ⟨k, h⟩ := reads_two
    rcases List.mem_cons.mp hx with rfl | hx
    · obtain rfl := List.mem_singleton.mp hc
      exact ⟨_, k, _, h⟩
    · obtain rfl := List.mem_singleton.mp hx
      exact absurd hc List.not_mem_nil

theorem members_iff_arrayFirst : ∃ annotations name ds,
    [structTree [] ['S'] [arrayFirst]] = [structTree annotations name ds] ∧
    ((addMessageMembers plainExternals (structTree annotations name ds)).toOption =
      declaredStruct plainExternals ds ↔
      declaredStruct plainExternals ds = none ∨ ∀ d ∈ ds, d.ArraysLast) := by
  obtain ⟨p, h⟩ := reads_arrayFirst
  exact members_iff plainExternals h

/-- `int32` -/
def int32Type : NestableType := .basic "int32".toList

theorem getAbstractType_longTree :
    getAbstractTypeFromTypeSpec plainExternals longTree = .ok (.nestable int32Type) := by
  rw [getAbstractTypeFromTypeSpec, longTree]
  show getAbstractType _ _ = _
  rw [getAbstractType]
  rfl

theorem getPositiveIntConst_twoTree :
    getPositiveIntConst plainExternals twoTree = .ok (.number 2) := by
  have hfind : twoTree.findData .decimalLiteral = [.node .decimalLiteral [digitToken '2']] := rfl
  rw [getPositiveIntConst, if_neg (by decide), hfind]
  rfl

/-- `b` gets the type of `a` -/
theorem not_members :
    (∃ p, Reads idl (.rule .structDef) "struct S \x7b long a[2], b; \x7d;".toList
      [structTree [] ['S'] [arrayFirst]] p [';']) ∧
    declaredStruct plainExternals [arrayFirst] =
      some [⟨.array int32Type 2, ['a'], []⟩, ⟨.nestable int32Type, ['b'], []⟩] ∧
    (addMessageMembers plainExternals (structTree [] ['S'] [arrayFirst])).toOption =
      some [⟨.array int32Type 2, ['a'], []⟩, ⟨.array int32Type 2, ['b'], []⟩] := by
  have hproper : ∀ d ∈ [arrayFirst], d.Proper := by
    intro d hd
    rw [List.mem_singleton.mp hd]
    exact proper_arrayFirst
  have hsize : declaredType plainExternals (.nestable int32Type) ⟨['a'], [twoTree]⟩ =
      some (.array int32Type 2) := by
    simp only [declaredType, getPositiveIntConst_twoTree]
    rfl
  have hdeclared : declaredMembers plainExternals arrayFirst =
      some [⟨.array int32Type 2, ['a'], []⟩, ⟨.nestable int32Type, ['b'], []⟩] := by
    rw [declaredMembers, show arrayFirst.typeSpec = longTree from rfl, getAbstractType_longTree]
    show [⟨['a'], [twoTree]⟩, ⟨['b'], []⟩].mapM
      (declaredMember plainExternals [] (.nestable int32Type)) = _
    rw [List.mapM_cons, declaredMember, hsize]
    rfl
  have hkept : keptMembers plainExternals arrayFirst =
      some [⟨.array int32Type 2, ['a'], []⟩, ⟨.array int32Type 2, ['b'], []⟩] := by
    rw [keptMembers, show arrayFirst.typeSpec = longTree from rfl, getAbstractType_longTree]
    show keptLoop plainExternals [] (.nestable int32Type) [⟨['a'], [twoTree]⟩, ⟨['b'], []⟩] = _
    rw [keptLoop, hsize]
    rfl
  refine ⟨reads_arrayFirst, ?_, ?_⟩
  · rw [declaredStruct, List.mapM_cons, hdeclared]
    rfl
  · rw [addMessageMembers_toOption plainExternals (fun a ha => absurd ha List.not_mem_nil) hproper,
      List.mapM_cons, hkept]
    rfl

end PMROS2.Rosidl
