import PMROS2.Rosidl.MsgParser
import PMROS2.Lib.Simulation

/-!
# The tracking header of messages

Every message gets three hidden fields, which the C++ side reads through an overlay on the
beginning of the message (`MessageTrackingVariables`).

* `Declaration.ofLine`      what a line of the file declares, by itself;
* `NamesType`               the types that the texts of a declaration name;
* `step_declares`           one round of the parser's loop adds just that;
* `Tracked`                 the hidden fields, then the user's; the constants; the overlay;
* `parsed_tracked`          every message of every `.msg`, `.srv` and `.action` file is tracked.
-/

namespace PMROS2.Rosidl
open PMROS2.Strings PMROS2.Simulation

/-! ## what a line declares -/

inductive Declaration
  | field (type name : Text) (defaultValue : Option Text)
  | constant (type name value : Text)
  | malformed (line : Text)
  deriving DecidableEq, Repr

/-- the declaration of a line without its comment -/
def Declaration.ofCode (code : Text) : Declaration :=
  let (type, _, rest) := partition ' ' code
  let rest := lstrip rest
  if rest = [] then .malformed code
  else if '=' ∈ rest then
    let (name, _, value) := partition '=' rest
    .constant type (rstrip name) (lstrip value)
  else
    let (name, _, value) := partition ' ' rest
    .field type name (if lstrip value = [] then none else some (lstrip value))

/-- the line up to a comment sign; a line of blanks declares nothing -/
def Declaration.ofLine (line : Text) : Option Declaration :=
  let code := rstrip ((rstrip line).takeWhile (· ≠ '#'))
  if code = [] then none else some (Declaration.ofCode code)

def fieldDeclarations (lines : List Text) : List (Text × Text × Option Text) :=
  lines.filterMap fun line => match Declaration.ofLine line with
    | some (.field type name value) => some (type, name, value)
    | _ => none

def constantDeclarations (lines : List Text) : List (Text × Text × Text) :=
  lines.filterMap fun line => match Declaration.ofLine line with
    | some (.constant type name value) => some (type, name, value)
    | _ => none

section
variable {F : Type} (py : Python F)

def makeField (pkgName : Text) (d : Text × Text × Option Text) : Except PyError (Field F) := do
  let type ← MsgType.parse py d.1 (some pkgName)
  Field.make py type d.2.1 d.2.2

def makeConstant (d : Text × Text × Text) : Except PyError (Constant F) :=
  Constant.make py d.1 d.2.1 d.2.2

def Field.bare (f : Field F) : Field F := { f with annotations := ⟨none, none⟩ }

def Constant.bare (c : Constant F) : Constant F := { c with annotations := ⟨none, none⟩ }

end

/-! ## what its texts name -/

section
variable {F : Type} (py : Python F) (pkgName : Text)

def IsBound (s : Text) (n : Nat) : Prop := 0 < n ∧ py.int s = some (n : Int)

/-- the base types, as a file of the package writes them -/
inductive NamesBase : Text → BaseType → Prop
  | primitive (p : Primitive) : NamesBase p.text (.primitive p none)
  | boundedString {s : Text} {n : Nat} : IsBound py s n →
      NamesBase ("string<=".toList ++ s) (.primitive .string (some n))
  | boundedWstring {s : Text} {n : Nat} : IsBound py s n →
      NamesBase ("wstring<=".toList ++ s) (.primitive .wstring (some n))
  | message {pkg type : Text} : isValidPackageName pkg = true → isValidMessageName type = true →
      NamesBase (pkg ++ '/' :: type) (.message pkg type)
  | ownMessage {type : Text} : isValidPackageName pkgName = true →
      isValidMessageName type = true → NamesBase type (.message pkgName type)

/-- the types: a base type, which may have brackets behind it -/
inductive NamesType : Text → MsgType → Prop
  | scalar {s : Text} {b : BaseType} : NamesBase py pkgName s b →
      NamesType s ⟨b, false, none, false⟩
  | unbounded {s : Text} {b : BaseType} : NamesBase py pkgName s b →
      NamesType (s ++ "[]".toList) ⟨b, true, none, false⟩
  | fixed {s size : Text} {b : BaseType} {n : Nat} : NamesBase py pkgName s b →
      IsBound py size n → ¬ "<=".toList <+: size →
      NamesType (s ++ '[' :: (size ++ [']'])) ⟨b, true, some n, false⟩
  | bounded {s size : Text} {b : BaseType} {n : Nat} : NamesBase py pkgName s b →
      IsBound py size n →
      NamesType (s ++ '[' :: ("<=".toList ++ size ++ [']'])) ⟨b, true, some n, true⟩

/-- the type, the name and whether there is a default value, by the texts of the declaration -/
structure Field.Declared (d : Text × Text × Option Text) (f : Field F) : Prop where
  type : NamesType py pkgName d.1 f.type
  name : f.name = d.2.1
  defaultValue : f.defaultValue.isSome = d.2.2.isSome

structure Constant.Declared (d : Text × Text × Text) (c : Constant F) : Prop where
  type : d.1 = c.type.text
  name : c.name = d.2.1

end

section
variable {F : Type} {py : Python F} {pkgName : Text}

theorem isBound_toNat {s : Text} {n : Int} (h : py.int s = some n) (hn : ¬ n ≤ 0) :
    IsBound py s n.toNat :=
  ⟨by omega, by rw [h, Int.toNat_of_nonneg (by omega)]⟩

theorem parseBound_names {type : Primitive} {typeString s : Text} {b : BaseType}
    (h : BaseType.parseBound py type typeString s = .ok b) :
    ∃ n, IsBound py s n ∧ b = .primitive type (some n) := by
  unfold BaseType.parseBound at h
  cases hn : py.int s with
  | none => simp [hn] at h
  | some n =>
    simp only [hn] at h
    split at h
    · cases h
    · rename_i hpos
      exact ⟨n.toNat, isBound_toNat hn hpos, (Except.ok.inj h).symm⟩

theorem primitiveTypes_lookup {s : Text} {p : Primitive} (h : primitiveTypes.lookup s = some p) :
    s = p.text := by
  obtain ⟨l, l', hl, _⟩ := List.lookup_eq_some_iff.mp h
  have hall : ∀ q ∈ primitiveTypes, q.1 = q.2.text := by decide
  exact hall (s, p) (by rw [hl]; simp)

theorem startswith_drop {s p : Text} (h : startswith s p = true) : p ++ s.drop p.length = s :=
  List.prefix_iff_eq_append.mp (List.isPrefixOf_iff_prefix.mp h)

theorem parse_namesBase {s : Text} {b : BaseType}
    (h : BaseType.parse py s (some pkgName) = .ok b) : NamesBase py pkgName s b := by
  unfold BaseType.parse at h
  cases hp : primitiveTypes.lookup s with
  | some p =>
    simp only [hp] at h
    obtain rfl := Except.ok.inj h
    rw [primitiveTypes_lookup hp]
    exact .primitive p
  | none =>
    simp only [hp] at h
    split at h
    · rename_i hs
      obtain ⟨n, hn, rfl⟩ := parseBound_names h
      rw [← startswith_drop hs]
      exact .boundedString hn
    split at h
    · rename_i hs
      obtain ⟨n, hn, rfl⟩ := parseBound_names h
      rw [← startswith_drop hs]
      exact .boundedWstring hn
    -- a message, by its full name or in the package of the file
    have hnamed : ∀ {pkg type : Text}, (if (!isValidPackageName pkg) = true then
          (.error (.invalidResourceName pkg) : Except PyError BaseType)
        else if (!isValidMessageName type) = true then .error (.invalidResourceName type)
        else .ok (.message pkg type)) = .ok b →
        isValidPackageName pkg = true ∧ isValidMessageName type = true ∧ b = .message pkg type := by
      intro pkg type h
      split at h
      · cases h
      split at h
      · cases h
      rename_i hpkg htype
      exact ⟨by simpa using hpkg, by simpa using htype, (Except.ok.inj h).symm⟩
    split at h
    · rename_i pkg type hsplit
      obtain ⟨hpkg, htype, rfl⟩ := hnamed h
      have hs : ['/'].intercalate (s.splitOn '/') = s := List.intercalate_splitOn '/'
      have hjoin : ['/'].intercalate [pkg, type] = pkg ++ '/' :: type := by simp [List.intercalate]
      rw [hsplit, hjoin] at hs
      rw [← hs]
      exact .message hpkg htype
    · rename_i own hsplit hcontext
      obtain rfl := Option.some.inj hcontext
      obtain ⟨hpkg, htype, rfl⟩ := hnamed h
      exact .ownMessage hpkg htype
    · cases h

theorem rindexBracket_eq_some {s : Text} {i : Nat} (h : rindexBracket s = some i)
    (hlast : s.getLast? = some ']') :
    s = s.take i ++ '[' :: ((s.drop (i + 1)).dropLast ++ [']']) := by
  unfold rindexBracket at h
  obtain ⟨j, hj, rfl⟩ := Option.map_eq_some_iff.mp h
  obtain ⟨hlt, hbracket, _⟩ := List.findIdx?_eq_some_iff_getElem.mp hj
  rw [List.length_reverse] at hlt
  have hi : s.length - 1 - j < s.length := by omega
  have hget : s[s.length - 1 - j] = '[' := by
    rw [List.getElem_reverse] at hbracket
    exact of_decide_eq_true hbracket
  have hdrop : s.drop (s.length - 1 - j) = '[' :: s.drop (s.length - 1 - j + 1) := by
    rw [List.drop_eq_getElem_cons hi, hget]
  -- the bracket is not the last character
  have hend : (s.drop (s.length - 1 - j + 1)).getLast? = some ']' := by
    have hall : (s.drop (s.length - 1 - j)).getLast? = some ']' := by
      rw [List.getLast?_drop, if_neg (by omega), hlast]
    rw [hdrop] at hall
    cases hrest : s.drop (s.length - 1 - j + 1) with
    | nil =>
      rw [hrest] at hall
      cases hall
    | cons c cs => rwa [hrest, List.getLast?_cons_cons] at hall
  rw [List.dropLast_append_getLast? _ hend, ← hdrop, List.take_append_drop]

theorem parseSize_names {typeString size : Text} {n : Option Nat} {isUpperBound : Bool}
    (h : MsgType.parseSize py typeString size = .ok (n, isUpperBound)) :
    size = [] ∧ n = none ∧ isUpperBound = false ∨
      (∃ m, n = some m ∧ isUpperBound = false ∧ IsBound py size m ∧ ¬ "<=".toList <+: size) ∨
      ∃ m rest, n = some m ∧ isUpperBound = true ∧ size = "<=".toList ++ rest ∧
        IsBound py rest m := by
  unfold MsgType.parseSize at h
  split at h
  · rename_i hsize
    obtain ⟨rfl, rfl⟩ := Prod.mk.inj (Except.ok.inj h)
    exact .inl ⟨hsize, rfl, rfl⟩
  simp only at h
  split at h
  · cases h
  rename_i m hm
  split at h
  · cases h
  rename_i hpos
  obtain ⟨rfl, rfl⟩ := Prod.mk.inj (Except.ok.inj h)
  have hbound := isBound_toNat hm hpos
  cases hs : startswith size "<=".toList with
  | false =>
    rw [hs] at hbound
    refine .inr (.inl ⟨_, rfl, rfl, hbound, fun hpre => ?_⟩)
    rw [startswith, List.isPrefixOf_iff_prefix.mpr hpre] at hs
    cases hs
  | true =>
    rw [hs] at hbound
    exact .inr (.inr ⟨_, size.drop 2, rfl, rfl, (startswith_drop hs).symm, hbound⟩)

theorem parse_namesType {s : Text} {t : MsgType}
    (h : MsgType.parse py s (some pkgName) = .ok t) : NamesType py pkgName s t := by
  unfold MsgType.parse at h
  cases hlast : s.getLast? with
  | none =>
    simp only [hlast] at h
    cases h
  | some last =>
    simp only [hlast] at h
    split at h
    · rename_i hclose
      split at h
      · cases h
      rename_i i hi
      obtain ⟨⟨n, isUpperBound⟩, hsize, h'⟩ := bind_eq_ok.mp h
      obtain ⟨b, hbase, hb⟩ := bind_eq_ok.mp h'
      obtain rfl := Except.ok.inj hb
      have hs := rindexBracket_eq_some hi (hclose ▸ hlast)
      have hnames := parse_namesBase hbase
      rcases parseSize_names hsize with ⟨hnil, rfl, rfl⟩ | ⟨m, rfl, rfl, hm, hno⟩ |
        ⟨m, rest, rfl, rfl, hrest, hm⟩
      · rw [hnil] at hs
        rw [hs]
        exact .unbounded hnames
      · rw [hs]
        exact .fixed hnames hm hno
      · rw [hrest] at hs
        rw [hs]
        exact .bounded hnames hm
    · obtain ⟨b, hbase, hb⟩ := bind_eq_ok.mp h
      obtain rfl := Except.ok.inj hb
      exact .scalar (parse_namesBase hbase)

theorem makeField_declared {d : Text × Text × Option Text} {f : Field F}
    (h : makeField py pkgName d = .ok f) : f.Declared py pkgName d := by
  obtain ⟨t, ht, hf⟩ := bind_eq_ok.mp h
  have htype := parse_namesType ht
  unfold Field.make at hf
  split at hf
  · cases hf
  split at hf
  · rename_i hnone
    obtain rfl := Except.ok.inj hf
    exact ⟨htype, rfl, by rw [hnone]; rfl⟩
  · rename_i s hsome
    obtain ⟨v, _, hv⟩ := bind_eq_ok.mp hf
    obtain rfl := Except.ok.inj hv
    exact ⟨htype, rfl, by rw [hsome]; rfl⟩

theorem makeConstant_declared {d : Text × Text × Text} {c : Constant F}
    (h : makeConstant py d = .ok c) : c.Declared d := by
  unfold makeConstant Constant.make at h
  split at h
  · cases h
  rename_i p hp
  split at h
  · cases h
  obtain ⟨t, _, h'⟩ := bind_eq_ok.mp h
  obtain ⟨v, _, hc⟩ := bind_eq_ok.mp h'
  obtain rfl := Except.ok.inj hc
  exact ⟨primitiveTypes_lookup hp, rfl⟩

theorem forall₂_of_mapM {α β : Type} {g : α → Except PyError β} {R : α → β → Prop}
    (hR : ∀ a b, g a = .ok b → R a b) (l : List α) :
    ∀ {bs : List β}, l.mapM g = .ok bs → List.Forall₂ R l bs := by
  induction l with
  | nil =>
    intro bs h
    obtain rfl := Except.ok.inj h
    exact .nil
  | cons a l ih =>
    intro bs h
    rw [List.mapM_cons] at h
    obtain ⟨b, hb, h'⟩ := bind_eq_ok.mp h
    obtain ⟨bs', hbs, h''⟩ := bind_eq_ok.mp h'
    obtain rfl := Except.ok.inj h''
    exact .cons (hR a b hb) (ih hbs)

end

/-! ## one round of the loop -/

section
variable {F : Type} {py : Python F} {pkgName : Text}

/-- the new fields and constants, annotations apart -/
def Loop.Declares (py : Python F) (pkgName : Text) (l l' : Loop F) :
    Option Declaration → Prop
  | none => l'.fields.map Field.bare = l.fields.map Field.bare ∧
      l'.constants.map Constant.bare = l.constants.map Constant.bare
  | some (.field type name value) =>
    (∃ f, makeField py pkgName (type, name, value) = .ok f ∧
      l'.fields.map Field.bare = l.fields.map Field.bare ++ [f]) ∧
      l'.constants.map Constant.bare = l.constants.map Constant.bare
  | some (.constant type name value) =>
    l'.fields.map Field.bare = l.fields.map Field.bare ∧
      ∃ c, makeConstant py (type, name, value) = .ok c ∧
        l'.constants.map Constant.bare = l.constants.map Constant.bare ++ [c]
  | some (.malformed _) => False

theorem map_modify_eq {α β : Type*} (g : α → β) (f : α → α) (h : ∀ a, g (f a) = g a) (l : List α)
    (i : Nat) : (l.modify i f).map g = l.map g := by
  apply List.ext_getElem?
  intro j
  rw [List.getElem?_map, List.getElem?_modify, List.getElem?_map]
  cases l[j]? with
  | none => rfl
  | some a => by_cases hij : i = j <;> simp [hij, h]

theorem annotate_fields (l : Loop F) (cs : List Text) :
    (l.annotate cs).fields.map Field.bare = l.fields.map Field.bare := by
  unfold Loop.annotate
  split
  · rfl
  · apply map_modify_eq
    intro f
    rfl
  · rfl

theorem annotate_constants (l : Loop F) (cs : List Text) :
    (l.annotate cs).constants.map Constant.bare = l.constants.map Constant.bare := by
  unfold Loop.annotate
  split
  · rfl
  · rfl
  · apply map_modify_eq
    intro c
    rfl

theorem Field.make_bare {type : MsgType} {name : Text} {v : Option Text} {f : Field F}
    (h : Field.make py type name v = .ok f) : f.bare = f := by
  unfold Field.make at h
  split at h
  · cases h
  · split at h
    · obtain rfl := Except.ok.inj h
      rfl
    · obtain ⟨d, _, hf⟩ := bind_eq_ok.mp h
      obtain rfl := Except.ok.inj hf
      rfl

theorem Constant.make_bare {type name value : Text} {c : Constant F}
    (h : Constant.make py type name value = .ok c) : c.bare = c := by
  unfold Constant.make at h
  split at h
  · cases h
  · split at h
    · cases h
    · obtain ⟨t, _, h'⟩ := bind_eq_ok.mp h
      obtain ⟨v, _, hc⟩ := bind_eq_ok.mp h'
      obtain rfl := Except.ok.inj hc
      rfl

theorem declare_declares {l l' : Loop F} {line : Text}
    (h : l.declare py pkgName line = .ok l') :
    Loop.Declares py pkgName l l' (some (Declaration.ofCode line)) := by
  unfold Loop.declare at h
  unfold Declaration.ofCode
  simp only at h ⊢
  generalize (partition ' ' line).2.2 = rest at h ⊢
  generalize (partition ' ' line).1 = type at h ⊢
  by_cases hrest : lstrip rest = []
  · rw [if_pos hrest] at h
    cases h
  · rw [if_neg hrest] at h ⊢
    cases hf : find '=' (lstrip rest) with
    | none =>
      rw [hf] at h
      rw [if_neg (find_eq_none.mp hf)]
      obtain ⟨t, ht, h'⟩ := bind_eq_ok.mp h
      obtain ⟨f, hfield, h''⟩ := bind_eq_ok.mp h'
      obtain rfl := Except.ok.inj h''
      refine ⟨⟨f, bind_eq_ok.mpr ⟨t, ht, hfield⟩, ?_⟩, ?_⟩
      · refine (annotate_fields _ _).trans ?_
        rw [List.map_append, List.map_singleton, Field.make_bare hfield]
      · exact annotate_constants _ _
    | some i =>
      rw [hf] at h
      have hmem : '=' ∈ lstrip rest := by
        by_contra hno
        rw [find_eq_none.mpr hno] at hf
        cases hf
      rw [if_pos hmem]
      obtain ⟨c, hc, h'⟩ := bind_eq_ok.mp h
      obtain rfl := Except.ok.inj h'
      refine ⟨annotate_fields _ _, c, hc, ?_⟩
      refine (annotate_constants _ _).trans ?_
      rw [List.map_append, List.map_singleton, Constant.make_bare hc]

theorem Loop.Declares.of_eq {l₁ l₂ l' : Loop F} {d : Option Declaration}
    (h : Loop.Declares py pkgName l₁ l' d) (hf : l₁.fields = l₂.fields)
    (hc : l₁.constants = l₂.constants) : Loop.Declares py pkgName l₂ l' d := by
  unfold Loop.Declares at h ⊢
  rw [← hf, ← hc]
  exact h

/-- **One round** adds what the line declares. -/
theorem step_declares {l l' : Loop F} {line : Text} (h : l.step py pkgName line = .ok l') :
    Loop.Declares py pkgName l l' (Declaration.ofLine line) := by
  have hnone : ∀ {l'' : Loop F}, l''.fields.map Field.bare = l.fields.map Field.bare →
      l''.constants.map Constant.bare = l.constants.map Constant.bare →
      rstrip ((rstrip line).takeWhile (· ≠ '#')) = [] →
      Loop.Declares py pkgName l l'' (Declaration.ofLine line) := by
    intro l'' hf hc hcode
    rw [Declaration.ofLine, if_pos hcode]
    exact ⟨hf, hc⟩
  unfold Loop.step at h
  simp only at h
  by_cases hline : rstrip line = []
  · rw [if_pos hline] at h
    obtain rfl := Except.ok.inj h
    exact hnone rfl rfl (by rw [hline]; rfl)
  · rw [if_neg hline] at h
    cases hi : find '#' (rstrip line) with
    | none =>
      rw [hi] at h
      rw [if_neg (fun hc => by cases hc.1)] at h
      have hcode : rstrip ((rstrip line).takeWhile (· ≠ '#')) = rstrip line := by
        rw [takeWhile_of_find_none hi, rstrip_rstrip]
      rw [Declaration.ofLine, hcode, if_neg hline]
      exact (declare_declares h).of_eq rfl rfl
    | some i =>
      rw [hi] at h
      have htake := takeWhile_of_find_some hi
      split at h
      · rename_i hc
        obtain rfl := Except.ok.inj h
        refine hnone rfl rfl ?_
        rw [htake, Option.some.inj hc.1]
        rfl
      · simp only at h
        split at h
        · rename_i hblank
          obtain rfl := Except.ok.inj h
          refine hnone (annotate_fields _ _) (annotate_constants _ _) ?_
          rw [htake, rstrip_of_strip hblank.2]
        · split at h
          · rename_i hempty
            obtain rfl := Except.ok.inj h
            exact hnone rfl rfl (by rw [htake, hempty])
          · rename_i hne
            rw [Declaration.ofLine, htake, if_neg hne]
            exact (declare_declares h).of_eq rfl rfl

/-! ## all rounds -/

/-- **The whole loop** adds what the lines declare, in their order. -/
theorem loop_declares (lines : List Text) :
    ∀ l l' : Loop F, lines.foldlM (Loop.step py pkgName) l = .ok l' →
      ∃ fs cs, (fieldDeclarations lines).mapM (makeField py pkgName) = .ok fs ∧
        (constantDeclarations lines).mapM (makeConstant py) = .ok cs ∧
        l'.fields.map Field.bare = l.fields.map Field.bare ++ fs ∧
        l'.constants.map Constant.bare = l.constants.map Constant.bare ++ cs := by
  induction lines with
  | nil =>
    intro l l' h
    obtain rfl := Except.ok.inj h
    exact ⟨[], [], rfl, rfl, (List.append_nil _).symm, (List.append_nil _).symm⟩
  | cons line lines ih =>
    intro l l' h
    rw [List.foldlM_cons] at h
    obtain ⟨l₁, hs, h'⟩ := bind_eq_ok.mp h
    obtain ⟨fs, cs, hfs, hcs, hf, hc⟩ := ih l₁ l' h'
    have hd := step_declares hs
    rw [fieldDeclarations, constantDeclarations, List.filterMap_cons, List.filterMap_cons]
    cases hline : Declaration.ofLine line with
    | none =>
      rw [hline] at hd
      exact ⟨fs, cs, hfs, hcs, by rw [hf, hd.1], by rw [hc, hd.2]⟩
    | some d =>
      rw [hline] at hd
      cases d with
      | malformed m => exact hd.elim
      | field type name value =>
        obtain ⟨⟨f, hmake, hf₁⟩, hc₁⟩ := hd
        refine ⟨f :: fs, cs, ?_, hcs, ?_, by rw [hc, hc₁]⟩
        · simp only [List.mapM_cons]
          exact bind_eq_ok.mpr ⟨f, hmake, bind_eq_ok.mpr ⟨fs, hfs, rfl⟩⟩
        · rw [hf, hf₁, List.append_assoc, List.singleton_append]
      | constant type name value =>
        obtain ⟨hf₁, c, hmake, hc₁⟩ := hd
        refine ⟨fs, c :: cs, hfs, ?_, by rw [hf, hf₁], ?_⟩
        · simp only [List.mapM_cons]
          exact bind_eq_ok.mpr ⟨c, hmake, bind_eq_ok.mpr ⟨cs, hcs, rfl⟩⟩
        · rw [hc, hc₁, List.append_assoc, List.singleton_append]

end

/-! ## the overlay -/

/-- the members of the C++ struct `MessageTrackingVariables`, in order -/
def overlay : List (Primitive × Text) :=
  [(.int64, "vandenhoven_timestamp".toList), (.int64, "vandenhoven_identifier".toList),
   (.int32, "vandenhoven_publisher_hash".toList)]

def scalar (p : Primitive) : MsgType := ⟨.primitive p none, false, none, false⟩

def hiddenFields (F : Type) : List (Field F) :=
  overlay.map fun m => ⟨scalar m.1, m.2, none, ⟨none, none⟩⟩

/-- size and alignment of the members of C++ structs -/
structure Abi where
  member : MsgType → Nat × Nat
  aligned : ∀ t, 0 < (member t).2
  int64 : member (scalar .int64) = (8, 8)
  int32 : member (scalar .int32) = (4, 4)

/-- the offsets of the members of a struct, from a first free byte on -/
def offsets : Nat → List (Nat × Nat) → List Nat
  | _, [] => []
  | free, (size, align) :: ms =>
    let offset := (free + align - 1) / align * align
    offset :: offsets (offset + size) ms

theorem le_offset (free : Nat) {align : Nat} (h : 0 < align) :
    free ≤ (free + align - 1) / align * align := by
  have h1 := Nat.div_add_mod (free + align - 1) align
  have h2 := Nat.mod_lt (free + align - 1) h
  rw [Nat.mul_comm] at h1
  omega

theorem le_of_mem_offsets {ms : List (Nat × Nat)} (h : ∀ m ∈ ms, 0 < m.2) :
    ∀ free, ∀ o ∈ offsets free ms, free ≤ o := by
  induction ms with
  | nil => exact fun free o ho => absurd ho List.not_mem_nil
  | cons m ms ih =>
    intro free o ho
    have hm := le_offset free (h m List.mem_cons_self)
    rcases List.mem_cons.mp ho with rfl | ho
    · exact hm
    · have := ih (fun k hk => h k (List.mem_cons_of_mem m hk)) _ o ho
      omega

/-- the overlay reads the first three members, at their own offsets and with their own types, and
all other members lie behind it -/
structure Overlaid (abi : Abi) (types : List MsgType) (names : List Text) : Prop where
  sameTypes : types.take 3 = overlay.map fun m => scalar m.1
  sameNames : names.take 3 = overlay.map Prod.snd
  sameOffsets : (offsets 0 (types.map abi.member)).take 3 =
    offsets 0 (overlay.map fun m => abi.member (scalar m.1))
  behind : ∀ o ∈ (offsets 0 (types.map abi.member)).drop 3, 20 ≤ o

theorem overlaid_of_hidden (abi : Abi) (types : List MsgType) (names : List Text) :
    Overlaid abi ((overlay.map fun m => scalar m.1) ++ types) (overlay.map Prod.snd ++ names) := by
  have hoff : offsets 0 (((overlay.map fun m => scalar m.1) ++ types).map abi.member) =
      [0, 8, 16] ++ offsets 20 (types.map abi.member) := by
    simp only [overlay, List.map_cons, List.map_nil, List.cons_append, List.nil_append, abi.int64,
      abi.int32]
    rfl
  refine ⟨rfl, rfl, ?_, ?_⟩
  · rw [hoff]
    simp only [overlay, List.map_cons, List.map_nil, abi.int64, abi.int32]
    rfl
  · rw [hoff]
    refine le_of_mem_offsets (fun m hm => ?_) 20
    obtain ⟨t, _, rfl⟩ := List.mem_map.mp hm
    exact abi.aligned t

/-! ## tracked messages -/

section
variable {F : Type} {py : Python F} {pkgName : Text}

/-- a message whose user wrote the lines: the hidden fields first and once, then the fields that
the lines declare, their constants, and an overlay that reads the hidden fields -/
structure Tracked (py : Python F) (pkgName : Text) (lines : List Text)
    (spec : MessageSpecification F) : Prop where
  fields : ∃ user, (fieldDeclarations lines).mapM (makeField py pkgName) = .ok user ∧
    List.Forall₂ (Field.Declared py pkgName) (fieldDeclarations lines) user ∧
    spec.fields.map Field.bare = hiddenFields F ++ user
  constants : (constantDeclarations lines).mapM (makeConstant py) =
    .ok (spec.constants.map Constant.bare)
  declared : List.Forall₂ Constant.Declared (constantDeclarations lines)
    (spec.constants.map Constant.bare)
  once : ∀ f ∈ hiddenFields F, (spec.fields.map Field.name).count f.name = 1
  overlaid : ∀ abi : Abi, Overlaid abi (spec.fields.map Field.type) (spec.fields.map Field.name)

theorem hackMeasuringFields_ok (py : Python F) (pkgName : Text) :
    hackMeasuringFields py pkgName = .ok (hiddenFields F) := rfl

theorem duplicates_eq_nil {names : List Text} (h : duplicates names = []) {n : Text}
    (hn : n ∈ names) : names.count n = 1 := by
  have hpos : 0 < names.count n := List.count_pos_iff.mpr hn
  by_contra hne
  have hmem : n ∈ duplicates names := by
    rw [duplicates, List.mem_mergeSort, List.mem_eraseDups, List.mem_filter]
    exact ⟨hn, decide_eq_true (by omega)⟩
  rw [h] at hmem
  exact absurd hmem List.not_mem_nil

theorem MessageSpecification.make_ok {msgName : Text} {fields : List (Field F)}
    {constants : List (Constant F)} {spec : MessageSpecification F}
    (h : MessageSpecification.make py pkgName msgName fields constants = .ok spec) :
    spec.fields = fields ∧ spec.constants = constants ∧
      duplicates (fields.map Field.name) = [] := by
  unfold MessageSpecification.make at h
  obtain ⟨b, _, h'⟩ := bind_eq_ok.mp h
  by_cases hf : duplicates (fields.map Field.name) = []
  · by_cases hc : duplicates (constants.map Constant.name) = []
    · simp only [hf, hc, ne_eq, not_true, if_false] at h'
      obtain rfl := Except.ok.inj h'
      exact ⟨rfl, rfl, hf⟩
    · simp only [hf, hc, ne_eq, not_true, not_false_iff, if_true, if_false] at h'
      cases h'
  · simp only [hf, ne_eq, not_false_iff, if_true] at h'
    cases h'

/-- **A message.** -/
theorem parseMessageString_tracked {msgName text : Text} {spec : MessageSpecification F}
    (h : parseMessageString py pkgName msgName text = .ok spec) :
    Tracked py pkgName (splitlines text) spec := by
  unfold parseMessageString at h
  obtain ⟨hidden, hhidden, h₀⟩ := bind_eq_ok.mp h
  obtain rfl := Except.ok.inj ((hackMeasuringFields_ok py pkgName).symm.trans hhidden)
  obtain ⟨l, hl, h'⟩ := bind_eq_ok.mp h₀
  obtain ⟨msg, hmsg, hspec⟩ := bind_eq_ok.mp h'
  obtain rfl := Except.ok.inj hspec
  obtain ⟨hf, hc, hdup⟩ := MessageSpecification.make_ok hmsg
  obtain ⟨user, cs, hu, hcs, hfields, hconsts⟩ := loop_declares (splitlines text) _ l hl
  have hbare : (hiddenFields F).map Field.bare = hiddenFields F := rfl
  rw [hbare] at hfields
  -- the annotations are processed afterwards, which changes neither types nor names
  have hfs : (msg.fields.map fun f => { f with annotations := processComments f.annotations }).map
      Field.bare = hiddenFields F ++ user := by
    rw [List.map_map, ← hfields, hf]
    rfl
  have hnames : (msg.fields.map fun f : Field F =>
      { f with annotations := processComments f.annotations }).map Field.name =
      l.fields.map Field.name := by
    rw [List.map_map, hf]
    rfl
  have htypes : ∀ fs : List (Field F), fs.map Field.type = (fs.map Field.bare).map Field.type := by
    intro fs
    rw [List.map_map]
    rfl
  have hnames' : ∀ fs : List (Field F), fs.map Field.name = (fs.map Field.bare).map Field.name := by
    intro fs
    rw [List.map_map]
    rfl
  have hcs' : (constantDeclarations (splitlines text)).mapM (makeConstant py) =
      .ok ((msg.constants.map fun c =>
        { c with annotations := processComments c.annotations }).map Constant.bare) := by
    rw [hcs]
    refine congrArg Except.ok ?_
    rw [List.map_map, hc]
    exact hconsts.symm
  have hdeclared := forall₂_of_mapM (fun _ _ => makeField_declared) _ hu
  refine ⟨⟨user, hu, hdeclared, hfs⟩, hcs', ?_, fun f hf => ?_, fun abi => ?_⟩
  · exact forall₂_of_mapM (fun _ _ => makeConstant_declared) _ hcs'
  · show ((msg.fields.map _).map Field.name).count f.name = 1
    rw [hnames]
    refine duplicates_eq_nil hdup ?_
    rw [hnames', hfields, List.map_append]
    exact List.mem_append_left _ (List.mem_map_of_mem hf)
  · show Overlaid abi ((msg.fields.map _).map Field.type) ((msg.fields.map _).map Field.name)
    rw [htypes, hnames', hfs, List.map_append, List.map_append]
    exact overlaid_of_hidden abi _ _

theorem Tracked.of_join {ls : List Text} (h : ∀ l ∈ ls, OneLine l) {spec : MessageSpecification F}
    (ht : Tracked py pkgName (splitlines (join ['\n'] ls)) spec) : Tracked py pkgName ls spec := by
  have hfd : fieldDeclarations (splitlines (join ['\n'] ls)) = fieldDeclarations ls :=
    filterMap_splitlines_join rfl h
  have hcd : constantDeclarations (splitlines (join ['\n'] ls)) = constantDeclarations ls :=
    filterMap_splitlines_join rfl h
  refine ⟨?_, ?_, ?_, ht.once, ht.overlaid⟩
  · rw [← hfd]
    exact ht.fields
  · rw [← hcd]
    exact ht.constants
  · rw [← hcd]
    exact ht.declared

/-- **A service**: the lines around the one separator. -/
theorem parseServiceString_tracked {srvName text : Text} {spec : ServiceSpecification F}
    (h : parseServiceString py pkgName srvName text = .ok spec) :
    ∃ before after, splitlines text = before ++ separator :: after ∧
      separator ∉ before ∧ separator ∉ after ∧
      Tracked py pkgName before spec.request ∧ Tracked py pkgName after spec.response := by
  unfold parseServiceString at h
  simp only at h
  split at h
  · rename_i i hcount hidx
    obtain ⟨request, hreq, h'⟩ := bind_eq_ok.mp h
    obtain ⟨response, hresp, hs⟩ := bind_eq_ok.mp h'
    obtain rfl := Except.ok.inj hs
    have hone : ∀ l ∈ splitlines text, OneLine l := fun l hl => splitlines_oneLine hl
    obtain ⟨hlt, heq, hbefore⟩ := List.findIdx?_eq_some_iff_getElem.mp hidx
    have hsep : (splitlines text)[i] = separator := of_decide_eq_true heq
    have hsplit : splitlines text =
        (splitlines text).take i ++ separator :: (splitlines text).drop (i + 1) := by
      rw [← hsep, ← List.drop_eq_getElem_cons hlt, List.take_append_drop]
    have hcount' : ((splitlines text).take i).count separator = 0 ∧
        ((splitlines text).drop (i + 1)).count separator = 0 := by
      have h1 := hcount
      rw [hsplit, List.count_append, List.count_cons_self] at h1
      omega
    refine ⟨_, _, hsplit, List.count_eq_zero.mp hcount'.1, List.count_eq_zero.mp hcount'.2, ?_, ?_⟩
    · exact (parseMessageString_tracked hreq).of_join fun l hl => hone l (List.mem_of_mem_take hl)
    · exact (parseMessageString_tracked hresp).of_join fun l hl => hone l (List.mem_of_mem_drop hl)
  · cases h
  · cases h

theorem splitBlocks_ne_nil (start : Bool) (cur s : Text) : splitBlocks start cur s ≠ [] := by
  induction start, cur, s using splitBlocks.induct with
  | case1 start cur => simp [splitBlocks]
  | case2 start cur s hs ih => simp [splitBlocks, hs]
  | case3 start cur s hs ih =>
    rw [splitBlocks, if_neg hs]
    exact ih
  | case4 start cur c s hs ih =>
    rw [splitBlocks]
    · exact ih
    · exact hs

/-- the blocks are what stands between the separators -/
theorem splitBlocks_join (start : Bool) (cur s : Text) :
    join separator (splitBlocks start cur s) = cur.reverse ++ s := by
  induction start, cur, s using splitBlocks.induct with
  | case1 start cur => simp [splitBlocks, join]
  | case2 start cur s hs ih =>
    rw [splitBlocks, if_pos hs, join, List.intercalate_cons_of_ne_nil (splitBlocks_ne_nil _ _ _)]
    rw [join] at ih
    rw [ih, List.append_assoc]
    rfl
  | case3 start cur s hs ih =>
    rw [splitBlocks, if_neg hs, ih, List.reverse_cons, List.append_assoc]
    rfl
  | case4 start cur c s hs ih =>
    rw [splitBlocks]
    · rw [ih, List.reverse_cons, List.append_assoc]
      rfl
    · exact hs

/-- **An action**: the texts around the two separators. -/
theorem parseActionString_tracked {actionName text : Text} {spec : ActionSpecification F}
    (h : parseActionString py pkgName actionName text = .ok spec) :
    ∃ goal result feedback, splitBlocks true [] text = [goal, result, feedback] ∧
      text = goal ++ separator ++ result ++ separator ++ feedback ∧
      Tracked py pkgName (splitlines goal) spec.goal ∧
      Tracked py pkgName (splitlines result) spec.result ∧
      Tracked py pkgName (splitlines feedback) spec.feedback := by
  unfold parseActionString at h
  split at h
  · rename_i goal result feedback hblocks
    obtain ⟨g, hg, h₁⟩ := bind_eq_ok.mp h
    obtain ⟨r, hr, h₂⟩ := bind_eq_ok.mp h₁
    obtain ⟨f, hf, hs⟩ := bind_eq_ok.mp h₂
    obtain rfl := Except.ok.inj hs
    refine ⟨goal, result, feedback, hblocks, ?_, parseMessageString_tracked hg,
      parseMessageString_tracked hr, parseMessageString_tracked hf⟩
    have hj := splitBlocks_join true [] text
    rw [hblocks] at hj
    rw [← List.nil_append text, ← List.reverse_nil, ← hj]
    simp [join]
  · cases h

end

/-- **Every message is tracked**: that of a `.msg` file, the request and the response of a `.srv`
file, and the goal, the result and the feedback of an `.action` file. -/
theorem parsed_tracked {F : Type} (py : Python F) (pkgName name text : Text) :
    (∀ spec, parseMessageString py pkgName name text = .ok spec →
      Tracked py pkgName (splitlines text) spec) ∧
    (∀ spec, parseServiceString py pkgName name text = .ok spec →
      ∃ before after, splitlines text = before ++ separator :: after ∧
        separator ∉ before ∧ separator ∉ after ∧
        Tracked py pkgName before spec.request ∧ Tracked py pkgName after spec.response) ∧
    (∀ spec, parseActionString py pkgName name text = .ok spec →
      ∃ goal result feedback, splitBlocks true [] text = [goal, result, feedback] ∧
        text = goal ++ separator ++ result ++ separator ++ feedback ∧
        Tracked py pkgName (splitlines goal) spec.goal ∧
        Tracked py pkgName (splitlines result) spec.result ∧
        Tracked py pkgName (splitlines feedback) spec.feedback) :=
  ⟨fun _ h => parseMessageString_tracked h, fun _ h => parseServiceString_tracked h,
    fun _ h => parseActionString_tracked h⟩

/-- decimal numbers without signs, and nothing else -/
def plainPython : Python Nat where
  int s := if s ≠ [] ∧ s.all isDigit then
    some (s.foldl (fun n c => n * 10 + (c.toNat - 48)) 0 : Nat) else none
  float _ := none
  strFloat _ := []
  repr s := '\'' :: s ++ ['\'']

theorem parsed_tracked_service :
    ∃ spec : ServiceSpecification Nat, parseServiceString plainPython "pkg".toList "Add".toList
        "int32 A=3\nint32 a 5 # left [m]\n---\nstring<=4 s\n".toList = .ok spec ∧
      ∃ before after, splitlines "int32 A=3\nint32 a 5 # left [m]\n---\nstring<=4 s\n".toList =
          before ++ separator :: after ∧ separator ∉ before ∧ separator ∉ after ∧
        Tracked plainPython "pkg".toList before spec.request ∧
        Tracked plainPython "pkg".toList after spec.response := by
  have hok : (parseServiceString plainPython "pkg".toList "Add".toList
      "int32 A=3\nint32 a 5 # left [m]\n---\nstring<=4 s\n".toList).isOk = true := by
    with_unfolding_all rfl
  cases h : parseServiceString plainPython "pkg".toList "Add".toList
      "int32 A=3\nint32 a 5 # left [m]\n---\nstring<=4 s\n".toList with
  | error e =>
    rw [h] at hok
    cases hok
  | ok spec => exact ⟨spec, rfl, (parsed_tracked plainPython _ _ _).2.1 spec h⟩

end PMROS2.Rosidl
