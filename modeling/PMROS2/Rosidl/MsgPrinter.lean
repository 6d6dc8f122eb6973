import PMROS2.Rosidl.Tracking

/-!
# Messages printed and read again

`str` of a constant, a field and a message.  `MessageSpecification.__str__` announces the text of
an equivalent `.msg` file, but it prints the hidden fields too, and the parser adds them once more.

* `MessageSpecification.str`       the printed text;
* `timestampLine_mem_splitlines`   the first hidden field has a line of its own in it;
* `printed_rejected`               no printed message is ever accepted.
-/

namespace PMROS2.Rosidl
open PMROS2.Strings PMROS2.Simulation

/-! ## the printer -/

section
variable {F : Type} (py : Python F)

/-- `str(value)` -/
def Value.pyStr : Value F → Text
  | .bool b => if b then "True".toList else "False".toList
  | .int i => decimal i
  | .float f => py.strFloat f
  | .str s => s

/-- `repr(value)`, as it stands in the text of a list; only strings differ from `str` -/
def Value.pyRepr : Value F → Text
  | .str s => py.repr s
  | v => v.pyStr py

/-- `str` of a value or of a list of values -/
def DefaultValue.pyStr : DefaultValue F → Text
  | .one v => v.pyStr py
  | .many vs => '[' :: join ", ".toList (vs.map (Value.pyRepr py)) ++ [']']

def Primitive.isString (p : Primitive) : Bool := p = .string ∨ p = .wstring

/-- `"'%s'" % value` -/
def singleQuoted (s : Text) : Text := '\'' :: s ++ ['\'']

/-- `Constant.__str__` -/
def Constant.str (c : Constant F) : Text :=
  let value := if c.type.isString then singleQuoted (c.value.pyStr py) else c.value.pyStr py
  c.type.text ++ ' ' :: c.name ++ '=' :: value

def MsgType.isPlainString (t : MsgType) : Bool :=
  match t.base with
  | .primitive p _ => !t.isArray && p.isString
  | .message .. => false

/-- `Field.__str__` -/
def Field.str (f : Field F) : Text :=
  let s := f.type.str ++ ' ' :: f.name
  match f.defaultValue with
  | none => s
  | some v => if f.type.isPlainString then s ++ ' ' :: singleQuoted (v.pyStr py)
      else s ++ ' ' :: v.pyStr py

/-- `MessageSpecification.__str__`; the last piece is a newline, and goes -/
def MessageSpecification.str (spec : MessageSpecification F) : Text :=
  let output : List Text := ["# ".toList, spec.baseType.str, ['\n']]
  let output := output ++ spec.constants.flatMap fun c => [c.str py, ['\n']]
  let output := output ++ spec.fields.flatMap fun f => [f.str py, ['\n']]
  output.dropLast.flatten

/-! ## the line of the first hidden field -/

/-- what the line of the time stamp declares -/
def timestampDeclaration : Text × Text × Option Text :=
  ("int64".toList, "vandenhoven_timestamp".toList, none)

def timestampLine : Text := "int64 vandenhoven_timestamp".toList

theorem timestampLine_oneLine : OneLine timestampLine := by
  have h : (timestampLine.all fun c => !isLineBreak c) = true := by decide
  intro c hc
  have hb := List.all_eq_true.mp h c hc
  rw [Bool.not_eq_true'] at hb
  exact hb

theorem ofLine_timestampLine :
    Declaration.ofLine timestampLine =
      some (.field "int64".toList "vandenhoven_timestamp".toList none) := by
  decide

theorem Field.str_bare (f : Field F) : f.bare.str py = f.str py := rfl

theorem printedHead (spec : MessageSpecification F) :
    ∃ a, (["# ".toList, spec.baseType.str, ['\n']] ++
      spec.constants.flatMap fun c => [c.str py, ['\n']]).flatten = a ++ ['\n'] := by
  rcases List.eq_nil_or_concat spec.constants with hnil | ⟨cs, c, hcs⟩
  · refine ⟨"# ".toList ++ spec.baseType.str, ?_⟩
    rw [hnil]
    simp
  · refine ⟨(["# ".toList, spec.baseType.str, ['\n']] ++
      cs.flatMap fun c => [c.str py, ['\n']]).flatten ++ c.str py, ?_⟩
    rw [hcs]
    simp

variable {py} {pkgName : Text}

/-- **The time stamp is printed**, on a line of its own. -/
theorem timestampLine_mem_splitlines {lines : List Text} {spec : MessageSpecification F}
    (h : Tracked py pkgName lines spec) : timestampLine ∈ splitlines (spec.str py) := by
  obtain ⟨user, _, _, hfields⟩ := h.fields
  obtain ⟨first, rest, hspec, hfirst, hrest⟩ := List.map_eq_cons_iff.mp hfields
  obtain ⟨second, rest, rfl, -, -⟩ := List.map_eq_cons_iff.mp hrest
  have hline : first.str py = timestampLine := by
    rw [← Field.str_bare, hfirst]
    rfl
  obtain ⟨a, ha⟩ := printedHead py spec
  have hstr : ∃ s, spec.str py = a ++ '\n' :: (timestampLine ++ '\n' :: s) := by
    refine ⟨([second.str py, ['\n']] ++ rest.flatMap fun f => [f.str py, ['\n']]).dropLast.flatten,
      ?_⟩
    unfold MessageSpecification.str
    simp only
    rw [hspec, List.flatMap_cons, List.flatMap_cons]
    generalize ["# ".toList, spec.baseType.str, ['\n']] ++
      spec.constants.flatMap (fun c => [c.str py, ['\n']]) = head at ha ⊢
    rw [List.dropLast_append_of_ne_nil (by simp), List.dropLast_append_of_ne_nil (by simp),
      List.flatten_append, List.flatten_append, ha, hline]
    simp
  obtain ⟨s, hs⟩ := hstr
  rw [hs]
  exact mem_splitlines timestampLine_oneLine a s

/-! ## read again -/

theorem Field.make_name {type : MsgType} {name : Text} {v : Option Text} {f : Field F}
    (h : Field.make py type name v = .ok f) : f.name = name := by
  unfold Field.make at h
  split at h
  · cases h
  · split at h
    · obtain rfl := Except.ok.inj h
      rfl
    · obtain ⟨d, _, hf⟩ := bind_eq_ok.mp h
      obtain rfl := Except.ok.inj hf
      rfl

/-- a text with the line of the time stamp would declare that field twice -/
theorem timestampLine_rejected {msgName text : Text} (h : timestampLine ∈ splitlines text)
    (spec : MessageSpecification F) : parseMessageString py pkgName msgName text ≠ .ok spec := by
  intro hok
  have ht := parseMessageString_tracked hok
  obtain ⟨user, huser, _, hfields⟩ := ht.fields
  have hmem : timestampDeclaration ∈ fieldDeclarations (splitlines text) := by
    rw [fieldDeclarations, List.mem_filterMap]
    exact ⟨timestampLine, h, by rw [ofLine_timestampLine]; rfl⟩
  obtain ⟨f, hf, hmake⟩ := exists_of_mapM_eq_ok huser hmem
  obtain ⟨type, _, hfield⟩ := bind_eq_ok.mp hmake
  have hname : f.name = "vandenhoven_timestamp".toList := Field.make_name hfield
  have honce : (spec.fields.map Field.name).count "vandenhoven_timestamp".toList = 1 :=
    ht.once ⟨scalar .int64, "vandenhoven_timestamp".toList, none, ⟨none, none⟩⟩ List.mem_cons_self
  have hnames : spec.fields.map Field.name =
      overlay.map Prod.snd ++ user.map Field.name := by
    have hbare : spec.fields.map Field.name = (spec.fields.map Field.bare).map Field.name := by
      rw [List.map_map]
      rfl
    rw [hbare, hfields, List.map_append]
    rfl
  have huser : 0 < (user.map Field.name).count "vandenhoven_timestamp".toList := by
    rw [List.count_pos_iff, ← hname]
    exact List.mem_map_of_mem hf
  have hhidden : (overlay.map Prod.snd).count "vandenhoven_timestamp".toList = 1 := by decide
  rw [hnames, List.count_append, hhidden] at honce
  omega

end

/-- the text is that of an equivalent file: it is accepted, with the same fields and constants -/
def Equivalent {F : Type} (py : Python F) (pkgName msgName : Text) (spec : MessageSpecification F)
    (text : Text) : Prop :=
  ∃ spec', parseMessageString py pkgName msgName text = .ok spec' ∧
    spec'.fields.map Field.bare = spec.fields.map Field.bare ∧
    spec'.constants.map Constant.bare = spec.constants.map Constant.bare

/-- **No printed message is accepted**, under whatever name it is read again. -/
theorem printed_rejected {F : Type} (py : Python F) (pkgName msgName text : Text)
    (spec : MessageSpecification F) (h : parseMessageString py pkgName msgName text = .ok spec) :
    (∀ pkgName' msgName' spec', parseMessageString py pkgName' msgName' (spec.str py) ≠ .ok spec') ∧
    ¬ Equivalent py pkgName msgName spec (spec.str py) := by
  have hrejected : ∀ pkgName' msgName' spec',
      parseMessageString py pkgName' msgName' (spec.str py) ≠ .ok spec' := by
    intro pkgName' msgName' spec'
    exact timestampLine_rejected (timestampLine_mem_splitlines (parseMessageString_tracked h)) spec'
  refine ⟨hrejected, ?_⟩
  rintro ⟨spec', hok, -, -⟩
  exact hrejected pkgName msgName spec' hok

theorem printed_rejected_number :
    ∃ spec, parseMessageString plainPython "pkg".toList "Num".toList "int32 a 5\n".toList =
        .ok spec ∧
      ¬ Equivalent plainPython "pkg".toList "Num".toList spec (spec.str plainPython) := by
  have hok : (parseMessageString plainPython "pkg".toList "Num".toList
      "int32 a 5\n".toList).isOk = true := by
    with_unfolding_all rfl
  cases h : parseMessageString plainPython "pkg".toList "Num".toList "int32 a 5\n".toList with
  | error e =>
    rw [h] at hok
    cases hok
  | ok spec => exact ⟨spec, rfl, (printed_rejected plainPython _ _ _ spec h).2⟩

/-- the file with the one line `bool flag` is accepted, and its printed form is not -/
theorem flag_printed_rejected :
    ∃ spec, parseMessageString plainPython "pkg".toList "Flag".toList "bool flag".toList =
        .ok spec ∧
      spec.str plainPython =
        ("# pkg/Flag\nint64 vandenhoven_timestamp\nint64 vandenhoven_identifier\n" ++
          "int32 vandenhoven_publisher_hash\nbool flag").toList ∧
      ¬ Equivalent plainPython "pkg".toList "Flag".toList spec (spec.str plainPython) := by
  have hparse : parseMessageString plainPython "pkg".toList "Flag".toList "bool flag".toList =
      .ok ⟨.message "pkg".toList "Flag".toList, "Flag".toList,
        hiddenFields Nat ++ [⟨scalar .bool, "flag".toList, none, ⟨some [], none⟩⟩], [],
        ⟨some [], none⟩⟩ := by
    with_unfolding_all rfl
  refine ⟨_, hparse, by decide, ?_⟩
  rintro ⟨spec', hok, -, -⟩
  exact timestampLine_rejected (by decide) spec' hok

end PMROS2.Rosidl
