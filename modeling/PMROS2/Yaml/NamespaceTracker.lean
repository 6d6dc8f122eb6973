import PMROS2.Lib.Strings
import PMROS2.Yaml.Naming

/-!
# The namespace tracker as a stack

`namespace_tracker_t` keeps a path as one string with a count.  `add_name_to_ns` appends a name
and `rem_name_from_ns` cuts at the last separator, which is not always where the name was appended.

* `Counted.addName_iff`     a name that is removed at once leaves the tracker as it was, exactly
                            when it is `Restorable`;
* `NsTracker.run_nested`    and nested calls with such names only;
* `rem_add_iff`             both;
* `addNameToNs_toCounted`, `remNameFromNs_toCounted`   `Namespace`, which the event loop uses, is
                            the tracker where the string is `NULL` exactly at 0.
-/

namespace PMROS2.Yaml

/-! ## the tracker -/

/-- a string, `none` for `NULL`, with its count -/
structure Counted where
  ns : Option (List Char)
  count : UInt32
  deriving DecidableEq

inductive NamespaceType where
  | node
  | param
  deriving DecidableEq, Repr

def NamespaceType.sepStr : NamespaceType → Char
  | .node => nodeNsSeparator
  | .param => parameterNsSeparator

structure NsTracker where
  node : Counted
  param : Counted
  deriving DecidableEq

namespace NsTracker

def get (tr : NsTracker) : NamespaceType → Counted
  | .node => tr.node
  | .param => tr.param

def set (tr : NsTracker) (c : Counted) : NamespaceType → NsTracker
  | .node => { tr with node := c }
  | .param => { tr with param := c }

theorem set_get (tr : NsTracker) (t : NamespaceType) : tr.set (tr.get t) t = tr := by
  cases t <;> rfl

theorem get_set (tr : NsTracker) (c : Counted) (t : NamespaceType) : (tr.set c t).get t = c := by
  cases t <;> rfl

theorem set_set (tr : NsTracker) (c c' : Counted) (t : NamespaceType) :
    (tr.set c t).set c' t = tr.set c' t := by
  cases t <;> rfl

theorem set_inj (tr : NsTracker) {c c' : Counted} (t : NamespaceType)
    (h : tr.set c t = tr.set c' t) : c = c' := by
  rw [← get_set tr c t, h, get_set]

end NsTracker

/-! ## the functions -/

namespace Counted
variable (sep : Char)

/-- `add_name_to_ns` on one of the strings.  `strlen` of `NULL` and the character before an empty
string are outside of the arrays. -/
def addName (name : List Char) (c : Counted) : Except Failure Counted :=
  if c.count = 0 then .ok ⟨some name, c.count + 1⟩
  else
    match c.ns with
    | none | some [] => .error .undefined
    | some cur =>
      let sepStr := if cur.getLast? = some sep then [] else [sep]
      if cur.length + sepStr.length + name.length + 1 > maxStringSize then
        .error (.error "New namespace string is exceeding max string size")
      else .ok ⟨some (cur ++ sepStr ++ name), c.count + 1⟩

/-- the loop over `strstr`, from the index `next` on -/
def lastIdxLoop (s : List Char) : Nat → Nat → Option Nat → Option Nat
  | 0, _, last => last
  | n + 1, next, last =>
    match (s.drop next).findIdx? (· = sep) with
    | none => last
    | some i => lastIdxLoop s n (next + i + 1) (some (next + i))

/-- `rem_name_from_ns` on one of the strings -/
def remName (c : Counted) : Except Failure Counted :=
  if c.count = 0 then .ok c
  else if c.count = 1 then .ok ⟨none, c.count - 1⟩
  else
    match c.ns with
    | none => .error .undefined
    | some cur =>
      match lastIdxLoop sep cur (cur.length + 1) 0 none with
      | none => .ok ⟨some cur, c.count - 1⟩
      | some i => .ok ⟨some (cur.take i), c.count - 1⟩

end Counted

/-- `add_name_to_ns`; `none` is a name that is `NULL` -/
def NsTracker.addNameToNs (tr : NsTracker) (name : Option (List Char)) (t : NamespaceType) :
    Except Failure NsTracker :=
  match name with
  | none => .error .invalidArgument
  | some name => ((tr.get t).addName t.sepStr name).map (tr.set · t)

/-- `rem_name_from_ns` -/
def NsTracker.remNameFromNs (tr : NsTracker) (t : NamespaceType) : Except Failure NsTracker :=
  ((tr.get t).remName t.sepStr).map (tr.set · t)

/-! ## the search for the last separator -/

section
variable {sep : Char}

theorem lastIdxLoop_of_notMem {s : List Char} {n next : Nat} {last : Option Nat}
    (h : sep ∉ s.drop next) : Counted.lastIdxLoop sep s n next last = last := by
  cases n with
  | zero => rfl
  | succ n =>
    have hnone : (s.drop next).findIdx? (· = sep) = none := by
      rw [List.findIdx?_eq_none_iff]
      intro c hc
      exact decide_eq_false fun he => h (he ▸ hc)
    rw [Counted.lastIdxLoop, hnone]

theorem lastIdxLoop_append {a b : List Char} (hb : sep ∉ b) {n next : Nat} {last : Option Nat}
    (hnext : next ≤ a.length) (hn : a.length < n + next) :
    Counted.lastIdxLoop sep (a ++ sep :: b) n next last = some a.length := by
  induction n generalizing next last with
  | zero => omega
  | succ n ih =>
    have hdrop : (a ++ sep :: b).drop next = a.drop next ++ sep :: b :=
      List.drop_append_of_le_length hnext
    rw [Counted.lastIdxLoop, hdrop]
    by_cases hmem : sep ∈ a.drop next
    · -- one before the last
      obtain ⟨u, v, huv, hu⟩ := List.eq_append_cons_of_mem hmem
      have hfind : (a.drop next ++ sep :: b).findIdx? (· = sep) = some u.length := by
        rw [huv, List.append_assoc]
        exact Strings.find_append_cons hu _
      have hlen := congrArg List.length huv
      rw [List.length_drop, List.length_append, List.length_cons] at hlen
      rw [hfind]
      exact ih (by omega) (by omega)
    · have hfind : (a.drop next ++ sep :: b).findIdx? (· = sep) = some (a.drop next).length :=
        Strings.find_append_cons hmem _
      have hlast : next + (a.drop next).length = a.length := by
        rw [List.length_drop]
        omega
      rw [hfind]
      show Counted.lastIdxLoop sep (a ++ sep :: b) n (next + (a.drop next).length + 1)
        (some (next + (a.drop next).length)) = some a.length
      rw [hlast]
      refine lastIdxLoop_of_notMem ?_
      rw [List.drop_length_add_append]
      exact hb

theorem remName_append {a b : List Char} (hb : sep ∉ b) {n : UInt32} (h0 : n ≠ 0) (h1 : n ≠ 1) :
    Counted.remName sep ⟨some (a ++ sep :: b), n⟩ = .ok ⟨some a, n - 1⟩ := by
  have hlast : Counted.lastIdxLoop sep (a ++ sep :: b) ((a ++ sep :: b).length + 1) 0 none =
      some a.length := by
    refine lastIdxLoop_append hb (Nat.zero_le _) ?_
    rw [List.length_append]
    omega
  simp only [Counted.remName, if_neg h0, if_neg h1, hlast, List.take_left]

theorem remName_one {ns : Option (List Char)} : Counted.remName sep ⟨ns, 1⟩ = .ok ⟨none, 0⟩ := by
  rw [Counted.remName, if_neg (show ¬ (1 : UInt32) = 0 by decide), if_pos rfl]
  exact congrArg (fun n => Except.ok (⟨none, n⟩ : Counted)) (show (1 : UInt32) - 1 = 0 by decide)

theorem remName_of_notMem {s : List Char} (hs : sep ∉ s) {n : UInt32} (h0 : n ≠ 0) (h1 : n ≠ 1) :
    Counted.remName sep ⟨some s, n⟩ = .ok ⟨some s, n - 1⟩ := by
  have hlast : Counted.lastIdxLoop sep s (s.length + 1) 0 none = none :=
    lastIdxLoop_of_notMem hs
  simp only [Counted.remName, if_neg h0, if_neg h1, hlast]

end

/-! ## a name added and removed -/

/-- the count is not at its end, and the string after the addition has its last separator where
the string was -/
def Restorable (sep : Char) (c : Counted) (name : List Char) : Prop :=
  if c.count = 0 then c.ns = none
  else c.count + 1 ≠ 0 ∧ ∃ cur, c.ns = some cur ∧
    ((cur.getLast? ≠ some sep ∧ sep ∉ name) ∨
      (cur.getLast? = some sep ∧ name.head? = some sep ∧ sep ∉ name.tail))

section
variable {sep : Char} {c c' : Counted} {name : List Char}

theorem addName_pos (h0 : c.count ≠ 0) (h : c.addName sep name = .ok c') :
    ∃ cur, c.ns = some cur ∧ cur ≠ [] ∧
      c' = ⟨some (cur ++ (if cur.getLast? = some sep then [] else [sep]) ++ name), c.count + 1⟩ := by
  rw [Counted.addName, if_neg h0] at h
  cases hns : c.ns with
  | none =>
    rw [hns] at h
    cases h
  | some cur =>
    rw [hns] at h
    cases cur with
    | nil => cases h
    | cons d s =>
      refine ⟨d :: s, rfl, List.cons_ne_nil d s, ?_⟩
      dsimp only at h
      by_cases hlen : (d :: s).length + (if (d :: s).getLast? = some sep then [] else [sep]).length +
          name.length + 1 > maxStringSize
      · rw [if_pos hlen] at h
        cases h
      · rw [if_neg hlen] at h
        exact (Except.ok.inj h).symm

theorem count_add_one_ne (h0 : c.count ≠ 0) : c.count + 1 ≠ 1 := by
  intro h
  apply h0
  have := congrArg (· - 1) h
  simpa using this

/-- **A name that is removed at once** leaves the tracker as it was, exactly then. -/
theorem Counted.addName_iff (h : c.addName sep name = .ok c') :
    c'.remName sep = .ok c ↔ Restorable sep c name := by
  by_cases h0 : c.count = 0
  · unfold Counted.addName at h
    rw [if_pos h0] at h
    obtain rfl := Except.ok.inj h
    have hrem : Counted.remName sep ⟨some name, c.count + 1⟩ = .ok ⟨none, 0⟩ := by
      rw [h0, show (0 : UInt32) + 1 = 1 by decide]
      exact remName_one
    rw [hrem, Restorable, if_pos h0, Except.ok.injEq]
    obtain ⟨ns, count⟩ := c
    obtain rfl : count = 0 := h0
    constructor
    · intro he
      exact (Counted.mk.inj he).1.symm
    · rintro rfl
      rfl
  obtain ⟨cur, hns, hne, rfl⟩ := addName_pos h0 h
  rw [Restorable, if_neg h0]
  by_cases hmax : c.count + 1 = 0
  · -- the count is 0 again, and nothing is removed
    refine iff_of_false ?_ (fun hr => hr.1 hmax)
    rw [Counted.remName, if_pos hmax]
    intro he
    rw [← Except.ok.inj he] at h0
    exact h0 hmax
  have h1 := count_add_one_ne h0
  have hback : c.count + 1 - 1 = c.count := by simp
  have hstr : ∀ s, Counted.remName sep ⟨some (cur ++
      (if cur.getLast? = some sep then [] else [sep]) ++ name), c.count + 1⟩ =
        .ok ⟨some s, c.count + 1 - 1⟩ →
      (Counted.remName sep ⟨some (cur ++ (if cur.getLast? = some sep then [] else [sep]) ++ name),
        c.count + 1⟩ = .ok c ↔ s = cur) := by
    intro s hs
    obtain ⟨ns, count⟩ := c
    obtain rfl : ns = some cur := hns
    rw [hs, hback, Except.ok.injEq, Counted.mk.injEq, Option.some.injEq]
    exact and_iff_left rfl
  have hcond : (c.count + 1 ≠ 0 ∧ ∃ cur, c.ns = some cur ∧
      ((cur.getLast? ≠ some sep ∧ sep ∉ name) ∨
        (cur.getLast? = some sep ∧ name.head? = some sep ∧ sep ∉ name.tail))) ↔
      ((cur.getLast? ≠ some sep ∧ sep ∉ name) ∨
        (cur.getLast? = some sep ∧ name.head? = some sep ∧ sep ∉ name.tail)) := by
    rw [hns]
    simp [hmax]
  rw [hcond]
  by_cases hlast : cur.getLast? = some sep
  · rw [if_pos hlast, List.append_nil] at *
    by_cases hmem : sep ∈ name
    · obtain ⟨q, v, rfl, hv⟩ := Strings.exists_last_of_mem hmem
      have hrem := remName_append (a := cur ++ q) hv hmax h1
      rw [List.append_assoc] at hrem
      rw [hstr _ hrem, List.append_right_eq_self]
      constructor
      · rintro rfl
        exact .inr ⟨hlast, rfl, hv⟩
      · rintro (⟨hne, -⟩ | ⟨-, -, htail⟩)
        · exact absurd hlast hne
        · cases q with
          | nil => rfl
          | cons d q =>
            refine absurd ?_ htail
            exact List.mem_append_right _ List.mem_cons_self
    · -- the last separator is the one at the end of the string before
      obtain ⟨u, rfl⟩ := List.getLast?_eq_some_iff.mp hlast
      have hrem := remName_append (a := u) hmem hmax h1
      rw [List.append_assoc] at hstr
      rw [List.append_assoc, hstr _ hrem]
      refine iff_of_false (fun he => ?_) ?_
      · have hlen := congrArg List.length he
        rw [List.length_append, List.length_singleton] at hlen
        omega
      · rintro (⟨hne', -⟩ | ⟨-, hhead, -⟩)
        · exact hne' hlast
        · exact hmem (List.mem_of_mem_head? hhead)
  · rw [if_neg hlast] at *
    rw [List.append_assoc] at hstr
    rw [List.append_assoc]
    by_cases hmem : sep ∈ name
    · obtain ⟨q, v, rfl, hv⟩ := Strings.exists_last_of_mem hmem
      have hrem := remName_append (a := cur ++ sep :: q) hv hmax h1
      rw [List.append_assoc] at hrem
      rw [hstr _ hrem]
      refine iff_of_false (fun he => ?_) ?_
      · have hlen := congrArg List.length he
        rw [List.length_append, List.length_cons] at hlen
        omega
      · rintro (⟨-, hno⟩ | ⟨hyes, -⟩)
        · exact hno hmem
        · exact hlast hyes
    · have hrem := remName_append (a := cur) hmem hmax h1
      rw [hstr _ hrem]
      exact iff_of_true rfl (.inl ⟨hlast, hmem⟩)

end

/-! ## runs -/

inductive Call where
  | add (t : NamespaceType) (name : List Char)
  | rem (t : NamespaceType)

namespace NsTracker

def call (tr : NsTracker) : Call → Except Failure NsTracker
  | .add t name => tr.addNameToNs (some name) t
  | .rem t => tr.remNameFromNs t

def run (tr : NsTracker) : List Call → Except Failure NsTracker
  | [] => .ok tr
  | c :: cs => (tr.call c).bind fun tr' => tr'.run cs

/-- every name is accepted, and `Restorable` where it is added -/
def Meets (tr : NsTracker) : List Call → Prop
  | [] => True
  | .add t name :: cs => Restorable t.sepStr (tr.get t) name ∧
      ∃ tr', tr.addNameToNs (some name) t = .ok tr' ∧ tr'.Meets cs
  | .rem t :: cs => ∀ tr', tr.remNameFromNs t = .ok tr' → tr'.Meets cs

end NsTracker

/-- every addition has its removal, with nested calls between them -/
inductive Nested : List Call → Prop
  | nil : Nested []
  | pair (t : NamespaceType) (name : List Char) {inner rest : List Call} (hi : Nested inner)
      (hr : Nested rest) : Nested (.add t name :: (inner ++ .rem t :: rest))

namespace NsTracker
variable {tr tr' : NsTracker} {name : List Char} {t : NamespaceType}

theorem run_append (tr : NsTracker) (cs cs' : List Call) :
    tr.run (cs ++ cs') = (tr.run cs).bind fun tr' => tr'.run cs' := by
  induction cs generalizing tr with
  | nil => rfl
  | cons c cs ih =>
    rw [List.cons_append, run, run]
    cases tr.call c with
    | error e => rfl
    | ok tr' => exact ih tr'

/-- a name and its removal, in the whole tracker -/
theorem rem_iff (h : tr.addNameToNs (some name) t = .ok tr') :
    tr'.remNameFromNs t = .ok tr ↔ Restorable t.sepStr (tr.get t) name := by
  cases hadd : (tr.get t).addName t.sepStr name with
  | error e =>
    rw [addNameToNs, hadd] at h
    cases h
  | ok c =>
    rw [addNameToNs, hadd] at h
    obtain rfl : tr.set c t = tr' := Except.ok.inj h
    rw [← Counted.addName_iff hadd, remNameFromNs, get_set]
    cases c.remName t.sepStr with
    | error e => exact iff_of_false (fun he => by cases he) (fun he => by cases he)
    | ok c' =>
      rw [Except.map, set_set, Except.ok.injEq, Except.ok.injEq]
      constructor
      · intro he
        refine set_inj tr t ?_
        rw [he, set_get]
      · rintro rfl
        exact set_get tr t

theorem Meets.left {cs cs' : List Call} (h : tr.Meets (cs ++ cs')) : tr.Meets cs := by
  induction cs generalizing tr with
  | nil => exact trivial
  | cons c cs ih =>
    cases c with
    | add t name =>
      obtain ⟨hres, tr₁, hadd, hm⟩ := h
      exact ⟨hres, tr₁, hadd, ih hm⟩
    | rem t => exact fun tr₁ h₁ => ih (h tr₁ h₁)

theorem Meets.right {cs cs' : List Call} (h : tr.Meets (cs ++ cs')) (hrun : tr.run cs = .ok tr') :
    tr'.Meets cs' := by
  induction cs generalizing tr with
  | nil =>
    obtain rfl := Except.ok.inj hrun
    exact h
  | cons c cs ih =>
    cases c with
    | add t name =>
      obtain ⟨-, tr₁, hadd, hm⟩ := h
      rw [run, call, hadd] at hrun
      exact ih hm hrun
    | rem t =>
      cases hrem : tr.remNameFromNs t with
      | error e =>
        rw [run, call, hrem] at hrun
        cases hrun
      | ok tr₁ =>
        rw [run, call, hrem] at hrun
        exact ih (h tr₁ hrem) hrun

/-- **Nested calls** return to the tracker they began with. -/
theorem run_nested {cs : List Call} (hn : Nested cs) (h : tr.Meets cs) : tr.run cs = .ok tr := by
  induction hn generalizing tr with
  | nil => rfl
  | pair t name _ _ ihi ihr =>
    obtain ⟨hres, tr₁, hadd, hm⟩ := h
    have hinner := ihi hm.left
    have hrest := hm.right hinner
    have hrem : tr₁.remNameFromNs t = .ok tr := (rem_iff hadd).mpr hres
    rw [run, call, hadd]
    show tr₁.run _ = _
    rw [run_append, hinner]
    show tr₁.run _ = _
    rw [run, call, hrem]
    exact ihr (hrest tr hrem)

end NsTracker

/-- **The tracker is a stack** of the names that are `Restorable` where they are added. -/
theorem rem_add_iff (tr : NsTracker) :
    (∀ t name tr', tr.addNameToNs (some name) t = .ok tr' →
      (tr'.remNameFromNs t = .ok tr ↔ Restorable t.sepStr (tr.get t) name)) ∧
    ∀ cs, Nested cs → tr.Meets cs → tr.run cs = .ok tr :=
  ⟨fun _ _ _ h => NsTracker.rem_iff h, fun _ hn h => NsTracker.run_nested hn h⟩

/-- a plain name, and names of both kinds -/
theorem rem_add_iff_plain :
    (⟨⟨some ['a'], 1⟩, ⟨none, 0⟩⟩ : NsTracker).run
      [.add .node ['b'], .add .param ['p'], .rem .param, .rem .node] =
        .ok ⟨⟨some ['a'], 1⟩, ⟨none, 0⟩⟩ := by
  refine (rem_add_iff _).2 _ (.pair .node ['b'] (.pair .param ['p'] .nil .nil) .nil) ?_
  have hnode : Restorable '/' ⟨some ['a'], 1⟩ ['b'] := by
    rw [Restorable, if_neg (by decide)]
    exact ⟨by decide, ['a'], rfl, .inl (by decide)⟩
  refine ⟨hnode, ⟨⟨some ['a', '/', 'b'], 2⟩, ⟨none, 0⟩⟩, by decide, ?_⟩
  refine ⟨rfl, ⟨⟨some ['a', '/', 'b'], 2⟩, ⟨some ['p'], 1⟩⟩, by decide, ?_⟩
  exact fun _ _ _ _ => trivial

/-- the key `b/c` below `a`: what is left is `a/b` -/
theorem not_rem_add : ¬ ∀ tr t name tr', NsTracker.addNameToNs tr (some name) t = .ok tr' →
    tr'.remNameFromNs t = .ok tr := by
  intro h
  have hrem := h ⟨⟨some ['a'], 1⟩, ⟨none, 0⟩⟩ .node ['b', '/', 'c']
    ⟨⟨some ['a', '/', 'b', '/', 'c'], 2⟩, ⟨none, 0⟩⟩ (by decide)
  exact absurd hrem (by decide)

/-! ## the namespaces of the event loop -/

def Namespace.toCounted : Namespace → Counted
  | .empty => ⟨none, 0⟩
  | .names str more => ⟨some str, UInt32.ofNat (more + 1)⟩

section
variable (sep : Char) (ns : Namespace)

theorem ofNat_ne_zero {n : Nat} (h : n + 1 < 2 ^ 32) : UInt32.ofNat (n + 1) ≠ 0 := by
  intro he
  have hnat := congrArg UInt32.toNat he
  rw [UInt32.toNat_ofNat_of_lt' h] at hnat
  cases hnat

theorem cutLast_of_notMem {s : List Char} (h : sep ∉ s) : cutLast sep s = s := by
  have hdrop : s.reverse.dropWhile (· ≠ sep) = [] := by
    rw [List.dropWhile_eq_nil_iff]
    intro c hc
    exact decide_eq_true fun he => h (he ▸ List.mem_reverse.mp hc)
  rw [cutLast, hdrop]

theorem addNameToNs_toCounted (name : List Char) (h : ns.count + 1 < 2 ^ 32) :
    ns.toCounted.addName sep name = (addNameToNs sep name ns).map Namespace.toCounted := by
  cases ns with
  | empty =>
    rw [Namespace.toCounted, Counted.addName, if_pos rfl, zero_add]
    rfl
  | names str more =>
    have hne := ofNat_ne_zero (Nat.lt_of_succ_lt h)
    have hsucc : UInt32.ofNat (more + 1) + 1 = UInt32.ofNat (more + 1 + 1) :=
      (UInt32.ofNat_add (more + 1) 1).symm
    rw [Namespace.toCounted, Counted.addName, if_neg hne, hsucc]
    cases str with
    | nil => rfl
    | cons c s =>
      dsimp only [addNameToNs]
      rw [apply_ite (Except.map Namespace.toCounted)]
      rfl

theorem remNameFromNs_toCounted (h : ns.count < 2 ^ 32) :
    ns.toCounted.remName sep = .ok (remNameFromNs sep ns).toCounted := by
  cases ns with
  | empty => rfl
  | names str more =>
    cases more with
    | zero => exact remName_one
    | succ n =>
      have h0 := ofNat_ne_zero h
      have h1 : UInt32.ofNat (n + 1 + 1) ≠ 1 := by
        intro he
        have hnat := congrArg UInt32.toNat he
        rw [UInt32.toNat_ofNat_of_lt' (show n + 1 + 1 < 2 ^ 32 from h)] at hnat
        cases hnat
      have hback : UInt32.ofNat (n + 1 + 1) - 1 = UInt32.ofNat (n + 1) := by
        rw [UInt32.ofNat_add (n + 1) 1]
        exact add_sub_cancel_right _ _
      rw [remNameFromNs, Namespace.toCounted, Namespace.toCounted, ← hback]
      by_cases hmem : sep ∈ str
      · obtain ⟨p, v, rfl, hv⟩ := Strings.exists_last_of_mem hmem
        rw [cutLast_append hv]
        exact remName_append hv h0 h1
      · rw [cutLast_of_notMem sep hmem]
        exact remName_of_notMem hmem h0 h1

end

end PMROS2.Yaml
