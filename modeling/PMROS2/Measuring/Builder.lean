import Mathlib.Data.List.TakeWhile
import Mathlib.Data.List.GetD
import PMROS2.Lib.Stream

/-!
# The line builder of the InfluxDB client

`influxdb_cpp::builder` writes measurements to one string stream, in the line protocol of the
data base.  The chained callers are functions on the stream here.

* `meas`, `tag`, `fieldInt`, `timestamp`   the callers the measurement writer uses;
* `getBufferSize`, `clear`                 the size query and the reset;
* `Point.line`                             a measurement as one line of the protocol;
* `meas_ofList`, `tag_ofList`, …           each caller adds its part of the line;
* `Point.newline_notMem_line`              a measurement is one line.
-/

namespace PMROS2.Measuring

open PMROS2 (Stream)

/-! ## the code -/

/-- `lines_ << v` for an integer, in the locale "C" -/
def decimal (v : Int64) : List Char :=
  if v.toInt < 0 then '-' :: Nat.toDigits 10 v.toInt.natAbs else Nat.toDigits 10 v.toInt.natAbs

def toChar : List Char :=
  ['0', '1', '2', '3', '4', '5', '6', '7', '8', '9', 'A', 'B', 'C', 'D', 'E', 'F']

/-- `hex_char_array_t`: the eight digits, the highest first -/
def hexCharArray (input : UInt32) : List Char :=
  [7, 6, 5, 4, 3, 2, 1, 0].map fun i => toChar.getD ((input.toNat >>> (i * 4)) % 16) '0'

/-- `find_first_of` fails on a segment without these characters -/
def plain (escapeSeq : List Char) (c : Char) : Bool := !escapeSeq.contains c

/-- `_escape`: the segments between the characters of `escapeSeq`, each of these after a
backslash -/
def escape (s : Stream Char) (src escapeSeq : List Char) : Stream Char :=
  match _h : src.dropWhile (plain escapeSeq) with
  | [] => s.put (src.takeWhile (plain escapeSeq))
  | c :: rest =>
    escape (((s.put (src.takeWhile (plain escapeSeq))).put ['\\']).put [c]) rest escapeSeq
  termination_by src.length
  decreasing_by
    have hle := List.length_dropWhile_le (plain escapeSeq) src
    rw [_h, List.length_cons] at hle
    omega

/-- `_m` -/
def writeMeasurement (s : Stream Char) (m : List Char) : Stream Char := escape s m [',', ' ']

/-- `builder::meas`: a separator unless the stream is fresh -/
def meas (s : Stream Char) (m : List Char) : Stream Char :=
  if s.tellp = 0 then writeMeasurement s m
  else writeMeasurement (s.put ['\n']) m

/-- `_t` for a string -/
def tag (s : Stream Char) (k v : List Char) : Stream Char :=
  escape ((escape (s.put [',']) k [',', '=', ' ']).put ['=']) v [',', '=', ' ']

/-- `_t` for a hash -/
def tagHex (s : Stream Char) (k : List Char) (v : UInt32) : Stream Char :=
  ((escape (s.put [',']) k [',', '=', ' ']).put ['=']).put (hexCharArray v)

/-- `_f_i` -/
def fieldInt (s : Stream Char) (delim : Char) (k : List Char) (v : Int64) : Stream Char :=
  (((escape (s.put [delim]) k [',', '=', ' ']).put ['=']).put (decimal v)).put ['i']

/-- `timestamp` and `_ts`: the value goes through `unsigned long long` and back -/
def timestamp (s : Stream Char) (ts : Int64) : Stream Char :=
  (s.put [' ']).put (decimal ts.toUInt64.toInt64)

/-- `getBufferSize`, with the stream it leaves -/
def getBufferSize (s : Stream Char) : Nat × Stream Char :=
  let currentPos := s.tellp
  let s₁ := s.seekp 0
  let startPos := s₁.tellp
  let s₂ := s₁.seekp currentPos
  (currentPos - startPos, s₂)

/-- `clear` -/
def clear (_s : Stream Char) : Stream Char := Stream.ofList []

/-! ## the line protocol -/

def escaped (escapeSeq src : List Char) : List Char :=
  src.flatMap fun c => if c ∈ escapeSeq then ['\\', c] else [c]

/-- a measurement -/
structure Point where
  name : List Char
  tags : List (List Char × List Char)
  fields : List (List Char × Int64)
  timestamp : Int64
  deriving DecidableEq, Repr

namespace Point

def tagText (t : List Char × List Char) : List Char :=
  ',' :: escaped [',', '=', ' '] t.1 ++ '=' :: escaped [',', '=', ' '] t.2

def fieldText (f : List Char × Int64) : List Char :=
  escaped [',', '=', ' '] f.1 ++ '=' :: decimal f.2 ++ ['i']

/-- name and tags, the fields, the time -/
def line (p : Point) : List Char :=
  escaped [',', ' '] p.name ++ p.tags.flatMap tagText ++ ' ' ::
    [','].intercalate (p.fields.map fieldText) ++ ' ' :: decimal p.timestamp

end Point

/-! ## what the callers add -/

theorem escaped_append (e xs ys : List Char) :
    escaped e (xs ++ ys) = escaped e xs ++ escaped e ys := List.flatMap_append

theorem escaped_of_plain {e xs : List Char} (h : ∀ c ∈ xs, plain e c = true) :
    escaped e xs = xs := by
  induction xs with
  | nil => rfl
  | cons c cs ih =>
    have hc : c ∉ e := by simpa [plain] using h c List.mem_cons_self
    rw [escaped, List.flatMap_cons, if_neg hc, List.singleton_append]
    exact congrArg (c :: ·) (ih fun d hd => h d (List.mem_cons_of_mem c hd))

theorem escaped_takeWhile (e src : List Char) :
    escaped e (src.takeWhile (plain e)) = src.takeWhile (plain e) :=
  escaped_of_plain fun _ hc => List.mem_takeWhile_imp hc

@[simp] theorem escape_ofList (b src e : List Char) :
    escape (Stream.ofList b) src e = Stream.ofList (b ++ escaped e src) := by
  -- along the segments: the rest is shorter after each escaped character
  induction hn : src.length using Nat.strong_induction_on generalizing b src with
  | _ n ih =>
    have hsplit : src.takeWhile (plain e) ++ src.dropWhile (plain e) = src :=
      List.takeWhile_append_dropWhile
    rw [escape]
    split
    · rename_i hd
      rw [hd, List.append_nil] at hsplit
      rw [Stream.ofList_put, ← escaped_takeWhile, hsplit]
    · rename_i c rest hd
      have hc : c ∈ e := by
        have := List.head_dropWhile_not (plain e) (l := src) (by rw [hd]; exact List.cons_ne_nil c rest)
        simpa [hd, plain] using this
      have hlen : rest.length < n := by
        have hle := List.length_dropWhile_le (plain e) src
        rw [hd, List.length_cons] at hle
        omega
      have hesc : escaped e src =
          src.takeWhile (plain e) ++ '\\' :: c :: escaped e rest := by
        nth_rewrite 1 [← hsplit]
        rw [escaped_append, escaped_takeWhile, hd, escaped, List.flatMap_cons, if_pos hc]
        rfl
      rw [Stream.ofList_put, Stream.ofList_put, Stream.ofList_put, ih rest.length hlen _ _ rfl, hesc]
      simp only [List.append_assoc, List.cons_append, List.nil_append]

theorem mem_hexCharArray {c : Char} {v : UInt32} (h : c ∈ hexCharArray v) : c ∈ toChar := by
  obtain ⟨i, _, rfl⟩ := List.mem_map.mp h
  have hlt : (v.toNat >>> (i * 4)) % 16 < toChar.length := Nat.mod_lt _ (by decide)
  rw [List.getD_eq_getElem _ _ hlt]
  exact List.getElem_mem hlt

theorem escaped_hexCharArray (v : UInt32) :
    escaped [',', '=', ' '] (hexCharArray v) = hexCharArray v := by
  apply escaped_of_plain
  intro c hc
  have hall : toChar.all (plain [',', '=', ' ']) = true := by decide
  exact List.all_eq_true.mp hall c (mem_hexCharArray hc)

@[simp] theorem tag_ofList (b k v : List Char) :
    tag (Stream.ofList b) k v = Stream.ofList (b ++ Point.tagText (k, v)) := by
  simp [tag, Point.tagText]

@[simp] theorem tagHex_ofList (b k : List Char) (v : UInt32) :
    tagHex (Stream.ofList b) k v = Stream.ofList (b ++ Point.tagText (k, hexCharArray v)) := by
  simp [tagHex, Point.tagText, escaped_hexCharArray]

@[simp] theorem fieldInt_ofList (b k : List Char) (d : Char) (v : Int64) :
    fieldInt (Stream.ofList b) d k v = Stream.ofList (b ++ d :: Point.fieldText (k, v)) := by
  simp [fieldInt, Point.fieldText]

@[simp] theorem timestamp_ofList (b : List Char) (ts : Int64) :
    timestamp (Stream.ofList b) ts = Stream.ofList (b ++ ' ' :: decimal ts) := by
  simp [timestamp]

@[simp] theorem getBufferSize_ofList (b : List Char) :
    getBufferSize (Stream.ofList b) = (b.length, Stream.ofList b) := by
  simp only [getBufferSize, Stream.ofList_tellp, Stream.ofList_seekp]
  exact congrArg (·, Stream.ofList b) (Nat.sub_zero _)

theorem meas_ofList (b m : List Char) :
    meas (Stream.ofList b) m =
      Stream.ofList ((if b = [] then [] else b ++ ['\n']) ++ escaped [',', ' '] m) := by
  by_cases hb : b = []
  · subst hb
    simp [meas, writeMeasurement]
  · have hlen : b.length ≠ 0 := fun h0 => hb (List.length_eq_zero_iff.mp h0)
    simp [meas, writeMeasurement, hlen, hb]

/-! ## a line is not empty and has no newline in it -/

theorem mem_decimal {c : Char} {v : Int64} (h : c ∈ decimal v) : c.isDigit = true ∨ c = '-' := by
  have hdig : ∀ n, c ∈ Nat.toDigits 10 n → c.isDigit = true :=
    fun n => Nat.isDigit_of_mem_toDigits (by decide) (by decide)
  rw [decimal] at h
  split at h
  · rcases List.mem_cons.mp h with h | h
    · exact .inr h
    · exact .inl (hdig _ h)
  · exact .inl (hdig _ h)

theorem newline_notMem_decimal (v : Int64) : '\n' ∉ decimal v := by
  intro h
  exact absurd (mem_decimal h) (by decide)

theorem newline_notMem_hexCharArray (v : UInt32) : '\n' ∉ hexCharArray v := by
  intro h
  exact absurd (mem_hexCharArray h) (by decide)

theorem newline_notMem_escaped {src : List Char} (h : '\n' ∉ src) (e : List Char) :
    '\n' ∉ escaped e src := by
  intro hm
  obtain ⟨c, hc, hcm⟩ := List.mem_flatMap.mp hm
  have hne : c ≠ '\n' := fun he => h (he ▸ hc)
  split at hcm
  · rcases List.mem_cons.mp hcm with h1 | h1
    · exact absurd h1 (by decide)
    · exact hne (List.mem_singleton.mp h1).symm
  · exact hne (List.mem_singleton.mp hcm).symm

/-- no text of the measurement has a newline -/
structure Point.OneLine (p : Point) : Prop where
  name : '\n' ∉ p.name
  tags : ∀ t ∈ p.tags, '\n' ∉ t.1 ∧ '\n' ∉ t.2
  fields : ∀ f ∈ p.fields, '\n' ∉ f.1

theorem Point.newline_notMem_tagText {t : List Char × List Char} (h : '\n' ∉ t.1 ∧ '\n' ∉ t.2) :
    '\n' ∉ tagText t := by
  have h1 := newline_notMem_escaped h.1 [',', '=', ' ']
  have h2 := newline_notMem_escaped h.2 [',', '=', ' ']
  simp [tagText, h1, h2]

theorem Point.newline_notMem_fieldText {f : List Char × Int64} (h : '\n' ∉ f.1) :
    '\n' ∉ fieldText f := by
  have h1 := newline_notMem_escaped h [',', '=', ' ']
  simp [fieldText, h1, newline_notMem_decimal]

theorem notMem_intercalate {c : Char} {sep : List Char} (hs : c ∉ sep) {ls : List (List Char)}
    (h : ∀ l ∈ ls, c ∉ l) : c ∉ sep.intercalate ls := by
  induction ls with
  | nil => exact List.not_mem_nil
  | cons k ks ih =>
    have hk := h k List.mem_cons_self
    have hks := ih fun l hl => h l (List.mem_cons_of_mem k hl)
    cases ks with
    | nil => rwa [List.intercalate_singleton]
    | cons k' ks =>
      rw [List.intercalate_cons_cons, List.mem_append, List.mem_append]
      rintro ((hc | hc) | hc)
      · exact hk hc
      · exact hs hc
      · exact hks hc

theorem Point.newline_notMem_line {p : Point} (h : p.OneLine) : '\n' ∉ p.line := by
  have hname := newline_notMem_escaped h.name [',', ' ']
  have htags : '\n' ∉ p.tags.flatMap tagText := by
    intro hm
    obtain ⟨t, ht, hc⟩ := List.mem_flatMap.mp hm
    exact newline_notMem_tagText (h.tags t ht) hc
  have hfields : '\n' ∉ [','].intercalate (p.fields.map fieldText) := by
    refine notMem_intercalate (by decide) fun l hl => ?_
    obtain ⟨f, hf, rfl⟩ := List.mem_map.mp hl
    exact newline_notMem_fieldText (h.fields f hf)
  have hts := newline_notMem_decimal p.timestamp
  simp [line, hname, htags, hfields, hts]

theorem Point.line_ne_nil (p : Point) : p.line ≠ [] := by
  simp [line]

end PMROS2.Measuring
