import Mathlib.Data.List.Forall2
import PMROS2.Lib.Checked
import PMROS2.Measuring.InfluxWriter

/-!
# The file measurement writer

`FileMeasurementWriter` writes each class of measurements as a table, `InfluxDBMeasurementWriter` as
points with named fields; the names of the columns are those that the trackers register.  A tracker
works with any `IMeasurementWriter`.  Whether a file can be opened is not looked at, and what is inserted
into a stream whose file is not open is lost.

* `fileWriter`, `influxWriter`   the two writers;
* `recorder`                     what `influxWriter` is asked to send;
* `TableAgrees`                  each cell of a table is what its column says of the point;
* `FileAgrees`                   a file is such a table, or was never opened and has no row;
* `writers_agree_iff`            when the two writers agree.
-/

namespace PMROS2.Measuring
open Runs Checked

/-! ## the interface -/

/-- `IMeasurementWriter`; a key is an index, which is not checked, and a record gets the clock
readings of the call -/
structure IMeasurementWriter (W : Type) where
  registerMeasurementClass : W → List Char → List (List Char) → Nat × W
  useTimestamp : W → Int64 → W
  recordLatency : W → Nat → MessageTrackingVariables → UInt32 → Int64 → Clock → Option W
  recordArrival : W → Nat → MessageTrackingVariables → UInt32 → Clock → Option W
  recordActivationJitter : W → Nat → Int64 → Clock → Option W

/-- `InfluxDBMeasurementWriter` -/
def influxWriter : IMeasurementWriter Writer where
  registerMeasurementClass := fun w name _ =>
    (w.measurements.length, { w with measurements := w.measurements ++ [name] })
  useTimestamp := fun w t => { w with outputTimestamp := t }
  recordLatency := fun w key msg publisher arrivalTime clock =>
    w.step (.recordLatency key msg publisher arrivalTime clock)
  recordArrival := fun w key msg publisher clock => w.step (.recordArrival key msg publisher clock)
  recordActivationJitter := fun w key jitter clock =>
    w.step (.recordActivationJitter key jitter clock)

/-- the points that `influxWriter` is asked to send -/
def recorder (host : HostInfo) : IMeasurementWriter Record where
  registerMeasurementClass := fun r name _ =>
    (r.names.length, { r with names := r.names ++ [name] })
  useTimestamp := fun r t => { r with timestamp := t }
  recordLatency := fun r key msg publisher arrivalTime clock =>
    r.add host (.recordLatency key msg publisher arrivalTime clock)
  recordArrival := fun r key msg publisher clock =>
    r.add host (.recordArrival key msg publisher clock)
  recordActivationJitter := fun r key jitter clock =>
    r.add host (.recordActivationJitter key jitter clock)

/-! ## the file writer -/

/-- what the streams get from the file system and from the global locale -/
structure Streams where
  /-- does `stream.open(fileName)` succeed -/
  opens : List Char → Bool
  /-- what `stream << v` inserts for an `int64_t` -/
  print : Int64 → List Char

/-- an element of `measurement_classes_`, and what is written to its file -/
structure MeasurementFile where
  fileName : List Char
  isOpen : Bool
  text : List Char

/-- `stream << text` -/
def MeasurementFile.insert (f : MeasurementFile) (text : List Char) : MeasurementFile :=
  if f.isOpen then { f with text := f.text ++ text } else f

structure FileWriter where
  hostFullName : List Char
  measurementClasses : List MeasurementFile
  outputTimestamp : Int64

namespace FileWriter
variable (streams : Streams) (w : FileWriter)

/-- the constructor; `substr(1)` throws for an empty namespace -/
def construct (host : HostInfo) : Option FileWriter :=
  if host.nodeNamespace = [] then none
  else
    let nsString := host.nodeNamespace.drop 1
    some {
      hostFullName := host.topicName ++ "->".toList ++
        (if nsString.length > 0 then nsString ++ "::".toList else []) ++ host.nodeName
      measurementClasses := []
      outputTimestamp := 0 }

def fileName (name : List Char) : List Char :=
  w.hostFullName ++ "_[".toList ++ name ++ "].txt".toList

/-- `register_measurement_class`: the stream, and the header -/
def registerMeasurementClass (name : List Char) (columns : List (List Char)) : Nat × FileWriter :=
  let stream : MeasurementFile := ⟨w.fileName name, streams.opens (w.fileName name), []⟩
  let header := "unix_time".toList ++ columns.flatMap (fun v => ',' :: v) ++ ['\n']
  let classes := w.measurementClasses ++ [stream.insert header]
  (classes.length - 1, { w with measurementClasses := classes })

/-- `measurement_classes_[key] << text` -/
def write (key : Nat) (text : List Char) : Option FileWriter :=
  if key < w.measurementClasses.length then
    some { w with measurementClasses := w.measurementClasses.modify key fun f => f.insert text }
  else none

def recordLatency (key : Nat) (msg : MessageTrackingVariables) (publisher : UInt32)
    (arrivalTime : Int64) : Option FileWriter :=
  w.write key (streams.print w.outputTimestamp ++ [','] ++ hexCharArray publisher ++ [','] ++
    streams.print msg.timestamp ++ [','] ++ streams.print arrivalTime ++ ['\n'])

def recordArrival (key : Nat) (msg : MessageTrackingVariables) (publisher : UInt32) :
    Option FileWriter :=
  w.write key (streams.print w.outputTimestamp ++ [','] ++ hexCharArray publisher ++ [','] ++
    streams.print msg.timestamp ++ ['\n'])

def recordActivationJitter (key : Nat) (jitter : Int64) : Option FileWriter :=
  w.write key (streams.print w.outputTimestamp ++ [','] ++ streams.print jitter ++ ['\n'])

end FileWriter

/-- `FileMeasurementWriter` -/
def fileWriter (streams : Streams) : IMeasurementWriter FileWriter where
  registerMeasurementClass := FileWriter.registerMeasurementClass streams
  useTimestamp := fun w t => { w with outputTimestamp := t }
  recordLatency := fun w key msg publisher arrivalTime _ =>
    w.recordLatency streams key msg publisher arrivalTime
  recordArrival := fun w key msg publisher _ => w.recordArrival streams key msg publisher
  recordActivationJitter := fun w key jitter _ => w.recordActivationJitter streams key jitter

/-! ## the trackers -/

section
variable {W : Type} (writer : IMeasurementWriter W)

structure SubscriberTracker (W : Type) where
  writer : W
  latencyKey : Nat
  arrivalKey : Nat

/-- a message that arrives, with the clock readings of the call -/
structure Arrival where
  msg : MessageTrackingVariables
  monotonicTime : Int64
  unixTime : Int64
  latencyClock : Clock
  arrivalClock : Clock

/-- `SubscriberMessageTracker(writer)` -/
def SubscriberTracker.construct (w : W) : SubscriberTracker W :=
  let latency := writer.registerMeasurementClass w "message_latency".toList
    ["publisher_hash".toList, "send_time".toList, "receive_time".toList]
  let arrival := writer.registerMeasurementClass latency.2 "message_arrival".toList
    ["publisher_hash".toList, "msg_id".toList]
  ⟨arrival.2, latency.1, arrival.1⟩

/-- `SubscriberMessageTracker::track_message` -/
def SubscriberTracker.trackMessage (t : SubscriberTracker W) (a : Arrival) :
    Option (SubscriberTracker W) :=
  let w := writer.useTimestamp t.writer a.unixTime
  let hexString := a.msg.publisherHash.toUInt32
  (writer.recordLatency w t.latencyKey a.msg hexString a.monotonicTime a.latencyClock).bind fun w =>
    (writer.recordArrival w t.arrivalKey a.msg hexString a.arrivalClock).map fun w =>
      { t with writer := w }

def trackMessages (as : List Arrival) (w : W) : Option W :=
  (exec (SubscriberTracker.trackMessage writer) (.construct writer w) as).map
    SubscriberTracker.writer

structure JitterTracker (W : Type) where
  writer : W
  activationJitterKey : Nat

/-- an activation of a timer, with the clock readings of the call -/
structure Activation where
  now : Int64
  intendedActivationTime : Int64
  unixTime : Int64
  clock : Clock

/-- `ActivationJitterTracker(writer)` -/
def JitterTracker.construct (w : W) : JitterTracker W :=
  let jitter := writer.registerMeasurementClass w "timer_activation_jitter".toList
    ["activation_jitter".toList]
  ⟨jitter.2, jitter.1⟩

/-- `ActivationJitterTracker::track_jitter` -/
def JitterTracker.trackJitter (t : JitterTracker W) (a : Activation) : Option (JitterTracker W) :=
  (int64 (a.now.toInt - a.intendedActivationTime.toInt)).bind fun jitter =>
    let w := writer.useTimestamp t.writer a.unixTime
    (writer.recordActivationJitter w t.activationJitterKey (Int64.ofInt jitter) a.clock).map
      fun w => { t with writer := w }

/-- the writer after the activations -/
def trackJitters (as : List Activation) (w : W) : Option W :=
  (exec (JitterTracker.trackJitter writer) (.construct writer w) as).map JitterTracker.writer

end

/-! ## what is asked for -/

/-- the name under which `influxWriter` sends what stands in a column -/
def influxName (column : List Char) : List Char :=
  if column = "publisher_hash".toList then "publisher".toList
  else if column = "send_time".toList then "sent_time".toList
  else if column = "receive_time".toList then "arrive_time".toList
  else column

def Point.quantity (p : Point) (column : List Char) : Option (List Char) :=
  if column = "unix_time".toList then some (decimal p.timestamp)
  else
    p.tags.lookup (influxName column) <|> (p.fields.lookup (influxName column)).map decimal

/-- the lines of a table, each of which ends with a newline -/
def csvLines (text : List Char) : List (List Char) := (text.splitOn '\n').dropLast

def csvCells (line : List Char) : List (List Char) := line.splitOn ','

/-- a row for each point, with a cell for each column: what is sent under its name -/
def TableAgrees (text : List Char) (points : List Point) : Prop :=
  ∃ header rows, csvLines text = header :: rows ∧
    List.Forall₂ (fun row p => List.Forall₂ (fun column cell => p.quantity column = some cell)
      (csvCells header) (csvCells row)) rows points

/-- the table of the points, in a file that could be opened -/
def FileAgrees (file : MeasurementFile) (points : List Point) : Prop :=
  if file.isOpen then TableAgrees file.text points else file.text = []

/-- the same calls to both writers: the lines that are posted are those of the points, and each
file agrees with the points of its class -/
def Agree (streams : Streams) (host : HostInfo) (now : Int) (fw : FileWriter)
    (calls : ∀ {W : Type}, IMeasurementWriter W → W → Option W) : Prop :=
  ∃ f r, calls (fileWriter streams) fw = some f ∧ calls (recorder host) ⟨[], 0, []⟩ = some r ∧
    (host.OneLine → ∃ w, calls influxWriter (.construct host now) = some w ∧
      w.destroy.posted.flatMap bodyLines = r.points.map Point.line) ∧
    List.Forall₂ (fun file name => FileAgrees file (r.points.filter fun p => p.name = name))
      f.measurementClasses r.names

/-! ## tables -/

def tableText (rows : List (List (List Char))) : List Char :=
  rows.flatMap fun cells => Stream.joined ',' cells ++ ['\n']

theorem tableText_concat (rows : List (List (List Char))) (cells : List (List Char)) :
    tableText (rows ++ [cells]) = tableText rows ++ (Stream.joined ',' cells ++ ['\n']) := by
  unfold tableText
  rw [List.flatMap_append, List.flatMap_singleton]

/-- the cells of a row are read back -/
structure Plain (cells : List (List Char)) : Prop where
  ne_nil : cells ≠ []
  comma : ∀ c ∈ cells, ',' ∉ c
  newline : ∀ c ∈ cells, '\n' ∉ c

theorem Plain.csvCells {cells : List (List Char)} (h : Plain cells) :
    csvCells (Stream.joined ',' cells) = cells :=
  Stream.splitOn_joined h.ne_nil h.comma

theorem Plain.newline_notMem {cells : List (List Char)} (h : Plain cells) :
    '\n' ∉ Stream.joined ',' cells :=
  notMem_intercalate (by decide) h.newline

theorem csvLines_tableText {rows : List (List (List Char))} (h : ∀ cells ∈ rows, Plain cells) :
    csvLines (tableText rows) = rows.map (Stream.joined ',') := by
  have htext : tableText rows = (rows.map (Stream.joined ',')).flatMap (· ++ ['\n']) := by
    rw [List.flatMap_map]
    rfl
  unfold csvLines
  rw [htext, Stream.splitOn_flatMap, List.dropLast_concat]
  intro l hl
  obtain ⟨cells, hcells, rfl⟩ := List.mem_map.mp hl
  exact (h cells hcells).newline_notMem

/-- the table of `as` and the points of `as` agree, just when each row and its point do -/
theorem tableAgrees_iff {α : Type} {columns : List (List Char)} {row : α → List (List Char)}
    (point : α → Point) (hcolumns : Plain columns) (hrow : ∀ a, Plain (row a)) (as : List α) :
    TableAgrees (tableText (columns :: as.map row)) (as.map point) ↔
      ∀ a ∈ as, List.Forall₂ (fun column cell => (point a).quantity column = some cell)
        columns (row a) := by
  have hplain : ∀ cells ∈ columns :: as.map row, Plain cells := by
    intro cells hcells
    rcases List.mem_cons.mp hcells with rfl | hcells
    · exact hcolumns
    · obtain ⟨a, _, rfl⟩ := List.mem_map.mp hcells
      exact hrow a
  unfold TableAgrees
  rw [csvLines_tableText hplain, List.map_cons, List.map_map]
  have hrows : List.Forall₂ (fun line p => List.Forall₂
        (fun column cell => p.quantity column = some cell)
        (csvCells (Stream.joined ',' columns)) (csvCells line))
      (as.map (Stream.joined ',' ∘ row)) (as.map point) ↔
      ∀ a ∈ as, List.Forall₂ (fun column cell => (point a).quantity column = some cell)
        columns (row a) := by
    rw [List.forall₂_map_left_iff, List.forall₂_map_right_iff, List.forall₂_same]
    refine forall₂_congr fun a _ => ?_
    rw [hcolumns.csvCells, Function.comp_apply, (hrow a).csvCells]
  constructor
  · rintro ⟨header, rows, hlines, hagree⟩
    obtain ⟨rfl, rfl⟩ := List.cons.inj hlines
    exact hrows.mp hagree
  · intro h
    exact ⟨_, _, rfl, hrows.mpr h⟩

/-! ## the texts of the cells -/

theorem comma_notMem_decimal (v : Int64) : ',' ∉ decimal v := by
  intro h
  exact absurd (mem_decimal h) (by decide)

theorem comma_notMem_hexCharArray (v : UInt32) : ',' ∉ hexCharArray v := by
  intro h
  exact absurd (mem_hexCharArray h) (by decide)

theorem toDigits_injective : Function.Injective (Nat.toDigits 10) := by
  intro m n h
  have hm : Nat.ofDigitChars 10 (Nat.toDigits 10 m) 0 = m := Nat.ofDigitChars_ten_toDigits
  rw [h, Nat.ofDigitChars_ten_toDigits] at hm
  exact hm.symm

theorem minus_notMem_toDigits (n : Nat) : '-' ∉ Nat.toDigits 10 n := by
  intro h
  exact absurd (Nat.isDigit_of_mem_toDigits (by decide) (by decide) h) (by decide)

theorem decimal_injective : Function.Injective decimal := by
  intro x y h
  apply Int64.toInt_inj.mp
  have hne : ∀ m n, '-' :: Nat.toDigits 10 m ≠ Nat.toDigits 10 n := by
    intro m n hmn
    apply minus_notMem_toDigits n
    rw [← hmn]
    exact List.mem_cons_self
  unfold decimal at h
  by_cases hx : x.toInt < 0
  · rw [if_pos hx] at h
    by_cases hy : y.toInt < 0
    · rw [if_pos hy] at h
      have habs := toDigits_injective (List.cons.inj h).2
      omega
    · rw [if_neg hy] at h
      exact absurd h (hne _ _)
  · rw [if_neg hx] at h
    by_cases hy : y.toInt < 0
    · rw [if_pos hy] at h
      exact absurd h.symm (hne _ _)
    · rw [if_neg hy] at h
      have habs := toDigits_injective h
      omega

/-! ## the rows -/

def latencyColumns : List (List Char) :=
  ["unix_time".toList, "publisher_hash".toList, "send_time".toList, "receive_time".toList]

def arrivalColumns : List (List Char) :=
  ["unix_time".toList, "publisher_hash".toList, "msg_id".toList]

def jitterColumns : List (List Char) := ["unix_time".toList, "activation_jitter".toList]

def latencyCells (a : Arrival) : List (List Char) :=
  [decimal a.unixTime, hexCharArray a.msg.publisherHash.toUInt32, decimal a.msg.timestamp,
    decimal a.monotonicTime]

def arrivalCells (a : Arrival) : List (List Char) :=
  [decimal a.unixTime, hexCharArray a.msg.publisherHash.toUInt32, decimal a.msg.timestamp]

def Activation.jitter (a : Activation) : Int64 :=
  Int64.ofInt (a.now.toInt - a.intendedActivationTime.toInt)

def jitterCells (a : Activation) : List (List Char) := [decimal a.unixTime, decimal a.jitter]

theorem joined_latencyCells (a : Arrival) : Stream.joined ',' (latencyCells a) ++ ['\n'] =
    decimal a.unixTime ++ [','] ++ hexCharArray a.msg.publisherHash.toUInt32 ++ [','] ++
      decimal a.msg.timestamp ++ [','] ++ decimal a.monotonicTime ++ ['\n'] := by
  simp [Stream.joined, latencyCells]

theorem joined_arrivalCells (a : Arrival) : Stream.joined ',' (arrivalCells a) ++ ['\n'] =
    decimal a.unixTime ++ [','] ++ hexCharArray a.msg.publisherHash.toUInt32 ++ [','] ++
      decimal a.msg.timestamp ++ ['\n'] := by
  simp [Stream.joined, arrivalCells]

theorem joined_jitterCells (a : Activation) : Stream.joined ',' (jitterCells a) ++ ['\n'] =
    decimal a.unixTime ++ [','] ++ decimal a.jitter ++ ['\n'] := by
  simp [Stream.joined, jitterCells]

theorem plain_cons {c : List Char} (hcomma : ',' ∉ c) (hnewline : '\n' ∉ c)
    {cells : List (List Char)} (h : cells = [] ∨ Plain cells) : Plain (c :: cells) where
  ne_nil := List.cons_ne_nil c cells
  comma := by
    rw [List.forall_mem_cons]
    refine ⟨hcomma, ?_⟩
    rcases h with rfl | h
    · exact fun _ hc => absurd hc List.not_mem_nil
    · exact h.comma
  newline := by
    rw [List.forall_mem_cons]
    refine ⟨hnewline, ?_⟩
    rcases h with rfl | h
    · exact fun _ hc => absurd hc List.not_mem_nil
    · exact h.newline

theorem plain_decimal (v : Int64) {cells : List (List Char)} (h : cells = [] ∨ Plain cells) :
    Plain (decimal v :: cells) :=
  plain_cons (comma_notMem_decimal v) (newline_notMem_decimal v) h

theorem plain_hexCharArray (v : UInt32) {cells : List (List Char)} (h : cells = [] ∨ Plain cells) :
    Plain (hexCharArray v :: cells) :=
  plain_cons (comma_notMem_hexCharArray v) (newline_notMem_hexCharArray v) h

theorem plain_latencyColumns : Plain latencyColumns := ⟨by decide, by decide, by decide⟩

theorem plain_arrivalColumns : Plain arrivalColumns := ⟨by decide, by decide, by decide⟩

theorem plain_jitterColumns : Plain jitterColumns := ⟨by decide, by decide, by decide⟩

theorem plain_latencyCells (a : Arrival) : Plain (latencyCells a) :=
  plain_decimal _ (.inr (plain_hexCharArray _ (.inr (plain_decimal _
    (.inr (plain_decimal _ (.inl rfl)))))))

theorem plain_arrivalCells (a : Arrival) : Plain (arrivalCells a) :=
  plain_decimal _ (.inr (plain_hexCharArray _ (.inr (plain_decimal _ (.inl rfl)))))

theorem plain_jitterCells (a : Activation) : Plain (jitterCells a) :=
  plain_decimal _ (.inr (plain_decimal _ (.inl rfl)))

section
variable (host : HostInfo) (a : Arrival)

def latencyPointOf : Point :=
  latencyPoint host "message_latency".toList a.unixTime a.msg a.msg.publisherHash.toUInt32
    a.monotonicTime

def arrivalPointOf : Point :=
  arrivalPoint host "message_arrival".toList a.unixTime a.msg a.msg.publisherHash.toUInt32

def jitterPointOf (a : Activation) : Point :=
  jitterPoint host "timer_activation_jitter".toList a.unixTime a.jitter

theorem latencyCells_agree :
    List.Forall₂ (fun column cell => (latencyPointOf host a).quantity column = some cell)
      latencyColumns (latencyCells a) :=
  .cons rfl (.cons rfl (.cons rfl (.cons rfl .nil)))

/-- under `msg_id` there is the time the message was sent -/
theorem arrivalCells_agree_iff :
    List.Forall₂ (fun column cell => (arrivalPointOf host a).quantity column = some cell)
      arrivalColumns (arrivalCells a) ↔ a.msg.timestamp = a.msg.identifier := by
  have hid : (arrivalPointOf host a).quantity "msg_id".toList = some (decimal a.msg.identifier) :=
    rfl
  constructor
  · intro h
    cases h with
    | cons _ h => cases h with
      | cons _ h => cases h with
        | cons h _ =>
          rw [hid] at h
          exact (decimal_injective (Option.some.inj h)).symm
  · intro h
    refine .cons rfl (.cons rfl (.cons ?_ .nil))
    rw [hid, h]

theorem jitterCells_agree (a : Activation) :
    List.Forall₂ (fun column cell => (jitterPointOf host a).quantity column = some cell)
      jitterColumns (jitterCells a) :=
  .cons rfl (.cons rfl .nil)

end

/-! ## the subscriber's tracker -/

section
variable {opens : List Char → Bool} {host : HostInfo} {fw : FileWriter}

def tableFile (opens : List Char → Bool) (fw : FileWriter) (name : List Char)
    (rows : List (List (List Char))) : MeasurementFile where
  fileName := fw.fileName name
  isOpen := opens (fw.fileName name)
  text := if opens (fw.fileName name) then tableText rows else []

theorem tableFile_concat (name : List Char) (rows : List (List (List Char)))
    (cells : List (List Char)) :
    (tableFile opens fw name rows).insert (Stream.joined ',' cells ++ ['\n']) =
      tableFile opens fw name (rows ++ [cells]) := by
  unfold tableFile MeasurementFile.insert
  dsimp only
  cases opens (fw.fileName name) with
  | false => rfl
  | true => rw [if_pos rfl, if_pos rfl, if_pos rfl, tableText_concat]

theorem fileAgrees_tableFile (name : List Char) (rows : List (List (List Char)))
    (points : List Point) :
    FileAgrees (tableFile opens fw name rows) points ↔
      (opens (fw.fileName name) = true → TableAgrees (tableText rows) points) := by
  unfold tableFile FileAgrees
  dsimp only
  cases opens (fw.fileName name) with
  | false => simp
  | true => simp

def stamp {α : Type} (unixTime : α → Int64) (as : List α) : Int64 :=
  (as.getLast?.map unixTime).getD 0

theorem stamp_concat {α : Type} (unixTime : α → Int64) (as : List α) (a : α) :
    stamp unixTime (as ++ [a]) = unixTime a := by
  unfold stamp
  rw [List.getLast?_concat]
  rfl

def subscriberFiles (opens : List Char → Bool) (fw : FileWriter) (as : List Arrival) :
    SubscriberTracker FileWriter where
  writer := { fw with
    measurementClasses := [
      tableFile opens fw "message_latency".toList (latencyColumns :: as.map latencyCells),
      tableFile opens fw "message_arrival".toList (arrivalColumns :: as.map arrivalCells)]
    outputTimestamp := stamp Arrival.unixTime as }
  latencyKey := 0
  arrivalKey := 1

/-- what is sent of the messages -/
def subscriberPoints (host : HostInfo) (as : List Arrival) : SubscriberTracker Record where
  writer := ⟨["message_latency".toList, "message_arrival".toList], stamp Arrival.unixTime as,
    as.flatMap fun a => [latencyPointOf host a, arrivalPointOf host a]⟩
  latencyKey := 0
  arrivalKey := 1

theorem constructed (h : FileWriter.construct host = some fw) :
    fw.measurementClasses = [] ∧ fw.outputTimestamp = 0 := by
  unfold FileWriter.construct at h
  rw [Option.ite_none_left_eq_some] at h
  obtain ⟨_, rfl⟩ := h.imp_right Option.some.inj
  exact ⟨rfl, rfl⟩

theorem registered_tableFile (name : List Char) (columns : List (List Char)) :
    (⟨fw.fileName name, opens (fw.fileName name), []⟩ : MeasurementFile).insert
        ("unix_time".toList ++ columns.flatMap (fun v => ',' :: v) ++ ['\n']) =
      tableFile opens fw name [ "unix_time".toList :: columns] := by
  unfold tableFile MeasurementFile.insert
  dsimp only
  cases opens (fw.fileName name) with
  | false => rfl
  | true =>
    rw [if_pos rfl, if_pos rfl, tableText, List.flatMap_singleton, Stream.joined_cons]
    rfl

theorem construct_subscriberFiles (h : FileWriter.construct host = some fw) :
    SubscriberTracker.construct (fileWriter ⟨opens, decimal⟩) fw = subscriberFiles opens fw [] := by
  obtain ⟨hclasses, hstamp⟩ := constructed h
  obtain ⟨hostFullName, classes, outputTimestamp⟩ := fw
  obtain rfl : classes = [] := hclasses
  obtain rfl : outputTimestamp = 0 := hstamp
  unfold subscriberFiles
  rw [List.map_nil, List.map_nil, latencyColumns, arrivalColumns, ← registered_tableFile,
    ← registered_tableFile]
  rfl

theorem trackMessage_subscriberFiles (as : List Arrival) (a : Arrival) :
    SubscriberTracker.trackMessage (fileWriter ⟨opens, decimal⟩) (subscriberFiles opens fw as) a =
      some (subscriberFiles opens fw (as ++ [a])) := by
  unfold subscriberFiles
  rw [stamp_concat, List.map_append, List.map_append, ← List.cons_append, ← List.cons_append,
    List.map_singleton, List.map_singleton, ← tableFile_concat, ← tableFile_concat,
    joined_latencyCells, joined_arrivalCells]
  rfl

theorem trackMessage_subscriberPoints (as : List Arrival) (a : Arrival) :
    SubscriberTracker.trackMessage (recorder host) (subscriberPoints host as) a =
      some (subscriberPoints host (as ++ [a])) := by
  unfold subscriberPoints
  rw [stamp_concat, List.flatMap_append, List.flatMap_singleton, List.append_cons]
  rfl

end

/-! ## the jitter tracker -/

section
variable {opens : List Char → Bool} {host : HostInfo} {fw : FileWriter}

def jitterFiles (opens : List Char → Bool) (fw : FileWriter) (as : List Activation) :
    JitterTracker FileWriter where
  writer := { fw with
    measurementClasses := [
      tableFile opens fw "timer_activation_jitter".toList (jitterColumns :: as.map jitterCells)]
    outputTimestamp := stamp Activation.unixTime as }
  activationJitterKey := 0

/-- what is sent of the activations -/
def jitterPoints (host : HostInfo) (as : List Activation) : JitterTracker Record where
  writer := ⟨["timer_activation_jitter".toList], stamp Activation.unixTime as,
    as.map (jitterPointOf host)⟩
  activationJitterKey := 0

/-- the jitter of an activation is an `int64_t` -/
def Activation.Defined (a : Activation) : Prop := Fits (a.now.toInt - a.intendedActivationTime.toInt)

theorem construct_jitterFiles (h : FileWriter.construct host = some fw) :
    JitterTracker.construct (fileWriter ⟨opens, decimal⟩) fw = jitterFiles opens fw [] := by
  obtain ⟨hclasses, hstamp⟩ := constructed h
  obtain ⟨hostFullName, classes, outputTimestamp⟩ := fw
  obtain rfl : classes = [] := hclasses
  obtain rfl : outputTimestamp = 0 := hstamp
  unfold jitterFiles
  rw [List.map_nil, jitterColumns, ← registered_tableFile]
  rfl

theorem trackJitter_jitterFiles (as : List Activation) (a : Activation) (ha : a.Defined) :
    JitterTracker.trackJitter (fileWriter ⟨opens, decimal⟩) (jitterFiles opens fw as) a =
      some (jitterFiles opens fw (as ++ [a])) := by
  unfold jitterFiles JitterTracker.trackJitter
  rw [stamp_concat, List.map_append, ← List.cons_append, List.map_singleton, ← tableFile_concat,
    joined_jitterCells, int64_of_fits ha, Option.bind_some]
  rfl

theorem trackJitter_jitterPoints (as : List Activation) (a : Activation) (ha : a.Defined) :
    JitterTracker.trackJitter (recorder host) (jitterPoints host as) a =
      some (jitterPoints host (as ++ [a])) := by
  unfold jitterPoints JitterTracker.trackJitter
  rw [stamp_concat, List.map_append, List.map_singleton, int64_of_fits ha, Option.bind_some]
  rfl

theorem defined_of_trackJitter {W : Type} (writer : IMeasurementWriter W) (t : JitterTracker W)
    (a : Activation) (t' : JitterTracker W) (h : t.trackJitter writer a = some t') : a.Defined :=
  (int64_bind_eq_some.mp h).1

end

/-! ## what is posted -/

section
variable {host : HostInfo} (now : Int)

theorem posted_of_rel {T U : Type} {R : T → U → Prop} {x : Option T} {y : Option U}
    {f : T → Writer} {g : U → Record} (hrel : Option.Rel R x y)
    (hR : ∀ t u, R t u → Holds host (f t) (g u)) {r : Record} (hr : y.map g = some r) :
    ∃ w, x.map f = some w ∧ w.destroy.posted.flatMap bodyLines = r.points.map Point.line := by
  cases hrel with
  | none => cases hr
  | some h =>
    obtain rfl := Option.some.inj hr
    exact ⟨_, rfl, (hR _ _ h).destroy.1⟩

theorem Holds.useTimestamp {w : Writer} {r : Record} (h : Holds host w r) (t : Int64) :
    Holds host (influxWriter.useTimestamp w t) ((recorder host).useTimestamp r t) :=
  ⟨h.fullName, h.topic, h.names, rfl, h.oneLine, h.pending, h.posted⟩

theorem Holds.registerMeasurementClass {w : Writer} {r : Record} (h : Holds host w r)
    (name : List Char) (hname : '\n' ∉ name) (columns : List (List Char)) :
    (influxWriter.registerMeasurementClass w name columns).1 =
        ((recorder host).registerMeasurementClass r name columns).1 ∧
      Holds host (influxWriter.registerMeasurementClass w name columns).2
        ((recorder host).registerMeasurementClass r name columns).2 := by
  refine ⟨congrArg List.length h.names, h.fullName, h.topic, ?_, h.timestamp, ?_, h.pending,
    h.posted⟩
  · exact congrArg (· ++ [name]) h.names
  · intro n hn
    rcases List.mem_append.mp hn with hn | hn
    · exact h.oneLine n hn
    · rw [List.mem_singleton.mp hn]
      exact hname

/-- the trackers of the two writers are in step -/
structure SubscriberTracker.Rel (host : HostInfo) (t : SubscriberTracker Writer)
    (u : SubscriberTracker Record) : Prop where
  latencyKey : t.latencyKey = u.latencyKey
  arrivalKey : t.arrivalKey = u.arrivalKey
  writer : Holds host t.writer u.writer

theorem SubscriberTracker.Rel.trackMessage (hh : host.OneLine) {t : SubscriberTracker Writer}
    {u : SubscriberTracker Record} (h : t.Rel host u) (a : Arrival) :
    Option.Rel (SubscriberTracker.Rel host) (t.trackMessage influxWriter a)
      (u.trackMessage (recorder host) a) := by
  unfold SubscriberTracker.trackMessage
  rw [h.latencyKey, h.arrivalKey]
  apply rel_bind (step_holds hh (h.writer.useTimestamp a.unixTime)
    (c := .recordLatency _ _ _ _ _) trivial)
  intro w r hw
  apply rel_map (step_holds hh hw (c := .recordArrival _ _ _ _) trivial)
  exact fun w r hw => ⟨rfl, rfl, hw⟩

theorem SubscriberTracker.Rel.construct : SubscriberTracker.Rel host
    (.construct influxWriter (.construct host now))
    (.construct (recorder host) ⟨[], 0, []⟩) := by
  obtain ⟨hlatency, h₁⟩ := (construct_holds host now).registerMeasurementClass
    "message_latency".toList (by decide)
    ["publisher_hash".toList, "send_time".toList, "receive_time".toList]
  obtain ⟨harrival, h₂⟩ := h₁.registerMeasurementClass "message_arrival".toList (by decide)
    ["publisher_hash".toList, "msg_id".toList]
  exact ⟨hlatency, harrival, h₂⟩

theorem trackMessages_posted (hh : host.OneLine) (as : List Arrival) {r : Record}
    (hr : trackMessages (recorder host) as ⟨[], 0, []⟩ = some r) :
    ∃ w, trackMessages influxWriter as (.construct host now) = some w ∧
      w.destroy.posted.flatMap bodyLines = r.points.map Point.line := by
  have hrel := exec_rel (A := fun _ => True)
    (fun t u a (h : SubscriberTracker.Rel host t u) _ => h.trackMessage hh a) as _ _
    (SubscriberTracker.Rel.construct now) fun _ _ => trivial
  exact posted_of_rel hrel (fun t u h => h.writer) hr

structure JitterTracker.Rel (host : HostInfo) (t : JitterTracker Writer)
    (u : JitterTracker Record) : Prop where
  activationJitterKey : t.activationJitterKey = u.activationJitterKey
  writer : Holds host t.writer u.writer

theorem JitterTracker.Rel.trackJitter (hh : host.OneLine) {t : JitterTracker Writer}
    {u : JitterTracker Record} (h : t.Rel host u) (a : Activation) :
    Option.Rel (JitterTracker.Rel host) (t.trackJitter influxWriter a)
      (u.trackJitter (recorder host) a) := by
  unfold JitterTracker.trackJitter
  rw [h.activationJitterKey]
  cases int64 (a.now.toInt - a.intendedActivationTime.toInt) with
  | none => exact .none
  | some jitter =>
    apply rel_map (step_holds hh (h.writer.useTimestamp a.unixTime)
      (c := .recordActivationJitter _ _ _) trivial)
    exact fun w r hw => ⟨rfl, hw⟩

theorem JitterTracker.Rel.construct : JitterTracker.Rel host
    (.construct influxWriter (.construct host now))
    (.construct (recorder host) ⟨[], 0, []⟩) := by
  obtain ⟨hkey, h⟩ := (construct_holds host now).registerMeasurementClass
    "timer_activation_jitter".toList (by decide) ["activation_jitter".toList]
  exact ⟨hkey, h⟩

theorem trackJitters_posted (hh : host.OneLine) (as : List Activation) {r : Record}
    (hr : trackJitters (recorder host) as ⟨[], 0, []⟩ = some r) :
    ∃ w, trackJitters influxWriter as (.construct host now) = some w ∧
      w.destroy.posted.flatMap bodyLines = r.points.map Point.line := by
  have hrel := exec_rel (A := fun _ => True)
    (fun t u a (h : JitterTracker.Rel host t u) _ => h.trackJitter hh a) as _ _
    (JitterTracker.Rel.construct now) fun _ _ => trivial
  exact posted_of_rel hrel (fun t u h => h.writer) hr

end

/-! ## both trackers -/

section
variable {opens : List Char → Bool} {host : HostInfo} (now : Int) {fw : FileWriter}

theorem trackMessages_fileWriter (h : FileWriter.construct host = some fw) (as : List Arrival) :
    trackMessages (fileWriter ⟨opens, decimal⟩) as fw =
      some (subscriberFiles opens fw as).writer := by
  unfold trackMessages
  rw [construct_subscriberFiles h, exec_eq_of_step (A := fun _ => True)
    (fun l a _ => trackMessage_subscriberFiles l a) as [] (fun _ _ => trivial)]
  rfl

theorem trackMessages_recorder (as : List Arrival) :
    trackMessages (recorder host) as ⟨[], 0, []⟩ = some (subscriberPoints host as).writer := by
  unfold trackMessages
  rw [show SubscriberTracker.construct (recorder host) ⟨[], 0, []⟩ = subscriberPoints host [] from
    rfl, exec_eq_of_step (A := fun _ => True)
    (fun l a _ => trackMessage_subscriberPoints l a) as [] (fun _ _ => trivial)]
  rfl

theorem trackJitters_fileWriter (h : FileWriter.construct host = some fw) {as : List Activation}
    (has : ∀ a ∈ as, a.Defined) :
    trackJitters (fileWriter ⟨opens, decimal⟩) as fw = some (jitterFiles opens fw as).writer := by
  unfold trackJitters
  rw [construct_jitterFiles h, exec_eq_of_step trackJitter_jitterFiles as [] has]
  rfl

theorem trackJitters_recorder {as : List Activation} (has : ∀ a ∈ as, a.Defined) :
    trackJitters (recorder host) as ⟨[], 0, []⟩ = some (jitterPoints host as).writer := by
  unfold trackJitters
  rw [show JitterTracker.construct (recorder host) ⟨[], 0, []⟩ = jitterPoints host [] from rfl,
    exec_eq_of_step trackJitter_jitterPoints as [] has]
  rfl

theorem filter_latency (as : List Arrival) :
    (subscriberPoints host as).writer.points.filter (fun p => p.name = "message_latency".toList) =
      as.map (latencyPointOf host) := by
  show (as.flatMap _).filter _ = _
  rw [List.filter_flatMap, List.map_eq_flatMap]
  rfl

theorem filter_arrival (as : List Arrival) :
    (subscriberPoints host as).writer.points.filter (fun p => p.name = "message_arrival".toList) =
      as.map (arrivalPointOf host) := by
  show (as.flatMap _).filter _ = _
  rw [List.filter_flatMap, List.map_eq_flatMap]
  rfl

theorem filter_jitter (as : List Activation) :
    (jitterPoints host as).writer.points.filter
      (fun p => p.name = "timer_activation_jitter".toList) = as.map (jitterPointOf host) := by
  show (as.map _).filter _ = _
  rw [List.filter_map]
  exact congrArg _ (List.filter_eq_self.mpr fun _ _ => rfl)

theorem messages_agree_iff (h : FileWriter.construct host = some fw) (as : List Arrival) :
    Agree ⟨opens, decimal⟩ host now fw (fun {_} writer => trackMessages writer as) ↔
      (opens (fw.fileName "message_arrival".toList) = true →
        ∀ a ∈ as, a.msg.timestamp = a.msg.identifier) := by
  have hlatency := tableAgrees_iff (latencyPointOf host) plain_latencyColumns plain_latencyCells as
  have harrival := tableAgrees_iff (arrivalPointOf host) plain_arrivalColumns plain_arrivalCells as
  rw [← filter_latency] at hlatency
  rw [← filter_arrival] at harrival
  have hrow : (∀ a ∈ as, List.Forall₂
      (fun column cell => (arrivalPointOf host a).quantity column = some cell)
      arrivalColumns (arrivalCells a)) ↔ ∀ a ∈ as, a.msg.timestamp = a.msg.identifier :=
    forall₂_congr fun a _ => arrivalCells_agree_iff host a
  rw [← hrow, ← harrival]
  constructor
  · rintro ⟨f, r, hf, hr, _, htables⟩
    obtain rfl := Option.some.inj ((trackMessages_fileWriter h as).symm.trans hf)
    obtain rfl := Option.some.inj ((trackMessages_recorder as).symm.trans hr)
    cases htables with
    | cons _ htables => cases htables with
      | cons hagree _ => exact (fileAgrees_tableFile _ _ _).mp hagree
  · intro hagree
    refine ⟨_, _, trackMessages_fileWriter h as, trackMessages_recorder as, ?_, ?_⟩
    · exact fun hh => trackMessages_posted now hh as (trackMessages_recorder as)
    · refine .cons ?_ (.cons ((fileAgrees_tableFile _ _ _).mpr hagree) .nil)
      exact (fileAgrees_tableFile _ _ _).mpr fun _ =>
        hlatency.mpr fun a _ => latencyCells_agree host a

theorem jitters_agree_iff (h : FileWriter.construct host = some fw) (as : List Activation) :
    Agree ⟨opens, decimal⟩ host now fw (fun {_} writer => trackJitters writer as) ↔
      ∀ a ∈ as, a.Defined := by
  have hjitter := tableAgrees_iff (jitterPointOf host) plain_jitterColumns plain_jitterCells as
  rw [← filter_jitter] at hjitter
  constructor
  · rintro ⟨f, _, hf, _⟩
    obtain ⟨t, ht, _⟩ := Option.map_eq_some_iff.mp hf
    exact forall_of_exec (defined_of_trackJitter (fileWriter ⟨opens, decimal⟩)) ht
  · intro has
    refine ⟨_, _, trackJitters_fileWriter h has, trackJitters_recorder has, ?_, ?_⟩
    · exact fun hh => trackJitters_posted now hh as (trackJitters_recorder has)
    · refine .cons ((fileAgrees_tableFile _ _ _).mpr fun _ => ?_) .nil
      exact hjitter.mpr fun a _ => jitterCells_agree host a

end

/-- **The writers.**  Let integers be inserted as the classic locale has them.  After any messages
each file that could be opened is the table of what is sent to the database, just when every message
has its identifier as time stamp or the file of the arrivals could not be opened; after any
activations of a timer it is, as long as their jitter is an `int64_t`. -/
theorem writers_agree_iff (streams : Streams) (hlocale : ∀ v, streams.print v = decimal v)
    (host : HostInfo) (now : Int) (fw : FileWriter) (h : FileWriter.construct host = some fw)
    (messages : List Arrival) (activations : List Activation) :
    (Agree streams host now fw (fun {_} writer => trackMessages writer messages) ↔
      (streams.opens (fw.fileName "message_arrival".toList) = true →
        ∀ a ∈ messages, a.msg.timestamp = a.msg.identifier)) ∧
    (Agree streams host now fw (fun {_} writer => trackJitters writer activations) ↔
      ∀ a ∈ activations, a.Defined) := by
  obtain ⟨opens, print⟩ := streams
  obtain rfl : print = decimal := funext hlocale
  exact ⟨messages_agree_iff now h messages, jitters_agree_iff now h activations⟩

/-- a message sent at time 1 with identifier 1, and a timer that is two nanoseconds late -/
theorem writers_agree_one :
    Agree ⟨fun _ => true, decimal⟩ ⟨"/chatter".toList, "node".toList, "/".toList⟩ 0
      ⟨"/chatter->node".toList, [], 0⟩
      (fun {_} writer => trackMessages writer [⟨⟨1, 1, 7⟩, 5, 1000, ⟨0, 0⟩, ⟨0, 0⟩⟩]) ∧
    Agree ⟨fun _ => true, decimal⟩ ⟨"/chatter".toList, "node".toList, "/".toList⟩ 0
      ⟨"/chatter->node".toList, [], 0⟩
      (fun {_} writer => trackJitters writer [⟨12, 10, 1000, ⟨0, 0⟩⟩]) := by
  obtain ⟨hmessages, hactivations⟩ := writers_agree_iff ⟨fun _ => true, decimal⟩ (fun _ => rfl)
    ⟨"/chatter".toList, "node".toList, "/".toList⟩ 0 ⟨"/chatter->node".toList, [], 0⟩ rfl
    [⟨⟨1, 1, 7⟩, 5, 1000, ⟨0, 0⟩, ⟨0, 0⟩⟩] [⟨12, 10, 1000, ⟨0, 0⟩⟩]
  refine ⟨hmessages.mpr ?_, hactivations.mpr ?_⟩
  · intro _ a ha
    obtain rfl := List.mem_singleton.mp ha
    rfl
  · intro a ha
    obtain rfl := List.mem_singleton.mp ha
    show Fits _
    decide

/-- the first message of a publisher: the file has 100 under `msg_id`, the database 1 -/
theorem arrival_under_msg_id :
    ¬ Agree ⟨fun _ => true, decimal⟩ ⟨"/chatter".toList, "node".toList, "/".toList⟩ 0
      ⟨"/chatter->node".toList, [], 0⟩
      (fun {_} writer => trackMessages writer [⟨⟨100, 1, 7⟩, 105, 1000, ⟨0, 0⟩, ⟨0, 0⟩⟩]) := by
  intro h
  have hids := (messages_agree_iff 0 rfl [⟨⟨100, 1, 7⟩, 105, 1000, ⟨0, 0⟩, ⟨0, 0⟩⟩]).mp h rfl
  have hid := hids _ (List.mem_singleton.mpr rfl)
  exact absurd hid (by decide)

end PMROS2.Measuring
