import PMROS2.Measuring.Builder
import PMROS2.Lib.Runs

/-!
# The InfluxDB measurement writer

`InfluxDBMeasurementWriter` collects measurements in one builder and posts its contents when the
last upload is long ago, when the buffer is large, and on destruction.  The clock readings belong
to the calls; every post succeeds, so a posted body is appended to `posted`.

* `Writer.step`            the calls of the writer;
* `recorded`               the measurements a sequence of calls records;
* `Holds`                  the relation between the two: the buffer holds the lines not yet
                           posted;
* `lifetime_posts`         over the lifetime of a writer the lines of the bodies are the recorded
                           measurements, in order, each once.
-/

namespace PMROS2.Measuring
open PMROS2.Runs
open PMROS2 (Stream)

/-! ## the code -/

/-- `InfluxDBUploadHeuristic` -/
structure Heuristic where
  lastUploadTime : Int
  sizeConstraintBytes : Nat
  timeConstraintMS : Int
  deriving DecidableEq, Repr

/-- `duration_cast<milliseconds>` of a clock reading in nanoseconds -/
def toMilliseconds (ns : Int) : Int := ns.tdiv 1000000

namespace Heuristic

/-- `should_upload`; the size query moves the stream's position and puts it back -/
def shouldUpload (h : Heuristic) (candidate : Stream Char) (now : Int) : Bool × Stream Char :=
  let timeDiff := toMilliseconds (now - h.lastUploadTime * 1000000)
  if timeDiff > h.timeConstraintMS then (true, candidate)
  else
    let (size, candidate) := getBufferSize candidate
    (decide (size > h.sizeConstraintBytes), candidate)

/-- `set_last_upload_time` -/
def setLastUploadTime (h : Heuristic) (now : Int) : Heuristic :=
  { h with lastUploadTime := toMilliseconds now }

/-- `updateHeuristic` -/
def update (h : Heuristic) (size : Bool × Nat) (time : Bool × Int) : Heuristic :=
  let h := if size.1 then { h with sizeConstraintBytes := size.2 } else h
  if time.1 then { h with timeConstraintMS := time.2 } else h

end Heuristic

/-- `MessageTrackerHostInfo` -/
structure HostInfo where
  topicName : List Char
  nodeName : List Char
  nodeNamespace : List Char
  deriving DecidableEq, Repr

/-- `MessageTrackingVariables` -/
structure MessageTrackingVariables where
  timestamp : Int64
  identifier : Int64
  publisherHash : Int32
  deriving DecidableEq, Repr

structure Writer where
  hostFullyQualifiedName : List Char
  hostTopic : List Char
  heuristic : Heuristic
  builder : Stream Char
  measurements : List (List Char)
  outputTimestamp : Int64
  /-- the bodies posted so far -/
  posted : List (List Char)
  deriving DecidableEq, Repr

/-- the two clock readings of a call: the one of `should_upload`, and the one of
`set_last_upload_time` when the call uploads -/
structure Clock where
  check : Int
  upload : Int
  deriving DecidableEq, Repr

/-- the calls between construction and destruction -/
inductive Call
  | registerMeasurementClass (name : List Char)
  | useTimestamp (timestamp : Int64)
  | recordLatency (key : Nat) (msg : MessageTrackingVariables) (publisher : UInt32)
      (arrivalTime : Int64) (clock : Clock)
  | recordArrival (key : Nat) (msg : MessageTrackingVariables) (publisher : UInt32) (clock : Clock)
  | recordActivationJitter (key : Nat) (jitter : Int64) (clock : Clock)
  deriving DecidableEq, Repr

namespace Writer

/-- the constructor; `now` is the clock reading of `set_last_upload_time` -/
def construct (host : HostInfo) (now : Int) : Writer where
  hostFullyQualifiedName := host.nodeNamespace ++ host.nodeName
  hostTopic := host.topicName
  heuristic := Heuristic.setLastUploadTime ⟨0, 0, 0⟩ now
  builder := Stream.ofList []
  measurements := []
  outputTimestamp := 0
  posted := []

/-- `post_http` -/
def post (w : Writer) : Writer := { w with posted := w.posted ++ [w.builder.str] }

/-- `maybe_upload` -/
def maybeUpload (w : Writer) (clock : Clock) : Writer :=
  let (upload, builder) := w.heuristic.shouldUpload w.builder clock.check
  let w := { w with builder := builder }
  if upload then
    let w := { w with heuristic := w.heuristic.setLastUploadTime clock.upload }
    let w := w.post
    let w := { w with builder := clear w.builder }
    { w with heuristic := w.heuristic.update (true, 64000) (true, 15000) }
  else w

/-- `record_latency` -/
def recordLatency (w : Writer) (measurement : List Char) (msg : MessageTrackingVariables)
    (publisher : UInt32) (arrivalTime : Int64) (clock : Clock) : Writer :=
  let s := meas w.builder measurement
  let s := tagHex s "publisher".toList publisher
  let s := tag s "topic".toList w.hostTopic
  let s := tag s "node_full_name".toList w.hostFullyQualifiedName
  let s := fieldInt s ' ' "sent_time".toList msg.timestamp
  let s := fieldInt s ',' "arrive_time".toList arrivalTime
  let s := fieldInt s ',' "msg_id".toList msg.identifier
  let s := timestamp s w.outputTimestamp
  maybeUpload { w with builder := s } clock

/-- `record_arrival` -/
def recordArrival (w : Writer) (measurement : List Char) (msg : MessageTrackingVariables)
    (publisher : UInt32) (clock : Clock) : Writer :=
  let s := meas w.builder measurement
  let s := tagHex s "publisher".toList publisher
  let s := tag s "topic".toList w.hostTopic
  let s := tag s "node_full_name".toList w.hostFullyQualifiedName
  let s := fieldInt s ' ' "msg_id".toList msg.identifier
  let s := timestamp s w.outputTimestamp
  maybeUpload { w with builder := s } clock

/-- `record_activation_jitter` -/
def recordActivationJitter (w : Writer) (measurement : List Char) (jitter : Int64)
    (clock : Clock) : Writer :=
  let s := meas w.builder measurement
  let s := tag s "timer".toList w.hostFullyQualifiedName
  let s := fieldInt s ' ' "activation_jitter".toList jitter
  let s := timestamp s w.outputTimestamp
  maybeUpload { w with builder := s } clock

/-- the destructor -/
def destroy (w : Writer) : Writer :=
  let (size, builder) := getBufferSize w.builder
  let w := { w with builder := builder }
  if size > 0 then w.post else w

/-- a call; the key of a record is one that `register_measurement_class` returned -/
def step (w : Writer) : Call → Option Writer
  | .registerMeasurementClass name => some { w with measurements := w.measurements ++ [name] }
  | .useTimestamp t => some { w with outputTimestamp := t }
  | .recordLatency key msg publisher arrivalTime clock =>
    w.measurements[key]?.map fun m => w.recordLatency m msg publisher arrivalTime clock
  | .recordArrival key msg publisher clock =>
    w.measurements[key]?.map fun m => w.recordArrival m msg publisher clock
  | .recordActivationJitter key jitter clock =>
    w.measurements[key]?.map fun m => w.recordActivationJitter m jitter clock

/-- the whole life of a writer -/
def lifetime (host : HostInfo) (now : Int) (calls : List Call) : Option Writer :=
  (exec step (construct host now) calls).map destroy

end Writer

/-! ## what is recorded -/

section
variable (host : HostInfo)

def HostInfo.fullName : List Char := host.nodeNamespace ++ host.nodeName

/-- what a call leaves behind: the registered names, the time stamp in use and the measurements
recorded -/
structure Record where
  names : List (List Char)
  timestamp : Int64
  points : List Point

def latencyPoint (name : List Char) (ts : Int64) (msg : MessageTrackingVariables)
    (publisher : UInt32) (arrivalTime : Int64) : Point where
  name := name
  tags := [("publisher".toList, hexCharArray publisher), ("topic".toList, host.topicName),
    ("node_full_name".toList, host.fullName)]
  fields := [("sent_time".toList, msg.timestamp), ("arrive_time".toList, arrivalTime),
    ("msg_id".toList, msg.identifier)]
  timestamp := ts

def arrivalPoint (name : List Char) (ts : Int64) (msg : MessageTrackingVariables)
    (publisher : UInt32) : Point where
  name := name
  tags := [("publisher".toList, hexCharArray publisher), ("topic".toList, host.topicName),
    ("node_full_name".toList, host.fullName)]
  fields := [("msg_id".toList, msg.identifier)]
  timestamp := ts

def jitterPoint (name : List Char) (ts : Int64) (jitter : Int64) : Point where
  name := name
  tags := [("timer".toList, host.fullName)]
  fields := [("activation_jitter".toList, jitter)]
  timestamp := ts

def Record.add (r : Record) : Call → Option Record
  | .registerMeasurementClass name => some { r with names := r.names ++ [name] }
  | .useTimestamp t => some { r with timestamp := t }
  | .recordLatency key msg publisher arrivalTime _ => r.names[key]?.map fun name =>
      { r with points :=
          r.points ++ [latencyPoint host name r.timestamp msg publisher arrivalTime] }
  | .recordArrival key msg publisher _ => r.names[key]?.map fun name =>
      { r with points := r.points ++ [arrivalPoint host name r.timestamp msg publisher] }
  | .recordActivationJitter key jitter _ => r.names[key]?.map fun name =>
      { r with points := r.points ++ [jitterPoint host name r.timestamp jitter] }

/-- the measurements recorded by the calls of a writer, before its destruction -/
def recorded (calls : List Call) : Option (List Point) :=
  (exec (Record.add host) ⟨[], 0, []⟩ calls).map Record.points

end

/-! ## the chain of calls for a measurement -/

section
variable {w : Writer} {b : List Char}

/-- what stands before the next measurement -/
def before (b : List Char) : List Char := if b = [] then [] else b ++ ['\n']

theorem before_joined {ls : List (List Char)} (h : ∀ l ∈ ls, l ≠ []) (l : List Char) :
    before (Stream.joined '\n' ls) ++ l = Stream.joined '\n' (ls ++ [l]) := by
  by_cases hls : ls = []
  · subst hls
    simp [before, Stream.joined]
  · have hne : Stream.joined '\n' ls ≠ [] := fun hj => hls ((Stream.joined_eq_nil h).mp hj)
    rw [before, if_neg hne, Stream.joined_concat hls, List.append_assoc, List.singleton_append]

theorem build_latency (host : HostInfo) (b name : List Char) (ts : Int64)
    (msg : MessageTrackingVariables) (publisher : UInt32) (arrivalTime : Int64) :
    timestamp (fieldInt (fieldInt (fieldInt (tag (tag (tagHex (meas (Stream.ofList b) name)
      "publisher".toList publisher) "topic".toList host.topicName)
      "node_full_name".toList host.fullName) ' ' "sent_time".toList msg.timestamp)
      ',' "arrive_time".toList arrivalTime) ',' "msg_id".toList msg.identifier) ts =
    Stream.ofList (before b ++ (latencyPoint host name ts msg publisher arrivalTime).line) := by
  rw [meas_ofList]
  simp only [tagHex_ofList, tag_ofList, fieldInt_ofList, timestamp_ofList, before]
  simp [Point.line, latencyPoint]

theorem build_arrival (host : HostInfo) (b name : List Char) (ts : Int64)
    (msg : MessageTrackingVariables) (publisher : UInt32) :
    timestamp (fieldInt (tag (tag (tagHex (meas (Stream.ofList b) name)
      "publisher".toList publisher) "topic".toList host.topicName)
      "node_full_name".toList host.fullName) ' ' "msg_id".toList msg.identifier) ts =
    Stream.ofList (before b ++ (arrivalPoint host name ts msg publisher).line) := by
  rw [meas_ofList]
  simp only [tagHex_ofList, tag_ofList, fieldInt_ofList, timestamp_ofList, before]
  simp [Point.line, arrivalPoint]

theorem build_jitter (host : HostInfo) (b name : List Char) (ts jitter : Int64) :
    timestamp (fieldInt (tag (meas (Stream.ofList b) name) "timer".toList host.fullName)
      ' ' "activation_jitter".toList jitter) ts =
    Stream.ofList (before b ++ (jitterPoint host name ts jitter).line) := by
  rw [meas_ofList]
  simp only [tag_ofList, fieldInt_ofList, timestamp_ofList, before]
  simp [Point.line, jitterPoint]

end

/-! ## the texts have no newline -/

/-- the names of the host have no newline -/
structure HostInfo.OneLine (host : HostInfo) : Prop where
  topicName : '\n' ∉ host.topicName
  nodeName : '\n' ∉ host.nodeName
  nodeNamespace : '\n' ∉ host.nodeNamespace

def Call.OneLine : Call → Prop
  | .registerMeasurementClass name => '\n' ∉ name
  | _ => True

instance : DecidablePred Call.OneLine
  | .registerMeasurementClass name => inferInstanceAs (Decidable ('\n' ∉ name))
  | .useTimestamp _ | .recordLatency .. | .recordArrival .. | .recordActivationJitter .. =>
    .isTrue trivial

section
variable {host : HostInfo} (hh : host.OneLine)
include hh

theorem HostInfo.OneLine.tags (publisher : UInt32) :
    ∀ t ∈ [("publisher".toList, hexCharArray publisher), ("topic".toList, host.topicName),
      ("node_full_name".toList, host.fullName)], '\n' ∉ t.1 ∧ '\n' ∉ t.2 := by
  have hfull : '\n' ∉ host.fullName := by
    rw [HostInfo.fullName, List.mem_append]
    rintro (h | h)
    · exact hh.nodeNamespace h
    · exact hh.nodeName h
  rw [List.forall_mem_cons, List.forall_mem_cons, List.forall_mem_cons]
  exact ⟨⟨(by decide : '\n' ∉ "publisher".toList), newline_notMem_hexCharArray publisher⟩,
    ⟨(by decide : '\n' ∉ "topic".toList), hh.topicName⟩,
    ⟨(by decide : '\n' ∉ "node_full_name".toList), hfull⟩, fun _ ht => absurd ht List.not_mem_nil⟩

variable {name : List Char} (hn : '\n' ∉ name)
include hn

theorem latencyPoint_oneLine (ts : Int64) (msg : MessageTrackingVariables) (publisher : UInt32)
    (arrivalTime : Int64) : (latencyPoint host name ts msg publisher arrivalTime).OneLine where
  name := hn
  tags := hh.tags publisher
  fields := by
    show ∀ f ∈ [("sent_time".toList, msg.timestamp), ("arrive_time".toList, arrivalTime),
      ("msg_id".toList, msg.identifier)], '\n' ∉ f.1
    rw [List.forall_mem_cons, List.forall_mem_cons, List.forall_mem_cons]
    exact ⟨(by decide : '\n' ∉ "sent_time".toList), (by decide : '\n' ∉ "arrive_time".toList),
      (by decide : '\n' ∉ "msg_id".toList), fun _ hf => absurd hf List.not_mem_nil⟩

theorem arrivalPoint_oneLine (ts : Int64) (msg : MessageTrackingVariables) (publisher : UInt32) :
    (arrivalPoint host name ts msg publisher).OneLine where
  name := hn
  tags := hh.tags publisher
  fields := by
    show ∀ f ∈ [("msg_id".toList, msg.identifier)], '\n' ∉ f.1
    rw [List.forall_mem_cons]
    exact ⟨(by decide : '\n' ∉ "msg_id".toList), fun _ hf => absurd hf List.not_mem_nil⟩

theorem jitterPoint_oneLine (ts jitter : Int64) : (jitterPoint host name ts jitter).OneLine where
  name := hn
  tags := by
    have hfull := hh.tags 0 ("node_full_name".toList, host.fullName) (by simp)
    show ∀ t ∈ [("timer".toList, host.fullName)], '\n' ∉ t.1 ∧ '\n' ∉ t.2
    rw [List.forall_mem_cons]
    exact ⟨⟨(by decide : '\n' ∉ "timer".toList), hfull.2⟩, fun _ ht => absurd ht List.not_mem_nil⟩
  fields := by
    show ∀ f ∈ [("activation_jitter".toList, jitter)], '\n' ∉ f.1
    rw [List.forall_mem_cons]
    exact ⟨(by decide : '\n' ∉ "activation_jitter".toList), fun _ hf => absurd hf List.not_mem_nil⟩

end

/-! ## the buffer holds what is not yet posted -/

section
variable {host : HostInfo} {w : Writer} {r : Record}

def bodyLines (body : List Char) : List (List Char) := body.splitOn '\n'

/-- the bodies and the buffer together hold the lines `all`, in order -/
def Pending (w : Writer) (all : List (List Char)) : Prop :=
  ∃ ls, w.builder = Stream.ofList (Stream.joined '\n' ls) ∧
    (∀ l ∈ ls, l ≠ [] ∧ '\n' ∉ l) ∧ w.posted.flatMap bodyLines ++ ls = all

/-- the writer holds what is recorded -/
structure Holds (host : HostInfo) (w : Writer) (r : Record) : Prop where
  fullName : w.hostFullyQualifiedName = host.fullName
  topic : w.hostTopic = host.topicName
  names : w.measurements = r.names
  timestamp : w.outputTimestamp = r.timestamp
  oneLine : ∀ n ∈ r.names, '\n' ∉ n
  pending : Pending w (r.points.map Point.line)
  posted : ∀ b ∈ w.posted, b ≠ []

theorem bodyLines_joined {ls : List (List Char)} (hne : ls ≠ [])
    (h : ∀ l ∈ ls, l ≠ [] ∧ '\n' ∉ l) : bodyLines (Stream.joined '\n' ls) = ls :=
  Stream.splitOn_joined hne fun l hl => (h l hl).2

theorem shouldUpload_ofList (h : Heuristic) (b : List Char) (now : Int) :
    (h.shouldUpload (Stream.ofList b) now).2 = Stream.ofList b := by
  simp only [Heuristic.shouldUpload, getBufferSize_ofList]
  split <;> rfl

theorem Pending.post {all : List (List Char)} (h : Pending w all) (hne : w.builder.str ≠ [])
    (w' : Writer) (hp : w'.posted = w.posted ++ [w.builder.str])
    (hb : w'.builder = Stream.ofList []) : Pending w' all := by
  obtain ⟨ls, hbuf, hls, hall⟩ := h
  have hne' : ls ≠ [] := by
    rintro rfl
    rw [hbuf] at hne
    exact hne rfl
  refine ⟨[], hb, fun _ hl => absurd hl List.not_mem_nil, ?_⟩
  rw [hp, hbuf, Stream.ofList_str, List.flatMap_append, List.flatMap_cons, List.flatMap_nil,
    bodyLines_joined hne' hls, List.append_nil, List.append_nil]
  exact hall

theorem Holds.maybeUpload (h : Holds host w r) (hne : w.builder.str ≠ []) (clock : Clock) :
    Holds host (w.maybeUpload clock) r := by
  have hstream : (w.heuristic.shouldUpload w.builder clock.check).2 = w.builder := by
    obtain ⟨ls, hbuf, _⟩ := h.pending
    rw [hbuf, shouldUpload_ofList]
  simp only [Writer.maybeUpload, hstream]
  split
  · refine ⟨h.fullName, h.topic, h.names, h.timestamp, h.oneLine,
      h.pending.post hne _ rfl rfl, fun b hb => ?_⟩
    rcases List.mem_append.mp hb with hb | hb
    · exact h.posted b hb
    · rw [List.mem_singleton.mp hb]
      exact hne
  · exact ⟨h.fullName, h.topic, h.names, h.timestamp, h.oneLine, h.pending, h.posted⟩

/-- a measurement is built after the pending ones, and perhaps uploaded -/
theorem Holds.record (h : Holds host w r) {p : Point} (hp : p.OneLine) {s : Stream Char}
    (hs : ∀ b, w.builder = Stream.ofList b → s = Stream.ofList (before b ++ p.line))
    (clock : Clock) :
    Holds host (Writer.maybeUpload { w with builder := s } clock)
      { r with points := r.points ++ [p] } := by
  obtain ⟨ls, hbuf, hls, hall⟩ := h.pending
  have hnew : s = Stream.ofList (Stream.joined '\n' (ls ++ [p.line])) := by
    rw [hs _ hbuf, before_joined fun l hl => (hls l hl).1]
  have hlines : ∀ l ∈ ls ++ [p.line], l ≠ [] ∧ '\n' ∉ l := by
    intro l hl
    rcases List.mem_append.mp hl with hl | hl
    · exact hls l hl
    · rw [List.mem_singleton.mp hl]
      exact ⟨p.line_ne_nil, Point.newline_notMem_line hp⟩
  have hall' : w.posted.flatMap bodyLines ++ (ls ++ [p.line]) =
      (r.points ++ [p]).map Point.line := by
    rw [← List.append_assoc, hall, List.map_append]
    rfl
  have hbuilt : Holds host { w with builder := s } { r with points := r.points ++ [p] } :=
    ⟨h.fullName, h.topic, h.names, h.timestamp, h.oneLine,
      ⟨ls ++ [p.line], hnew, hlines, hall'⟩, h.posted⟩
  refine hbuilt.maybeUpload ?_ clock
  show s.str ≠ []
  rw [hnew, Stream.ofList_str]
  intro hj
  have hnil := (Stream.joined_eq_nil fun l hl => (hlines l hl).1).mp hj
  exact absurd hnil (by simp)

theorem rel_record (h : Holds host w r) {key : Nat} {f : List Char → Writer}
    {g : List Char → Record} (hrec : ∀ name, '\n' ∉ name → Holds host (f name) (g name)) :
    Option.Rel (Holds host) (w.measurements[key]?.map f) (r.names[key]?.map g) := by
  rw [h.names]
  cases hk : r.names[key]? with
  | none => exact .none
  | some name => exact .some (hrec name (h.oneLine name (List.mem_of_getElem? hk)))

/-- **One call.** -/
theorem step_holds (hh : host.OneLine) (h : Holds host w r) {c : Call} (hc : c.OneLine) :
    Option.Rel (Holds host) (w.step c) (r.add host c) := by
  cases c with
  | registerMeasurementClass name =>
    refine .some ⟨h.fullName, h.topic, ?_, h.timestamp, fun n hn => ?_, h.pending, h.posted⟩
    · rw [h.names]
    · rcases List.mem_append.mp hn with hn | hn
      · exact h.oneLine n hn
      · rw [List.mem_singleton.mp hn]
        exact hc
  | useTimestamp t =>
    exact .some ⟨h.fullName, h.topic, h.names, rfl, h.oneLine, h.pending, h.posted⟩
  | recordLatency key msg publisher arrivalTime clock =>
    refine rel_record h fun name hn => ?_
    refine h.record (latencyPoint_oneLine hh hn r.timestamp msg publisher arrivalTime)
      (fun b hb => ?_) clock
    rw [hb, h.fullName, h.topic, h.timestamp]
    exact build_latency host b name r.timestamp msg publisher arrivalTime
  | recordArrival key msg publisher clock =>
    refine rel_record h fun name hn => ?_
    refine h.record (arrivalPoint_oneLine hh hn r.timestamp msg publisher)
      (fun b hb => ?_) clock
    rw [hb, h.fullName, h.topic, h.timestamp]
    exact build_arrival host b name r.timestamp msg publisher
  | recordActivationJitter key jitter clock =>
    refine rel_record h fun name hn => ?_
    refine h.record (jitterPoint_oneLine hh hn r.timestamp jitter) (fun b hb => ?_) clock
    rw [hb, h.fullName, h.timestamp]
    exact build_jitter host b name r.timestamp jitter

/-- the destructor posts what is left -/
theorem Holds.destroy (h : Holds host w r) :
    w.destroy.posted.flatMap bodyLines = r.points.map Point.line ∧
      ∀ b ∈ w.destroy.posted, b ≠ [] := by
  obtain ⟨ls, hbuf, hls, hall⟩ := h.pending
  by_cases hne : ls = []
  · subst hne
    have hd : w.destroy.posted = w.posted := by
      rw [Writer.destroy, hbuf]
      rfl
    rw [hd, ← hall, List.append_nil]
    exact ⟨rfl, h.posted⟩
  · have hj : Stream.joined '\n' ls ≠ [] := fun hj =>
      hne ((Stream.joined_eq_nil fun l hl => (hls l hl).1).mp hj)
    have hd : w.destroy.posted = w.posted ++ [Stream.joined '\n' ls] := by
      simp only [Writer.destroy, hbuf, getBufferSize_ofList]
      rw [if_pos (List.length_pos_iff.mpr hj)]
      rfl
    rw [hd, List.flatMap_append, List.flatMap_cons, List.flatMap_nil, List.append_nil,
      bodyLines_joined hne hls]
    refine ⟨hall, fun b hb => ?_⟩
    rcases List.mem_append.mp hb with hb | hb
    · exact h.posted b hb
    · rw [List.mem_singleton.mp hb]
      exact hj

end

theorem construct_holds (host : HostInfo) (now : Int) :
    Holds host (Writer.construct host now) ⟨[], 0, []⟩ :=
  ⟨rfl, rfl, rfl, rfl, fun _ hn => absurd hn List.not_mem_nil,
    ⟨[], rfl, fun _ hl => absurd hl List.not_mem_nil, rfl⟩,
    fun _ hb => absurd hb List.not_mem_nil⟩

/-- **No loss and no duplication.**  For names without newlines, any calls and any clock
readings: the calls are possible for the writer exactly when every record has a registered key,
and then the lines of the bodies posted over its lifetime are the measurements recorded, in the
order of the calls, each as one line; no line and no body is empty. -/
theorem lifetime_posts (host : HostInfo) (now : Int) (calls : List Call) (hh : host.OneLine)
    (hc : ∀ c ∈ calls, c.OneLine) :
    (Writer.lifetime host now calls).map (fun w => w.posted.flatMap bodyLines) =
        (recorded host calls).map (fun ps => ps.map Point.line) ∧
      ∀ w, Writer.lifetime host now calls = some w →
        ∀ body ∈ w.posted, body ≠ [] ∧ ∀ l ∈ bodyLines body, l ≠ [] := by
  have hstep : ∀ w r c, Holds host w r → Call.OneLine c →
      Option.Rel (Holds host) (w.step c) (r.add host c) := fun _ _ _ h hc => step_holds hh h hc
  have hrel := exec_rel hstep calls _ _ (construct_holds host now) hc
  rw [Writer.lifetime, recorded]
  cases hw : exec Writer.step (Writer.construct host now) calls with
  | none =>
    cases hr : exec (Record.add host) ⟨[], 0, []⟩ calls with
    | none => exact ⟨rfl, fun w hnone => by cases hnone⟩
    | some r =>
      rw [hw, hr] at hrel
      cases hrel
  | some w =>
    cases hr : exec (Record.add host) ⟨[], 0, []⟩ calls with
    | none =>
      rw [hw, hr] at hrel
      cases hrel
    | some r =>
      rw [hw, hr] at hrel
      cases hrel with
      | some h =>
        obtain ⟨hlines, hne⟩ := h.destroy
        refine ⟨congrArg some hlines, fun w' hw' body hb => ?_⟩
        obtain rfl : w.destroy = w' := Option.some.inj hw'
        refine ⟨hne body hb, fun l hl => ?_⟩
        -- a line of a body is the line of a measurement
        have hmem : l ∈ r.points.map Point.line := by
          rw [← hlines]
          exact List.mem_flatMap.mpr ⟨body, hb, hl⟩
        obtain ⟨p, _, rfl⟩ := List.mem_map.mp hmem
        exact p.line_ne_nil

/-- a name with a space, two measurements of which the first is uploaded at once and the second
on destruction -/
theorem lifetime_posts_two :
    (Writer.lifetime ⟨"chatter".toList, "node".toList, "/".toList⟩ 0
      [.registerMeasurementClass "end to end".toList, .useTimestamp 7,
        .recordActivationJitter 0 (-3) ⟨10, 11⟩, .recordArrival 0 ⟨1, 2, 3⟩ 255 ⟨20, 21⟩]).map
        (fun w => w.posted.flatMap bodyLines) =
      some ["end\\ to\\ end,timer=/node activation_jitter=-3i 7".toList,
        "end\\ to\\ end,publisher=000000FF,topic=chatter,node_full_name=/node msg_id=2i 7".toList] := by
  rw [(lifetime_posts _ _ _ ⟨by decide, by decide, by decide⟩ (by decide)).1]
  decide

end PMROS2.Measuring
