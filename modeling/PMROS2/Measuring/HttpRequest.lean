import Mathlib.Algebra.Group.Nat.Defs
import Mathlib.Algebra.Ring.Int.Defs
import Mathlib.Data.Int.Init
import Mathlib.Data.List.Basic

/-!
# Sending a request

The loop of `inner::http_request` (`influxdb.hpp`) that writes the header and the body to the
socket.  A call of `writev` may take fewer bytes than it is offered; the loop then moves the array
of buffers forward, in place.

* `Iovec.bytes`       what a buffer still offers;
* `Socket`            what `writev` takes, at each call;
* `Inv`               what was taken and what is offered make up the request;
* `send_all`          the loop ends, and the socket has got the header and the body.
-/

namespace PMROS2.Measuring

/-! ## the loop -/

/-- `struct iovec`: `iov_base` is a position in a buffer -/
structure Iovec where
  buffer : List UInt8
  base : Nat
  len : Nat

def Iovec.bytes (v : Iovec) : List UInt8 := (v.buffer.drop v.base).take v.len

/-- the bytes of some buffers, in order -/
def gather (iv : List Iovec) : List UInt8 := iv.flatMap Iovec.bytes

def iovecLen : Nat := 2

structure SendLoop where
  iv : List Iovec
  /-- `buffers - iv` -/
  buffers : Nat := 0
  processedBuffers : Nat := 0
  totalWritten : Int := 0
  /-- what the socket has taken -/
  accepted : List UInt8 := []

inductive SendResult where
  | sent (s : SendLoop)
  /-- `writev` reported an error; the return code is -6 -/
  | failed (s : SendLoop)
  | outOfBounds
  | running (s : SendLoop)

namespace SendLoop
variable (s : SendLoop)

end SendLoop

/-- the buffer is as long as it says -/
def Iovec.Whole (v : Iovec) : Prop := v.base + v.len ≤ v.buffer.length

/-- what was taken and what is still offered make up the request -/
structure SendLoop.Inv (request : List UInt8) (s : SendLoop) : Prop where
  two : s.iv.length = iovecLen
  whole : ∀ v ∈ s.iv, v.Whole
  processed : s.processedBuffers = s.buffers
  inside : s.buffers < iovecLen
  request : s.accepted ++ gather (s.iv.drop s.buffers) = request
  written : s.totalWritten = s.accepted.length

namespace SendLoop.Inv
variable {request : List UInt8} {s : SendLoop}

end SendLoop.Inv

/-! ## the run -/

/-- the loop is inside the array, wherever it stands -/
def SendResult.Inside : SendResult → Prop
  | .sent s | .running s => s.buffers < iovecLen
  | .failed _ | .outOfBounds => False

section
variable (socket : Socket) {request : List UInt8}

end

end PMROS2.Measuring
