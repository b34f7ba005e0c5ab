import FlowMQ.FlowMessage
import FlowMQ.Lib.TextStream

/-!
# The buffer of a frame

`Message`: 20 bytes for the header, which holds the length of the body as text
and is filled up with zeros, and 1000 bytes for the body.
-/

namespace FlowMQ

open TextStream

namespace Message

def HEADER_LENGTH : Nat := 20

def MAX_BODY_LENGTH : Nat := 1000

end Message

open Message in
/-- The buffer never changes its size. `body_length_` is an `int`, and `decode_length` sets it
to any value. -/
structure Message where
  bodyLength : Int
  dataBuffer : Bytes
  size : dataBuffer.length = HEADER_LENGTH + MAX_BODY_LENGTH

namespace Message

theorem size_empty : (List.replicate (HEADER_LENGTH + MAX_BODY_LENGTH) (0 : UInt8)).length =
    HEADER_LENGTH + MAX_BODY_LENGTH := List.length_replicate

def empty : Message := ⟨0, List.replicate (HEADER_LENGTH + MAX_BODY_LENGTH) 0, size_empty⟩

def header (msg : Message) : Bytes := msg.dataBuffer.take HEADER_LENGTH

def body (msg : Message) : Bytes := (msg.dataBuffer.drop HEADER_LENGTH).take msg.bodyLength.toNat

def headerText (length : Int) : Bytes :=
  (decimalInt length ++ List.replicate HEADER_LENGTH 0).take HEADER_LENGTH

theorem length_headerText (length : Int) : (headerText length).length = HEADER_LENGTH := by
  simp [headerText]

theorem size_withHeader (length : Int) (msg : Message) :
    (headerText length ++ msg.dataBuffer.drop HEADER_LENGTH).length = HEADER_LENGTH + MAX_BODY_LENGTH := by
  rw [List.length_append, length_headerText, List.length_drop, msg.size]
  omega

/-- `set_body_length`, or `none` where an assertion fails. -/
def setBodyLength (length : Int) (msg : Message) : Option Message :=
  if 0 ≤ length ∧ length ≤ MAX_BODY_LENGTH then
    some ⟨length, headerText length ++ msg.dataBuffer.drop HEADER_LENGTH, size_withHeader length msg⟩
  else none

theorem setBodyLength_isSome_iff (length : Int) (msg : Message) :
    (msg.setBodyLength length).isSome ↔ 0 ≤ length ∧ length ≤ MAX_BODY_LENGTH := by
  unfold setBodyLength
  split
  · rename_i h
    exact iff_of_true rfl h
  · rename_i h
    exact iff_of_false (by simp) h

def Fits (msg : Message) : Prop := 0 ≤ msg.bodyLength ∧ msg.bodyLength ≤ MAX_BODY_LENGTH

instance (msg : Message) : Decidable msg.Fits := inferInstanceAs (Decidable (_ ∧ _))

/-- What `write_message` hands to `async_write`: `header_length() + body_length()` bytes from
`header()` on. -/
def frame (msg : Message) : Bytes := msg.dataBuffer.take (HEADER_LENGTH + msg.bodyLength.toNat)

theorem frame_eq (msg : Message) : msg.frame = msg.header ++ msg.body := List.take_add

theorem length_header (msg : Message) : msg.header.length = HEADER_LENGTH := by
  rw [header, List.length_take, msg.size]
  omega

/-- Write a body into the buffer, which holds no more than `MAX_BODY_LENGTH` bytes of it. -/
def writeBody (bytes : Bytes) (msg : Message) : Message :=
  { bodyLength := msg.bodyLength
    dataBuffer :=
      msg.header ++ (bytes ++ msg.dataBuffer.drop (HEADER_LENGTH + bytes.length)).take MAX_BODY_LENGTH
    size := by
      rw [List.length_append, length_header, List.length_take, List.length_append, List.length_drop, msg.size]
      omega }

theorem frame_ne_nil (msg : Message) : msg.frame ≠ [] := by
  intro h
  have hlen := congrArg List.length h
  rw [frame_eq, List.length_append, length_header] at hlen
  exact absurd hlen (by simp [HEADER_LENGTH])

end Message

end FlowMQ
