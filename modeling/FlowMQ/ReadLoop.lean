import FlowMQ.Message
import FlowMQ.Lib.Runs

/-!
# Reading from a session

`Session` reads into one buffer that it uses again for every frame: 20 bytes of
header, then as many bytes of body as `decode_length` finds in the header. That
number is text without a terminator of its own, so what stands behind the header
may be taken for more digits, and nothing compares it with the buffer.
-/

namespace FlowMQ

open TextStream

namespace Message

/-- `decode_length`, or `none` where `atoi` leaves the buffer or overflows. -/
def decodeLength (msg : Message) : Option Message :=
  (atoi msg.dataBuffer).map fun n => { msg with bodyLength := n }

def writeByte (i : Nat) (b : UInt8) (msg : Message) : Option Message :=
  if i < HEADER_LENGTH + MAX_BODY_LENGTH then
    some { msg with dataBuffer := msg.dataBuffer.set i b, size := by rw [List.length_set]; exact msg.size }
  else none

end Message

inductive ReadStage where
  | header
  | body
  deriving DecidableEq, Repr

/-- `read_message_buffer_`, the read that is going on and how many of its bytes have arrived, and the bodies
handed to `msg_handler_`. -/
structure SessionReader where
  readMessageBuffer : Message
  stage : ReadStage
  arrived : Nat
  handled : List Bytes

inductive ReadEvent where
  | arrive (b : UInt8)
  | complete
  deriving DecidableEq, Repr, Inhabited

namespace SessionReader

open Message (HEADER_LENGTH MAX_BODY_LENGTH)

def connected : SessionReader := ⟨.empty, .header, 0, []⟩

def offset (s : SessionReader) : Nat :=
  match s.stage with
  | .header => 0
  | .body => HEADER_LENGTH

/-- How many bytes `async_read` is to read: `body_length_` as a `size_t`. -/
def requested (s : SessionReader) : Nat :=
  match s.stage with
  | .header => HEADER_LENGTH
  | .body => (s.readMessageBuffer.bodyLength % 2 ^ 64).toNat

def step (s : SessionReader) : ReadEvent → Option SessionReader
  | .arrive b =>
    if s.arrived < s.requested then
      (s.readMessageBuffer.writeByte (s.offset + s.arrived) b).map fun msg =>
        { s with readMessageBuffer := msg, arrived := s.arrived + 1 }
    else none
  | .complete =>
    if s.arrived = s.requested then
      match s.stage with
      | .header =>
        s.readMessageBuffer.decodeLength.map fun msg =>
          { s with readMessageBuffer := msg, stage := .body, arrived := 0 }
      | .body =>
        some { s with stage := .header, arrived := 0, handled := s.handled ++ [s.readMessageBuffer.body] }
    else none

abbrev Execution : Type := Runs.Run (· = connected) step

/-- The read loop stays inside its buffer: the read that is going on does, the length of a body is between
0 and `MAX_BODY_LENGTH`, and what `decode_length` is going to find is such a length whatever stands behind
the header. -/
structure Inside (s : SessionReader) : Prop where
  read : s.offset + s.requested ≤ HEADER_LENGTH + MAX_BODY_LENGTH
  length : s.stage = .body → s.readMessageBuffer.Fits
  decode : s.stage = .header → s.arrived = HEADER_LENGTH →
    ∃ n : Int, (0 ≤ n ∧ n ≤ MAX_BODY_LENGTH) ∧ ∀ msg : Message, msg.header = s.readMessageBuffer.header →
      msg.decodeLength.map Message.bodyLength = some n

def HoldsLength (header : Bytes) : Prop := ∃ n ∈ atoi header, 0 ≤ n ∧ n ≤ (MAX_BODY_LENGTH : Int)

instance (header : Bytes) : Decidable (HoldsLength header) :=
  inferInstanceAs (Decidable (∃ n ∈ atoi header, _))

def SendsLength (s : SessionReader) : ReadEvent → Prop
  | .arrive b => s.stage = .header → s.arrived + 1 = HEADER_LENGTH →
    HoldsLength ((s.readMessageBuffer.dataBuffer.set s.arrived b).take HEADER_LENGTH)
  | .complete => True

instance (s : SessionReader) : (e : ReadEvent) → Decidable (s.SendsLength e)
  | .arrive _ => inferInstanceAs (Decidable (_ → _ → _))
  | .complete => inferInstanceAs (Decidable True)

/-! ## What the header decides -/

theorem map_bodyLength_decodeLength (msg : Message) :
    msg.decodeLength.map Message.bodyLength = atoi msg.dataBuffer := by
  rw [Message.decodeLength, Option.map_map]
  exact Option.map_id'

theorem header_append (msg : Message) : msg.dataBuffer = msg.header ++ msg.dataBuffer.drop HEADER_LENGTH :=
  (List.take_append_drop _ _).symm

def withDigits (msg : Message) : Message :=
  { bodyLength := 0, dataBuffer := msg.header ++ List.replicate MAX_BODY_LENGTH 48
    size := by rw [List.length_append, Message.length_header, List.length_replicate] }

theorem decides_iff (msg : Message) :
    (∃ n : Int, (0 ≤ n ∧ n ≤ MAX_BODY_LENGTH) ∧ ∀ msg' : Message, msg'.header = msg.header →
      msg'.decodeLength.map Message.bodyLength = some n) ↔ HoldsLength msg.header := by
  simp only [map_bodyLength_decodeLength]
  constructor
  · rintro ⟨n, hn, hall⟩
    have hself := hall msg rfl
    rw [header_append] at hself
    by_cases hends : NumberEnds msg.header
    · rw [atoi_append hends] at hself
      exact ⟨n, hself, hn⟩
    · -- digits behind the header take the number to the end of the buffer
      have hheader : (withDigits msg).header = msg.header := by
        rw [Message.header, withDigits, List.take_append_of_le_length msg.length_header.ge,
          List.take_of_length_le msg.length_header.le]
      have hdigits := hall (withDigits msg) hheader
      rw [withDigits, atoi_append_digits hends fun b hb => by rw [List.eq_of_mem_replicate hb]; decide] at hdigits
      cases hdigits
  · rintro ⟨n, hatoi, hn⟩
    have hends : NumberEnds msg.header := numberEnds_of_atoi hatoi
    refine ⟨n, hn, fun msg' hmsg' => ?_⟩
    rw [header_append, hmsg', atoi_append hends]
    exact hatoi

/-! ## The loop -/

theorem offset_header {s : SessionReader} (hs : s.stage = .header) : s.offset = 0 := by
  rw [offset, hs]

theorem offset_body {s : SessionReader} (hs : s.stage = .body) : s.offset = HEADER_LENGTH := by
  rw [offset, hs]

theorem requested_header {s : SessionReader} (hs : s.stage = .header) : s.requested = HEADER_LENGTH := by
  rw [requested, hs]

theorem requested_of_fits {s : SessionReader} (hs : s.stage = .body) (h : s.readMessageBuffer.Fits) :
    (s.requested : Int) = s.readMessageBuffer.bodyLength := by
  obtain ⟨h₁, h₂⟩ := h
  unfold requested
  rw [hs]
  simp only
  unfold MAX_BODY_LENGTH at h₂
  omega

theorem inside_header {s : SessionReader} (hs : s.stage = .header) (hd : s.arrived = HEADER_LENGTH →
    HoldsLength s.readMessageBuffer.header) : Inside s where
  read := by
    rw [offset_header hs, requested_header hs]
    omega
  length := fun h => by rw [hs] at h; cases h
  decode := fun _ ha => (decides_iff _).mpr (hd ha)

theorem inside_body {s : SessionReader} (hs : s.stage = .body) (hf : s.readMessageBuffer.Fits) :
    Inside s where
  read := by
    have hreq := requested_of_fits hs hf
    have hle := hf.2
    rw [offset_body hs]
    omega
  length := fun _ => hf
  decode := fun h => by rw [hs] at h; cases h

theorem inside_connected : Inside connected := inside_header rfl fun h => by cases h

section
variable {s s' : SessionReader} {e : ReadEvent}

theorem step_arrive {b : UInt8} (h : s.step (.arrive b) = some s') :
    s'.stage = s.stage ∧ s'.arrived = s.arrived + 1 ∧
      s'.readMessageBuffer.bodyLength = s.readMessageBuffer.bodyLength ∧
      s'.readMessageBuffer.dataBuffer = s.readMessageBuffer.dataBuffer.set (s.offset + s.arrived) b := by
  simp only [step, Message.writeByte] at h
  split at h
  · split at h
    · cases h
      exact ⟨rfl, rfl, rfl, rfl⟩
    · cases h
  · cases h

theorem header_arrive {b : UInt8} (h : s.step (.arrive b) = some s') (hs : s.stage = .header) :
    s'.readMessageBuffer.header = (s.readMessageBuffer.dataBuffer.set s.arrived b).take HEADER_LENGTH := by
  rw [Message.header, (step_arrive h).2.2.2, offset_header hs, Nat.zero_add]

theorem Inside.step (h : Inside s) (hn : s.step e = some s') (hok : s.SendsLength e) : Inside s' := by
  cases e with
  | arrive b =>
    obtain ⟨hstage, harrived, hlength, -⟩ := step_arrive hn
    cases hs : s.stage with
    | header =>
      refine inside_header (hstage.trans hs) fun ha => ?_
      rw [header_arrive hn hs]
      exact hok hs (by omega)
    | body =>
      refine inside_body (hstage.trans hs) ?_
      unfold Message.Fits
      rw [hlength]
      exact h.length hs
  | complete =>
    simp only [SessionReader.step] at hn
    split at hn
    · rename_i hall
      split at hn
      · rename_i hs
        have harrived : s.arrived = HEADER_LENGTH := hall.trans (requested_header hs)
        obtain ⟨n, hfits, hdecode⟩ := h.decode hs harrived
        have hself := hdecode _ rfl
        obtain ⟨msg, hmsg, rfl⟩ := Option.map_eq_some_iff.mp hself
        rw [hmsg] at hn
        cases hn
        exact inside_body rfl hfits
      · cases hn
        exact inside_header rfl fun ha => by cases ha
    · cases hn

theorem sendsLength_of_inside (hn : s.step e = some s') (h : Inside s') : s.SendsLength e := by
  cases e with
  | arrive b =>
    intro hs ha
    obtain ⟨hstage, harrived, -, -⟩ := step_arrive hn
    rw [← header_arrive hn hs]
    exact (decides_iff _).mp (h.decode (hstage.trans hs) (by omega))
  | complete => trivial

end

/-- The read loop stays inside its buffer exactly as long as every header that arrives holds the length of
a body. -/
theorem inside_iff (r : Execution) : (∀ k ≤ r.length, Inside (r.states k)) ↔ r.Always SendsLength := by
  have hstart : Inside (r.states 0) := by
    rw [r.starts]
    exact inside_connected
  exact r.iff_always hstart (fun _ _ h => h) (fun k hk h hok => h.step (r.steps k hk) hok)
    fun k hk _ h => sendsLength_of_inside (r.steps k hk) h

def longBody : List ReadEvent := (toBytes "5000" ++ List.replicate 16 0).map .arrive ++ [.complete]

theorem longBody_isSome : (Runs.exec step connected longBody).isSome := by decide +kernel

def longBodyRun : Execution := .ofEvents connected rfl longBody longBody_isSome

/-- The read of the body is to put 5000 bytes into a buffer of 1020. -/
theorem not_inside_longBody : ∃ r : Execution, ∃ k ≤ r.length, (r.states k).stage = .body ∧
    (r.states k).requested = 5000 ∧ ¬ Inside (r.states k) := by
  have hrequested : (longBodyRun.states 21).requested = 5000 := by decide +kernel
  refine ⟨longBodyRun, 21, by decide +kernel, by decide +kernel, hrequested, fun h => ?_⟩
  have hread := h.read
  rw [hrequested] at hread
  unfold HEADER_LENGTH MAX_BODY_LENGTH at hread
  omega

end SessionReader

end FlowMQ
