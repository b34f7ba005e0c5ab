import FlowMQ.ReadLoop

/-!
# Frames through the read loop

What `set_body_length` and the body make a frame of, the read loop takes apart
again: the zeros behind the length end it inside the header, whatever an earlier
frame has left in the buffer behind it.
-/

namespace FlowMQ

open TextStream

namespace Message

def Made (body : Bytes) (msg : Message) : Prop :=
  ∃ buffer : Message, (buffer.setBodyLength body.length).map (writeBody body) = some msg

theorem Made.length {body : Bytes} {msg : Message} (h : Made body msg) : body.length ≤ MAX_BODY_LENGTH := by
  obtain ⟨buffer, h⟩ := h
  obtain ⟨msg', h', -⟩ := Option.map_eq_some_iff.mp h
  have hlength := (setBodyLength_isSome_iff _ _).mp (Option.isSome_of_eq_some h')
  omega

def ofBody (body : Bytes) : Message := ((empty.setBodyLength body.length).map (writeBody body)).getD .empty

theorem made_ofBody {body : Bytes} (h : body.length ≤ MAX_BODY_LENGTH) : Made body (ofBody body) := by
  refine ⟨.empty, ?_⟩
  rw [ofBody, setBodyLength, if_pos (by omega), Option.map_some, Option.getD_some]

theorem Made.frame {body : Bytes} {msg : Message} (h : Made body msg) :
    msg.frame = headerText body.length ++ body := by
  have hlen := h.length
  obtain ⟨buffer, h⟩ := h
  rw [setBodyLength, if_pos (by omega), Option.map_some] at h
  cases h
  have hheader : (headerText body.length ++ buffer.dataBuffer.drop HEADER_LENGTH).take HEADER_LENGTH =
      headerText body.length := List.take_left' (length_headerText _)
  rw [frame_eq]
  simp only [header, Message.body, writeBody, hheader, Int.toNat_natCast]
  rw [List.take_left' (length_headerText _), List.drop_left' (length_headerText _), List.take_take,
    min_eq_left hlen, List.take_left]

theorem Made.body_eq {body : Bytes} {msg : Message} (h : Made body msg) : msg.body = body := by
  have hframe := h.frame
  rw [frame_eq] at hframe
  exact (List.append_inj hframe (by rw [length_header, length_headerText])).2

theorem headerText_eq {n : Nat} (h : n ≤ MAX_BODY_LENGTH) :
    ∃ zeros, headerText n = decimalInt n ++ 0 :: zeros := by
  have hdec : decimalInt (n : Int) = decimal n := by
    rw [decimalInt, if_neg (by omega), Int.natAbs_natCast]
  have hlen : (decimal n).length ≤ 4 := by
    rw [decimal, List.length_map]
    exact (Nat.length_toDigits_le_iff (by omega) (by omega)).mpr (by unfold MAX_BODY_LENGTH at h; omega)
  have hzero : HEADER_LENGTH - (decimal n).length = (HEADER_LENGTH - (decimal n).length - 1) + 1 := by
    unfold HEADER_LENGTH
    omega
  refine ⟨(List.replicate (HEADER_LENGTH - 1) 0).take (HEADER_LENGTH - (decimal n).length - 1), ?_⟩
  rw [headerText, hdec, List.take_append, List.take_of_length_le (by unfold HEADER_LENGTH; omega), hzero]
  rfl

theorem atoi_headerText {n : Nat} (h : n ≤ MAX_BODY_LENGTH) (rest : Bytes) :
    atoi (headerText n ++ rest) = some (n : Int) := by
  obtain ⟨zeros, hz⟩ := headerText_eq h
  rw [hz, List.append_assoc, List.cons_append]
  exact atoi_decimalInt ⟨by omega, by unfold MAX_BODY_LENGTH at h; omega⟩ rfl _

end Message

def ReadEvent.byte : ReadEvent → Option UInt8
  | .arrive b => some b
  | .complete => none

namespace SessionReader

open Message (HEADER_LENGTH MAX_BODY_LENGTH headerText Made)

def received (r : Execution) : Bytes := ((List.range r.length).map r.events).filterMap ReadEvent.byte

def Waits (s : SessionReader) : Prop := s.arrived < s.requested

/-! ## One frame -/

section
variable {s : SessionReader}

theorem exec_arrive (bytes : Bytes) (hfits : s.offset + s.requested ≤ HEADER_LENGTH + MAX_BODY_LENGTH)
    (hreq : s.arrived + bytes.length ≤ s.requested) :
    ∃ msg : Message, Runs.exec step s (bytes.map .arrive) =
        some { s with readMessageBuffer := msg, arrived := s.arrived + bytes.length } ∧
      msg.bodyLength = s.readMessageBuffer.bodyLength ∧
      msg.dataBuffer = s.readMessageBuffer.dataBuffer.take (s.offset + s.arrived) ++ bytes ++
        s.readMessageBuffer.dataBuffer.drop (s.offset + s.arrived + bytes.length) := by
  induction bytes generalizing s with
  | nil => exact ⟨s.readMessageBuffer, rfl, rfl, by simp⟩
  | cons b bytes ih =>
    rw [List.length_cons] at hreq
    have hin : s.offset + s.arrived < HEADER_LENGTH + MAX_BODY_LENGTH := by omega
    have hlt : s.offset + s.arrived < s.readMessageBuffer.dataBuffer.length := by
      rwa [s.readMessageBuffer.size]
    let s₁ : SessionReader := { s with
      readMessageBuffer := { s.readMessageBuffer with
        dataBuffer := s.readMessageBuffer.dataBuffer.set (s.offset + s.arrived) b
        size := by rw [List.length_set]; exact s.readMessageBuffer.size }
      arrived := s.arrived + 1 }
    have hstep : s.step (.arrive b) = some s₁ := by
      rw [step, if_pos (by omega), Message.writeByte, if_pos hin]
      rfl
    have hoffset : s₁.offset = s.offset := rfl
    have hrequested : s₁.requested = s.requested := rfl
    have harrived : s₁.arrived = s.arrived + 1 := rfl
    obtain ⟨msg, hexec, hlength, hdata⟩ := ih (s := s₁) (by omega) (by omega)
    refine ⟨msg, ?_, hlength, ?_⟩
    · rw [List.map_cons, Runs.exec, hstep, Option.bind_some, hexec, List.length_cons, Nat.add_right_comm,
        Nat.add_assoc]
    · have hset : s₁.readMessageBuffer.dataBuffer.take (s.offset + s.arrived + 1) =
          s.readMessageBuffer.dataBuffer.take (s.offset + s.arrived) ++ [b] := by
        rw [List.take_succ_eq_append_getElem (by rw [List.length_set]; exact hlt), List.getElem_set_self,
          List.take_set_of_le le_rfl]
      rw [hdata, hoffset, ← Nat.add_assoc, hset, List.drop_set_of_lt (by omega), List.length_cons]
      simp [Nat.add_assoc, Nat.add_comm 1]

def readEvents (bytes : Bytes) : List ReadEvent := bytes.map .arrive ++ [.complete]

theorem filterMap_readEvents (bytes : Bytes) : (readEvents bytes).filterMap ReadEvent.byte = bytes := by
  simp [readEvents, ReadEvent.byte, List.filterMap_map, Function.comp_def]

theorem exec_header {n : Nat} (hn : n ≤ MAX_BODY_LENGTH) (hs : s.stage = .header) (ha : s.arrived = 0) :
    ∃ msg : Message, msg.bodyLength = n ∧ Runs.exec step s (readEvents (headerText n)) =
      some { s with readMessageBuffer := msg, stage := .body, arrived := 0 } := by
  have hlen := Message.length_headerText n
  have hreq := requested_header hs
  obtain ⟨msg, hexec, -, hdata⟩ :=
    exec_arrive (s := s) (headerText n) (by rw [offset_header hs, hreq]; omega) (by omega)
  rw [offset_header hs, ha, List.take_zero, List.nil_append] at hdata
  refine ⟨{ msg with bodyLength := n }, rfl, ?_⟩
  rw [readEvents, Runs.exec_concat, hexec, Option.bind_some, step,
    if_pos (by rw [ha, Nat.zero_add, hlen, requested, hs])]
  simp only [hs, Message.decodeLength, hdata, Message.atoi_headerText hn, Option.map_some]

theorem exec_body {body : Bytes} (hn : body.length ≤ MAX_BODY_LENGTH) (hs : s.stage = .body) (ha : s.arrived = 0)
    (hlength : s.readMessageBuffer.bodyLength = body.length) :
    ∃ msg : Message, Runs.exec step s (readEvents body) =
      some { readMessageBuffer := msg, stage := .header, arrived := 0, handled := s.handled ++ [body] } := by
  have hfits : s.readMessageBuffer.Fits := by
    unfold Message.Fits
    rw [hlength]
    omega
  have hreq : s.requested = body.length := by
    have := requested_of_fits hs hfits
    omega
  obtain ⟨msg, hexec, hmsg, hdata⟩ :=
    exec_arrive (s := s) body (by rw [offset_body hs, hreq]; omega) (by omega)
  have hbody : msg.body = body := by
    have htake : (s.readMessageBuffer.dataBuffer.take HEADER_LENGTH).length = HEADER_LENGTH :=
      s.readMessageBuffer.length_header
    rw [Message.body, hdata, hmsg, hlength, offset_body hs, ha, Nat.add_zero, List.append_assoc,
      List.drop_left' htake, Int.toNat_natCast, List.take_left]
  refine ⟨msg, ?_⟩
  rw [readEvents, Runs.exec_concat, hexec, Option.bind_some, step,
    if_pos (by rw [ha, Nat.zero_add, requested, hs]; simp only [hmsg]; rw [← hreq, requested, hs])]
  simp only [hs, hbody]

end

/-! ## A stream of frames -/

def frameEvents (body : Bytes) : List ReadEvent := readEvents (headerText body.length) ++ readEvents body

theorem exec_frames (bodies : List Bytes) (hlen : ∀ body ∈ bodies, body.length ≤ MAX_BODY_LENGTH)
    {s : SessionReader} (hs : s.stage = .header) (ha : s.arrived = 0) :
    ∃ msg : Message, Runs.exec step s (bodies.flatMap frameEvents) =
      some { readMessageBuffer := msg, stage := .header, arrived := 0, handled := s.handled ++ bodies } := by
  induction bodies generalizing s with
  | nil =>
    obtain ⟨msg, stage, arrived, handled⟩ := s
    cases hs
    cases ha
    exact ⟨msg, by simp [Runs.exec]⟩
  | cons body bodies ih =>
    have hn := hlen body List.mem_cons_self
    obtain ⟨msg₁, hlength, hheader⟩ := exec_header hn hs ha
    obtain ⟨msg₂, hbody⟩ := exec_body hn
      (s := { s with readMessageBuffer := msg₁, stage := .body, arrived := 0 }) rfl rfl hlength
    obtain ⟨msg₃, hrest⟩ := ih (fun b hb => hlen b (List.mem_cons_of_mem _ hb))
      (s := { readMessageBuffer := msg₂, stage := .header, arrived := 0, handled := s.handled ++ [body] }) rfl rfl
    refine ⟨msg₃, ?_⟩
    rw [List.flatMap_cons, frameEvents, Runs.exec_append, Runs.exec_append, hheader, Option.bind_some, hbody,
      Option.bind_some, hrest, List.append_assoc, List.singleton_append]

theorem waits_of_arrive {s s' : SessionReader} {b : UInt8} (h : s.step (.arrive b) = some s') : s.Waits := by
  rw [step] at h
  split at h
  · assumption
  · cases h

theorem not_waits_of_complete {s s' : SessionReader} (h : s.step .complete = some s') : ¬ s.Waits := by
  rw [step] at h
  split at h
  · rename_i hall
    exact fun hw => absurd hall hw.ne
  · cases h

theorem waits_header {s : SessionReader} (hs : s.stage = .header) (ha : s.arrived = 0) : s.Waits := by
  rw [Waits, requested_header hs, ha]
  decide

theorem exec_unique {es es' : List ReadEvent} {s t t' : SessionReader} (h : Runs.exec step s es = some t)
    (h' : Runs.exec step s es' = some t')
    (hbytes : es.filterMap ReadEvent.byte = es'.filterMap ReadEvent.byte) (ht : t.Waits) (ht' : t'.Waits) :
    t = t' := by
  -- in every state either a byte can arrive or a handler can run, so the two lists go along together
  induction es generalizing s es' with
  | nil =>
    cases h
    cases es' with
    | nil =>
      cases h'
      rfl
    | cons e es' =>
      obtain ⟨s₁, hs₁, -⟩ := Option.bind_eq_some_iff.mp h'
      cases e with
      | arrive b => simp [ReadEvent.byte] at hbytes
      | complete => exact absurd ht (not_waits_of_complete hs₁)
  | cons e es ih =>
    obtain ⟨s₁, hs₁, hrest⟩ := Option.bind_eq_some_iff.mp h
    cases es' with
    | nil =>
      cases h'
      cases e with
      | arrive b => simp [ReadEvent.byte] at hbytes
      | complete => exact absurd ht' (not_waits_of_complete hs₁)
    | cons e' es' =>
      obtain ⟨s₁', hs₁', hrest'⟩ := Option.bind_eq_some_iff.mp h'
      cases e with
      | arrive b =>
        cases e' with
        | arrive b' =>
          simp only [ReadEvent.byte, List.filterMap_cons, List.cons.injEq] at hbytes
          obtain ⟨rfl, hbytes⟩ := hbytes
          rw [hs₁] at hs₁'
          cases hs₁'
          exact ih hrest hrest' hbytes
        | complete => exact absurd (waits_of_arrive hs₁) (not_waits_of_complete hs₁')
      | complete =>
        cases e' with
        | arrive b' => exact absurd (waits_of_arrive hs₁') (not_waits_of_complete hs₁)
        | complete =>
          rw [hs₁] at hs₁'
          cases hs₁'
          exact ih hrest hrest' hbytes

theorem filterMap_frameEvents (bodies : List Bytes) :
    (bodies.flatMap frameEvents).filterMap ReadEvent.byte =
      (bodies.map fun body => headerText body.length ++ body).flatten := by
  induction bodies with
  | nil => rfl
  | cons body bodies ih =>
    rw [List.flatMap_cons, List.filterMap_append, ih, frameEvents, List.filterMap_append, filterMap_readEvents,
      filterMap_readEvents, List.map_cons, List.flatten_cons]

theorem frames_of_made {bodies : List Bytes} {msgs : List Message} (h : List.Forall₂ Made bodies msgs) :
    msgs.map Message.frame = bodies.map fun body => headerText body.length ++ body := by
  induction h with
  | nil => rfl
  | cons hmade _ ih => rw [List.map_cons, List.map_cons, hmade.frame, ih]

theorem length_of_made {bodies : List Bytes} {msgs : List Message} (h : List.Forall₂ Made bodies msgs) :
    ∀ body ∈ bodies, body.length ≤ MAX_BODY_LENGTH := by
  induction h with
  | nil => exact fun body hb => absurd hb List.not_mem_nil
  | cons hmade _ ih =>
    intro body hb
    rcases List.mem_cons.mp hb with rfl | hb
    · exact hmade.length
    · exact ih body hb

/-- On the frames of any messages the read loop can take in all bytes, and when it has, it has handed over the
bodies in order and waits for a header. -/
theorem handled_frames {bodies : List Bytes} {msgs : List Message} (h : List.Forall₂ Made bodies msgs) :
    (∃ r : Execution, received r = (msgs.map Message.frame).flatten ∧ (r.states r.length).Waits) ∧
    ∀ r : Execution, received r = (msgs.map Message.frame).flatten → (r.states r.length).Waits →
      (r.states r.length).handled = bodies ∧ (r.states r.length).stage = .header ∧
      (r.states r.length).arrived = 0 := by
  rw [frames_of_made h, ← filterMap_frameEvents]
  obtain ⟨msg, hexec⟩ := exec_frames bodies (length_of_made h) (s := connected) rfl rfl
  constructor
  · have hsome : (Runs.exec step connected (bodies.flatMap frameEvents)).isSome := by rw [hexec]; rfl
    let r : Execution := .ofEvents connected rfl _ hsome
    have hevents : (List.range r.length).map r.events = bodies.flatMap frameEvents := Runs.Run.events_ofEvents
    have hlast := r.exec_events r.length le_rfl
    rw [hevents, r.starts, hexec] at hlast
    refine ⟨r, congrArg _ hevents, ?_⟩
    rw [← Option.some.inj hlast]
    exact waits_header rfl rfl
  · intro r hreceived hwaits
    have hlast := r.exec_events r.length le_rfl
    rw [r.starts] at hlast
    have hsame := exec_unique hexec hlast hreceived.symm (waits_header rfl rfl) hwaits
    rw [← hsame]
    exact ⟨rfl, rfl, rfl⟩

theorem handled_frames_digits : ∃ r : Execution,
    received r = ([[49, 50], [], [0, 48]].map fun body => (Message.ofBody body).frame).flatten ∧
      (r.states r.length).handled = [[49, 50], [], [0, 48]] := by
  have hmade : List.Forall₂ Made [[49, 50], [], [0, 48]] ([[49, 50], [], [0, 48]].map Message.ofBody) :=
    .cons (Message.made_ofBody (by decide)) (.cons (Message.made_ofBody (by decide))
      (.cons (Message.made_ofBody (by decide)) .nil))
  obtain ⟨⟨r, hreceived, hwaits⟩, hall⟩ := handled_frames hmade
  exact ⟨r, hreceived, (hall r hreceived hwaits).1⟩

end SessionReader

end FlowMQ
