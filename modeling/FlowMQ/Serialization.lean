import FlowMQ.ClusterNode
import FlowMQ.FlowProto

/-!
# Serialised messages and the size of a frame

A payload is serialised three times: in the client's put, in the log entry of an
append request and in the message that is sent to a consumer. The limit of the
frame is the same for all three, the numbers around the payload are not.
-/

namespace FlowMQ

/-! ## The three sizes -/

def numberSize (z : Int) : Nat := (Wire.varint (Wire.ofInt z)).length

theorem numberSize_le (z : Int) : 1 ≤ numberSize z ∧ numberSize z ≤ 10 := Wire.length_varint _

def lengthSize (b : Bytes) : Nat := (Wire.varint b.length).length

theorem length_around {m : FlowProto} {type number : Nat} {partitionId : Int} {content : Bytes} (htype : type < 128)
    (hnumber : number < 16) (h : FlowProto.schema.fields m =
      [(1, .varint type), (2, .varint (Wire.ofInt partitionId)), (number, .bytes content)]) :
    m.serialize.length = 4 + numberSize partitionId + lengthSize content + content.length := by
  rw [FlowProto.serialize, Wire.Schema.serialize, h]
  simp [Wire.length_varint_of_lt htype, Wire.length_field_bytes hnumber, numberSize, lengthSize]
  omega

theorem length_entry (e : LogEntry) : (LogEntry.schema.serialize e).length =
    5 + numberSize e.index + numberSize e.term + numberSize e.messageId + numberSize e.operation +
      lengthSize e.message + e.message.length := by
  rw [Wire.Schema.serialize, LogEntry.fields_eq]
  simp [numberSize, lengthSize]
  omega

theorem length_clientPutMessage (message : Bytes) :
    (ClientPutMessage.schema.serialize ⟨message, none⟩).length = 1 + lengthSize message + message.length := by
  rw [Wire.Schema.serialize, show ClientPutMessage.schema.fields ⟨message, none⟩ =
    [(1, .bytes message)] from rfl]
  simp [lengthSize]

theorem length_serverSendMessage (messageId : Int) (message : Bytes) :
    (ServerSendMessage.schema.serialize ⟨messageId, message⟩).length =
      2 + numberSize messageId + lengthSize message + message.length := by
  rw [Wire.Schema.serialize, show ServerSendMessage.schema.fields ⟨messageId, message⟩ =
    [(1, .varint (Wire.ofInt messageId)), (2, .bytes message)] from rfl]
  simp [numberSize, lengthSize]
  omega

def AppendEntriesRequest.numberSizes (req : AppendEntriesRequest) : Nat :=
  numberSize req.term + numberSize req.leaderId + numberSize req.prevLogIndex + numberSize req.prevLogTerm +
    numberSize req.leaderCommit

theorem AppendEntriesRequest.numberSizes_le (req : AppendEntriesRequest) :
    5 ≤ req.numberSizes ∧ req.numberSizes ≤ 50 := by
  have h₁ := numberSize_le req.term
  have h₂ := numberSize_le req.leaderId
  have h₃ := numberSize_le req.prevLogIndex
  have h₄ := numberSize_le req.prevLogTerm
  have h₅ := numberSize_le req.leaderCommit
  unfold numberSizes
  omega

theorem length_appendEntriesRequest {req : AppendEntriesRequest} {e : LogEntry} (h : req.entries = [e]) :
    (AppendEntriesRequest.schema.serialize req).length =
      6 + req.numberSizes + lengthSize (LogEntry.schema.serialize e) +
        (LogEntry.schema.serialize e).length := by
  obtain ⟨term, leaderId, prevLogIndex, prevLogTerm, entries, leaderCommit⟩ := req
  subst h
  rw [Wire.Schema.serialize,
    show AppendEntriesRequest.schema.fields ⟨term, leaderId, prevLogIndex, prevLogTerm, [e], leaderCommit⟩ =
    [(1, .varint (Wire.ofInt term)), (2, .varint (Wire.ofInt leaderId)),
    (3, .varint (Wire.ofInt prevLogIndex)),
      (4, .varint (Wire.ofInt prevLogTerm)), (5, .bytes (LogEntry.schema.serialize e)),
      (6, .varint (Wire.ofInt leaderCommit))]
    from rfl]
  simp [AppendEntriesRequest.numberSizes, numberSize, lengthSize]
  omega

theorem lengthSize_le (b : Bytes) : 1 ≤ lengthSize b ∧ lengthSize b ≤ 10 := Wire.length_varint _

theorem lengthSize_of_le {b : Bytes} (h₁ : 128 ≤ b.length) (h₂ : b.length < 16384) : lengthSize b = 2 :=
  Wire.length_varint_of_le h₁ h₂

def putMessage (partitionId : Int) (message : Bytes) : FlowProto :=
  (FlowProto.empty.loadClientPutMessageRequest ⟨message, none⟩).setPartitionId partitionId

def appendMessage (partitionId : Int) (req : AppendEntriesRequest) : FlowProto :=
  (FlowProto.empty.loadAppendEntriesRequest req).setPartitionId partitionId

def sendMessage (partitionId messageId : Int) (message : Bytes) : FlowProto :=
  (FlowProto.empty.loadServerSendMessageRequest ⟨messageId, message⟩).setPartitionId partitionId

/-- A message that the client may put can be replicated and delivered exactly when there is room for the
numbers of its log entry and of the append request. -/
theorem accepted_fits_iff (partitionId : Int) {req : AppendEntriesRequest} {e : LogEntry}
    (he : req.entries = [e]) (ha : e.operation = LogEntry.ADD)
    (hput : ((putMessage partitionId e.message).serializeToMessage .empty).isSome) :
    (((appendMessage partitionId req).serializeToMessage .empty).isSome ∧
      ((sendMessage partitionId e.messageId e.message).serializeToMessage .empty).isSome) ↔
      e.message.length + numberSize partitionId + numberSize e.index + numberSize e.term +
        numberSize e.messageId +
        req.numberSizes + 22 ≤ Message.MAX_BODY_LENGTH := by
  have hop : numberSize e.operation = 1 := by
    rw [ha]
    decide
  have hputs := length_around (m := putMessage partitionId e.message) (by decide) (by decide) rfl
  have happends := length_around (m := appendMessage partitionId req) (by decide) (by decide) rfl
  have hsends :=
    length_around (m := sendMessage partitionId e.messageId e.message) (by decide) (by decide) rfl
  rw [FlowProto.serializeToMessage_isSome_iff, hputs, length_clientPutMessage] at hput
  simp only [FlowProto.serializeToMessage_isSome_iff, happends, hsends]
  have hentry := length_entry e
  have happend := length_appendEntriesRequest he
  have hsend := length_serverSendMessage e.messageId e.message
  have hnumbers := req.numberSizes_le
  have h₁ := numberSize_le partitionId
  have h₂ := numberSize_le e.index
  have h₃ := numberSize_le e.term
  have h₄ := numberSize_le e.messageId
  have hm := lengthSize_le e.message
  generalize LogEntry.schema.serialize e = entry at hentry happend
  generalize AppendEntriesRequest.schema.serialize req = append at happend ⊢
  generalize ServerSendMessage.schema.serialize ⟨e.messageId, e.message⟩ = send at hsend ⊢
  unfold Message.MAX_BODY_LENGTH at hput ⊢
  by_cases hshort : e.message.length < 128
  · -- a short message fits whatever the numbers are
    have := lengthSize_le entry
    have := lengthSize_le append
    have := lengthSize_le send
    refine iff_of_true ⟨?_, ?_⟩ ?_ <;> omega
  · -- the lengths of all that contains the message take two bytes
    rw [lengthSize_of_le (by omega) (by omega)] at hentry hsend
    have hentry₂ := lengthSize_of_le (b := entry) (by omega) (by omega)
    have happend₂ := lengthSize_of_le (b := append) (by omega) (by omega)
    have hsend₂ := lengthSize_of_le (b := send) (by omega) (by omega)
    omega

def leaderOfTermOne : Process :=
  { Process.construct 0 0 3 [] ⟨0, 0⟩ [] 0 with state := .leader, curTerm := 1 }

def putEntry (message : Bytes) : LogEntry := ⟨1, 1, 7, LogEntry.ADD, message⟩

def putRequest (message : Bytes) : AppendEntriesRequest := ⟨1, 0, 0, 0, [putEntry message], 0⟩

theorem accepted_fits_short :
    ((appendMessage 0 (putRequest (toBytes "a"))).serializeToMessage .empty).isSome ∧
    ((sendMessage 0 7 (toBytes "a")).serializeToMessage .empty).isSome :=
  (accepted_fits_iff 0 (e := putEntry (toBytes "a")) rfl rfl (by decide +kernel)).mpr (by decide +kernel)

/-- A payload of 985 bytes fits into the client's message; the leader takes it and cannot send
it to a follower. -/
theorem not_fits_longPayload : ∃ message : Bytes, ((putMessage 0 message).serializeToMessage .empty).isSome ∧
    .writeMessage 1 (.appendEntriesRequest (putRequest message)) ∈
      (leaderOfTermOne.clientPutMessage 7 message).out ∧
    (appendMessage 0 (putRequest message)).serializeToMessage .empty = none :=
  ⟨List.replicate 985 97, by decide +kernel, by decide +kernel, by
    rw [← Option.not_isSome_iff_eq_none]
    decide +kernel⟩

end FlowMQ
