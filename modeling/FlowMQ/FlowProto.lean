import FlowMQ.FrameStream
import FlowMQ.Storage

/-!
# The protocol buffer types

`flow_message.proto` line by line, and `RaftMessage`, which loads one submessage
into a `FlowMessage` and writes it into the buffer of a frame. Whichever fields
are set, the receiver of the frame reads the same message.
-/

namespace FlowMQ

open Wire

/-! ## `flow_message.proto` -/

inductive FlowMessageType where
  | requestVoteRequest
  | requestVoteResponse
  | appendEntriesRequest
  | appendEntriesResponse
  | clientPutMessage
  | clientCommitMessage
  | serverSendMessage
  | clientOpenQueue
  | consumerDisconnected
  | clientPutMessageResponse
  | clientOpenQueueResponse
  | unknown
  deriving DecidableEq, Repr

namespace FlowMessageType

def number : FlowMessageType → Nat
  | requestVoteRequest => 0
  | requestVoteResponse => 1
  | appendEntriesRequest => 2
  | appendEntriesResponse => 3
  | clientPutMessage => 10
  | clientCommitMessage => 11
  | serverSendMessage => 12
  | clientOpenQueue => 13
  | consumerDisconnected => 14
  | clientPutMessageResponse => 15
  | clientOpenQueueResponse => 16
  | unknown => 99

def ofNumber : Int → Option FlowMessageType
  | 0 => some requestVoteRequest
  | 1 => some requestVoteResponse
  | 2 => some appendEntriesRequest
  | 3 => some appendEntriesResponse
  | 10 => some clientPutMessage
  | 11 => some clientCommitMessage
  | 12 => some serverSendMessage
  | 13 => some clientOpenQueue
  | 14 => some consumerDisconnected
  | 15 => some clientPutMessageResponse
  | 16 => some clientOpenQueueResponse
  | 99 => some unknown
  | _ => none

def kind : Kind FlowMessageType := .enumeration requestVoteRequest number ofNumber fun t => by
  cases t <;> decide

theorem reads (t : FlowMessageType) : kind.Reads t := Kind.reads_enumeration (by cases t <;> decide)

end FlowMessageType

namespace Status

def number : Status → Nat
  | success => 0
  | error => 1

def ofNumber : Int → Option Status
  | 0 => some success
  | 1 => some error
  | _ => none

def kind : Kind Status := .enumeration success number ofNumber fun t => by cases t <;> decide

theorem reads (t : Status) : kind.Reads t := Kind.reads_enumeration (by cases t <;> decide)

end Status

structure ClientPutMessage where
  message : Bytes
  messageId : Option Int
  deriving DecidableEq, Repr

structure ClientPutMessageResponse where
  messageId : Int
  status : Status
  errorMessage : Bytes
  deriving DecidableEq, Repr

structure ClientCommitMessage where
  messageId : Int
  deriving DecidableEq, Repr

structure ServerSendMessage where
  messageId : Int
  message : Bytes
  deriving DecidableEq, Repr

structure ClientOpenQueue where
  openMode : Int
  queueName : Bytes
  deriving DecidableEq, Repr

structure ConsumerDisconnected where
  clientId : Int
  deriving DecidableEq, Repr

structure FlowProto where
  type : Option FlowMessageType
  partitionId : Option Int
  requestVoteRequest : Option RequestVoteRequest
  requestVoteResponse : Option RequestVoteResponse
  appendEntriesRequest : Option AppendEntriesRequest
  appendEntriesResponse : Option AppendEntriesResponse
  clientPutMessage : Option ClientPutMessage
  clientCommitMessage : Option ClientCommitMessage
  serverSendMessage : Option ServerSendMessage
  clientOpenQueue : Option ClientOpenQueue
  consumerDisconnected : Option ConsumerDisconnected
  clientOpenQueueResponse : Option ClientOpenQueueResponse
  clientPutMessageResponse : Option ClientPutMessageResponse
  deriving DecidableEq, Repr

def RequestVoteRequest.schema : Schema RequestVoteRequest where
  empty := ⟨0, 0, 0, 0⟩
  slots :=
    [.required 1 .int32 RequestVoteRequest.term fun m z => { m with term := z },
      .required 2 .int32 RequestVoteRequest.candidateId fun m z => { m with candidateId := z },
      .required 3 .int32 RequestVoteRequest.lastLogIndex fun m z => { m with lastLogIndex := z },
      .required 4 .int32 RequestVoteRequest.lastLogTerm fun m z => { m with lastLogTerm := z }]
  small := by decide
  distinct := by decide

def RequestVoteResponse.schema : Schema RequestVoteResponse where
  empty := ⟨0, 0⟩
  slots :=
    [.required 1 .int32 RequestVoteResponse.term fun m z => { m with term := z },
      .required 2 .int32 RequestVoteResponse.voteResultTermGranted fun m z =>
        { m with voteResultTermGranted := z }]
  small := by decide
  distinct := by decide

def AppendEntriesRequest.schema : Schema AppendEntriesRequest where
  empty := ⟨0, 0, 0, 0, [], 0⟩
  slots :=
    [.required 1 .int32 AppendEntriesRequest.term fun m z => { m with term := z },
      .required 2 .int32 AppendEntriesRequest.leaderId fun m z => { m with leaderId := z },
      .required 3 .int32 AppendEntriesRequest.prevLogIndex fun m z => { m with prevLogIndex := z },
      .required 4 .int32 AppendEntriesRequest.prevLogTerm fun m z => { m with prevLogTerm := z },
      .repeated 5 (.message LogEntry.schema) AppendEntriesRequest.entries fun m l => { m with entries := l },
      .required 6 .int32 AppendEntriesRequest.leaderCommit fun m z => { m with leaderCommit := z }]
  small := by decide
  distinct := by decide

def AppendEntriesResponse.schema : Schema AppendEntriesResponse where
  empty := ⟨0, 0, 0, 0⟩
  slots :=
    [.required 1 .int32 AppendEntriesResponse.term fun m z => { m with term := z },
      .required 2 .int32 AppendEntriesResponse.followerId fun m z => { m with followerId := z },
      .required 3 .int32 AppendEntriesResponse.appendResultSuccess fun m z =>
        { m with appendResultSuccess := z },
      .required 4 .int32 AppendEntriesResponse.lastIndexSynced fun m z => { m with lastIndexSynced := z }]
  small := by decide
  distinct := by decide

def ClientPutMessage.schema : Schema ClientPutMessage where
  empty := ⟨[], none⟩
  slots :=
    [.required 1 .string ClientPutMessage.message fun m b => { m with message := b },
      .optional 2 .int64 ClientPutMessage.messageId fun m o => { m with messageId := o }]
  small := by decide
  distinct := by decide

def ClientPutMessageResponse.schema : Schema ClientPutMessageResponse where
  empty := ⟨0, .success, []⟩
  slots :=
    [.required 1 .int64 ClientPutMessageResponse.messageId fun m z => { m with messageId := z },
      .required 2 Status.kind ClientPutMessageResponse.status fun m x => { m with status := x },
      .required 3 .string ClientPutMessageResponse.errorMessage fun m b => { m with errorMessage := b }]
  small := by decide
  distinct := by decide

def ClientCommitMessage.schema : Schema ClientCommitMessage where
  empty := ⟨0⟩
  slots :=
    [.required 1 .int64 ClientCommitMessage.messageId fun m z => { m with messageId := z }]
  small := by decide
  distinct := by decide

def ServerSendMessage.schema : Schema ServerSendMessage where
  empty := ⟨0, []⟩
  slots :=
    [.required 1 .int64 ServerSendMessage.messageId fun m z => { m with messageId := z },
      .required 2 .string ServerSendMessage.message fun m b => { m with message := b }]
  small := by decide
  distinct := by decide

def ClientOpenQueue.schema : Schema ClientOpenQueue where
  empty := ⟨0, []⟩
  slots :=
    [.required 1 .int32 ClientOpenQueue.openMode fun m z => { m with openMode := z },
      .required 2 .string ClientOpenQueue.queueName fun m b => { m with queueName := b }]
  small := by decide
  distinct := by decide

def ClientOpenQueueResponse.schema : Schema ClientOpenQueueResponse where
  empty := ⟨.success, [], none, none⟩
  slots :=
    [.required 1 Status.kind ClientOpenQueueResponse.status fun m x => { m with status := x },
      .required 2 .string ClientOpenQueueResponse.errorMessage fun m b => { m with errorMessage := b },
      .optional 3 .string ClientOpenQueueResponse.leaderIp fun m o => { m with leaderIp := o },
      .optional 4 .string ClientOpenQueueResponse.leaderPort fun m o => { m with leaderPort := o }]
  small := by decide
  distinct := by decide

def ConsumerDisconnected.schema : Schema ConsumerDisconnected where
  empty := ⟨0⟩
  slots :=
    [.required 1 .int32 ConsumerDisconnected.clientId fun m z => { m with clientId := z }]
  small := by decide
  distinct := by decide

def FlowProto.schema : Schema FlowProto where
  empty := ⟨none, none, none, none, none, none, none, none, none, none, none, none, none⟩
  slots :=
    [.optional 1 FlowMessageType.kind FlowProto.type fun m o => { m with type := o },
      .optional 2 .int64 FlowProto.partitionId fun m o => { m with partitionId := o },
      .optional 3 (.message RequestVoteRequest.schema) FlowProto.requestVoteRequest fun m o =>
        { m with requestVoteRequest := o },
      .optional 4 (.message RequestVoteResponse.schema) FlowProto.requestVoteResponse fun m o =>
        { m with requestVoteResponse := o },
      .optional 5 (.message AppendEntriesRequest.schema) FlowProto.appendEntriesRequest fun m o =>
        { m with appendEntriesRequest := o },
      .optional 6 (.message AppendEntriesResponse.schema) FlowProto.appendEntriesResponse fun m o =>
        { m with appendEntriesResponse := o },
      .optional 7 (.message ClientPutMessage.schema) FlowProto.clientPutMessage fun m o =>
        { m with clientPutMessage := o },
      .optional 8 (.message ClientCommitMessage.schema) FlowProto.clientCommitMessage fun m o =>
        { m with clientCommitMessage := o },
      .optional 9 (.message ServerSendMessage.schema) FlowProto.serverSendMessage fun m o =>
        { m with serverSendMessage := o },
      .optional 10 (.message ClientOpenQueue.schema) FlowProto.clientOpenQueue fun m o =>
        { m with clientOpenQueue := o },
      .optional 11 (.message ConsumerDisconnected.schema) FlowProto.consumerDisconnected fun m o =>
        { m with consumerDisconnected := o },
      .optional 12 (.message ClientOpenQueueResponse.schema) FlowProto.clientOpenQueueResponse fun m o =>
        { m with clientOpenQueueResponse := o },
      .optional 13 (.message ClientPutMessageResponse.schema) FlowProto.clientPutMessageResponse fun m o =>
        { m with clientPutMessageResponse := o }]
  small := by decide
  distinct := by decide

/-! ## Reading back what was written -/

section
open Slot Kind

def RequestVoteRequest.Fits (m : RequestVoteRequest) : Prop :=
  Fits32 m.term ∧ Fits32 m.candidateId ∧ Fits32 m.lastLogIndex ∧ Fits32 m.lastLogTerm

instance (m : RequestVoteRequest) : Decidable m.Fits := inferInstanceAs (Decidable (_ ∧ _))

theorem RequestVoteRequest.restores {m : RequestVoteRequest} (h : m.Fits)
    (hlen : (schema.serialize m).length < 2 ^ 64) :
    schema.Restores m := by
  rw [Schema.Restores, Schema.merge_serialize hlen]
  simp only [schema]
  rw [copyAll_required (reads_int32 h.1), copyAll_required (reads_int32 h.2.1),
    copyAll_required (reads_int32 h.2.2.1), copyAll_required (reads_int32 h.2.2.2)] <;> rfl

def RequestVoteResponse.Fits (m : RequestVoteResponse) : Prop :=
  Fits32 m.term ∧ Fits32 m.voteResultTermGranted

instance (m : RequestVoteResponse) : Decidable m.Fits := inferInstanceAs (Decidable (_ ∧ _))

theorem RequestVoteResponse.restores {m : RequestVoteResponse} (h : m.Fits)
    (hlen : (schema.serialize m).length < 2 ^ 64) :
    schema.Restores m := by
  rw [Schema.Restores, Schema.merge_serialize hlen]
  simp only [schema]
  rw [copyAll_required (reads_int32 h.1), copyAll_required (reads_int32 h.2)] <;> rfl

@[mk_iff]
structure AppendEntriesRequest.Fits (m : AppendEntriesRequest) : Prop where
  term : Fits32 m.term
  leaderId : Fits32 m.leaderId
  prevLogIndex : Fits32 m.prevLogIndex
  prevLogTerm : Fits32 m.prevLogTerm
  entries : ∀ e ∈ m.entries, e.Fits
  leaderCommit : Fits32 m.leaderCommit

instance (m : AppendEntriesRequest) : Decidable m.Fits :=
  decidable_of_iff' _ (AppendEntriesRequest.fits_iff m)

theorem AppendEntriesRequest.restores {m : AppendEntriesRequest} (h : m.Fits)
    (hlen : (schema.serialize m).length < 2 ^ 64) : schema.Restores m := by
  have hentry : ∀ e ∈ m.entries, (Kind.message LogEntry.schema).Reads e := fun e he =>
    reads_message (LogEntry.restores (h.entries e he)
      (lt_of_le_of_lt (length_repeated (List.mem_of_getElem? (i := 4) (l := schema.slots) rfl) he) hlen))
  rw [Schema.Restores, Schema.merge_serialize hlen]
  simp only [schema]
  rw [copyAll_required (reads_int32 h.term), copyAll_required (reads_int32 h.leaderId),
    copyAll_required (reads_int32 h.prevLogIndex), copyAll_required (reads_int32 h.prevLogTerm),
    copyAll_repeated hentry (fun _ => rfl) (fun _ _ => rfl) rfl,
    copyAll_required (reads_int32 h.leaderCommit)] <;> rfl

def AppendEntriesResponse.Fits (m : AppendEntriesResponse) : Prop :=
  Fits32 m.term ∧ Fits32 m.followerId ∧ Fits32 m.appendResultSuccess ∧ Fits32 m.lastIndexSynced

instance (m : AppendEntriesResponse) : Decidable m.Fits := inferInstanceAs (Decidable (_ ∧ _))

theorem AppendEntriesResponse.restores {m : AppendEntriesResponse} (h : m.Fits)
    (hlen : (schema.serialize m).length < 2 ^ 64) : schema.Restores m := by
  rw [Schema.Restores, Schema.merge_serialize hlen]
  simp only [schema]
  rw [copyAll_required (reads_int32 h.1), copyAll_required (reads_int32 h.2.1),
    copyAll_required (reads_int32 h.2.2.1), copyAll_required (reads_int32 h.2.2.2)] <;> rfl

def ClientPutMessage.Fits (m : ClientPutMessage) : Prop := ∀ z ∈ m.messageId, Fits64 z

instance (m : ClientPutMessage) : Decidable m.Fits := inferInstanceAs (Decidable (∀ z ∈ m.messageId, _))

theorem ClientPutMessage.restores {m : ClientPutMessage} (h : m.Fits)
    (hlen : (schema.serialize m).length < 2 ^ 64) :
    schema.Restores m := by
  rw [Schema.Restores, Schema.merge_serialize hlen]
  simp only [schema]
  rw [copyAll_required (reads_string m.message), copyAll_optional fun z hz => reads_int64 (h z hz)] <;> rfl

def ClientPutMessageResponse.Fits (m : ClientPutMessageResponse) : Prop := Fits64 m.messageId

instance (m : ClientPutMessageResponse) : Decidable m.Fits := inferInstanceAs (Decidable (Fits64 _))

theorem ClientPutMessageResponse.restores {m : ClientPutMessageResponse} (h : m.Fits)
    (hlen : (schema.serialize m).length < 2 ^ 64) : schema.Restores m := by
  rw [Schema.Restores, Schema.merge_serialize hlen]
  simp only [schema]
  rw [copyAll_required (reads_int64 h), copyAll_required (Status.reads m.status),
    copyAll_required (reads_string m.errorMessage)] <;> rfl

def ClientCommitMessage.Fits (m : ClientCommitMessage) : Prop := Fits64 m.messageId

instance (m : ClientCommitMessage) : Decidable m.Fits := inferInstanceAs (Decidable (Fits64 _))

theorem ClientCommitMessage.restores {m : ClientCommitMessage} (h : m.Fits)
    (hlen : (schema.serialize m).length < 2 ^ 64) :
    schema.Restores m := by
  rw [Schema.Restores, Schema.merge_serialize hlen]
  simp only [schema]
  rw [copyAll_required (reads_int64 h)] <;> rfl

def ServerSendMessage.Fits (m : ServerSendMessage) : Prop := Fits64 m.messageId

instance (m : ServerSendMessage) : Decidable m.Fits := inferInstanceAs (Decidable (Fits64 _))

theorem ServerSendMessage.restores {m : ServerSendMessage} (h : m.Fits)
    (hlen : (schema.serialize m).length < 2 ^ 64) :
    schema.Restores m := by
  rw [Schema.Restores, Schema.merge_serialize hlen]
  simp only [schema]
  rw [copyAll_required (reads_int64 h), copyAll_required (reads_string m.message)] <;> rfl

def ClientOpenQueue.Fits (m : ClientOpenQueue) : Prop := Fits32 m.openMode

instance (m : ClientOpenQueue) : Decidable m.Fits := inferInstanceAs (Decidable (Fits32 _))

theorem ClientOpenQueue.restores {m : ClientOpenQueue} (h : m.Fits)
    (hlen : (schema.serialize m).length < 2 ^ 64) :
    schema.Restores m := by
  rw [Schema.Restores, Schema.merge_serialize hlen]
  simp only [schema]
  rw [copyAll_required (reads_int32 h), copyAll_required (reads_string m.queueName)] <;> rfl

theorem ClientOpenQueueResponse.restores {m : ClientOpenQueueResponse}
    (hlen : (schema.serialize m).length < 2 ^ 64) :
    schema.Restores m := by
  have hip : ∀ b ∈ m.leaderIp, Kind.string.Reads b := fun b _ => reads_string b
  have hport : ∀ b ∈ m.leaderPort, Kind.string.Reads b := fun b _ => reads_string b
  rw [Schema.Restores, Schema.merge_serialize hlen]
  simp only [schema]
  rw [copyAll_required (Status.reads m.status), copyAll_required (reads_string m.errorMessage),
    copyAll_optional hip, copyAll_optional hport] <;> rfl

def ConsumerDisconnected.Fits (m : ConsumerDisconnected) : Prop := Fits32 m.clientId

instance (m : ConsumerDisconnected) : Decidable m.Fits := inferInstanceAs (Decidable (Fits32 _))

theorem ConsumerDisconnected.restores {m : ConsumerDisconnected} (h : m.Fits)
    (hlen : (schema.serialize m).length < 2 ^ 64) :
    schema.Restores m := by
  rw [Schema.Restores, Schema.merge_serialize hlen]
  simp only [schema]
  rw [copyAll_required (reads_int32 h)] <;> rfl

@[mk_iff]
structure FlowProto.Fits (m : FlowProto) : Prop where
  partitionId : ∀ z ∈ m.partitionId, Fits64 z
  requestVoteRequest : ∀ x ∈ m.requestVoteRequest, x.Fits
  requestVoteResponse : ∀ x ∈ m.requestVoteResponse, x.Fits
  appendEntriesRequest : ∀ x ∈ m.appendEntriesRequest, x.Fits
  appendEntriesResponse : ∀ x ∈ m.appendEntriesResponse, x.Fits
  clientPutMessage : ∀ x ∈ m.clientPutMessage, x.Fits
  clientCommitMessage : ∀ x ∈ m.clientCommitMessage, x.Fits
  serverSendMessage : ∀ x ∈ m.serverSendMessage, x.Fits
  clientOpenQueue : ∀ x ∈ m.clientOpenQueue, x.Fits
  consumerDisconnected : ∀ x ∈ m.consumerDisconnected, x.Fits
  clientPutMessageResponse : ∀ x ∈ m.clientPutMessageResponse, x.Fits

instance (m : FlowProto) : Decidable m.Fits := decidable_of_iff' _ (FlowProto.fits_iff m)

theorem FlowProto.restores {m : FlowProto} (h : m.Fits) (hlen : (schema.serialize m).length < 2 ^ 64) :
    schema.Restores m := by
  have hsub : ∀ {number : Nat} {β : Type} {T : Schema β} {get : FlowProto → Option β}
      {set : FlowProto → Option β → FlowProto},
      optional number (.message T) get set ∈ schema.slots → ∀ x ∈ get m, (T.serialize x).length < 2 ^ 64 :=
    fun hs x hx => lt_of_le_of_lt (length_optional hs hx) hlen
  have hslot : ∀ i, ∀ s ∈ schema.slots[i]?, s ∈ schema.slots := fun i s hs => List.mem_of_getElem? hs
  rw [Schema.Restores, Schema.merge_serialize hlen]
  simp only [schema]
  rw [copyAll_optional (a := m) (fun t _ => FlowMessageType.reads t),
    copyAll_optional fun z hz => reads_int64 (h.partitionId z hz),
    copyAll_optional fun x hx => reads_message (RequestVoteRequest.restores (h.requestVoteRequest x hx)
      (hsub (hslot 2 _ rfl) x hx)),
    copyAll_optional fun x hx => reads_message (RequestVoteResponse.restores (h.requestVoteResponse x hx)
      (hsub (hslot 3 _ rfl) x hx)),
    copyAll_optional fun x hx => reads_message (AppendEntriesRequest.restores (h.appendEntriesRequest x hx)
      (hsub (hslot 4 _ rfl) x hx)),
    copyAll_optional fun x hx => reads_message (AppendEntriesResponse.restores (h.appendEntriesResponse x hx)
      (hsub (hslot 5 _ rfl) x hx)),
    copyAll_optional fun x hx => reads_message (ClientPutMessage.restores (h.clientPutMessage x hx)
      (hsub (hslot 6 _ rfl) x hx)),
    copyAll_optional fun x hx => reads_message (ClientCommitMessage.restores (h.clientCommitMessage x hx)
      (hsub (hslot 7 _ rfl) x hx)),
    copyAll_optional fun x hx => reads_message (ServerSendMessage.restores (h.serverSendMessage x hx)
      (hsub (hslot 8 _ rfl) x hx)),
    copyAll_optional fun x hx => reads_message (ClientOpenQueue.restores (h.clientOpenQueue x hx)
      (hsub (hslot 9 _ rfl) x hx)),
    copyAll_optional fun x hx => reads_message (ConsumerDisconnected.restores (h.consumerDisconnected x hx)
      (hsub (hslot 10 _ rfl) x hx)),
    copyAll_optional (a := m) fun x hx =>
      reads_message (ClientOpenQueueResponse.restores (hsub (hslot 11 _ rfl) x hx)),
    copyAll_optional fun x hx =>
      reads_message (ClientPutMessageResponse.restores (h.clientPutMessageResponse x hx)
      (hsub (hslot 12 _ rfl) x hx))] <;> rfl

end

/-! ## `RaftMessage` -/

namespace FlowProto

def empty : FlowProto := schema.empty

def loadVoteRequest (req : RequestVoteRequest) (m : FlowProto) : FlowProto :=
  { m with type := some .requestVoteRequest, requestVoteRequest := some req }

def loadVoteResult (resp : RequestVoteResponse) (m : FlowProto) : FlowProto :=
  { m with type := some .requestVoteResponse, requestVoteResponse := some resp }

def loadAppendEntriesRequest (req : AppendEntriesRequest) (m : FlowProto) : FlowProto :=
  { m with type := some .appendEntriesRequest, appendEntriesRequest := some req }

def loadAppendEntriesResponse (resp : AppendEntriesResponse) (m : FlowProto) : FlowProto :=
  { m with type := some .appendEntriesResponse, appendEntriesResponse := some resp }

def loadClientPutMessageRequest (put : ClientPutMessage) (m : FlowProto) : FlowProto :=
  { m with type := some .clientPutMessage, clientPutMessage := some put }

def loadClientCommitMessageRequest (commit : ClientCommitMessage) (m : FlowProto) : FlowProto :=
  { m with type := some .clientCommitMessage, clientCommitMessage := some commit }

def loadClientOpenQueueRequest (opening : ClientOpenQueue) (m : FlowProto) : FlowProto :=
  { m with type := some .clientOpenQueue, clientOpenQueue := some opening }

def loadClientOpenQueueResponse (response : ClientOpenQueueResponse) (m : FlowProto) : FlowProto :=
  { m with type := some .clientOpenQueueResponse, clientOpenQueueResponse := some response }

def loadServerSendMessageRequest (send : ServerSendMessage) (m : FlowProto) : FlowProto :=
  { m with type := some .serverSendMessage, serverSendMessage := some send }

def setPartitionId (partitionId : Int) (m : FlowProto) : FlowProto :=
  { m with partitionId := some partitionId }

/-- `type()`, which is the first of the enumeration where the field is not set. -/
def messageType (m : FlowProto) : FlowMessageType := m.type.getD .requestVoteRequest

def partition (m : FlowProto) : Int := m.partitionId.getD 0

def serialize (m : FlowProto) : Bytes := schema.serialize m

/-- `serialize_to_message`, or `none` where an assertion of `set_body_length` fails. -/
def serializeToMessage (m : FlowProto) (msg : Message) : Option Message :=
  (msg.setBodyLength m.serialize.length).map (Message.writeBody m.serialize)

theorem serializeToMessage_isSome_iff (m : FlowProto) (msg : Message) :
    (m.serializeToMessage msg).isSome ↔ m.serialize.length ≤ Message.MAX_BODY_LENGTH := by
  rw [serializeToMessage, Option.isSome_map, Message.setBodyLength_isSome_iff]
  omega

/-- The result of `ParseFromArray` is not looked at. -/
def deserialize (body : Bytes) : FlowProto := schema.parse body

def deserializeFromMessage (msg : Message) : FlowProto := deserialize msg.body

section
variable {m : FlowProto}

theorem fits_empty : empty.Fits := by decide

theorem Fits.setPartitionId (h : m.Fits) {partitionId : Int} (hp : Fits64 partitionId) :
    (m.setPartitionId partitionId).Fits :=
  { h with partitionId := fun _ hz => Option.some.inj hz ▸ hp }

theorem Fits.loadVoteRequest (h : m.Fits) {req : RequestVoteRequest} (hr : req.Fits) :
    (m.loadVoteRequest req).Fits :=
  { h with requestVoteRequest := fun _ hz => Option.some.inj hz ▸ hr }

theorem Fits.loadVoteResult (h : m.Fits) {resp : RequestVoteResponse} (hr : resp.Fits) :
    (m.loadVoteResult resp).Fits :=
  { h with requestVoteResponse := fun _ hz => Option.some.inj hz ▸ hr }

theorem Fits.loadAppendEntriesRequest (h : m.Fits) {req : AppendEntriesRequest} (hr : req.Fits) :
    (m.loadAppendEntriesRequest req).Fits :=
  { h with appendEntriesRequest := fun _ hz => Option.some.inj hz ▸ hr }

theorem Fits.loadAppendEntriesResponse (h : m.Fits) {resp : AppendEntriesResponse} (hr : resp.Fits) :
    (m.loadAppendEntriesResponse resp).Fits :=
  { h with appendEntriesResponse := fun _ hz => Option.some.inj hz ▸ hr }

theorem Fits.loadClientPutMessageRequest (h : m.Fits) {put : ClientPutMessage} (hr : put.Fits) :
    (m.loadClientPutMessageRequest put).Fits :=
  { h with clientPutMessage := fun _ hz => Option.some.inj hz ▸ hr }

theorem Fits.loadClientCommitMessageRequest (h : m.Fits) {commit : ClientCommitMessage} (hr : commit.Fits) :
    (m.loadClientCommitMessageRequest commit).Fits :=
  { h with clientCommitMessage := fun _ hz => Option.some.inj hz ▸ hr }

theorem Fits.loadClientOpenQueueRequest (h : m.Fits) {opening : ClientOpenQueue} (hr : opening.Fits) :
    (m.loadClientOpenQueueRequest opening).Fits :=
  { h with clientOpenQueue := fun _ hz => Option.some.inj hz ▸ hr }

end

theorem deserialize_serialize {m : FlowProto} (h : m.Fits)
    (hlen : m.serialize.length ≤ Message.MAX_BODY_LENGTH) :
    deserialize m.serialize = m :=
  (restores h (lt_of_le_of_lt hlen (by decide))).parse

structure ClientFits (size : Nat) (m : FlowProto) : Prop where
  put : ∀ x ∈ m.clientPutMessage, x.message.length ≤ size
  commit : ∀ x ∈ m.clientCommitMessage, x.Fits

theorem length_mergePut {x : ClientPutMessage} {text : Bytes} {size : Nat} (hx : x.message.length ≤ size)
    (htext : text.length ≤ size) : (ClientPutMessage.schema.merge x text).1.message.length ≤ size := by
  refine Schema.merge_induct (P := fun x : ClientPutMessage => x.message.length ≤ size) hx
    fun s hs x i hx hi => ?_
  simp only [ClientPutMessage.schema, List.mem_cons, List.not_mem_nil, or_false] at hs
  rcases hs with rfl | rfl
  · refine Slot.read_required (P := fun x : ClientPutMessage => x.message.length ≤ size) hx fun b ok hb => ?_
    cases i with
    | value v =>
      cases v with
      | varint n => cases hb
      | bytes b' =>
        cases hb
        exact hi.trans htext
    | cut b' =>
      cases hb
      exact hi.trans htext
  · exact Slot.read_optional (P := fun x : ClientPutMessage => x.message.length ≤ size) hx fun _ _ _ => hx

theorem fits_mergeCommit {x : ClientCommitMessage} {text : Bytes} (hx : x.Fits) :
    (ClientCommitMessage.schema.merge x text).1.Fits := by
  refine Schema.merge_induct (P := ClientCommitMessage.Fits) hx fun s hs x i hx _ => ?_
  simp only [ClientCommitMessage.schema, List.mem_cons, List.not_mem_nil, or_false] at hs
  subst hs
  refine Slot.read_required (P := ClientCommitMessage.Fits) hx fun z ok hz => ?_
  cases i with
  | value v =>
    cases v with
    | varint n =>
      cases hz
      exact fits64_toInt n
    | bytes b => cases hz
  | cut b => cases hz

theorem merge_message {β : Type} {S : Schema β} {old x : β} {i : Item} {ok : Bool}
    (h : (Kind.message S).merge old i = some (x, ok)) :
    ∃ text : Bytes, text.length ≤ i.size ∧ x = (S.merge old text).1 := by
  cases i with
  | value v =>
    cases v with
    | varint n => cases h
    | bytes text => exact ⟨text, le_rfl, (congrArg Prod.fst (Option.some.inj h)).symm⟩
  | cut text => exact ⟨text, le_rfl, (congrArg Prod.fst (Option.some.inj h)).symm⟩

theorem clientFits_deserialize (body : Bytes) : (deserialize body).ClientFits body.length := by
  refine Schema.merge_induct (P := ClientFits body.length) ⟨nofun, nofun⟩ fun s hs m i hm hi => ?_
  simp only [schema, List.mem_cons, List.not_mem_nil, or_false] at hs
  rcases hs with rfl | rfl | rfl | rfl | rfl | rfl | rfl | rfl | rfl | rfl | rfl | rfl | rfl
  case inr.inr.inr.inr.inr.inr.inl =>
    refine Slot.read_optional hm fun x ok hx => ⟨fun y hy => ?_, hm.commit⟩
    cases hy
    obtain ⟨text, htext, rfl⟩ := merge_message hx
    refine length_mergePut ?_ (htext.trans hi)
    cases hput : m.clientPutMessage with
    | none => exact Nat.zero_le _
    | some x => exact hm.put x hput
  case inr.inr.inr.inr.inr.inr.inr.inl =>
    refine Slot.read_optional hm fun x ok hx => ⟨hm.put, fun y hy => ?_⟩
    cases hy
    obtain ⟨text, -, rfl⟩ := merge_message hx
    apply fits_mergeCommit
    cases hcommit : m.clientCommitMessage with
    | none => decide
    | some x => exact hm.commit x hcommit
  -- the other fields are not looked at
  all_goals exact Slot.read_optional hm fun _ _ _ => ⟨hm.put, hm.commit⟩

theorem made_of_serializeToMessage {m : FlowProto} {buffer msg : Message}
    (h : m.serializeToMessage buffer = some msg) :
    Message.Made m.serialize msg := ⟨buffer, h⟩

/-- Whatever the buffer held, the message it holds afterwards is read as the one that was written, and only
the size of a message keeps it from being written. -/
theorem deserialize_serializeToMessage {m : FlowProto} (h : m.Fits) (buffer : Message) :
    (∀ msg ∈ m.serializeToMessage buffer, deserializeFromMessage msg = m) ∧
      ((m.serializeToMessage buffer).isSome ↔ m.serialize.length ≤ Message.MAX_BODY_LENGTH) := by
  refine ⟨fun msg hmsg => ?_, serializeToMessage_isSome_iff m buffer⟩
  have hmade := made_of_serializeToMessage hmsg
  rw [deserializeFromMessage, hmade.body_eq, deserialize_serialize h hmade.length]

def crowded : FlowProto :=
  ((empty.loadClientOpenQueueResponse ⟨.error, toBytes "Node is not leader.", some (toBytes "a"),
    some []⟩).loadAppendEntriesRequest
    ⟨3, 0, -1, 2, [⟨1, 2, -7, LogEntry.ADD, toBytes "a"⟩, ⟨2, 3, 7, LogEntry.COMMIT, []⟩], 1⟩).setPartitionId (-1)

theorem crowded_fits : crowded.Fits := by decide +kernel

theorem deserialize_crowded :
    ∃ msg, crowded.serializeToMessage .empty = some msg ∧ deserializeFromMessage msg = crowded := by
  obtain ⟨hread, hsize⟩ := deserialize_serializeToMessage crowded_fits .empty
  obtain ⟨msg, hmsg⟩ := Option.isSome_iff_exists.mp (hsize.mpr (by decide +kernel))
  exact ⟨msg, hmsg, hread msg hmsg⟩

end FlowProto

/-! ## The messages of a node -/

/-- The object a message is loaded into; the client leaves the optional message id unset. -/
def RaftMessage.load (opening : ClientOpenQueue) : RaftMessage → FlowProto
  | .requestVoteRequest req => FlowProto.empty.loadVoteRequest req
  | .requestVoteResponse resp => FlowProto.empty.loadVoteResult resp
  | .appendEntriesRequest req => FlowProto.empty.loadAppendEntriesRequest req
  | .appendEntriesResponse resp => FlowProto.empty.loadAppendEntriesResponse resp
  | .clientPutMessage message => FlowProto.empty.loadClientPutMessageRequest ⟨message, none⟩
  | .clientCommitMessage messageId => FlowProto.empty.loadClientCommitMessageRequest ⟨messageId⟩
  | .clientOpenQueue => FlowProto.empty.loadClientOpenQueueRequest opening
  | .clientOpenQueueResponse resp => FlowProto.empty.loadClientOpenQueueResponse resp
  | .serverSendMessage messageId message => FlowProto.empty.loadServerSendMessageRequest ⟨messageId, message⟩

/-- What `local_message_handler` goes by: the type and the submessage of that type, or its
default instance. -/
def FlowProto.raftMessage (m : FlowProto) : Option RaftMessage :=
  match m.messageType with
  | .requestVoteRequest =>
    some (.requestVoteRequest (m.requestVoteRequest.getD RequestVoteRequest.schema.empty))
  | .requestVoteResponse =>
    some (.requestVoteResponse (m.requestVoteResponse.getD RequestVoteResponse.schema.empty))
  | .appendEntriesRequest =>
    some (.appendEntriesRequest (m.appendEntriesRequest.getD AppendEntriesRequest.schema.empty))
  | .appendEntriesResponse =>
    some (.appendEntriesResponse (m.appendEntriesResponse.getD AppendEntriesResponse.schema.empty))
  | .clientPutMessage =>
    some (.clientPutMessage (m.clientPutMessage.getD ClientPutMessage.schema.empty).message)
  | .clientCommitMessage =>
    some (.clientCommitMessage (m.clientCommitMessage.getD ClientCommitMessage.schema.empty).messageId)
  | .clientOpenQueue => some .clientOpenQueue
  | .clientOpenQueueResponse =>
    some (.clientOpenQueueResponse (m.clientOpenQueueResponse.getD ClientOpenQueueResponse.schema.empty))
  | .serverSendMessage =>
    let send := m.serverSendMessage.getD ServerSendMessage.schema.empty
    some (.serverSendMessage send.messageId send.message)
  | .consumerDisconnected | .clientPutMessageResponse | .unknown => none

theorem RaftMessage.raftMessage_load (opening : ClientOpenQueue) (partitionId : Int) (msg : RaftMessage) :
    ((msg.load opening).setPartitionId partitionId).raftMessage = some msg := by
  cases msg <;> rfl

end FlowMQ
