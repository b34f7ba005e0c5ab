import FlowMQ.Numbers

/-!
# Servers with several partitions

`RunServer` gives every server one node of each partition. The nodes of a server
share its connections to the other servers and its client manager. A message
carries its partition only as a number inside the frame, and `ClusterMaster` goes
by it. Seen from one partition such a system is a cluster of that partition alone.

A frame of a server counts as in flight until the handler that is posted for it
runs. What a client sends goes through the client manager first, which registers
consumers, so here the posted handlers are a part of the state.
-/

namespace FlowMQ

open Std

/-- `nodes_`, with what its nodes reach through `ClusterMaster`. -/
structure ClusterMaster where
  nodes : ExtTreeMap Int ClusterNode compare
  clientManager : ClientManager
  serverNodes : List ServerNode

structure Frame (n : Nat) where
  src : Fin n
  dst : Fin n
  body : Bytes
  deriving DecidableEq

/-- `posted` has the messages of clients that wait for the thread of their node. -/
structure Servers (n : Nat) where
  masters : Fin n → ClusterMaster
  net : List (Frame n)
  posted : List (Fin n × Bytes)
  history : List (Fin n × Int × Effect)

inductive Callback where
  | voteTimer (now : Int)
  | voteRequestTimer
  | heartbeatTimer
  | consumerDisconnected (clientId : Int)

def Callback.input : Callback → Input
  | voteTimer now => .voteTimer now
  | voteRequestTimer => .voteRequestTimer
  | heartbeatTimer => .heartbeatTimer
  | consumerDisconnected clientId => .consumerDisconnected clientId

inductive ServersEvent (n : Nat) where
  | callback (i : Fin n) (partitionId : Int) (cb : Callback)
  | deliver (k : Nat) (now : Int)
  | lose (k : Nat)
  | clientMessage (i : Fin n) (clientId : Int) (body : Bytes)
  | runPosted (k : Nat) (randomId : Int)
  | acceptNewConnection (i : Fin n) (id : Int)
  | removeSession (i : Fin n) (id : Int)

instance (n : Nat) : Inhabited (ServersEvent n) := ⟨.lose 0⟩

/-- `serialize_raft_message`; nodes do not open queues. -/
def serializeRaftMessage (partitionId : Int) (msg : RaftMessage) : Bytes :=
  ((msg.load ⟨0, []⟩).setPartitionId partitionId).serialize

def Effect.message : Effect → Option RaftMessage
  | .writeMessage _ msg => some msg
  | .broadCast msg => some msg
  | .writeClient _ _ msg => some msg
  | _ => none

/-- The assertion of `set_body_length`. -/
def Effect.FitsFrame (partitionId : Int) (e : Effect) : Prop :=
  ∀ msg ∈ e.message, (serializeRaftMessage partitionId msg).length ≤ Message.MAX_BODY_LENGTH

instance (partitionId : Int) (e : Effect) : Decidable (e.FitsFrame partitionId) :=
  inferInstanceAs (Decidable (∀ msg ∈ e.message, _))

def Packet.frame {n : Nat} (partitionId : Int) (pk : Packet n) : Frame n :=
  ⟨pk.src, pk.dst, serializeRaftMessage partitionId pk.msg⟩

def ClusterMaster.process (m : ClusterMaster) (node : ClusterNode) : Process :=
  { node with clients := m.clientManager, serverNodes := m.serverNodes, out := [] }

namespace Servers

variable {n : Nat}

/-- The node of a partition of server `i` runs `f` while `net` is in flight. Without such a node, or with a
message that is too long, an assertion fails. -/
def act (s : Servers n) (i : Fin n) (partitionId : Int) (f : Process → Process) (net : List (Frame n)) :
    Option (Servers n) :=
  match (s.masters i).nodes[partitionId]? with
  | none => none
  | some node =>
    let p := f ((s.masters i).process node)
    if ∀ e ∈ p.out, e.FitsFrame partitionId then
      some
        { s with
          masters := Function.update s.masters i
            { s.masters i with
              nodes := (s.masters i).nodes.insert partitionId p.toClusterNode, clientManager := p.clients }
          net := net ++ (p.out.flatMap (packets i)).map (Packet.frame partitionId)
          history := s.history ++ p.out.map fun e => (i, partitionId, e) }
    else none

/-- `ClusterMaster::message_handler` and the handler that it posts, which ignores messages of the
other types. -/
def messageHandler (s : Servers n) (i : Fin n) (m : FlowProto) (now randomId : Int) (net : List (Frame n)) :
    Option (Servers n) :=
  match m.raftMessage with
  | some msg => s.act i m.partition (·.localMessageHandler now randomId msg) net
  | none => s.act i m.partition id net

def setClients (s : Servers n) (i : Fin n) (clients : ClientManager) : Servers n :=
  { s with masters := Function.update s.masters i { s.masters i with clientManager := clients } }

/-- `ClusterMaster::message_handler` for a client, or `none` where its assertion fails. -/
def post (s : Servers n) (i : Fin n) (body : Bytes) : Option (Servers n) :=
  if (s.masters i).nodes.contains (FlowProto.deserialize body).partition then
    some { s with posted := s.posted ++ [(i, body)] }
  else none

def handleMessage (s : Servers n) (i : Fin n) (clientId : Int) (body : Bytes) : Option (Servers n) :=
  let m := FlowProto.deserialize body
  match m.messageType with
  | .clientOpenQueue =>
    (s.setClients i ((s.masters i).clientManager.registerConsumer m.partition clientId)).post i body
  | .clientPutMessage | .clientCommitMessage => s.post i body
  | _ => none

/-- A connection keeps the order of its frames, but each is posted to the thread of its partition's node, so
that only those of one partition are handled in that order. -/
def inOrder (net : List (Frame n)) (k : Nat) (fr : Frame n) : Bool :=
  (net.take k).all fun fr' => !(fr'.src = fr.src && fr'.dst = fr.dst &&
    (FlowProto.deserialize fr'.body).partition = (FlowProto.deserialize fr.body).partition)

def postedInOrder (posted : List (Fin n × Bytes)) (k : Nat) (i : Fin n) (partitionId : Int) : Bool :=
  (posted.take k).all fun x => !(x.1 = i && (FlowProto.deserialize x.2).partition = partitionId)

def step (c : Channel) (s : Servers n) : ServersEvent n → Option (Servers n)
  | .callback i partitionId cb =>
    match (s.masters i).nodes[partitionId]? with
    | none => none
    | some node =>
      if ((s.masters i).process node).enabled cb.input then s.act i partitionId (·.handle cb.input) s.net else none
  | .deliver k now =>
    match s.net[k]? with
    | none => none
    | some fr =>
      if c = .fifo ∧ inOrder s.net k fr = false then none
      else s.messageHandler fr.dst (.deserialize fr.body) now 0 (s.net.eraseIdx k)
  | .lose k => if k < s.net.length then some { s with net := s.net.eraseIdx k } else none
  | .clientMessage i clientId body =>
    -- a body comes from the buffer of a frame
    if body.length ≤ Message.MAX_BODY_LENGTH then s.handleMessage i clientId body else none
  | .runPosted k randomId =>
    match s.posted[k]? with
    | none => none
    | some (i, body) =>
      -- `rand_dis_` draws from `int64_t`
      if postedInOrder s.posted k i (FlowProto.deserialize body).partition ∧ Wire.Fits64 randomId then
        messageHandler { s with posted := s.posted.eraseIdx k } i (.deserialize body) 0 randomId s.net
      else none
  | .acceptNewConnection i id => some (s.setClients i ((s.masters i).clientManager.acceptNewConnection id))
  | .removeSession i id => some (s.setClients i ((s.masters i).clientManager.removeSession id))

def init (n : Nat) (partitions : List Int) (serverNodes : List ServerNode)
    (garbage : Fin n → Int → Process.Garbage) :
    Servers n :=
  { masters := fun i =>
      { nodes := partitions.foldl (fun nodes p =>
          nodes.insert p (Process.construct p i.val n serverNodes (garbage i p) [] 0).toClusterNode) ∅
        clientManager := .empty, serverNodes := serverNodes }
    net := [], posted := [], history := [] }

def Starts (partitions : List Int) (s : Servers n) : Prop :=
  partitions.Nodup ∧ (∀ q ∈ partitions, Wire.Fits64 q) ∧ ∃ serverNodes garbage,
    s = init n partitions serverNodes garbage

abbrev Execution (n : Nat) (partitions : List Int) (c : Channel) :=
  Runs.Run (Starts (n := n) partitions) (step c)

end Servers

/-! ## What a handler does to the client manager -/

def Process.shared (p : Process) : ClientManager × List ServerNode := (p.clients, p.serverNodes)

def DeliversFor (partitionId : Int) :
    ClientManager × List ServerNode → ClientManager × List ServerNode → Prop :=
  Relation.ReflTransGen fun m m' => m' = ((m.1.deliverOneMessageRoundRobin partitionId).manager, m.2)

theorem Trans.partitionId {r r' : RaftState} {msg : Option RaftMessage} {l : List Effect}
    (h : Trans r msg r' l) :
    r'.partitionId = r.partitionId := by
  cases h <;> rfl

namespace Process

theorem blind_shared : Blind shared := ⟨fun _ _ => rfl, fun _ _ _ => rfl⟩

section
variable {q : Int} {m : ClientManager × List ServerNode} {p : Process}

theorem deliverToClient_shared (msg : RaftMessage) (hm : p.shared = m) (hp : p.partitionId = q) :
    DeliversFor q m (p.deliverToClient msg).2.shared := by
  subst hp hm
  apply Relation.ReflTransGen.single
  simp only [deliverToClient]
  split <;> rfl

theorem deliverMessages_shared (ids : List Int) (hm : p.shared = m) (hp : p.partitionId = q) :
    DeliversFor q m (p.deliverMessages ids).shared := by
  induction ids generalizing p m with
  | nil => exact hm ▸ .refl
  | cons id ids ih =>
    simp only [deliverMessages]
    have hone := deliverToClient_shared (.serverSendMessage id (p.messageQueue.getMessage id).1)
      (p := { p with messageQueue := (p.messageQueue.getMessage id).2 }) hm hp
    have hraft := deliverToClient_raft (.serverSendMessage id (p.messageQueue.getMessage id).1)
      { p with messageQueue := (p.messageQueue.getMessage id).2 }
    generalize deliverToClient (.serverSendMessage id (p.messageQueue.getMessage id).1)
      { p with messageQueue := (p.messageQueue.getMessage id).2 } = d at hone hraft ⊢
    split
    · exact hone
    · exact hone.trans (ih rfl ((congrArg RaftState.partitionId hraft).trans hp))

theorem triggerMessageDelivery_shared (hm : p.shared = m) (hp : p.partitionId = q) :
    DeliversFor q m p.triggerMessageDelivery.shared := by
  unfold triggerMessageDelivery
  split
  · exact hm ▸ .refl
  · split
    · exact hm ▸ .refl
    · exact deliverMessages_shared _ hm hp

theorem commitLoop_shared : ∀ (k : Nat) (i : Int) (p : Process), (commitLoop k i p).shared = p.shared
  | 0, _, _ => rfl
  | k + 1, i, p => by
    rw [commitLoop, commitLoop_shared k]
    unfold commitLogEntry
    split
    · rfl
    · split <;> rfl

theorem advanceCommit_shared (target stop : Int) (hm : p.shared = m) (hp : p.partitionId = q) :
    DeliversFor q m (p.advanceCommit target stop).shared := by
  simp only [advanceCommit, emit, commitLogEntries]
  refine triggerMessageDelivery_shared ((commitLoop_shared _ _ p).trans hm) ?_
  rw [commitLoop_raft]
  exact hp

theorem appendLogEntries_shared : ∀ (es : List LogEntry) (last : Int) (p : Process),
    (p.appendLogEntries last es).shared = p.shared
  | [], _, _ => rfl
  | e :: es, last, p => by
    rw [appendLogEntries, appendLogEntries_shared es]
    unfold appendLogEntry
    split
    · rfl
    · split <;> rfl

theorem localMessageHandler_shared (now randomId : Int) (msg : RaftMessage) (hp : p.partitionId = q) :
    DeliversFor q p.shared (p.localMessageHandler now randomId msg).shared := by
  have hsame : ∀ {m : ClientManager × List ServerNode}, m = p.shared → DeliversFor q p.shared m :=
    fun h => h ▸ .refl
  cases msg with
  | appendEntriesRequest req =>
    rw [localMessageHandler, blind_shared.appendEntriesRequest]
    split
    · rw [appendLogEntries_shared, updateLeaderCommit]
      split
      · exact advanceCommit_shared _ _ rfl hp
      · exact .refl
    · exact .refl
  | appendEntriesResponse resp =>
    rw [localMessageHandler, blind_shared.appendEntriesResponse]
    split
    · exact advanceCommit_shared _ _ rfl hp
    · exact .refl
  | requestVoteRequest req => exact hsame (blind_shared.requestVoteRequest req p)
  | requestVoteResponse resp => exact hsame (blind_shared.requestVoteResponse resp p)
  | clientPutMessage message => exact hsame (blind_shared.clientPutMessage randomId message p)
  | clientCommitMessage id => exact hsame (blind_shared.clientCommitMessage id p)
  | clientOpenQueue =>
    simp only [localMessageHandler, clientOpenQueue]
    split
    · exact deliverToClient_shared _ rfl hp
    · refine (deliverToClient_shared _ rfl hp).trans (triggerMessageDelivery_shared rfl ?_)
      rw [deliverToClient_raft]
      exact hp
  | _ => exact .refl

theorem callback_shared (cb : Callback) (hp : p.partitionId = q) :
    DeliversFor q p.shared (p.handle cb.input).shared := by
  have hsame : ∀ {m : ClientManager × List ServerNode}, m = p.shared → DeliversFor q p.shared m :=
    fun h => h ▸ .refl
  cases cb with
  | voteTimer now => exact hsame (blind_shared.voteTimer now p)
  | voteRequestTimer => exact hsame (blind_shared.voteRequestTimer (fun _ _ => rfl) p)
  | heartbeatTimer => exact hsame (blind_shared.heartbeatTimer (fun _ _ => rfl) p)
  | consumerDisconnected id =>
    exact triggerMessageDelivery_shared
      (p := { p with messageQueue := (p.messageQueue.handleClientDisconnected id).2 }) rfl hp

end

end Process

end FlowMQ
