import FlowMQ.ClusterNode
import FlowMQ.Lib.Runs

/-!
# The cluster of one partition

`n` processes and the messages in flight between them. A step is a timer, a
client or connection event at one process, the delivery of a message, or its
loss. `Channel` says in which order messages arrive and how often.
-/

namespace FlowMQ

/-- What the links promise: each direction of each pair in order, any order, or
any order with repetitions. Messages may be lost in all three. -/
inductive Channel where
  | fifo
  | unordered
  | duplicating
  deriving DecidableEq, Repr

structure Packet (n : Nat) where
  src : Fin n
  dst : Fin n
  msg : RaftMessage
  deriving DecidableEq

/-- `history` lists the effects of all handlers so far, with the node that ran them. -/
structure Cluster (n : Nat) where
  procs : Fin n → Process
  net : List (Packet n)
  history : List (Fin n × Effect)

/-- What a process handles besides messages of other nodes. The last four are
the client manager's own events; `deliverOther` is a delivery for another
partition of the process. -/
inductive Input where
  | voteTimer (now : Int)
  | voteRequestTimer
  | heartbeatTimer
  | clientPutMessage (randomId : Int) (message : Bytes)
  | clientCommitMessage (messageId : Int)
  | clientOpenQueue
  | consumerDisconnected (clientId : Int)
  | acceptNewConnection (id : Int)
  | registerConsumer (partitionId clientId : Int)
  | removeSession (id : Int)
  | deliverOther (partitionId : Int)

def Process.handle (p : Process) : Input → Process
  | .voteTimer now => p.voteTimer now
  | .voteRequestTimer => p.voteRequestTimer
  | .heartbeatTimer => p.heartbeatTimer
  | .clientPutMessage randomId message => p.localMessageHandler 0 randomId (.clientPutMessage message)
  | .clientCommitMessage messageId => p.localMessageHandler 0 0 (.clientCommitMessage messageId)
  | .clientOpenQueue => p.localMessageHandler 0 0 .clientOpenQueue
  | .consumerDisconnected clientId => p.consumerDisconnected clientId
  | .acceptNewConnection id => { p with clients := p.clients.acceptNewConnection id }
  | .registerConsumer partitionId clientId =>
    { p with clients := p.clients.registerConsumer partitionId clientId }
  | .removeSession id => { p with clients := p.clients.removeSession id }
  | .deliverOther partitionId =>
    { p with clients := (p.clients.deliverOneMessageRoundRobin partitionId).manager }

def Process.clear (p : Process) : Process := { p with out := [] }

def Process.enabled (p : Process) : Input → Bool
  | .voteRequestTimer => 0 < p.voteRequestTimers
  | _ => true

inductive Event (n : Nat) where
  | input (i : Fin n) (inp : Input)
  | deliver (k : Nat) (now : Int)
  | redeliver (k : Nat) (now : Int)
  | lose (k : Nat)
  deriving Inhabited

/-- The packets an effect of node `i` puts on the links. Only other nodes are endpoints. -/
def packets {n : Nat} (i : Fin n) : Effect → List (Packet n)
  | .writeMessage endpointId msg =>
    ((List.finRange n).filter fun j => (j.val : Int) = endpointId ∧ j ≠ i).map fun j => ⟨i, j, msg⟩
  | .broadCast msg => ((List.finRange n).filter fun j => j ≠ i).map fun j => ⟨i, j, msg⟩
  | _ => []

namespace Cluster

variable {n : Nat}

def act (s : Cluster n) (i : Fin n) (f : Process → Process) (net : List (Packet n)) : Cluster n :=
  let p := f (s.procs i).clear
  { procs := Function.update s.procs i p
    net := net ++ p.out.flatMap (packets i)
    history := s.history ++ p.out.map fun e => (i, e) }

def inOrder (net : List (Packet n)) (k : Nat) (pk : Packet n) : Bool :=
  (net.take k).all fun q => !(q.src = pk.src && q.dst = pk.dst)

def step (c : Channel) (s : Cluster n) : Event n → Option (Cluster n)
  | .input i inp => if (s.procs i).enabled inp then some (s.act i (·.handle inp) s.net) else none
  | .deliver k now =>
    match s.net[k]? with
    | none => none
    | some pk =>
      if c = .fifo ∧ inOrder s.net k pk = false then none
      else some (s.act pk.dst (·.localMessageHandler now 0 pk.msg) (s.net.eraseIdx k))
  | .redeliver k now =>
    match s.net[k]? with
    | none => none
    | some pk =>
      if c = .duplicating then some (s.act pk.dst (·.localMessageHandler now 0 pk.msg) s.net) else none
  | .lose k => if k < s.net.length then some { s with net := s.net.eraseIdx k } else none

def init (n : Nat) (partitionId : Int) (serverNodes : List ServerNode) (garbage : Fin n → Process.Garbage) :
    Cluster n :=
  { procs := fun i => Process.construct partitionId i.val n serverNodes (garbage i) [] 0, net := [], history := [] }

def Starts (s : Cluster n) : Prop :=
  ∃ partitionId serverNodes garbage, s = init n partitionId serverNodes garbage

/-- `n` nodes of partition 0 whose uninitialised members happen to be 0. -/
def fresh (n : Nat) : Cluster n := init n 0 [] fun _ => ⟨0, 0⟩

-- for the numbers of the nodes in clusters of three
instance neZero_three : NeZero 3 := ⟨by decide⟩

/-- Node 0 is elected for term 1 by node 1. Its vote request to node 2 stays in flight. -/
def electZero : List (Event 3) :=
  [.input 0 (.voteTimer 1), .input 0 .voteRequestTimer, .deliver 0 1, .deliver 1 1]

/-- Node 0 replicates a message to node 1 and commits it on the response. -/
def committedPut : List (Event 3) :=
  electZero ++ [.input 0 (.clientPutMessage 7 (toBytes "a")), .deliver 1 2, .deliver 2 3]

/-- Node 1 has an entry of leader 0 when node 2, which does not, is elected for
term 2 and hears from node 1 that its heartbeat succeeded up to that entry. -/
def tailReply : List (Event 3) :=
  electZero ++ [.input 0 (.clientPutMessage 7 (toBytes "a")), .deliver 1 2, .input 2 (.voteTimer 2),
    .input 2 (.voteTimer 3), .input 2 .voteRequestTimer, .deliver 4 4, .deliver 4 5, .input 2 .heartbeatTimer,
    .deliver 5 6, .deliver 5 7]

def Steps (c : Channel) (G : Cluster n → Event n → Prop) : Cluster n → Cluster n → Prop :=
  Relation.ReflTransGen (Runs.Next (step c) G)

def Reachable (c : Channel) (G : Cluster n → Event n → Prop) (s : Cluster n) : Prop :=
  ∃ s₀, Starts s₀ ∧ Steps c G s₀ s

abbrev Execution (n : Nat) (c : Channel) := Runs.Run (Starts (n := n)) (step c)

def Free : Cluster n → Event n → Prop := fun _ _ => True

instance (s : Cluster n) (e : Event n) : Decidable (Free s e) := inferInstanceAs (Decidable True)

def onMessage (g : RaftState → RaftMessage → Prop) (s : Cluster n) : Event n → Prop
  | .deliver k _ => ∀ pk ∈ s.net[k]?, g (s.procs pk.dst).toRaftState pk.msg
  | .redeliver k _ => ∀ pk ∈ s.net[k]?, g (s.procs pk.dst).toRaftState pk.msg
  | _ => True

instance (g : RaftState → RaftMessage → Prop) [∀ r m, Decidable (g r m)] (s : Cluster n) :
    (e : Event n) → Decidable (onMessage g s e)
  | .deliver k _ => inferInstanceAs (Decidable (∀ pk ∈ s.net[k]?, g (s.procs pk.dst).toRaftState pk.msg))
  | .redeliver k _ => inferInstanceAs (Decidable (∀ pk ∈ s.net[k]?, g (s.procs pk.dst).toRaftState pk.msg))
  | .input _ _ => inferInstanceAs (Decidable True)
  | .lose _ => inferInstanceAs (Decidable True)

end Cluster

/-! ## Conditions on one kind of message -/

section
variable {p : RaftState → AppendEntriesRequest → Prop} {p' : RaftState → AppendEntriesResponse → Prop}
  {v : RaftState → RequestVoteRequest → Prop} {v' : RaftState → RequestVoteResponse → Prop}

def onAppendRequest (p : RaftState → AppendEntriesRequest → Prop) (r : RaftState) (m : RaftMessage) : Prop :=
  match m with
  | .appendEntriesRequest q => p r q
  | _ => True

def onAppendResponse (p : RaftState → AppendEntriesResponse → Prop) (r : RaftState) (m : RaftMessage) :
    Prop :=
  match m with
  | .appendEntriesResponse q => p r q
  | _ => True

def onVoteRequest (v : RaftState → RequestVoteRequest → Prop) (r : RaftState) (m : RaftMessage) : Prop :=
  match m with
  | .requestVoteRequest q => v r q
  | _ => True

def onVoteResponse (v : RaftState → RequestVoteResponse → Prop) (r : RaftState) (m : RaftMessage) : Prop :=
  match m with
  | .requestVoteResponse q => v r q
  | _ => True

instance [∀ r q, Decidable (p r q)] (r : RaftState) (m : RaftMessage) :
    Decidable (onAppendRequest p r m) := by
  unfold onAppendRequest
  split <;> infer_instance

instance [∀ r q, Decidable (p' r q)] (r : RaftState) (m : RaftMessage) :
    Decidable (onAppendResponse p' r m) := by
  unfold onAppendResponse
  split <;> infer_instance

instance [∀ r q, Decidable (v r q)] (r : RaftState) (m : RaftMessage) : Decidable (onVoteRequest v r m) := by
  unfold onVoteRequest
  split <;> infer_instance

instance [∀ r q, Decidable (v' r q)] (r : RaftState) (m : RaftMessage) :
    Decidable (onVoteResponse v' r m) := by
  unfold onVoteResponse
  split <;> infer_instance

end

end FlowMQ
