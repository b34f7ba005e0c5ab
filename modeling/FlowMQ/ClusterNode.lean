import FlowMQ.MessageQueue
import FlowMQ.ClientManager

/-!
# The cluster node

`ClusterNode` with its timers and message handlers, as state passing. A
`Process` is the node together with what its handlers reach through
`cluster_master_` (the client manager and the server list), and the effects
of the handler that is running, in order.
-/

namespace FlowMQ

open Std

inductive State where
  | leader
  | follower
  | candidate
  deriving DecidableEq, Repr

abbrev IndexMap := ExtTreeMap Int Int compare

/-- The consensus part of `ClusterNode`. `voteRequestTimers` counts the delayed
vote requests that `start_vote_scheduler` has scheduled and that have not fired. -/
structure RaftState where
  partitionId : Int
  nodeId : Int
  totalNodes : Int
  state : State
  curTerm : Int
  curLeader : Int
  lastHeartBeatReceived : Int
  votesCollected : Int
  votedFor : Int
  logEntries : List LogEntry
  commitIndex : Int
  nextIndex : IndexMap
  matchedIndex : IndexMap
  pendingAppendReqs : IndexMap
  voteRequestTimers : Nat

structure ClusterNode extends RaftState where
  messageQueue : MessageQueue

/-- What a handler does to the outside: messages to other nodes and to clients,
calls of `commit_log_entry` (with the entry, when the index is inside the log),
calls of `store_log_entries_and_metadata`, and the positions at which
`append_log_entries` pushes. -/
inductive Effect where
  | writeMessage (endpointId : Int) (msg : RaftMessage)
  | broadCast (msg : RaftMessage)
  | writeClient (clientId : Int) (session : Bool) (msg : RaftMessage)
  | commitLogEntry (entryIndex : Int) (entry : Option LogEntry)
  | storeLogEntriesAndMetadata (entries : List LogEntry) (start stop lastCommitted : Int)
  | pushLogEntry (position : Int) (entry : LogEntry)
  deriving DecidableEq, Repr

structure ServerNode where
  id : Int
  host : Bytes
  clusterPort : Bytes
  clientPort : Bytes

structure Process extends ClusterNode where
  clients : ClientManager
  serverNodes : List ServerNode
  out : List Effect

def HEARTBEAT_EXPIRE_SECONDS : Int := 3

def MAX_PENDING_APPEND : Int := 2

/-- `log_entries_[i]`. A subscript outside the log is undefined in the source; the model reads a
default entry. -/
def entryAt (log : List LogEntry) (i : Int) : LogEntry :=
  if i < 0 then default else log.getD i.toNat default

def backEntry (log : List LogEntry) : LogEntry := log.getLastD default

def checkIfPreviousLogInSync (prevLogTerm prevLogIndex : Int) (log : List LogEntry) : Bool :=
  if (log.length : Int) < prevLogIndex + 1 then false
  else if (entryAt log prevLogIndex).term ≠ prevLogTerm then false
  else true

def cleanLogEntriesOutOfSync (indexToRemove : Int) (log : List LogEntry) : List LogEntry :=
  log.take indexToRemove.toNat

def getAddressForNode (nodeId : Int) (nodes : List ServerNode) : Bytes × Bytes :=
  match nodes.find? fun s => s.id = nodeId with
  | some s => (s.host, s.clientPort)
  | none => ([], [])

namespace Process

def emit (e : Effect) (p : Process) : Process := { p with out := p.out ++ [e] }

/-! ## Delivery to consumers -/

def deliverToClient (msg : RaftMessage) (p : Process) : Int × Process :=
  let d := p.clients.deliverOneMessageRoundRobin p.partitionId
  let p := { p with clients := d.manager }
  match d.written with
  | some (clientId, session) => (d.result, p.emit (.writeClient clientId session msg))
  | none => (d.result, p)

/-- The loop of `trigger_message_delivery` over the ids it took from the queue. -/
def deliverMessages : List Int → Process → Process
  | [], p => p
  | messageId :: ids, p =>
    let (message, q) := p.messageQueue.getMessage messageId
    let (consumerId, p) := { p with messageQueue := q }.deliverToClient (.serverSendMessage messageId message)
    if consumerId = -1 then p
    else deliverMessages ids
      { p with messageQueue := p.messageQueue.deliverMessageToClientId messageId consumerId }

def triggerMessageDelivery (p : Process) : Process :=
  if p.state ≠ .leader then p
  else if !p.clients.hasConsumers then p
  else p.deliverMessages p.messageQueue.getAllUndeliveredMessages

/-! ## Applying log entries -/

def applyEntry (e : LogEntry) (q : MessageQueue) : MessageQueue :=
  if e.operation = LogEntry.ADD then (q.insertMessage e.messageId e.message).2
  else if e.operation = LogEntry.COMMIT then (q.commitMessage e.messageId).2
  else q

def commitLogEntry (entryIndex : Int) (p : Process) : Process :=
  if entryIndex ≤ 0 then p.emit (.commitLogEntry entryIndex none)
  else if (p.logEntries.length : Int) ≤ entryIndex then p.emit (.commitLogEntry entryIndex none)
  else
    let e := entryAt p.logEntries entryIndex
    { p with messageQueue := applyEntry e p.messageQueue }.emit (.commitLogEntry entryIndex (some e))

/-- The loop of `commit_log_entries`, `count` entries from `entryIndex` on. -/
def commitLoop : Nat → Int → Process → Process
  | 0, _, p => p
  | count + 1, entryIndex, p => commitLoop count (entryIndex + 1) (p.commitLogEntry entryIndex)

def commitLogEntries (startEntryIndex stopEntryIndex : Int) (p : Process) : Process :=
  (commitLoop (stopEntryIndex - startEntryIndex).toNat startEntryIndex p).triggerMessageDelivery

/-- Apply the entries before `stop`, move `commit_index_` to `target`, and store
the range that starts at the index just written. -/
def advanceCommit (target stop : Int) (p : Process) : Process :=
  let p := p.commitLogEntries (p.commitIndex + 1) stop
  let p := { p with commitIndex := target }
  p.emit (.storeLogEntriesAndMetadata p.logEntries p.commitIndex stop p.commitIndex)

/-! ## Replication -/

def appendLogEntry (indexInLogEntries : Int) (e : LogEntry) (p : Process) : Process :=
  if (p.logEntries.length : Int) - 1 < indexInLogEntries then
    { p with logEntries := p.logEntries ++ [e] }.emit (.pushLogEntry p.logEntries.length e)
  else if (entryAt p.logEntries indexInLogEntries).term = e.term then p
  else
    let log := cleanLogEntriesOutOfSync indexInLogEntries p.logEntries
    { p with logEntries := log ++ [e] }.emit (.pushLogEntry log.length e)

def appendLogEntries (lastLogIndex : Int) : List LogEntry → Process → Process
  | [], p => p
  | e :: es, p => appendLogEntries (lastLogIndex + 1) es (p.appendLogEntry (lastLogIndex + 1) e)

def triggerEntryUpdate (followerId : Int) (p : Process) : Process :=
  let p := { p with nextIndex := p.nextIndex.insertIfNew followerId 0 }
  let indexToSend := p.nextIndex.getD followerId 0
  if 1 ≤ indexToSend ∧ indexToSend ≤ (p.logEntries.length : Int) - 1 then
    let prevIndex := indexToSend - 1
    let req : AppendEntriesRequest :=
      { term := p.curTerm, leaderId := p.nodeId, prevLogIndex := prevIndex
        prevLogTerm := (entryAt p.logEntries prevIndex).term
        entries := [entryAt p.logEntries indexToSend], leaderCommit := p.commitIndex }
    let pending := p.pendingAppendReqs.getD followerId 0
    if pending < MAX_PENDING_APPEND then
      { p with pendingAppendReqs := p.pendingAppendReqs.insert followerId (pending + 1) }.emit
        (.writeMessage followerId (.appendEntriesRequest req))
    else { p with pendingAppendReqs := p.pendingAppendReqs.insertIfNew followerId 0 }
  else p

def addLogEntry (entry : LogEntry) (p : Process) : Process :=
  let p := { p with logEntries := p.logEntries ++ [entry] }
  p.nextIndex.keys.foldl (fun p endpoint => p.triggerEntryUpdate endpoint) p

/-! ## Timers -/

/-- The callback of `start_send_hearbeat`. -/
def heartbeatTimer (p : Process) : Process :=
  if p.state = .leader then
    let last := backEntry p.logEntries
    let req : AppendEntriesRequest :=
      { term := p.curTerm, leaderId := p.nodeId, prevLogIndex := last.index, prevLogTerm := last.term
        entries := [], leaderCommit := p.commitIndex }
    let others := (List.range p.totalNodes.toNat).filter fun i : Nat => (i : Int) ≠ p.nodeId
    { p.emit (.broadCast (.appendEntriesRequest req)) with
      pendingAppendReqs := others.foldl
        (fun m (i : Nat) => m.insert (i : Int) (m.getD (i : Int) 0 + 1)) p.pendingAppendReqs }
  else p

def voteTimer (now : Int) (p : Process) : Process :=
  let expired := p.state = .follower ∧ p.lastHeartBeatReceived + HEARTBEAT_EXPIRE_SECONDS + 2 < now
  let p := if expired then { p with state := .candidate } else p
  if p.state = .candidate then
    { p with curTerm := p.curTerm + 1, votedFor := -1, votesCollected := 0
             voteRequestTimers := p.voteRequestTimers + 1 }
  else p

/-- The delayed callback that `start_vote_scheduler` leaves behind. -/
def voteRequestTimer (p : Process) : Process :=
  let p := { p with voteRequestTimers := p.voteRequestTimers - 1 }
  -- by now the node may be a follower, or in a later term
  if p.votedFor ≠ -1 then p
  else
    let last := backEntry p.logEntries
    let req : RequestVoteRequest :=
      { term := p.curTerm, candidateId := p.nodeId, lastLogIndex := last.index, lastLogTerm := last.term }
    { p with votedFor := p.nodeId, votesCollected := p.votesCollected + 1 }.emit
      (.broadCast (.requestVoteRequest req))

/-! ## Message handlers: the cases of `local_message_handler` -/

def replyAppend (leaderId success lastIndexSynced : Int) (p : Process) : Process :=
  p.emit (.writeMessage leaderId (.appendEntriesResponse
    { term := p.curTerm, followerId := p.nodeId, appendResultSuccess := success
      lastIndexSynced := lastIndexSynced }))

def acceptLeader (now : Int) (req : AppendEntriesRequest) (p : Process) : Process :=
  { p with
    state := if p.state = .candidate ∨ (p.state = .leader ∧ req.term > p.curTerm) then .follower else p.state
    lastHeartBeatReceived := now, curTerm := req.term, curLeader := req.leaderId }

def updateLeaderCommit (leaderCommit : Int) (p : Process) : Process :=
  if p.commitIndex < leaderCommit ∧ leaderCommit < (p.logEntries.length : Int) then
    p.advanceCommit leaderCommit (leaderCommit + 1)
  else p

def appendEntriesRequest (now : Int) (req : AppendEntriesRequest) (p : Process) : Process :=
  if req.term < p.curTerm then
    { p with curLeader := -1 }.replyAppend req.leaderId 0 (-1)
  else
    let p := p.acceptLeader now req
    if !checkIfPreviousLogInSync req.prevLogTerm req.prevLogIndex p.logEntries then
      p.replyAppend req.leaderId 0 (-1)
    else
      -- the commit index moves first, so it is bounded by the log without the new entries
      let p := p.updateLeaderCommit req.leaderCommit
      let p := p.appendLogEntries req.prevLogIndex req.entries
      p.replyAppend req.leaderId 1 (backEntry p.logEntries).index

def countSyncedNodes (index : Int) (matched : IndexMap) : Int :=
  (matched.toList.countP fun m => index ≤ m.2 : Nat)

def commitOnMajority (lastIndexSynced : Int) (p : Process) : Process :=
  if p.commitIndex < lastIndexSynced then
    -- the added one is the node itself; neither its state nor the entry's term is looked at
    if p.totalNodes / 2 < countSyncedNodes lastIndexSynced p.matchedIndex + 1 then
      p.advanceCommit (max p.commitIndex lastIndexSynced) (lastIndexSynced + 1)
    else p
  else p

def appendEntriesResponse (resp : AppendEntriesResponse) (p : Process) : Process :=
  let followerId := resp.followerId
  let p := { p with pendingAppendReqs := p.pendingAppendReqs.insert followerId
                      (max 0 (p.pendingAppendReqs.getD followerId 0 - 1)) }
  let p :=
    if resp.appendResultSuccess ≠ 0 then
      let p := { p with matchedIndex := p.matchedIndex.insert followerId resp.lastIndexSynced }
      let p := p.commitOnMajority resp.lastIndexSynced
      { p with nextIndex := p.nextIndex.insert followerId (p.matchedIndex.getD followerId 0 + 1) }
    -- a leader takes over the term and stays the leader
    else if p.curTerm < resp.term then { p with curTerm := resp.term }
    else { p with nextIndex := p.nextIndex.insert followerId (max 1 (p.nextIndex.getD followerId 0 - 1)) }
  p.triggerEntryUpdate followerId

def replyVote (candidateId term granted : Int) (p : Process) : Process :=
  p.emit (.writeMessage candidateId (.requestVoteResponse { term := term, voteResultTermGranted := granted }))

def invalidVoteRequest (req : RequestVoteRequest) (p : Process) : Prop :=
  req.term < p.curTerm ∨ (req.term = p.curTerm ∧ p.votedFor ≠ -1 ∧ p.votedFor ≠ req.candidateId)

instance (req : RequestVoteRequest) (p : Process) : Decidable (p.invalidVoteRequest req) :=
  inferInstanceAs (Decidable (_ ∨ _))

def requestVoteRequest (req : RequestVoteRequest) (p : Process) : Process :=
  if p.invalidVoteRequest req then p.replyVote req.candidateId req.term 0
  else
    let p := if p.curTerm < req.term then { p with curTerm := req.term, votesCollected := 0 } else p
    -- the end of the candidate's log is not compared with the voter's
    if p.state = .candidate ∨ p.state = .follower then
      { p with votedFor := req.candidateId }.replyVote req.candidateId req.term 1
    else p

def requestVoteResponse (resp : RequestVoteResponse) (p : Process) : Process :=
  if p.state = .leader then p
  else if p.state = .follower then p
  else if resp.voteResultTermGranted = 0 then p
  else if resp.term < p.curTerm then p
  else
    let p := if resp.voteResultTermGranted = 1 then { p with votesCollected := p.votesCollected + 1 } else p
    if p.totalNodes / 2 < p.votesCollected then { p with state := .leader, curTerm := resp.term }
    else p

def clientPutMessage (randomId : Int) (message : Bytes) (p : Process) : Process :=
  if p.state ≠ .leader then p
  else p.addLogEntry
    { index := p.logEntries.length, term := p.curTerm, messageId := randomId
      operation := LogEntry.ADD, message := message }

def clientCommitMessage (messageId : Int) (p : Process) : Process :=
  if p.state ≠ .leader then p
  else p.addLogEntry
    { index := p.logEntries.length, term := p.curTerm, messageId := messageId
      operation := LogEntry.COMMIT, message := [] }

def clientOpenQueue (p : Process) : Process :=
  if p.state ≠ .leader then
    let address := getAddressForNode p.curLeader p.serverNodes
    (p.deliverToClient (.clientOpenQueueResponse
      { status := .error, errorMessage := toBytes "Node is not leader."
        leaderIp := some address.1, leaderPort := some address.2 })).2
  else
    (p.deliverToClient (.clientOpenQueueResponse
      { status := .success, errorMessage := [], leaderIp := none,
        leaderPort := none })).2.triggerMessageDelivery

def localMessageHandler (now randomId : Int) (msg : RaftMessage) (p : Process) : Process :=
  match msg with
  | .appendEntriesRequest req => p.appendEntriesRequest now req
  | .appendEntriesResponse resp => p.appendEntriesResponse resp
  | .requestVoteRequest req => p.requestVoteRequest req
  | .requestVoteResponse resp => p.requestVoteResponse resp
  | .clientPutMessage message => p.clientPutMessage randomId message
  | .clientOpenQueue => p.clientOpenQueue
  | .clientCommitMessage messageId => p.clientCommitMessage messageId
  | _ => p

/-- The callback posted by `consumer_disconnected`. -/
def consumerDisconnected (clientId : Int) (p : Process) : Process :=
  { p with messageQueue := (p.messageQueue.handleClientDisconnected clientId).2 }.triggerMessageDelivery

/-! ## Construction -/

/-- The members the constructor leaves uninitialised. -/
structure Garbage where
  votesCollected : Int
  lastHeartBeatReceived : Int

/-- The constructor, with what `load_log_entry_from_file` appends and what
`load_metadata_from_file` leaves in `metadata`. -/
def construct (partitionId nodeId totalNodes : Int) (serverNodes : List ServerNode) (garbage : Garbage)
    (loaded : List LogEntry) (lastCommitted : Int) : Process :=
  let others := (List.range totalNodes.toNat).filter fun i : Nat => (i : Int) ≠ nodeId
  let p : Process :=
    { partitionId := partitionId, nodeId := nodeId, totalNodes := totalNodes
      state := .candidate, curTerm := 0, curLeader := -1
      lastHeartBeatReceived := garbage.lastHeartBeatReceived
      votesCollected := garbage.votesCollected, votedFor := -1
      logEntries := [LogEntry.dummy], commitIndex := 0
      nextIndex := others.foldl (fun m (i : Nat) => m.insert (i : Int) 1) ∅
      matchedIndex := others.foldl (fun m (i : Nat) => m.insert (i : Int) 0) ∅
      pendingAppendReqs := ∅, voteRequestTimers := 0, messageQueue := MessageQueue.empty
      clients := ClientManager.empty, serverNodes := serverNodes, out := [] }
  let p := { p with logEntries := p.logEntries ++ loaded }
  let p := commitLoop (p.logEntries.length - 1) 1 p
  { p with commitIndex := lastCommitted }

end Process

end FlowMQ
