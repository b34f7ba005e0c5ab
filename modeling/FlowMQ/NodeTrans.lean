import FlowMQ.Cluster
import FlowMQ.Lib.Maps

/-!
# What one handler can do to the consensus state

`Trans r msg r' sends`: a handler, given message `msg` of another node (or
`none` for a timer or a client), takes the consensus state `r` to `r'` and
sends `sends` to other nodes. The message queue and the client manager do not
occur in it: no handler looks at them to decide what the node does in the
cluster. Every invariant of the cluster is derived from this list of cases.
-/

namespace FlowMQ

def Effect.isSend : Effect → Bool
  | .writeMessage .. => true
  | .broadCast _ => true
  | _ => false

def sends (out : List Effect) : List Effect := out.filter Effect.isSend

@[simp] theorem sends_nil : sends [] = [] := rfl

@[simp] theorem sends_append (a b : List Effect) : sends (a ++ b) = sends a ++ sends b :=
  List.filter_append ..

@[simp] theorem sends_writeMessage (i : Int) (msg : RaftMessage) :
    sends [.writeMessage i msg] = [.writeMessage i msg] := rfl

@[simp] theorem sends_broadCast (msg : RaftMessage) : sends [.broadCast msg] = [.broadCast msg] := rfl

def Carries (l : List Effect) (m : RaftMessage) : Prop := (∃ dst, .writeMessage dst m ∈ l) ∨ .broadCast m ∈ l

section
variable {m m' : RaftMessage}

@[simp] theorem not_carries_nil : ¬ Carries [] m := by simp [Carries]

@[simp] theorem carries_writeMessage {i : Int} : Carries [.writeMessage i m'] m ↔ m = m' := by simp [Carries]

@[simp] theorem carries_broadCast : Carries [.broadCast m'] m ↔ m = m' := by simp [Carries]

end

def isAppend : Option RaftMessage → Bool
  | some (.appendEntriesRequest _) => true
  | some (.appendEntriesResponse _) => true
  | _ => false

def appendLogAt (i : Int) (e : LogEntry) (log : List LogEntry) : List LogEntry :=
  if (log.length : Int) - 1 < i then log ++ [e]
  else if (entryAt log i).term = e.term then log
  else cleanLogEntriesOutOfSync i log ++ [e]

def appendLog (last : Int) : List LogEntry → List LogEntry → List LogEntry
  | [], log => log
  | e :: es, log => appendLog (last + 1) es (appendLogAt (last + 1) e log)

namespace RaftState

def entryRequest (r : RaftState) (i : Int) : AppendEntriesRequest :=
  { term := r.curTerm, leaderId := r.nodeId, prevLogIndex := i - 1
    prevLogTerm := (entryAt r.logEntries (i - 1)).term
    entries := [entryAt r.logEntries i], leaderCommit := r.commitIndex }

def heartbeat (r : RaftState) : AppendEntriesRequest :=
  { term := r.curTerm, leaderId := r.nodeId, prevLogIndex := (backEntry r.logEntries).index
    prevLogTerm := (backEntry r.logEntries).term, entries := [], leaderCommit := r.commitIndex }

def voteRequest (r : RaftState) : RequestVoteRequest :=
  { term := r.curTerm, candidateId := r.nodeId, lastLogIndex := (backEntry r.logEntries).index
    lastLogTerm := (backEntry r.logEntries).term }

def EntryRequests (r : RaftState) (l : List Effect) : Prop :=
  ∀ e ∈ l, ∃ (dst i : Int), 1 ≤ i ∧ i ≤ (r.logEntries.length : Int) - 1 ∧
    e = .writeMessage dst (.appendEntriesRequest (r.entryRequest i))

theorem EntryRequests.carries {r : RaftState} {l : List Effect} (hr : r.EntryRequests l) {m : RaftMessage}
    (hm : Carries l m) :
    l ≠ [] ∧ ∃ k : Nat, k + 1 < r.logEntries.length ∧
    m = .appendEntriesRequest (r.entryRequest (k + 1 : Nat)) := by
  rcases hm with ⟨dst, hm⟩ | hm
  · obtain ⟨dst', i, h₁, h₂, he⟩ := hr _ hm
    obtain ⟨k, rfl⟩ : ∃ k : Nat, i = (k + 1 : Nat) := ⟨(i - 1).toNat, by omega⟩
    exact ⟨List.ne_nil_of_mem hm, k, by omega, (Effect.writeMessage.inj he).2⟩
  · obtain ⟨dst', i, h₁, h₂, he⟩ := hr _ hm
    cases he

def acceptLeader (now : Int) (q : AppendEntriesRequest) (r : RaftState) : RaftState :=
  { r with
    state := if r.state = .candidate ∨ (r.state = .leader ∧ q.term > r.curTerm) then .follower else r.state
    lastHeartBeatReceived := now, curTerm := q.term, curLeader := q.leaderId }

def commitAfter (r : RaftState) (q : AppendEntriesRequest) : Int :=
  if r.commitIndex < q.leaderCommit ∧ q.leaderCommit < r.logEntries.length then q.leaderCommit else r.commitIndex

def majorityAt (r : RaftState) (q : AppendEntriesResponse) : Prop :=
  r.totalNodes / 2 <
    Process.countSyncedNodes q.lastIndexSynced (r.matchedIndex.insert q.followerId q.lastIndexSynced) + 1

def commits (r : RaftState) (q : AppendEntriesResponse) : Prop :=
  q.appendResultSuccess ≠ 0 ∧ r.commitIndex < q.lastIndexSynced ∧ r.majorityAt q

/-- `next_index_` of the follower when the append response handler calls `trigger_entry_update`. -/
def nextAfterReply (r : RaftState) (q : AppendEntriesResponse) : Int :=
  if q.appendResultSuccess ≠ 0 then q.lastIndexSynced + 1
  else if r.curTerm < q.term then r.nextIndex.getD q.followerId 0
  else max 1 (r.nextIndex.getD q.followerId 0 - 1)

def sendsAfterReply (r : RaftState) (q : AppendEntriesResponse) : Prop :=
  (1 ≤ r.nextAfterReply q ∧ r.nextAfterReply q ≤ (r.logEntries.length : Int) - 1) ∧
    max 0 (r.pendingAppendReqs.getD q.followerId 0 - 1) < MAX_PENDING_APPEND

/-- A vote request is not turned down for its term or an earlier vote. -/
def votable (r : RaftState) (q : RequestVoteRequest) : Prop :=
  r.curTerm < q.term ∨ (q.term = r.curTerm ∧ (r.votedFor = -1 ∨ r.votedFor = q.candidateId))

instance (r : RaftState) (q : AppendEntriesResponse) : Decidable (r.majorityAt q) :=
  inferInstanceAs (Decidable (_ < _))

instance (r : RaftState) (q : AppendEntriesResponse) : Decidable (r.commits q) :=
  inferInstanceAs (Decidable (_ ∧ _))

instance (r : RaftState) (q : AppendEntriesResponse) : Decidable (r.sendsAfterReply q) :=
  inferInstanceAs (Decidable (_ ∧ _))

instance (r : RaftState) (q : RequestVoteRequest) : Decidable (r.votable q) :=
  inferInstanceAs (Decidable (_ ∨ _))

end RaftState

open RaftState

inductive Trans (r : RaftState) : Option RaftMessage → RaftState → List Effect → Prop
  | idle {msg} (hm : isAppend msg = false) : Trans r msg r []
  | startElection (h : r.state ≠ .leader) :
    Trans r none { r with state := .candidate, curTerm := r.curTerm + 1, votedFor := -1, votesCollected := 0
                          voteRequestTimers := r.voteRequestTimers + 1 } []
  | skipVote (h : r.votedFor ≠ -1) : Trans r none { r with voteRequestTimers := r.voteRequestTimers - 1 } []
  | askVotes (h : r.votedFor = -1) (ht : 0 < r.voteRequestTimers) :
    Trans r none { r with voteRequestTimers := r.voteRequestTimers - 1, votedFor := r.nodeId
                          votesCollected := r.votesCollected + 1 }
      [.broadCast (.requestVoteRequest r.voteRequest)]
  | heartbeat (h : r.state = .leader) (pending : IndexMap) :
    Trans r none { r with pendingAppendReqs := pending } [.broadCast (.appendEntriesRequest r.heartbeat)]
  | staleAppend (q : AppendEntriesRequest) (h : q.term < r.curTerm) :
    Trans r (some (.appendEntriesRequest q)) { r with curLeader := -1 }
      [.writeMessage q.leaderId (.appendEntriesResponse ⟨r.curTerm, r.nodeId, 0, -1⟩)]
  | refuseAppend (q : AppendEntriesRequest) (now : Int) (h : r.curTerm ≤ q.term)
    (hs : checkIfPreviousLogInSync q.prevLogTerm q.prevLogIndex r.logEntries = false) :
    Trans r (some (.appendEntriesRequest q)) (r.acceptLeader now q)
      [.writeMessage q.leaderId (.appendEntriesResponse ⟨q.term, r.nodeId, 0, -1⟩)]
  | acceptAppend (q : AppendEntriesRequest) (now : Int) (h : r.curTerm ≤ q.term)
    (hs : checkIfPreviousLogInSync q.prevLogTerm q.prevLogIndex r.logEntries = true) :
    Trans r (some (.appendEntriesRequest q))
      { r.acceptLeader now q with
        commitIndex := r.commitAfter q, logEntries := appendLog q.prevLogIndex q.entries r.logEntries }
      [.writeMessage q.leaderId (.appendEntriesResponse ⟨q.term, r.nodeId, 1,
        (backEntry (appendLog q.prevLogIndex q.entries r.logEntries)).index⟩)]
  | replySuccess (q : AppendEntriesResponse) (h : q.appendResultSuccess ≠ 0) (c : Int)
    (hc : (c = r.commitIndex ∧ ¬ r.commits q) ∨ (r.commits q ∧ c = q.lastIndexSynced))
    (next pending : IndexMap) (l : List Effect) (hl : l = [] ↔ ¬ r.sendsAfterReply q)
    (hr : EntryRequests { r with commitIndex := c } l) :
    Trans r (some (.appendEntriesResponse q))
      { r with matchedIndex := r.matchedIndex.insert q.followerId q.lastIndexSynced, commitIndex := c
               nextIndex := next, pendingAppendReqs := pending } l
  | replyTerm (q : AppendEntriesResponse) (h : q.appendResultSuccess = 0) (ht : r.curTerm < q.term)
    (next pending : IndexMap) (l : List Effect) (hl : l = [] ↔ ¬ r.sendsAfterReply q)
    (hr : EntryRequests { r with curTerm := q.term } l) :
    Trans r (some (.appendEntriesResponse q))
      { r with curTerm := q.term, nextIndex := next, pendingAppendReqs := pending } l
  | replyRetry (q : AppendEntriesResponse) (h : q.appendResultSuccess = 0) (ht : q.term ≤ r.curTerm)
    (next pending : IndexMap) (l : List Effect) (hl : l = [] ↔ ¬ r.sendsAfterReply q)
      (hr : EntryRequests r l) :
    Trans r (some (.appendEntriesResponse q)) { r with nextIndex := next, pendingAppendReqs := pending } l
  | denyVote (q : RequestVoteRequest) (h : ¬ r.votable q) :
    Trans r (some (.requestVoteRequest q)) r
      [.writeMessage q.candidateId (.requestVoteResponse ⟨q.term, 0⟩)]
  | grantVote (q : RequestVoteRequest) (h : r.votable q) (hst : r.state ≠ .leader) :
    Trans r (some (.requestVoteRequest q))
      { r with curTerm := q.term, votedFor := q.candidateId
               votesCollected := if r.curTerm < q.term then 0 else r.votesCollected }
      [.writeMessage q.candidateId (.requestVoteResponse ⟨q.term, 1⟩)]
  | ignoreVote (q : RequestVoteRequest) (h : r.votable q) (hst : r.state = .leader) :
    Trans r (some (.requestVoteRequest q))
      { r with curTerm := q.term, votesCollected := if r.curTerm < q.term then 0 else r.votesCollected } []
  | countVote (q : RequestVoteResponse) (hst : r.state = .candidate) (hg : q.voteResultTermGranted ≠ 0)
    (ht : r.curTerm ≤ q.term) (v : Int)
    (hv : v = if q.voteResultTermGranted = 1 then r.votesCollected + 1 else r.votesCollected) :
    Trans r (some (.requestVoteResponse q)) { r with votesCollected := v } []
  | win (q : RequestVoteResponse) (hst : r.state = .candidate) (hg : q.voteResultTermGranted ≠ 0)
    (ht : r.curTerm ≤ q.term) (v : Int)
    (hv : v = if q.voteResultTermGranted = 1 then r.votesCollected + 1 else r.votesCollected)
    (hw : r.totalNodes / 2 < v) :
    Trans r (some (.requestVoteResponse q))
      { r with votesCollected := v, state := .leader, curTerm := q.term } []
  | clientAppend {msg} (h : r.state = .leader) (e : LogEntry) (hi : e.index = r.logEntries.length)
    (ht : e.term = r.curTerm) (next pending : IndexMap) (l : List Effect)
    (hr : EntryRequests { r with logEntries := r.logEntries ++ [e] } l) (hm : isAppend msg = false) :
    Trans r msg
      { r with logEntries := r.logEntries ++ [e], nextIndex := next, pendingAppendReqs := pending } l

theorem Trans.curTerm_le {r r' : RaftState} {msg : Option RaftMessage} {l : List Effect}
    (h : Trans r msg r' l) :
    r.curTerm ≤ r'.curTerm := by
  cases h with
  | startElection => simp
  | refuseAppend q now h => exact h
  | acceptAppend q now h => exact h
  | replyTerm q h ht => exact ht.le
  | grantVote q h =>
    rcases h with h | h
    · exact h.le
    · exact h.1.ge
  | ignoreVote q h =>
    rcases h with h | h
    · exact h.le
    · exact h.1.ge
  | win q hst hg ht => exact ht
  | _ => exact le_refl _

theorem Trans.ids {r r' : RaftState} {msg : Option RaftMessage} {l : List Effect} (h : Trans r msg r' l) :
    r'.nodeId = r.nodeId ∧ r'.totalNodes = r.totalNodes := by
  cases h <;> exact ⟨rfl, rfl⟩

/-! ## The queue and the clients do not matter to the cluster -/

namespace Process

@[simp] theorem emit_raft (e : Effect) (p : Process) : (p.emit e).toRaftState = p.toRaftState := rfl

@[simp] theorem emit_out (e : Effect) (p : Process) : (p.emit e).out = p.out ++ [e] := rfl

theorem deliverToClient_raft (msg : RaftMessage) (p : Process) :
    (p.deliverToClient msg).2.toRaftState = p.toRaftState := by
  unfold deliverToClient
  simp only
  split <;> rfl

theorem deliverMessages_raft : ∀ (ids : List Int) (p : Process),
    (p.deliverMessages ids).toRaftState = p.toRaftState
  | [], _ => rfl
  | id :: ids, p => by
    simp only [deliverMessages]
    split
    · exact deliverToClient_raft ..
    · rw [deliverMessages_raft ids]; exact deliverToClient_raft ..

theorem triggerMessageDelivery_raft (p : Process) : p.triggerMessageDelivery.toRaftState = p.toRaftState := by
  unfold triggerMessageDelivery
  split
  · rfl
  · split
    · rfl
    · exact deliverMessages_raft ..

theorem commitLogEntry_raft (i : Int) (p : Process) : (p.commitLogEntry i).toRaftState = p.toRaftState := by
  unfold commitLogEntry
  split
  · rfl
  · split <;> rfl

theorem commitLoop_raft : ∀ (k : Nat) (i : Int) (p : Process), (commitLoop k i p).toRaftState = p.toRaftState
  | 0, _, _ => rfl
  | k + 1, i, p => by rw [commitLoop, commitLoop_raft k, commitLogEntry_raft]

theorem commitLogEntries_raft (start stop : Int) (p : Process) :
    (p.commitLogEntries start stop).toRaftState = p.toRaftState := by
  rw [commitLogEntries, triggerMessageDelivery_raft, commitLoop_raft]

theorem advanceCommit_raft (target stop : Int) (p : Process) :
    (p.advanceCommit target stop).toRaftState = { p.toRaftState with commitIndex := target } :=
  congrArg (fun r : RaftState => { r with commitIndex := target })
    (commitLogEntries_raft (p.commitIndex + 1) stop p)

theorem appendLogEntry_raft (i : Int) (e : LogEntry) (p : Process) :
    (p.appendLogEntry i e).toRaftState =
      { p.toRaftState with logEntries := appendLogAt i e p.logEntries } := by
  unfold appendLogEntry appendLogAt
  split
  · rfl
  · split <;> rfl

theorem appendLogEntries_raft : ∀ (es : List LogEntry) (last : Int) (p : Process),
    (p.appendLogEntries last es).toRaftState =
      { p.toRaftState with logEntries := appendLog last es p.logEntries }
  | [], _, _ => rfl
  | e :: es, last, p => by
    rw [appendLogEntries, appendLogEntries_raft es, appendLogEntry_raft, appendLog]

/-! ## The effects of a kind that a function does not have -/

section
variable {K : Effect → Bool} (hw : ∀ id b m, K (.writeClient id b m) = false)
include hw

theorem deliverToClient_filter (msg : RaftMessage) (p : Process) :
    (p.deliverToClient msg).2.out.filter K = p.out.filter K := by
  unfold deliverToClient
  simp only
  split
  · simp [hw]
  · rfl

theorem deliverMessages_filter : ∀ (ids : List Int) (p : Process),
    (p.deliverMessages ids).out.filter K = p.out.filter K
  | [], _ => rfl
  | id :: ids, p => by
    simp only [deliverMessages]
    split
    · exact deliverToClient_filter hw ..
    · rw [deliverMessages_filter ids]; exact deliverToClient_filter hw ..

theorem triggerMessageDelivery_filter (p : Process) :
    p.triggerMessageDelivery.out.filter K = p.out.filter K := by
  unfold triggerMessageDelivery
  split
  · rfl
  · split
    · rfl
    · exact deliverMessages_filter hw ..

variable (hc : ∀ i e, K (.commitLogEntry i e) = false)
include hc

omit hw in
theorem commitLoop_filter :
    ∀ (k : Nat) (i : Int) (p : Process), (commitLoop k i p).out.filter K = p.out.filter K
  | 0, _, _ => rfl
  | k + 1, i, p => by
    rw [commitLoop, commitLoop_filter k]
    unfold commitLogEntry
    split
    · simp [hc]
    · split <;> simp [hc]

theorem advanceCommit_filter (hst : ∀ l a b m, K (.storeLogEntriesAndMetadata l a b m) = false)
    (target stop : Int) (p : Process) : (p.advanceCommit target stop).out.filter K = p.out.filter K := by
  simp only [advanceCommit, emit_out, List.filter_append, commitLogEntries]
  rw [triggerMessageDelivery_filter hw, commitLoop_filter hc]
  simp [hst]

end

theorem appendLogEntries_filter {K : Effect → Bool} (hp : ∀ i e, K (.pushLogEntry i e) = false) :
    ∀ (es : List LogEntry) (last : Int) (p : Process),
      (p.appendLogEntries last es).out.filter K = p.out.filter K
  | [], _, _ => rfl
  | e :: es, last, p => by
    rw [appendLogEntries, appendLogEntries_filter hp es]
    unfold appendLogEntry
    split
    · simp [hp]
    · split
      · rfl
      · simp [hp]

/-! ## Sending entries -/

theorem triggerEntryUpdate_spec (f : Int) (p : Process) :
    ∃ next pending l, (p.triggerEntryUpdate f).toRaftState =
        { p.toRaftState with nextIndex := next, pendingAppendReqs := pending } ∧
      sends (p.triggerEntryUpdate f).out = sends p.out ++ l ∧
      EntryRequests p.toRaftState l ∧
      (l = [] ↔ ¬ ((1 ≤ p.nextIndex.getD f 0 ∧ p.nextIndex.getD f 0 ≤ (p.logEntries.length : Int) - 1) ∧
        p.pendingAppendReqs.getD f 0 < MAX_PENDING_APPEND)) := by
  simp only [triggerEntryUpdate, Maps.getD_insertIfNew_default]
  split
  · rename_i h
    split
    · refine ⟨_, _, [.writeMessage f (.appendEntriesRequest (p.entryRequest (p.nextIndex.getD f 0)))], rfl, ?_,
        ?_, ?_⟩
      · simp [sends, Effect.isSend, entryRequest]
      · intro e he
        rw [List.mem_singleton] at he
        exact ⟨f, _, h.1, h.2, he⟩
      · rename_i hp
        exact iff_of_false (List.cons_ne_nil _ _) (not_not.mpr ⟨h, hp⟩)
    · rename_i hp
      exact ⟨_, _, [], rfl, by simp, fun e he => (List.not_mem_nil he).elim,
        iff_of_true rfl fun hc => hp hc.2⟩
  · rename_i h
    exact ⟨_, _, [], rfl, by simp, fun e he => (List.not_mem_nil he).elim, iff_of_true rfl fun hc => h hc.1⟩

theorem triggerEntryUpdates_spec : ∀ (fs : List Int) (p : Process),
    ∃ next pending l, (fs.foldl (fun p f => p.triggerEntryUpdate f) p).toRaftState =
        { p.toRaftState with nextIndex := next, pendingAppendReqs := pending } ∧
      sends (fs.foldl (fun p f => p.triggerEntryUpdate f) p).out = sends p.out ++ l ∧
      EntryRequests p.toRaftState l
  | [], p => ⟨_, _, [], rfl, by simp, fun e he => (List.not_mem_nil he).elim⟩
  | f :: fs, p => by
    obtain ⟨next, pending, l, hr, ho, hl, -⟩ := triggerEntryUpdate_spec f p
    obtain ⟨next', pending', l', hr', ho', hl'⟩ := triggerEntryUpdates_spec fs (p.triggerEntryUpdate f)
    refine ⟨next', pending', l ++ l', ?_, ?_, ?_⟩
    · rw [List.foldl_cons, hr', hr]
    · rw [List.foldl_cons, ho', ho, List.append_assoc]
    · intro e he
      rcases List.mem_append.mp he with he | he
      · exact hl e he
      · rw [hr] at hl'; exact hl' e he

/-! ## Every handler is one of the cases -/

def Does (r : RaftState) (msg : Option RaftMessage) (p : Process) : Prop :=
  Trans r msg p.toRaftState (sends p.out)

theorem Does.of {r r' : RaftState} {msg : Option RaftMessage} {p : Process} {l : List Effect}
    (h : Trans r msg r' l) (hr : p.toRaftState = r') (ho : sends p.out = l) : Does r msg p := by
  subst hr ho; exact h

section
variable (p : Process) (hout : p.out = [])
include hout

theorem does_idle {q : Process} (msg : Option RaftMessage) (hr : q.toRaftState = p.toRaftState)
    (hs : sends q.out = sends p.out) (hm : isAppend msg = false) : Does p.toRaftState msg q :=
  .of (.idle hm) hr (by rw [hs, hout]; rfl)

theorem does_addLogEntry (h : p.state = .leader) (e : LogEntry) (hi : e.index = p.logEntries.length)
    (ht : e.term = p.curTerm) {msg : Option RaftMessage} (hm : isAppend msg = false) :
    Does p.toRaftState msg (p.addLogEntry e) := by
  obtain ⟨next, pending, l, hr, ho, hl⟩ :=
    triggerEntryUpdates_spec p.nextIndex.keys { p with logEntries := p.logEntries ++ [e] }
  refine .of (.clientAppend h e hi ht next pending l hl hm) hr (ho.trans ?_)
  simp [hout]

omit hout in
theorem updateLeaderCommit_raft (q : AppendEntriesRequest) :
    (p.updateLeaderCommit q.leaderCommit).toRaftState =
      { p.toRaftState with commitIndex := p.toRaftState.commitAfter q } := by
  unfold updateLeaderCommit commitAfter
  split
  · exact advanceCommit_raft ..
  · rfl

theorem updateLeaderCommit_sends (q : AppendEntriesRequest) :
    sends (p.updateLeaderCommit q.leaderCommit).out = [] := by
  unfold updateLeaderCommit
  split
  · rw [sends, advanceCommit_filter (by simp [Effect.isSend]) (by simp [Effect.isSend])
      (by simp [Effect.isSend]),
      hout]
    rfl
  · rw [hout]
    rfl

theorem does_appendEntriesRequest (now : Int) (q : AppendEntriesRequest) :
    Does p.toRaftState (some (.appendEntriesRequest q)) (p.appendEntriesRequest now q) := by
  unfold appendEntriesRequest
  split
  · rename_i h
    exact .of (.staleAppend q h) rfl (by simp [replyAppend, hout])
  · rename_i h
    have h' : p.curTerm ≤ q.term := by omega
    simp only
    split
    · rename_i hs
      have hs' : checkIfPreviousLogInSync q.prevLogTerm q.prevLogIndex p.logEntries = false := by
        simpa [Process.acceptLeader] using hs
      exact .of (.refuseAppend q now h' hs') rfl (by simp [replyAppend, hout, Process.acceptLeader])
    · rename_i hs
      have hs' : checkIfPreviousLogInSync q.prevLogTerm q.prevLogIndex p.logEntries = true := by
        simpa [Process.acceptLeader] using hs
      have hr := updateLeaderCommit_raft (p.acceptLeader now q) q
      have ho := updateLeaderCommit_sends (p.acceptLeader now q) hout q
      have hra := appendLogEntries_raft q.entries q.prevLogIndex
        ((p.acceptLeader now q).updateLeaderCommit q.leaderCommit)
      rw [hr] at hra
      refine .of (.acceptAppend q now h' hs') hra ?_
      have hoa : sends (((p.acceptLeader now q).updateLeaderCommit q.leaderCommit).appendLogEntries
          q.prevLogIndex q.entries).out = [] := by
        rw [sends, appendLogEntries_filter (by simp [Effect.isSend])]; exact ho
      simp only [replyAppend, emit_out, sends_append, hoa, hra, List.nil_append, sends_writeMessage]
      rfl

omit hout in
theorem commitOnMajority_raft (q : AppendEntriesResponse) (h : q.appendResultSuccess ≠ 0)
    (r : RaftState) (hci : p.commitIndex = r.commitIndex) (htn : p.totalNodes = r.totalNodes)
    (hmi : p.matchedIndex = r.matchedIndex.insert q.followerId q.lastIndexSynced) :
    (p.commitOnMajority q.lastIndexSynced).toRaftState =
      { p.toRaftState with commitIndex := if r.commits q then q.lastIndexSynced else p.commitIndex } := by
  unfold commitOnMajority
  rw [hmi, htn, hci]
  by_cases hlt : r.commitIndex < q.lastIndexSynced
  · rw [if_pos hlt]
    by_cases hmaj : r.totalNodes / 2 <
        countSyncedNodes q.lastIndexSynced (r.matchedIndex.insert q.followerId q.lastIndexSynced) + 1
    · have hc : r.commits q := ⟨h, hlt, hmaj⟩
      rw [if_pos hmaj, if_pos hc, advanceCommit_raft, max_eq_right hlt.le]
    · have hc : ¬ r.commits q := fun hc => hmaj hc.2.2
      rw [if_neg hmaj, if_neg hc, ← hci]
  · have hc : ¬ r.commits q := fun hc => hlt hc.2.1
    rw [if_neg hlt, if_neg hc, ← hci]

theorem commitOnMajority_spec (q : AppendEntriesResponse) (hq : q.appendResultSuccess ≠ 0) (r : RaftState)
    (hr : p.toRaftState = { r with matchedIndex := r.matchedIndex.insert q.followerId q.lastIndexSynced
                                   pendingAppendReqs := p.pendingAppendReqs }) :
    ∃ c, ((c = r.commitIndex ∧ ¬ r.commits q) ∨ (r.commits q ∧ c = q.lastIndexSynced)) ∧
      (p.commitOnMajority q.lastIndexSynced).toRaftState = { p.toRaftState with commitIndex := c } ∧
      sends (p.commitOnMajority q.lastIndexSynced).out = [] := by
  have hci : p.commitIndex = r.commitIndex := by rw [hr]
  have hraft := commitOnMajority_raft p q hq r hci (by rw [hr]) (by rw [hr])
  refine ⟨_, ?_, hraft, ?_⟩
  · by_cases hc : r.commits q
    · rw [if_pos hc]
      exact Or.inr ⟨hc, rfl⟩
    · rw [if_neg hc]
      exact Or.inl ⟨hci, hc⟩
  · unfold commitOnMajority
    split
    · split
      · rw [sends, advanceCommit_filter (by simp [Effect.isSend]) (by simp [Effect.isSend])
          (by simp [Effect.isSend]),
          hout]
        rfl
      · rw [hout]
        rfl
    · rw [hout]
      rfl

theorem does_appendEntriesResponse (q : AppendEntriesResponse) :
    Does p.toRaftState (some (.appendEntriesResponse q)) (p.appendEntriesResponse q) := by
  have hself : ∀ (m : IndexMap) (v : Int), (m.insert q.followerId v).getD q.followerId 0 = v :=
    fun m v => Std.ExtTreeMap.getD_insert_self
  unfold appendEntriesResponse
  simp only
  split
  · rename_i h
    let p₁ : Process := { p with
      pendingAppendReqs := p.pendingAppendReqs.insert q.followerId
        (max 0 (p.pendingAppendReqs.getD q.followerId 0 - 1))
      matchedIndex := p.matchedIndex.insert q.followerId q.lastIndexSynced }
    obtain ⟨c, hc, hr, ho⟩ := commitOnMajority_spec p₁ hout q h p.toRaftState rfl
    let p₂ : Process := { p₁.commitOnMajority q.lastIndexSynced with
      nextIndex := (p₁.commitOnMajority q.lastIndexSynced).nextIndex.insert q.followerId
        ((p₁.commitOnMajority q.lastIndexSynced).matchedIndex.getD q.followerId 0 + 1) }
    have hr₂ : p₂.toRaftState = { p₁.toRaftState with
        commitIndex := c, nextIndex := p.nextIndex.insert q.followerId (q.lastIndexSynced + 1) } := by
      simp only [p₂, hr, p₁, hself]
    obtain ⟨next, pending, l, hr', ho', hl, he⟩ := triggerEntryUpdate_spec q.followerId p₂
    rw [hr₂] at hr' hl he
    refine .of (.replySuccess q h c hc next pending l ?_ hl) hr' ?_
    · simpa only [RaftState.sendsAfterReply, RaftState.nextAfterReply, p₁, hself, if_pos h] using he
    · rw [show sends p₂.out = [] from ho] at ho'
      exact ho'
  · rename_i h
    have h0 : q.appendResultSuccess = 0 := by simpa using h
    split
    · rename_i ht
      obtain ⟨next, pending, l, hr', ho', hl, he⟩ := triggerEntryUpdate_spec q.followerId
        { p with
          pendingAppendReqs := p.pendingAppendReqs.insert q.followerId
            (max 0 (p.pendingAppendReqs.getD q.followerId 0 - 1))
          curTerm := q.term }
      refine .of (.replyTerm q h0 ht next pending l ?_ hl) hr' (ho'.trans (by simp [hout]))
      simpa only [RaftState.sendsAfterReply, RaftState.nextAfterReply, hself, if_neg h, if_pos ht] using he
    · rename_i ht
      obtain ⟨next, pending, l, hr', ho', hl, he⟩ := triggerEntryUpdate_spec q.followerId
        { p with
          pendingAppendReqs := p.pendingAppendReqs.insert q.followerId
            (max 0 (p.pendingAppendReqs.getD q.followerId 0 - 1))
          nextIndex := p.nextIndex.insert q.followerId (max 1 (p.nextIndex.getD q.followerId 0 - 1)) }
      refine .of (.replyRetry q h0 (by omega) next pending l ?_ hl) hr' (ho'.trans (by simp [hout]))
      simpa only [RaftState.sendsAfterReply, RaftState.nextAfterReply, hself, if_neg h, if_neg ht] using he

theorem does_requestVoteRequest (q : RequestVoteRequest) :
    Does p.toRaftState (some (.requestVoteRequest q)) (p.requestVoteRequest q) := by
  have hiff : p.invalidVoteRequest q ↔ ¬ p.toRaftState.votable q := by
    unfold invalidVoteRequest RaftState.votable
    omega
  unfold requestVoteRequest
  split
  · rename_i h
    exact .of (.denyVote q (hiff.mp h)) rfl (by simp [replyVote, hout])
  · rename_i h
    have hv : p.toRaftState.votable q := by
      rw [hiff, not_not] at h; exact h
    have hp : (if p.curTerm < q.term then { p with curTerm := q.term, votesCollected := 0 } else p) =
        { p with curTerm := q.term
                 votesCollected := if p.curTerm < q.term then 0 else p.votesCollected } := by
      split
      · rfl
      · have : q.term = p.curTerm := by
          rcases hv with hv | hv
          · contradiction
          · exact hv.1
        rw [this]
    simp only [hp]
    split
    · rename_i hst
      exact .of (.grantVote q hv (by rcases hst with hst | hst <;> rw [hst] <;> decide)) rfl
        (by simp [replyVote, hout])
    · rename_i hst
      have hl : p.state = .leader := by
        cases hs : p.state with
        | leader => rfl
        | follower => exact absurd (Or.inr hs) hst
        | candidate => exact absurd (Or.inl hs) hst
      exact .of (.ignoreVote q hv hl) rfl (by simp [hout])

theorem does_requestVoteResponse (q : RequestVoteResponse) :
    Does p.toRaftState (some (.requestVoteResponse q)) (p.requestVoteResponse q) := by
  unfold requestVoteResponse
  split
  · exact does_idle p hout _ rfl rfl rfl
  split
  · exact does_idle p hout _ rfl rfl rfl
  split
  · exact does_idle p hout _ rfl rfl rfl
  split
  · exact does_idle p hout _ rfl rfl rfl
  rename_i hl hf hg ht
  have hst : p.state = .candidate := by
    cases hs : p.state with
    | leader => exact absurd hs hl
    | follower => exact absurd hs hf
    | candidate => rfl
  have hp : (if q.voteResultTermGranted = 1 then { p with votesCollected := p.votesCollected + 1 } else p) =
      { p with votesCollected :=
          if q.voteResultTermGranted = 1 then p.votesCollected + 1 else p.votesCollected } := by
    split <;> rfl
  simp only [hp]
  by_cases hw : p.totalNodes / 2 <
      if q.voteResultTermGranted = 1 then p.votesCollected + 1 else p.votesCollected
  · rw [if_pos hw]
    exact .of (.win q hst hg (by omega) _ rfl hw) rfl (by simp [hout])
  · rw [if_neg hw]
    exact .of (.countVote q hst hg (by omega) _ rfl) rfl (by simp [hout])

theorem does_clientPutMessage (randomId : Int) (m : Bytes) {msg : Option RaftMessage}
    (hm : isAppend msg = false) :
    Does p.toRaftState msg (p.clientPutMessage randomId m) := by
  unfold clientPutMessage
  split
  · exact does_idle p hout _ rfl rfl hm
  · rename_i h
    exact does_addLogEntry p hout (by simpa using h) _ rfl rfl hm

theorem does_clientCommitMessage (messageId : Int) {msg : Option RaftMessage} (hm : isAppend msg = false) :
    Does p.toRaftState msg (p.clientCommitMessage messageId) := by
  unfold clientCommitMessage
  split
  · exact does_idle p hout _ rfl rfl hm
  · rename_i h
    exact does_addLogEntry p hout (by simpa using h) _ rfl rfl hm

theorem does_clientOpenQueue {msg : Option RaftMessage} (hm : isAppend msg = false) :
    Does p.toRaftState msg p.clientOpenQueue := by
  unfold clientOpenQueue
  split
  · exact does_idle p hout _ (deliverToClient_raft ..) (deliverToClient_filter (by simp [Effect.isSend]) ..) hm
  · refine does_idle p hout _ ?_ ?_ hm
    · rw [triggerMessageDelivery_raft, deliverToClient_raft]
    · rw [sends, triggerMessageDelivery_filter (by simp [Effect.isSend]),
        deliverToClient_filter (by simp [Effect.isSend])]; rfl

theorem does_localMessageHandler (now randomId : Int) (msg : RaftMessage) :
    Does p.toRaftState (some msg) (p.localMessageHandler now randomId msg) := by
  cases msg with
  | appendEntriesRequest q => exact does_appendEntriesRequest p hout now q
  | appendEntriesResponse q => exact does_appendEntriesResponse p hout q
  | requestVoteRequest q => exact does_requestVoteRequest p hout q
  | requestVoteResponse q => exact does_requestVoteResponse p hout q
  | clientPutMessage m => exact does_clientPutMessage p hout randomId m rfl
  | clientCommitMessage m => exact does_clientCommitMessage p hout m rfl
  | clientOpenQueue => exact does_clientOpenQueue p hout rfl
  | clientOpenQueueResponse _ => exact does_idle p hout _ rfl rfl rfl
  | serverSendMessage _ _ => exact does_idle p hout _ rfl rfl rfl

theorem does_voteTimer (now : Int) : Does p.toRaftState none (p.voteTimer now) := by
  unfold voteTimer
  by_cases he : p.state = .follower ∧ p.lastHeartBeatReceived + HEARTBEAT_EXPIRE_SECONDS + 2 < now
  · simp only [if_pos he, if_true]
    exact .of (.startElection (by rw [he.1]; decide)) rfl (by simp [hout])
  · simp only [if_neg he]
    split
    · rename_i hst
      refine .of (.startElection (by rw [hst]; decide)) ?_ (by simp [hout])
      simp only [hst]
    · exact does_idle p hout _ rfl rfl rfl

theorem does_voteRequestTimer (ht : 0 < p.voteRequestTimers) :
    Does p.toRaftState none p.voteRequestTimer := by
  unfold voteRequestTimer
  simp only
  split
  · rename_i h
    exact .of (.skipVote h) rfl (by simp [hout])
  · rename_i h
    exact .of (.askVotes (by simpa using h) ht) rfl (by simp [hout, RaftState.voteRequest])

theorem does_heartbeatTimer : Does p.toRaftState none p.heartbeatTimer := by
  unfold heartbeatTimer
  split
  · rename_i h
    exact .of (.heartbeat h _) rfl (by simp [hout, RaftState.heartbeat])
  · exact does_idle p hout _ rfl rfl rfl

theorem does_handle (inp : Input) (hen : p.enabled inp = true) : Does p.toRaftState none (p.handle inp) := by
  cases inp with
  | voteTimer now => exact does_voteTimer p hout now
  | voteRequestTimer => exact does_voteRequestTimer p hout (by simpa [enabled] using hen)
  | heartbeatTimer => exact does_heartbeatTimer p hout
  | clientPutMessage randomId m => exact does_clientPutMessage p hout randomId m rfl
  | clientCommitMessage m => exact does_clientCommitMessage p hout m rfl
  | clientOpenQueue => exact does_clientOpenQueue p hout rfl
  | consumerDisconnected id =>
    exact does_idle p hout _ (triggerMessageDelivery_raft _)
      (triggerMessageDelivery_filter (by simp [Effect.isSend]) _) rfl
  | _ => exact does_idle p hout _ rfl rfl rfl

end

end Process

end FlowMQ
