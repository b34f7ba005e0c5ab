import FlowMQ.LateReply

/-!
# Messages of an earlier term

What is left of a message whose term is behind the node's. Both vote handlers
drop it. The append request handler forgets the leader it knew, and the append
response handler does not look at the term of a successful reply and takes a
failed one for a reply of its own term.
-/

namespace FlowMQ

open Std (ExtTreeMap)

def RaftMessage.nodeTerm : RaftMessage → Option Int
  | .appendEntriesRequest q => some q.term
  | .appendEntriesResponse q => some q.term
  | .requestVoteRequest q => some q.term
  | .requestVoteResponse q => some q.term
  | _ => none

namespace Process

/-- Nothing but `pending_append_reqs_`, the heartbeat time and what is sent differs. -/
structure Inert (p p' : Process) : Prop where
  curTerm : p'.curTerm = p.curTerm
  votedFor : p'.votedFor = p.votedFor
  votesCollected : p'.votesCollected = p.votesCollected
  state : p'.state = p.state
  curLeader : p'.curLeader = p.curLeader
  logEntries : p'.logEntries = p.logEntries
  commitIndex : p'.commitIndex = p.commitIndex
  matchedIndex : p'.matchedIndex = p.matchedIndex
  nextIndex : p'.nextIndex = p.nextIndex
  messageQueue : p'.messageQueue = p.messageQueue

/-- When a message of an earlier term changes nothing: no leader is known, a success reports what the maps
already hold and commits nothing, a failure finds `next_index_` at its minimum. -/
def DropsStale (p : Process) : RaftMessage → Prop
  | .appendEntriesRequest _ => p.curLeader = -1
  | .appendEntriesResponse q =>
    if q.appendResultSuccess ≠ 0 then
      p.matchedIndex[q.followerId]? = some q.lastIndexSynced ∧
        p.nextIndex[q.followerId]? = some (q.lastIndexSynced + 1) ∧ ¬ p.toRaftState.commits q
    else p.nextIndex[q.followerId]? = some 1
  | _ => True

instance (p : Process) : (msg : RaftMessage) → Decidable (p.DropsStale msg)
  | .appendEntriesRequest _ => inferInstanceAs (Decidable (_ = _))
  | .appendEntriesResponse q => by unfold DropsStale; infer_instance
  | .requestVoteRequest _ => inferInstanceAs (Decidable True)
  | .requestVoteResponse _ => inferInstanceAs (Decidable True)
  | .clientPutMessage _ => inferInstanceAs (Decidable True)
  | .clientCommitMessage _ => inferInstanceAs (Decidable True)
  | .clientOpenQueue => inferInstanceAs (Decidable True)
  | .clientOpenQueueResponse _ => inferInstanceAs (Decidable True)
  | .serverSendMessage _ _ => inferInstanceAs (Decidable True)

/-! ## The maps of a leader -/

theorem triggerEntryUpdate_raft (f : Int) (p : Process) :
    ∃ pending, (p.triggerEntryUpdate f).toRaftState =
      { p.toRaftState with nextIndex := p.nextIndex.insertIfNew f 0, pendingAppendReqs := pending } := by
  unfold triggerEntryUpdate
  simp only
  split
  · split <;> exact ⟨_, rfl⟩
  · exact ⟨_, rfl⟩

theorem appendEntriesResponse_success (q : AppendEntriesResponse) (p : Process)
    (h : q.appendResultSuccess ≠ 0) :
    ∃ pending, (p.appendEntriesResponse q).toRaftState =
      { p.toRaftState with
        matchedIndex := p.matchedIndex.insert q.followerId q.lastIndexSynced
        nextIndex := p.nextIndex.insert q.followerId (q.lastIndexSynced + 1)
        commitIndex := if p.toRaftState.commits q then q.lastIndexSynced else p.commitIndex
        pendingAppendReqs := pending } := by
  let p₁ : Process := { p with
    pendingAppendReqs :=
      p.pendingAppendReqs.insert q.followerId (max 0 (p.pendingAppendReqs.getD q.followerId 0 - 1))
    matchedIndex := p.matchedIndex.insert q.followerId q.lastIndexSynced }
  have hmaj := commitOnMajority_raft p₁ q h p.toRaftState rfl rfl rfl
  let p₂ : Process := { p₁.commitOnMajority q.lastIndexSynced with
    nextIndex := (p₁.commitOnMajority q.lastIndexSynced).nextIndex.insert q.followerId
      ((p₁.commitOnMajority q.lastIndexSynced).matchedIndex.getD q.followerId 0 + 1) }
  have hp₂ : p₂.toRaftState = { p₁.toRaftState with
      nextIndex := p.nextIndex.insert q.followerId (q.lastIndexSynced + 1)
      commitIndex := if p.toRaftState.commits q then q.lastIndexSynced else p.commitIndex } := by
    simp only [p₂, hmaj, p₁, ExtTreeMap.getD_insert_self]
  have hrun : p.appendEntriesResponse q = p₂.triggerEntryUpdate q.followerId := by
    unfold appendEntriesResponse
    simp only [if_pos h]
    rfl
  obtain ⟨pending, hraft⟩ := triggerEntryUpdate_raft q.followerId p₂
  refine ⟨pending, ?_⟩
  rw [hrun, hraft, hp₂, Maps.insertIfNew_of_mem ExtTreeMap.mem_insert_self]

theorem appendEntriesResponse_retry (q : AppendEntriesResponse) (p : Process) (h : q.appendResultSuccess = 0)
    (ht : q.term ≤ p.curTerm) :
    ∃ pending, (p.appendEntriesResponse q).toRaftState =
      { p.toRaftState with
        nextIndex := p.nextIndex.insert q.followerId (max 1 (p.nextIndex.getD q.followerId 0 - 1))
        pendingAppendReqs := pending } := by
  unfold appendEntriesResponse
  simp only [h, ne_eq, not_true_eq_false, if_false, if_neg (not_lt.mpr ht)]
  obtain ⟨pending, hraft⟩ := triggerEntryUpdate_raft q.followerId
    { p with
      pendingAppendReqs :=
        p.pendingAppendReqs.insert q.followerId (max 0 (p.pendingAppendReqs.getD q.followerId 0 - 1))
      nextIndex := p.nextIndex.insert q.followerId (max 1 (p.nextIndex.getD q.followerId 0 - 1)) }
  refine ⟨pending, hraft.trans ?_⟩
  rw [Maps.insertIfNew_of_mem ExtTreeMap.mem_insert_self]

/-! ## The four handlers -/

theorem inert_appendEntriesRequest {now : Int} {q : AppendEntriesRequest} {p : Process}
    (h : q.term < p.curTerm) :
    Inert p (p.appendEntriesRequest now q) ↔ p.curLeader = -1 := by
  have hrun : p.appendEntriesRequest now q = { p with curLeader := -1 }.replyAppend q.leaderId 0 (-1) := by
    unfold appendEntriesRequest
    rw [if_pos h]
  rw [hrun]
  constructor
  · intro hi
    exact hi.curLeader.symm
  · intro hl
    exact ⟨rfl, rfl, rfl, rfl, hl.symm, rfl, rfl, rfl, rfl, rfl⟩

theorem Inert.of_raft {p p' : Process} {pending : IndexMap}
    (hr : p'.toRaftState = { p.toRaftState with pendingAppendReqs := pending })
    (hq : p'.messageQueue = p.messageQueue) : Inert p p' := by
  constructor <;> try rw [hr]
  exact hq

theorem inert_appendEntriesResponse {q : AppendEntriesResponse} {p : Process} (h : q.term < p.curTerm) :
    Inert p (p.appendEntriesResponse q) ↔ p.DropsStale (.appendEntriesResponse q) := by
  simp only [DropsStale]
  by_cases hs : q.appendResultSuccess ≠ 0
  · obtain ⟨pending, hraft⟩ := appendEntriesResponse_success q p hs
    rw [if_pos hs]
    constructor
    · intro hi
      have hm := hi.matchedIndex
      have hn := hi.nextIndex
      have hc := hi.commitIndex
      rw [hraft] at hm hn hc
      refine ⟨Maps.insert_eq_self_iff.mp hm, Maps.insert_eq_self_iff.mp hn, fun hcom => ?_⟩
      -- a commit moves `commit_index_` forward
      have hlt := hcom.2.1
      simp only [if_pos hcom] at hc
      omega
    · rintro ⟨hm, hn, hcom⟩
      rw [if_neg hcom, Maps.insert_eq_self_iff.mpr hm, Maps.insert_eq_self_iff.mpr hn] at hraft
      exact .of_raft hraft ((blind_messageQueue.appendEntriesResponse q p).trans (if_neg hcom))
  · have hf : q.appendResultSuccess = 0 := not_not.mp hs
    have hcom : ¬ p.toRaftState.commits q := fun hc => hs hc.1
    obtain ⟨pending, hraft⟩ := appendEntriesResponse_retry q p hf h.le
    rw [if_neg hs]
    constructor
    · intro hi
      have hn := hi.nextIndex
      rw [hraft] at hn
      have hget := Maps.insert_eq_self_iff.mp hn
      -- so `next_index_` is a fixed point of the step back
      have hval : p.nextIndex.getD q.followerId 0 = (p.nextIndex[q.followerId]?).getD 0 :=
        ExtTreeMap.getD_eq_getD_getElem?
      rw [hget, Option.getD_some] at hval
      rw [hget]
      congr 1
      omega
    · intro hn
      have hval : p.nextIndex.getD q.followerId 0 = 1 := by
        rw [ExtTreeMap.getD_eq_getD_getElem?, hn]
        rfl
      rw [hval, Maps.insert_eq_self_iff.mpr (by simpa using hn)] at hraft
      exact .of_raft hraft ((blind_messageQueue.appendEntriesResponse q p).trans (if_neg hcom))

theorem inert_requestVoteRequest {q : RequestVoteRequest} {p : Process} (h : q.term < p.curTerm) :
    Inert p (p.requestVoteRequest q) := by
  have hrun : p.requestVoteRequest q = p.replyVote q.candidateId q.term 0 := by
    unfold requestVoteRequest
    exact if_pos (Or.inl h)
  rw [hrun]
  exact ⟨rfl, rfl, rfl, rfl, rfl, rfl, rfl, rfl, rfl, rfl⟩

theorem inert_requestVoteResponse {q : RequestVoteResponse} {p : Process} (h : q.term < p.curTerm) :
    Inert p (p.requestVoteResponse q) := by
  have hrun : p.requestVoteResponse q = p := by
    unfold requestVoteResponse
    simp only [if_pos h, ite_self]
  rw [hrun]
  exact ⟨rfl, rfl, rfl, rfl, rfl, rfl, rfl, rfl, rfl, rfl⟩

/-- A message of an earlier term changes nothing exactly where its handler finds nothing to change. -/
theorem inert_iff_dropsStale (now randomId : Int) (msg : RaftMessage) (p : Process) {t : Int}
    (hterm : msg.nodeTerm = some t) (ht : t < p.curTerm) :
    Inert p (p.localMessageHandler now randomId msg) ↔ p.DropsStale msg := by
  cases msg with
  | appendEntriesRequest q =>
    cases hterm
    exact inert_appendEntriesRequest ht
  | appendEntriesResponse q =>
    cases hterm
    exact inert_appendEntriesResponse ht
  | requestVoteRequest q =>
    cases hterm
    exact iff_of_true (inert_requestVoteRequest ht) trivial
  | requestVoteResponse q =>
    cases hterm
    exact iff_of_true (inert_requestVoteResponse ht) trivial
  | clientPutMessage m => cases hterm
  | clientCommitMessage id => cases hterm
  | clientOpenQueue => cases hterm
  | clientOpenQueueResponse m => cases hterm
  | serverSendMessage id m => cases hterm

theorem inert_candidate_zero :
    Inert ((construct 0 0 3 [] ⟨0, 0⟩ [] 0).voteTimer 1)
      (((construct 0 0 3 [] ⟨0, 0⟩ [] 0).voteTimer 1).localMessageHandler 2 0
        (.appendEntriesResponse ⟨0, 1, 1, 0⟩)) :=
  (inert_iff_dropsStale 2 0 (.appendEntriesResponse ⟨0, 1, 1, 0⟩) _ rfl (by decide +kernel)).mpr (by decide +kernel)

end Process

namespace Cluster

theorem not_inert_lateReply : ∃ (s : Cluster 3) (i : Fin 3) (now randomId t : Int) (msg : RaftMessage),
    Reachable .fifo Free s ∧ msg.nodeTerm = some t ∧ t < (s.procs i).curTerm ∧
      ¬ Process.Inert (s.procs i) ((s.procs i).localMessageHandler now randomId msg) := by
  obtain ⟨s, hr, hterm, hci, hci'⟩ := exists_reachable (c := .fifo) (G := Free)
    (lateReply (.clientPutMessage 7 (toBytes "a")))
    (fun s => (s.procs 0).curTerm = 2 ∧ (s.procs 0).commitIndex = 0 ∧
      ((s.procs 0).localMessageHandler 7 0 (.appendEntriesResponse ⟨1, 1, 1, 1⟩)).commitIndex = 1)
      (by decide +kernel)
  refine ⟨s, 0, 7, 0, 1, .appendEntriesResponse ⟨1, 1, 1, 1⟩, hr, rfl, by omega, fun h => ?_⟩
  have heq := h.commitIndex
  omega

end Cluster

end FlowMQ
