import FlowMQ.Ghost

/-!
# What one handler can do to the votes

Most handlers leave the votes alone, though they may move the node to another
term. The others start an election, ask for votes, grant one, or count one.
-/

namespace FlowMQ

def Casts : RaftMessage → Prop
  | .requestVoteRequest _ => True
  | .requestVoteResponse q => q.voteResultTermGranted ≠ 0
  | _ => False

structure Quiet (r r' : RaftState) (l : List Effect) : Prop where
  votedFor : r'.votedFor = r.votedFor
  votes : r'.votesCollected = r.votesCollected ∨ (r.curTerm < r'.curTerm ∧ r'.votesCollected = 0)
  timers : r'.voteRequestTimers ≤ r.voteRequestTimers
  leads : r'.state = .leader → r.state = .leader
  stays : r.state = .leader → r'.curTerm = r.curTerm → r'.state = .leader
  casts : ∀ m, Carries l m → ¬ Casts m

inductive VoteStep (r : RaftState) : Option RaftMessage → RaftState → List Effect → Prop
  | quiet {msg r' l} (h : Quiet r r' l) : VoteStep r msg r' l
  | start (h : r.state ≠ .leader) :
    VoteStep r none { r with state := .candidate, curTerm := r.curTerm + 1, votedFor := -1, votesCollected := 0
                             voteRequestTimers := r.voteRequestTimers + 1 } []
  | ask (h : r.votedFor = -1) (ht : 0 < r.voteRequestTimers) :
    VoteStep r none { r with voteRequestTimers := r.voteRequestTimers - 1, votedFor := r.nodeId
                             votesCollected := r.votesCollected + 1 }
      [.broadCast (.requestVoteRequest r.voteRequest)]
  | grant (q : RequestVoteRequest) (h : r.votable q) (hst : r.state ≠ .leader) :
    VoteStep r (some (.requestVoteRequest q))
      { r with curTerm := q.term, votedFor := q.candidateId
               votesCollected := if r.curTerm < q.term then 0 else r.votesCollected }
      [.writeMessage q.candidateId (.requestVoteResponse ⟨q.term, 1⟩)]
  | count (q : RequestVoteResponse) (hst : r.state = .candidate) (hg : q.voteResultTermGranted ≠ 0)
    (ht : r.curTerm ≤ q.term) (v : Int)
    (hv : v = if q.voteResultTermGranted = 1 then r.votesCollected + 1 else r.votesCollected) (st : State) (t : Int)
    (hw : (st = .candidate ∧ t = r.curTerm) ∨ (st = .leader ∧ t = q.term ∧ r.totalNodes / 2 < v)) :
    VoteStep r (some (.requestVoteResponse q)) { r with votesCollected := v, state := st, curTerm := t } []

theorem not_casts_entryRequests {r : RaftState} {l : List Effect} (hr : r.EntryRequests l) {m : RaftMessage}
    (hm : Carries l m) : ¬ Casts m := by
  obtain ⟨-, k, -, rfl⟩ := hr.carries hm
  exact id

theorem not_casts_single {dst : Int} {m' m : RaftMessage} (hm : Carries [.writeMessage dst m'] m) (h : ¬ Casts m') :
    ¬ Casts m := by
  rw [carries_writeMessage.mp hm]
  exact h

theorem quiet_acceptLeader (r : RaftState) (q : AppendEntriesRequest) (now : Int) :
    ((r.acceptLeader now q).state = .leader → r.state = .leader) ∧
      (r.state = .leader → q.term = r.curTerm → (r.acceptLeader now q).state = .leader) := by
  constructor
  · intro hl
    simp only [RaftState.acceptLeader] at hl
    split at hl
    · cases hl
    · exact hl
  · intro hl ht
    simp [RaftState.acceptLeader, hl, ht]

theorem Trans.votes {r r' : RaftState} {msg : Option RaftMessage} {l : List Effect} (h : Trans r msg r' l) :
    VoteStep r msg r' l := by
  cases h with
  | startElection h => exact .start h
  | askVotes h ht => exact .ask h ht
  | grantVote q h hst => exact .grant q h hst
  | countVote q hst hg ht v hv =>
    have hr : { r with votesCollected := v } = { r with votesCollected := v, state := State.candidate } := by
      rw [← hst]
    rw [hr]
    exact .count q hst hg ht v hv .candidate r.curTerm (Or.inl ⟨rfl, rfl⟩)
  | win q hst hg ht v hv hw => exact .count q hst hg ht v hv .leader q.term (Or.inr ⟨rfl, rfl, hw⟩)
  | idle => exact .quiet ⟨rfl, Or.inl rfl, le_refl _, id, fun h _ => h, by simp⟩
  | skipVote h => exact .quiet ⟨rfl, Or.inl rfl, Nat.sub_le _ _, id, fun h _ => h, by simp⟩
  | heartbeat h pending =>
    refine .quiet ⟨rfl, Or.inl rfl, le_refl _, id, fun h _ => h, fun m hm => ?_⟩
    rw [carries_broadCast.mp hm]
    exact id
  | staleAppend q h =>
    exact .quiet ⟨rfl, Or.inl rfl, le_refl _, id, fun h _ => h, fun m hm => not_casts_single hm id⟩
  | refuseAppend q now h =>
    obtain ⟨h₁, h₂⟩ := quiet_acceptLeader r q now
    exact .quiet ⟨rfl, Or.inl rfl, le_refl _, h₁, h₂, fun m hm => not_casts_single hm id⟩
  | acceptAppend q now h hs =>
    obtain ⟨h₁, h₂⟩ := quiet_acceptLeader r q now
    exact .quiet ⟨rfl, Or.inl rfl, le_refl _, h₁, h₂, fun m hm => not_casts_single hm id⟩
  | replySuccess q h c hc next pending l hl hr =>
    exact .quiet ⟨rfl, Or.inl rfl, le_refl _, id, fun h _ => h, fun m hm => not_casts_entryRequests hr hm⟩
  | replyTerm q h ht next pending l hl hr =>
    exact .quiet ⟨rfl, Or.inl rfl, le_refl _, id, fun h _ => h, fun m hm => not_casts_entryRequests hr hm⟩
  | replyRetry q h ht next pending l hl hr =>
    exact .quiet ⟨rfl, Or.inl rfl, le_refl _, id, fun h _ => h, fun m hm => not_casts_entryRequests hr hm⟩
  | denyVote q h =>
    refine .quiet ⟨rfl, Or.inl rfl, le_refl _, id, fun h _ => h, fun m hm => not_casts_single hm ?_⟩
    simp [Casts]
  | ignoreVote q h hst =>
    refine .quiet ⟨rfl, ?_, le_refl _, id, fun h _ => h, by simp⟩
    by_cases hlt : r.curTerm < q.term
    · exact Or.inr ⟨hlt, if_pos hlt⟩
    · exact Or.inl (if_neg hlt)
  | clientAppend h e hi ht next pending l hr =>
    exact .quiet ⟨rfl, Or.inl rfl, le_refl _, id, fun h _ => h, fun m hm => not_casts_entryRequests hr hm⟩

namespace VoteStep

variable {r r' : RaftState} {msg : Option RaftMessage} {l : List Effect}

theorem votedFor_stable (h : VoteStep r msg r' l) (ht : r'.curTerm = r.curTerm) (hv : r.votedFor ≠ -1) :
    r'.votedFor = r.votedFor := by
  cases h with
  | quiet h => exact h.votedFor
  | start h => simp at ht
  | ask h => exact absurd h hv
  | grant q h hst =>
    rcases h with h | ⟨-, h | h⟩
    · exact absurd ht (ne_of_gt h)
    · exact absurd h hv
    · exact h.symm
  | count => rfl

theorem counts (h : VoteStep r msg r' l) (hc : Counts r r') :
    (msg = none ∧ r.votedFor = -1 ∧ 0 < r.voteRequestTimers ∧ r'.votedFor = r.nodeId ∧
      l = [.broadCast (.requestVoteRequest r.voteRequest)]) ∨
    (l = [] ∧ ∃ q, msg = some (.requestVoteResponse q) ∧ q.voteResultTermGranted ≠ 0 ∧
      r.curTerm ≤ q.term) := by
  obtain ⟨hct, hvc⟩ := hc
  cases h with
  | quiet h =>
    rcases h.votes with hv | hv
    · omega
    · omega
  | start => simp at hct
  | ask h ht => exact Or.inl ⟨rfl, h, ht, rfl, rfl⟩
  | grant q h hst =>
    simp only at hct hvc
    rw [if_neg (by omega)] at hvc
    omega
  | count q hst hg ht => exact Or.inr ⟨rfl, q, rfl, hg, ht⟩

theorem wins (h : VoteStep r msg r' l) (hw : Wins r r') :
    ∃ q, msg = some (.requestVoteResponse q) ∧ q.voteResultTermGranted ≠ 0 ∧ r.curTerm ≤ q.term ∧
      r'.curTerm = q.term ∧ r.totalNodes / 2 < r'.votesCollected ∧
      (q.voteResultTermGranted = 1 → r'.votesCollected = r.votesCollected + 1) := by
  obtain ⟨hc, hl⟩ := hw
  cases h with
  | quiet h => rw [h.leads hl] at hc; cases hc
  | start => cases hl
  | ask => rw [show r.state = _ from hl] at hc; cases hc
  | grant => rw [show r.state = _ from hl] at hc; cases hc
  | count q hst hg ht v hv st t hw =>
    rcases hw with ⟨rfl, -⟩ | ⟨-, rfl, hw⟩
    · cases hl
    · exact ⟨q, rfl, hg, ht, rfl, hw, fun h1 => by simpa [h1] using hv⟩

end VoteStep

end FlowMQ
