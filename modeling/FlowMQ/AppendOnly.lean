import FlowMQ.Replication

/-!
# The log of a leader

A node that leads before and after an event may only add to its log. The append
request handler of a leader does not step down for a request of its own term and
then takes the entry like any follower, so a leader cuts its log exactly where
such a request conflicts with it. With one leader in each term there is no such
request, but a leader can get into the term of another one: a vote request or a
failed append response of a later term raises `cur_term_` and leaves `state_`.
-/

namespace FlowMQ

theorem Trans.leader_keeps_iff {r r' : RaftState} {msg : Option RaftMessage} {l : List Effect}
    (ht : Trans r msg r' l) (hl : r.state = .leader)
    (hq : ∀ q, msg = some (.appendEntriesRequest q) → ShapedRequest q) :
    (r'.state = .leader → r.logEntries <+: r'.logEntries) ↔ ∀ m ∈ msg,
    onAppendRequest KeepsLeaderLog r m := by
  have hsame : r'.logEntries = r.logEntries →
      (∀ q, msg = some (.appendEntriesRequest q) → KeepsLeaderLog r q) →
      ((r'.state = .leader → r.logEntries <+: r'.logEntries) ↔ ∀ m ∈ msg,
      onAppendRequest KeepsLeaderLog r m) := by
    intro hlog hkeep
    refine iff_of_true (fun _ => hlog ▸ List.prefix_refl _) fun m hm => ?_
    unfold onAppendRequest
    split
    · exact hkeep _ hm
    · trivial
  cases ht with
  | clientAppend h e hi ht next pending l hr hm =>
    refine iff_of_true (fun _ => List.prefix_append _ _) fun m hmsg => ?_
    cases hmsg
    cases m with
    | appendEntriesRequest q => cases hm
    | _ => trivial
  | idle hm =>
    refine hsame rfl fun q hmsg => ?_
    cases hmsg
    cases hm
  | staleAppend q h =>
    refine hsame rfl fun q' hmsg _ heq => ?_
    cases hmsg
    omega
  | refuseAppend q now h hs =>
    refine hsame rfl fun q' hmsg _ _ hs' => ?_
    cases hmsg
    rw [hs] at hs'
    cases hs'
  | acceptAppend q now h hs =>
    have hiff := appendLog_keeps_iff (hq q rfl) hs
    constructor
    · intro hpre m hm
      cases hm
      intro _ hct _
      refine hiff.mp (hpre ?_)
      -- a request of its own term leaves the leader a leader
      simp [RaftState.acceptLeader, hl, hct]
    · intro hkeep hl'
      have hct : q.term = r.curTerm := by
        by_contra hne
        have hgt : r.curTerm < q.term := lt_of_le_of_ne h (Ne.symm hne)
        simp [RaftState.acceptLeader, hl, hgt] at hl'
      exact hiff.mpr (hkeep _ rfl hl hct hs)
  | _ => exact hsame rfl fun q hmsg => by cases hmsg

namespace Cluster

variable {n : Nat}

def LeadersAppend (s s' : Cluster n) : Prop :=
  ∀ i, (s.raft i).state = .leader → (s'.raft i).state = .leader →
    (s.raft i).logEntries <+: (s'.raft i).logEntries

theorem Acts.leadersAppend_iff {s s' : Cluster n} {i : Fin n} {msg : Option RaftMessage} {net : List (Packet n)}
    (h : Acts s i msg net s') (hq : ∀ q, msg = some (.appendEntriesRequest q) → ShapedRequest q) :
    LeadersAppend s s' ↔ ∀ m ∈ msg, onAppendRequest KeepsLeaderLog (s.raft i) m := by
  by_cases hl : (s.raft i).state = .leader
  · rw [← h.trans.leader_keeps_iff hl hq]
    constructor
    · intro hall hl'
      exact hall i hl hl'
    · intro hi j hj hj'
      by_cases hji : j = i
      · subst hji
        exact hi hj'
      · rw [h.others j hji]
  · -- only a leader is asked to keep its log
    refine iff_of_true (fun j hj _ => ?_) fun m _ => ?_
    · have hji : j ≠ i := by
        rintro rfl
        exact hl hj
      rw [h.others j hji]
    · unfold onAppendRequest
      split
      · exact fun hl' => absurd hl' hl
      · trivial

theorem leadersAppend_step_iff {c : Channel} {s s' : Cluster n} {e : Event n} (hstep : s.step c e = some s')
    (hw : WellFormed s) : LeadersAppend s s' ↔ onMessage (onAppendRequest KeepsLeaderLog) s e := by
  cases step_spec hstep with
  | lose h => exact iff_of_true (fun i _ _ => List.prefix_refl _) trivial
  | input h =>
    rw [h.leadersAppend_iff (fun q hq => by cases hq)]
    exact iff_of_true (fun m hm => by cases hm) trivial
  | @message e k now pk net he hk hl h =>
    have hpk : pk ∈ s.net := List.mem_of_getElem? hk
    rw [h.leadersAppend_iff fun q hq => hw.requests pk hpk q (Option.some.inj hq)]
    rcases he with rfl | rfl <;> simp [onMessage, hk, raft]

/-- The leaders of a run only add to their logs exactly when none of them takes a conflicting entry of its own
term; and none does as long as leaders keep their terms and the others do not replicate. -/
theorem leaders_append_only_iff (r : Execution n .fifo) :
    ((∀ k < r.length, LeadersAppend (r.states k) (r.states (k + 1))) ↔
      r.Always (onMessage (onAppendRequest KeepsLeaderLog))) ∧
    (r.Always (onMessage fun p m => KeepsTerm p m ∧ onAppendResponse SilentReply p m) →
      ∀ k < r.length, LeadersAppend (r.states k) (r.states (k + 1))) := by
  have hiff : (∀ k < r.length, LeadersAppend (r.states k) (r.states (k + 1))) ↔
      r.Always (onMessage (onAppendRequest KeepsLeaderLog)) :=
    forall₂_congr fun k hk => leadersAppend_step_iff (r.steps k hk) (wellFormed_run r hk.le)
  refine ⟨hiff, fun hg => hiff.mpr fun k hk => ?_⟩
  have hc : Channel.fifo ≠ .duplicating := by decide
  have hterm : r.Always (onMessage KeepsTerm) := hg.mono (onMessage_mono fun _ _ h => h.1)
  have hsilent : r.Always (onMessage (onAppendResponse SilentReply)) :=
    hg.mono (onMessage_mono fun _ _ h => h.2)
  exact keepsLeaderLog (requestsWon hc r hterm hsilent k hk.le) (electionInv hc r k hk.le)
    (leadersWon hc r hterm k hk.le) _

/-- Node 0 leads term 1 and holds "a". The vote request of node 2 takes it to term 2, in which it still leads.
Node 2 wins that term with the vote of node 1 and sends node 0 its entry "b". -/
def overtakenLeader : List (Event 3) :=
  electZero ++ [.input 0 (.clientPutMessage 7 (toBytes "a")), .input 2 (.voteTimer 2),
    .input 2 (.voteTimer 3), .input 2 .voteRequestTimer, .deliver 3 4, .deliver 3 5, .deliver 3 6,
    .input 2 (.clientPutMessage 8 (toBytes "b")),
    .deliver 3 7]

theorem overtakenLeader_isSome : (Runs.exec (step .fifo) (fresh 3) overtakenLeader).isSome := by
  decide +kernel

theorem not_leadersAppend_overtakenLeader :
    ∃ r : Execution 3 .fifo, ∃ k < r.length, ¬ LeadersAppend (r.states k) (r.states (k + 1)) := by
  let r : Execution 3 .fifo := .ofEvents (fresh 3) starts_three overtakenLeader overtakenLeader_isSome
  refine ⟨r, 12, by decide, fun h => ?_⟩
  exact absurd (h 0 (by decide +kernel) (by decide +kernel)) (by decide +kernel)

end Cluster

end FlowMQ
