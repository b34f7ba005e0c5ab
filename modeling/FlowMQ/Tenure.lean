import FlowMQ.Failover

/-!
# How long a leader stays

No message is ahead of the term of its sender. So once all nodes are in one
term, with one leader and followers only, nothing in flight can change that; it
lasts exactly as long as the vote timers of the followers fire in time.
-/

namespace FlowMQ

def TermAtMost (t : Int) : RaftMessage → Prop
  | .appendEntriesRequest q => q.term ≤ t
  | .appendEntriesResponse q => q.term ≤ t
  | .requestVoteRequest q => q.term ≤ t
  | .requestVoteResponse q => q.term ≤ t
  | _ => True

theorem TermAtMost.mono {t t' : Int} {m : RaftMessage} (h : TermAtMost t m) (ht : t ≤ t') :
    TermAtMost t' m := by
  cases m <;> first | exact le_trans h ht | trivial

theorem RaftState.EntryRequests.termAtMost {r : RaftState} {l : List Effect} (hr : r.EntryRequests l)
    {m : RaftMessage} (hm : Carries l m) : TermAtMost r.curTerm m := by
  obtain ⟨-, k, -, rfl⟩ := hr.carries hm
  exact le_refl r.curTerm

section
variable {r r' : RaftState} {msg : Option RaftMessage} {l : List Effect}

theorem Trans.sent_terms (h : Trans r msg r' l) {m : RaftMessage} (hm : Carries l m) :
    TermAtMost r'.curTerm m := by
  cases h with
  | replySuccess q h c hc next pending l hl hr => exact hr.termAtMost hm
  | replyTerm q h ht next pending l hl hr => exact hr.termAtMost hm
  | replyRetry q h ht next pending l hl hr => exact hr.termAtMost hm
  | clientAppend h e hi ht next pending l hr => exact hr.termAtMost hm
  | denyVote q h =>
    rw [carries_writeMessage] at hm
    subst hm
    exact not_lt.mp fun hlt => h (Or.inl hlt)
  | askVotes | heartbeat =>
    rw [carries_broadCast] at hm
    subst hm
    exact le_refl r.curTerm
  | staleAppend | refuseAppend | acceptAppend | grantVote =>
    rw [carries_writeMessage] at hm
    subst hm
    exact le_refl _
  | _ => exact absurd hm not_carries_nil

theorem Trans.stays {m : RaftMessage} (h : Trans r (some m) r' l) (ht : TermAtMost r.curTerm m)
    (hs : r.state ≠ .candidate) : r'.state = r.state ∧ r'.curTerm = r.curTerm := by
  have haccept : ∀ (q : AppendEntriesRequest) (now : Int), r.curTerm ≤ q.term → q.term ≤ r.curTerm →
      (r.acceptLeader now q).state = r.state ∧ (r.acceptLeader now q).curTerm = r.curTerm := by
    intro q now h₁ h₂
    refine ⟨if_neg ?_, le_antisymm h₂ h₁⟩
    rintro (hc | ⟨-, hlt⟩)
    · exact hs hc
    · omega
  have hvote : ∀ q : RequestVoteRequest, r.votable q → q.term ≤ r.curTerm → q.term = r.curTerm := by
    intro q hv hq
    unfold RaftState.votable at hv
    omega
  cases h with
  | refuseAppend q now h => exact haccept q now h ht
  | acceptAppend q now h => exact haccept q now h ht
  | replyTerm q h hlt => exact absurd hlt (not_lt.mpr ht)
  | grantVote q h => exact ⟨rfl, hvote q h ht⟩
  | ignoreVote q h => exact ⟨rfl, hvote q h ht⟩
  | countVote q hst => exact absurd hst hs
  | win q hst => exact absurd hst hs
  | _ => exact ⟨rfl, rfl⟩

end

namespace Process

theorem handle_stays (p : Process) {inp : Input} (h : ∀ now, inp ≠ .voteTimer now) :
    (p.handle inp).state = p.state ∧ (p.handle inp).curTerm = p.curTerm := by
  have hadd : ∀ e, (p.addLogEntry e).state = p.state ∧ (p.addLogEntry e).curTerm = p.curTerm := by
    intro e
    obtain ⟨next, pending, l, hr, -⟩ :=
      triggerEntryUpdates_spec p.nextIndex.keys { p with logEntries := p.logEntries ++ [e] }
    unfold addLogEntry
    rw [hr]
    exact ⟨rfl, rfl⟩
  have hsame : ∀ {p' : Process}, p'.toRaftState = p.toRaftState → p'.state = p.state ∧
      p'.curTerm = p.curTerm := by
    intro p' hr
    rw [hr]
    exact ⟨rfl, rfl⟩
  cases inp with
  | voteTimer now => exact absurd rfl (h now)
  | voteRequestTimer =>
    simp only [handle, voteRequestTimer]
    split <;> exact ⟨rfl, rfl⟩
  | heartbeatTimer =>
    simp only [handle, heartbeatTimer]
    split <;> exact ⟨rfl, rfl⟩
  | clientPutMessage randomId message =>
    simp only [handle, localMessageHandler, clientPutMessage]
    split
    · exact ⟨rfl, rfl⟩
    · exact hadd _
  | clientCommitMessage messageId =>
    simp only [handle, localMessageHandler, clientCommitMessage]
    split
    · exact ⟨rfl, rfl⟩
    · exact hadd _
  | clientOpenQueue =>
    simp only [handle, localMessageHandler, clientOpenQueue]
    split
    · exact hsame (deliverToClient_raft ..)
    · exact hsame ((triggerMessageDelivery_raft _).trans (deliverToClient_raft ..))
  | consumerDisconnected clientId => exact hsame (triggerMessageDelivery_raft _)
  | _ => exact ⟨rfl, rfl⟩

theorem voteTimer_follower {p : Process} (h : p.state = .follower) (now : Int) :
    ((p.voteTimer now).state = .follower ↔ now ≤ p.lastHeartBeatReceived + HEARTBEAT_EXPIRE_SECONDS + 2) ∧
      ((p.voteTimer now).state = .follower → (p.voteTimer now).curTerm = p.curTerm) := by
  by_cases hexp : p.lastHeartBeatReceived + HEARTBEAT_EXPIRE_SECONDS + 2 < now
  · simp [voteTimer, h, hexp]
  · simp [voteTimer, h, hexp, not_lt.mp hexp]

theorem voteTimer_leader {p : Process} (h : p.state = .leader) (now : Int) : p.voteTimer now = p := by
  simp [voteTimer, h]

end Process

namespace Cluster

variable {n : Nat} {c : Channel} {s : Cluster n}

theorem netTerms {G : Cluster n → Event n → Prop} (h : Reachable c G s) :
    ∀ pk ∈ s.net, TermAtMost (s.raft pk.src).curTerm pk.msg := by
  refine reachable_induct (P := fun s => ∀ pk ∈ s.net, TermAtMost (s.raft pk.src).curTerm pk.msg) ?_ ?_ h
  · rintro _ ⟨partitionId, serverNodes, garbage, rfl⟩ pk hpk
    cases hpk
  · intro s e s' _ ih _ hs
    have hact : ∀ {i msg net s'}, Acts s i msg net s' → (∀ pk ∈ net, pk ∈ s.net) →
        ∀ pk ∈ s'.net, TermAtMost (s'.raft pk.src).curTerm pk.msg := by
      intro i msg net s' ha hnet pk hpk
      rcases ha.mem_net hnet hpk with hold | hnew
      · refine (ih pk hold).mono ?_
        by_cases hi : pk.src = i
        · rw [hi]; exact ha.trans.curTerm_le
        · rw [ha.others _ hi]
      · rw [(mem_sent hnew).1]
        exact ha.trans.sent_terms (carries_of_mem hnew)
    cases step_spec hs with
    | lose hn => exact fun pk hpk => ih pk (mem_of_split hn pk hpk)
    | input ha => exact hact ha fun _ h => h
    | message _ _ hl ha => exact hact ha hl.subset.2

def OnTime (s : Cluster n) : Event n → Prop
  | .input j (.voteTimer now) => (s.raft j).state = .follower →
      now ≤ (s.raft j).lastHeartBeatReceived + HEARTBEAT_EXPIRE_SECONDS + 2
  | _ => True

def Steady (i : Fin n) (t : Int) (s : Cluster n) : Prop :=
  ∀ j, (s.raft j).curTerm = t ∧ (s.raft j).state = if j = i then .leader else .follower

theorem Steady.of_settled {i : Fin n} (h : Settled s i) : Steady i (s.raft i).curTerm s := by
  intro j
  by_cases hj : j = i
  · subst hj
    simpa using h.1
  · obtain ⟨h₁, h₂, -⟩ := h.2 j hj
    simpa [hj] using ⟨h₂, h₁⟩

theorem Steady.not_candidate {i : Fin n} {t : Int} (h : Steady i t s) (j : Fin n) :
    (s.raft j).state ≠ .candidate := by
  rw [(h j).2]
  split <;> exact nofun

theorem Steady.act_iff {i j : Fin n} {t : Int} (h : Steady i t s) (f : Process → Process)
    (net : List (Packet n)) :
    Steady i t (s.act j f net) ↔
      (f (s.procs j).clear).curTerm = t ∧ (f (s.procs j).clear).state = if j = i then .leader else .follower := by
  constructor
  · intro h'
    have hj := h' j
    rwa [raft_act_self] at hj
  · intro h' k
    by_cases hk : k = j
    · subst hk
      rwa [raft_act_self]
    · rw [raft_act_of_ne hk]
      exact h k

theorem Steady.input_iff {i j : Fin n} {t : Int} (h : Steady i t s) (inp : Input) (net : List (Packet n)) :
    Steady i t (s.act j (·.handle inp) net) ↔ OnTime s (.input j inp) := by
  rw [h.act_iff]
  obtain ⟨hterm, hstate⟩ := h j
  have hterm' : (s.procs j).clear.curTerm = t := hterm
  have hstate' : (s.procs j).clear.state = if j = i then .leader else .follower := hstate
  by_cases hinp : ∃ now, inp = .voteTimer now
  · obtain ⟨now, rfl⟩ := hinp
    simp only [Process.handle, OnTime, hstate]
    by_cases hj : j = i
    · subst hj
      rw [if_pos rfl] at hstate'
      simpa [Process.voteTimer_leader hstate'] using ⟨hterm', hstate'⟩
    · rw [if_neg hj] at hstate'
      obtain ⟨hiff, hkeep⟩ := Process.voteTimer_follower hstate' now
      simp only [hj, if_false, true_imp_iff]
      rw [hiff]
      refine ⟨fun h => h.2, fun h => ⟨?_, h⟩⟩
      rw [hkeep (hiff.mpr h)]
      exact hterm
  · have hcalm := Process.handle_stays (s.procs j).clear (not_exists.mp hinp)
    have hon : OnTime s (.input j inp) := by
      cases inp with
      | voteTimer now => exact absurd ⟨now, rfl⟩ hinp
      | _ => trivial
    rw [hcalm.1, hcalm.2]
    exact iff_of_true ⟨hterm', hstate'⟩ hon

theorem Steady.message {i : Fin n} {t : Int} (h : Steady i t s) {pk : Packet n}
    (hterm : TermAtMost (s.raft pk.src).curTerm pk.msg) (now : Int) (net : List (Packet n)) :
    Steady i t (s.act pk.dst (·.localMessageHandler now 0 pk.msg) net) := by
  rw [h.act_iff]
  rw [(h pk.src).1, ← (h pk.dst).1] at hterm
  have hstay := (acts_message s pk now net).trans.stays hterm (h.not_candidate pk.dst)
  rw [raft_act_self] at hstay
  rw [hstay.1, hstay.2]
  exact h pk.dst

theorem Steady.step_iff {i : Fin n} {t : Int} {s' : Cluster n} {e : Event n} (h : Steady i t s)
    (hreach : Reachable c Free s) (hs : s.step c e = some s') : Steady i t s' ↔ OnTime s e := by
  cases step_spec hs with
  | lose => exact iff_of_true h trivial
  | input => exact h.input_iff _ _
  | message he _ hl =>
    refine iff_of_true (h.message (netTerms hreach _ hl.subset.1) _ _) ?_
    rcases he with rfl | rfl <;> trivial

/-- Once a leader is followed by all, it stays the only leader of the one term they are all in exactly as long
as no follower's vote timer fires more than five seconds after the last heartbeat. -/
theorem steady_iff_onTime {i : Fin n} (r : Runs.Run (fun s => Reachable c Free s ∧ Settled s i) (step c)) :
    (∀ k ≤ r.length, Steady i ((r.states 0).raft i).curTerm (r.states k)) ↔ r.Always OnTime := by
  obtain ⟨hreach, hset⟩ := r.starts
  have hall : ∀ k ≤ r.length, Reachable c Free (r.states k) := fun k hk =>
    hreach.steps (r.reaches (fun _ _ => trivial) (Nat.zero_le k) hk)
  refine r.iff_always (I := Steady i ((r.states 0).raft i).curTerm) (.of_settled hset) (fun _ _ h => h) ?_ ?_
  · exact fun k hk h hok => (h.step_iff (hall k hk.le) (r.steps k hk)).mpr hok
  · exact fun k hk h h' => (h.step_iff (hall k hk.le) (r.steps k hk)).mp h'

end Cluster

end FlowMQ
