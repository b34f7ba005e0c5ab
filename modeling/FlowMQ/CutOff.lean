import FlowMQ.Window

/-!
# What a lost request costs

`pending_append_reqs_` of a follower is what is in flight between the two nodes
plus the append requests and answers that were ever lost between them, and
nothing takes the losses off again. After two of them the window is closed: the
node never sends that follower another log entry.
-/

namespace FlowMQ

open Std (ExtTreeMap)

def Effect.sendsEntryTo (j : Int) (e : Effect) : Bool :=
  e.sendsTo (fun | .appendEntriesRequest q => !q.entries.isEmpty | _ => false) j

namespace Process

def Full (j : Int) (p : Process) : Prop := MAX_PENDING_APPEND ≤ p.pendingAppendReqs.getD j 0

theorem triggerEntryUpdate_full {j : Int} (f : Int) {p : Process} (h : p.Full j) :
    (p.triggerEntryUpdate f).Full j ∧
      (p.triggerEntryUpdate f).out.filter (Effect.sendsEntryTo j) = p.out.filter (Effect.sendsEntryTo j) := by
  unfold triggerEntryUpdate
  simp only
  split
  · split
    · rename_i hp
      have hf : f ≠ j := by
        rintro rfl
        exact absurd h (not_le.mpr hp)
      constructor
      · simpa [Full, ExtTreeMap.getD_insert, hf] using h
      · simp [Effect.sendsEntryTo, Effect.sendsTo, hf]
    · refine ⟨?_, rfl⟩
      unfold Full
      rw [Maps.getD_insertIfNew_default]
      exact h
  · exact ⟨h, rfl⟩

theorem triggerEntryUpdates_full {j : Int} : ∀ (fs : List Int) {p : Process}, p.Full j →
    (fs.foldl (fun p f => p.triggerEntryUpdate f) p).out.filter (Effect.sendsEntryTo j) =
      p.out.filter (Effect.sendsEntryTo j)
  | [], _, _ => rfl
  | f :: fs, p, h => by
    obtain ⟨h₁, ho⟩ := triggerEntryUpdate_full f h
    rw [List.foldl_cons, triggerEntryUpdates_full fs h₁, ho]

theorem addLogEntry_full {j : Int} (e : LogEntry) {p : Process} (h : p.Full j) :
    (p.addLogEntry e).out.filter (Effect.sendsEntryTo j) = p.out.filter (Effect.sendsEntryTo j) :=
  triggerEntryUpdates_full _ (p := { p with logEntries := p.logEntries ++ [e] }) h

section
variable (j : Int)

theorem triggerMessageDelivery_sendsEntryTo (p : Process) :
    p.triggerMessageDelivery.out.filter (Effect.sendsEntryTo j) = p.out.filter (Effect.sendsEntryTo j) :=
  triggerMessageDelivery_filter (fun _ _ _ => rfl) p

theorem advanceCommit_sendsEntryTo (target stop : Int) (p : Process) :
    (p.advanceCommit target stop).out.filter (Effect.sendsEntryTo j) = p.out.filter (Effect.sendsEntryTo j) :=
  advanceCommit_filter (fun _ _ _ => rfl) (fun _ _ => rfl) (fun _ _ _ _ => rfl) target stop p

theorem appendEntriesRequest_sendsEntryTo (now : Int) (q : AppendEntriesRequest) (p : Process) :
    (p.appendEntriesRequest now q).out.filter (Effect.sendsEntryTo j) =
      p.out.filter (Effect.sendsEntryTo j) := by
  have hreply : ∀ (p : Process) (success last : Int),
      (p.replyAppend q.leaderId success last).out.filter (Effect.sendsEntryTo j) =
        p.out.filter (Effect.sendsEntryTo j) := fun p success last => by
    simp [replyAppend, Effect.sendsEntryTo, Effect.sendsTo]
  have hcommit : ∀ p : Process, (p.updateLeaderCommit q.leaderCommit).out.filter (Effect.sendsEntryTo j) =
      p.out.filter (Effect.sendsEntryTo j) := by
    intro p
    unfold updateLeaderCommit
    split
    · exact advanceCommit_sendsEntryTo ..
    · rfl
  unfold appendEntriesRequest
  split
  · exact hreply _ 0 (-1)
  · simp only
    split
    · exact hreply _ 0 (-1)
    · rw [hreply, appendLogEntries_filter (fun _ _ => rfl), hcommit]
      rfl

theorem appendEntriesResponse_full (q : AppendEntriesResponse) {p : Process}
    (h : MAX_PENDING_APPEND ≤ p.pendingAppendReqs.getD j 0 - p.toRaftState.settled j
      (some (.appendEntriesResponse q))) :
    (p.appendEntriesResponse q).out.filter (Effect.sendsEntryTo j) =
      p.out.filter (Effect.sendsEntryTo j) := by
  let p₁ : Process := { p with
    pendingAppendReqs :=
      p.pendingAppendReqs.insert q.followerId (max 0 (p.pendingAppendReqs.getD q.followerId 0 - 1)) }
  have hfull : p₁.Full j := by
    simp only [Full, p₁, ExtTreeMap.getD_insert]
    simp only [RaftState.settled] at h
    by_cases hj : q.followerId = j
    · subst hj
      simp only [if_true] at h
      simp
      omega
    · simpa [hj] using h
  have hcommit : ∀ p' : Process, p'.Full j → p'.out = p.out → (p'.commitOnMajority q.lastIndexSynced).Full j ∧
      (p'.commitOnMajority q.lastIndexSynced).out.filter (Effect.sendsEntryTo j) =
        p.out.filter (Effect.sendsEntryTo j) := by
    intro p' hp' ho
    unfold commitOnMajority
    split
    · split
      · refine ⟨?_, by rw [advanceCommit_sendsEntryTo, ho]⟩
        unfold Full
        rw [advanceCommit_raft]
        exact hp'
      · exact ⟨hp', by rw [ho]⟩
    · exact ⟨hp', by rw [ho]⟩
  unfold appendEntriesResponse
  simp only
  split
  · obtain ⟨hf, ho⟩ :=
      hcommit { p₁ with matchedIndex := p.matchedIndex.insert q.followerId q.lastIndexSynced } hfull rfl
    refine (triggerEntryUpdate_full q.followerId ?_).2.trans ?_
    · exact hf
    · exact ho
  · split
    · exact (triggerEntryUpdate_full (p := { p₁ with curTerm := q.term }) q.followerId hfull).2
    · refine (triggerEntryUpdate_full q.followerId ?_).2.trans ?_
      · exact hfull
      · rfl

omit j in
theorem requestVoteResponse_out (q : RequestVoteResponse) (p : Process) :
    (p.requestVoteResponse q).out = p.out := by
  unfold requestVoteResponse
  split
  · rfl
  split
  · rfl
  split
  · rfl
  split
  · rfl
  simp only
  split <;> split <;> rfl

theorem localMessageHandler_full (now randomId : Int) (msg : RaftMessage) {p : Process}
    (h : MAX_PENDING_APPEND ≤ p.pendingAppendReqs.getD j 0 - p.toRaftState.settled j (some msg)) :
    (p.localMessageHandler now randomId msg).out.filter (Effect.sendsEntryTo j) =
      p.out.filter (Effect.sendsEntryTo j) := by
  cases msg with
  | appendEntriesResponse q => exact appendEntriesResponse_full j q h
  | appendEntriesRequest q => exact appendEntriesRequest_sendsEntryTo j now q p
  | requestVoteRequest q =>
    simp only [localMessageHandler, requestVoteRequest]
    split
    · simp [replyVote, Effect.sendsEntryTo, Effect.sendsTo]
    · split <;> split <;> simp [replyVote, Effect.sendsEntryTo, Effect.sendsTo]
  | requestVoteResponse q => exact congrArg _ (requestVoteResponse_out q p)
  | clientPutMessage m =>
    simp only [localMessageHandler, clientPutMessage]
    split
    · rfl
    · exact addLogEntry_full _ (by simpa [Full, RaftState.settled] using h)
  | clientCommitMessage id =>
    simp only [localMessageHandler, clientCommitMessage]
    split
    · rfl
    · exact addLogEntry_full _ (by simpa [Full, RaftState.settled] using h)
  | clientOpenQueue =>
    simp only [localMessageHandler, clientOpenQueue]
    split
    · exact deliverToClient_filter (fun _ _ _ => rfl) _ p
    · rw [triggerMessageDelivery_sendsEntryTo]
      exact deliverToClient_filter (fun _ _ _ => rfl) _ p
  | clientOpenQueueResponse m => rfl
  | serverSendMessage id m => rfl

theorem handle_full (inp : Input) {p : Process} (h : p.Full j) :
    (p.handle inp).out.filter (Effect.sendsEntryTo j) = p.out.filter (Effect.sendsEntryTo j) := by
  have hmsg : ∀ (randomId : Int) (msg : RaftMessage), p.toRaftState.settled j (some msg) = 0 →
      (p.localMessageHandler 0 randomId msg).out.filter (Effect.sendsEntryTo j) =
        p.out.filter (Effect.sendsEntryTo j) := fun randomId msg h₀ =>
    localMessageHandler_full j 0 randomId msg (by rw [h₀, sub_zero]; exact h)
  cases inp with
  | voteTimer now =>
    simp only [handle, voteTimer]
    split <;> split <;> rfl
  | voteRequestTimer =>
    simp only [handle, voteRequestTimer]
    split
    · rfl
    · simp [Effect.sendsEntryTo, Effect.sendsTo]
  | heartbeatTimer =>
    simp only [handle, heartbeatTimer]
    split
    · simp [Effect.sendsEntryTo, Effect.sendsTo]
    · rfl
  | clientPutMessage randomId m => exact hmsg randomId (.clientPutMessage m) rfl
  | clientCommitMessage id => exact hmsg 0 (.clientCommitMessage id) rfl
  | clientOpenQueue => exact hmsg 0 .clientOpenQueue rfl
  | consumerDisconnected id => exact triggerMessageDelivery_sendsEntryTo j _
  | _ => rfl

end

end Process

namespace Cluster

variable {n : Nat}

/-- The append requests of `a` to `b` and the answers to them that the first `k` steps have lost. -/
def lost {c : Channel} (r : Execution n c) (a b : Fin n) (k : Nat) : Nat :=
  r.observe 0 (fun s e _ m => m + loses a b s e) k

theorem lost_le {c : Channel} (r : Execution n c) (a b : Fin n) {j k : Nat} (h : j ≤ k) :
    lost r a b j ≤ lost r a b k := by
  induction k, h using Nat.le_induction with
  | base => exact le_rfl
  | succ k _ ih => exact ih.trans (Nat.le_add_right ..)

theorem pending_run {c : Channel} (hc : c ≠ .duplicating) (r : Execution n c) {a b : Fin n} (hab : a ≠ b) :
    ∀ k ≤ r.length, ((r.states k).raft a).pendingAppendReqs.getD b.val 0 = inFlight (r.states k).net a b +
      lost r a b k := by
  refine r.induct ?_ fun k hk ih => window_step hc (addressed_run r k hk.le) hab ih (r.steps k hk)
  rw [windowExact_starts r.starts a b hab]
  simp [lost, Runs.Run.observe]

def sentEntries (a b : Fin n) (s : Cluster n) : List (Fin n × Effect) :=
  s.history.filter fun x => x.1 = a ∧ x.2.sendsEntryTo b.val

theorem sentEntries_act {s : Cluster n} {a b i : Fin n} {f : Process → Process} {net : List (Packet n)}
    (h : i = a → (f (s.procs i).clear).out.filter (Effect.sendsEntryTo b.val) = []) :
    sentEntries a b (s.act i f net) = sentEntries a b s := by
  have hnone : ((f (s.procs i).clear).out.map fun e => (i, e)).filter
      (fun x => x.1 = a ∧ x.2.sendsEntryTo b.val) = [] := by
    rw [List.filter_eq_nil_iff]
    intro x hx hsent
    obtain ⟨e, he, rfl⟩ := List.mem_map.mp hx
    obtain ⟨hi, hto⟩ := of_decide_eq_true hsent
    have hmem : e ∈ (f (s.procs i).clear).out.filter (Effect.sendsEntryTo b.val) :=
      List.mem_filter.mpr ⟨he, hto⟩
    rw [h hi] at hmem
    cases hmem
  simp only [sentEntries, act, List.filter_append, hnone, List.append_nil]

theorem sentEntries_step {c : Channel} (hc : c ≠ .duplicating) {s s' : Cluster n} {e : Event n} (h : Addressed s)
    {a b : Fin n} (hab : a ≠ b) {L : Nat} (hL : MAX_PENDING_APPEND ≤ L)
    (hx : (s.raft a).pendingAppendReqs.getD b.val 0 = inFlight s.net a b + L) (hstep : s.step c e = some s') :
    sentEntries a b s' = sentEntries a b s := by
  cases step_spec hstep with
  | lose => rfl
  | @input i inp ha =>
    refine sentEntries_act fun hi => ?_
    subst hi
    have hfull : (s.procs i).clear.Full b.val := by
      unfold Process.Full
      rw [show (s.procs i).clear.pendingAppendReqs = (s.raft i).pendingAppendReqs from rfl, hx]
      omega
    exact Process.handle_full b.val inp hfull
  | @message e k now pk net he hk hl ha =>
    refine sentEntries_act fun hi => ?_
    subst hi
    have hset := settled_message h (List.mem_of_getElem? hk) hab (by omega)
    rw [if_pos rfl, if_neg hab.symm] at hset
    refine Process.localMessageHandler_full b.val now 0 pk.msg ?_
    rw [show (s.procs pk.dst).clear.toRaftState = s.raft pk.dst from rfl, hx]
    rcases hl with ⟨l₁, l₂, hnet, -⟩ | ⟨hdup, -⟩
    · rw [hnet, inFlight_middle]
      push_cast at hset ⊢
      omega
    · exact absurd hdup hc

/-- The window of a follower is what is in flight plus all that was ever lost. -/
theorem pending_eq_inFlight_add_lost {c : Channel} (hc : c ≠ .duplicating) (r : Execution n c) {k : Nat}
    (hk : k ≤ r.length) {a b : Fin n} (hab : a ≠ b) :
    ((r.states k).procs a).pendingAppendReqs.getD b.val 0 = inFlight (r.states k).net a b + lost r a b k :=
  pending_run hc r hab k hk

def lostHeartbeatsRun : Execution 3 .fifo :=
  .ofEvents (fresh 3) starts_three lostHeartbeats lostHeartbeats_isSome

theorem pending_eq_lostHeartbeats : lost lostHeartbeatsRun 0 1 9 = 2 ∧
    ((lostHeartbeatsRun.states 9).procs 0).pendingAppendReqs.getD (1 : Fin 3).val 0 =
      inFlight (lostHeartbeatsRun.states 9).net 0 1 + lost lostHeartbeatsRun 0 1 9 :=
  ⟨by decide +kernel, pending_eq_inFlight_add_lost (by decide) lostHeartbeatsRun le_rfl (by decide)⟩

/-- After two losses between them, `a` sends no more entries to `b`, whatever else happens. -/
theorem sentEntries_of_two_lost {c : Channel} (hc : c ≠ .duplicating) (r : Execution n c) {a b : Fin n}
    (hab : a ≠ b) {k m : Nat} (hkm : k ≤ m) (hm : m ≤ r.length) (hlost : 2 ≤ lost r a b k) :
    sentEntries a b (r.states m) = sentEntries a b (r.states k) := by
  induction m, hkm using Nat.le_induction with
  | base => rfl
  | succ m hkm ih =>
    rw [← ih (Nat.le_of_succ_le hm)]
    have hL : MAX_PENDING_APPEND ≤ lost r a b m := by
      have := lost_le r a b hkm
      unfold MAX_PENDING_APPEND
      omega
    have hle := Nat.le_of_succ_le hm
    exact sentEntries_step hc (addressed_run r m hle) hab hL (pending_run hc r hab m hle) (r.steps m hm)

theorem sentEntries_lostHeartbeats : 2 ≤ lost lostHeartbeatsRun 0 1 8 ∧
    ((lostHeartbeatsRun.states 9).procs 0).logEntries.length = 2 ∧
    sentEntries 0 1 (lostHeartbeatsRun.states 9) = sentEntries 0 1 (lostHeartbeatsRun.states 8) :=
  have h : 2 ≤ lost lostHeartbeatsRun 0 1 8 := by decide +kernel
  ⟨h, by decide +kernel, sentEntries_of_two_lost (by decide) lostHeartbeatsRun (by decide) (by decide) le_rfl h⟩

end Cluster

end FlowMQ
