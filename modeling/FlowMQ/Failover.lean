import FlowMQ.Leaders

/-!
# The cluster can always get to one leader

Whatever has happened, the timers can fire and the links can deliver such that
one node leads and all others follow it: some node is not a leader, its term can
be raised above all others, and it is then elected, or makes a leader take its
term.
-/

namespace FlowMQ

/-! ## What the handlers on the way do -/

namespace Process

variable {p : Process}

@[simp] theorem clear_out : p.clear.out = [] := rfl

theorem voteTimer_late (h : p.state ≠ .leader) (now : Int) (hn : p.lastHeartBeatReceived + 5 < now) :
    (p.voteTimer now).toRaftState =
        { p.toRaftState with
          state := .candidate, curTerm := p.curTerm + 1, votedFor := -1, votesCollected := 0
          voteRequestTimers := p.voteRequestTimers + 1 } ∧
      (p.voteTimer now).out = p.out := by
  have hexp : p.lastHeartBeatReceived + HEARTBEAT_EXPIRE_SECONDS + 2 < now := by
    unfold HEARTBEAT_EXPIRE_SECONDS
    omega
  cases hs : p.state with
  | leader => exact absurd hs h
  | follower => simp [voteTimer, hs, hexp]
  | candidate => simp [voteTimer, hs]

theorem voteRequestTimer_asks (h : p.votedFor = -1) :
    p.voteRequestTimer.toRaftState =
        { p.toRaftState with
          voteRequestTimers := p.voteRequestTimers - 1, votedFor := p.nodeId, votesCollected :=
  p.votesCollected + 1 } ∧
      p.voteRequestTimer.out = p.out ++ [.broadCast (.requestVoteRequest p.voteRequest)] := by
  simp [voteRequestTimer, h, RaftState.voteRequest]

theorem requestVoteRequest_grants {q : RequestVoteRequest} (h : p.curTerm < q.term) (hs : p.state ≠ .leader) :
    (p.requestVoteRequest q).toRaftState =
        { p.toRaftState with curTerm := q.term, votesCollected := 0, votedFor := q.candidateId } ∧
      (p.requestVoteRequest q).out =
        p.out ++ [.writeMessage q.candidateId (.requestVoteResponse ⟨q.term, 1⟩)] := by
  have hvalid : ¬ p.invalidVoteRequest q := by
    unfold invalidVoteRequest
    omega
  have hst : p.state = .candidate ∨ p.state = .follower := by
    cases hs' : p.state with
    | leader => exact absurd hs' hs
    | follower => exact Or.inr rfl
    | candidate => exact Or.inl rfl
  simp [requestVoteRequest, hvalid, h, hst, replyVote]

theorem requestVoteResponse_counts (h : p.state = .candidate) :
    (p.requestVoteResponse ⟨p.curTerm, 1⟩).toRaftState =
        { p.toRaftState with
          votesCollected := p.votesCollected + 1
          state := if p.totalNodes / 2 < p.votesCollected + 1 then .leader else .candidate } ∧
      (p.requestVoteResponse ⟨p.curTerm, 1⟩).out = p.out := by
  by_cases hv : p.totalNodes / 2 < p.votesCollected + 1
  · simp [requestVoteResponse, h, hv]
  · simp [requestVoteResponse, h, hv]

theorem requestVoteResponse_leader (h : p.state = .leader) (q : RequestVoteResponse) :
    p.requestVoteResponse q = p := by
  simp [requestVoteResponse, h]

theorem heartbeatTimer_beats (h : p.state = .leader) :
    (∃ pending, p.heartbeatTimer.toRaftState = { p.toRaftState with pendingAppendReqs := pending }) ∧
      p.heartbeatTimer.out = p.out ++ [.broadCast (.appendEntriesRequest p.heartbeat)] := by
  simp only [heartbeatTimer]
  rw [if_pos h]
  exact ⟨⟨_, rfl⟩, rfl⟩

theorem appendEntriesRequest_stale {q : AppendEntriesRequest} (h : q.term < p.curTerm) (now : Int) :
    (p.appendEntriesRequest now q).toRaftState = { p.toRaftState with curLeader := -1 } ∧
      (p.appendEntriesRequest now q).out =
        p.out ++ [.writeMessage q.leaderId (.appendEntriesResponse ⟨p.curTerm, p.nodeId, 0, -1⟩)] := by
  simp [appendEntriesRequest, h, replyAppend]

end Process

section
variable {r r' : RaftState} {l : List Effect}

theorem Trans.follows {q : AppendEntriesRequest} (h : Trans r (some (.appendEntriesRequest q)) r' l)
    (ht : r.curTerm ≤ q.term) (hs : r.state = .leader → r.curTerm < q.term) :
    r'.state = .follower ∧ r'.curTerm = q.term ∧ r'.curLeader = q.leaderId := by
  have haccept : ∀ now, (r.acceptLeader now q).state = .follower := by
    intro now
    cases hst : r.state with
    | leader => simp [RaftState.acceptLeader, hst, hs hst]
    | follower => simp [RaftState.acceptLeader, hst]
    | candidate => simp [RaftState.acceptLeader, hst]
  cases h with
  | idle hm => cases hm
  | staleAppend q h => exact absurd h (not_lt.mpr ht)
  | refuseAppend q now => exact ⟨haccept now, rfl, rfl⟩
  | acceptAppend q now => exact ⟨haccept now, rfl, rfl⟩
  | clientAppend _ _ _ _ _ _ _ _ hm => cases hm

theorem Trans.takes_term {q : AppendEntriesResponse} (h : Trans r (some (.appendEntriesResponse q)) r' l)
    (hf : q.appendResultSuccess = 0) (ht : r.curTerm < q.term) :
    r'.state = r.state ∧ r'.curTerm = q.term := by
  cases h with
  | idle hm => cases hm
  | replySuccess q h => exact absurd hf h
  | replyTerm => exact ⟨rfl, rfl⟩
  | replyRetry q h ht' => exact absurd ht (not_lt.mpr ht')
  | clientAppend _ _ _ _ _ _ _ _ hm => cases hm

end

namespace Cluster

variable {n : Nat} {c : Channel} {s : Cluster n}

/-! ## Steps that can be taken -/

@[simp] theorem raft_act_self (i : Fin n) (f : Process → Process) (net : List (Packet n)) :
    (s.act i f net).raft i = (f (s.procs i).clear).toRaftState := by simp [raft, act]

theorem raft_act_of_ne {i j : Fin n} (h : j ≠ i) (f : Process → Process) (net : List (Packet n)) :
    (s.act i f net).raft j = s.raft j := by simp [raft, act, Function.update_of_ne h]

@[simp] theorem net_act (i : Fin n) (f : Process → Process) (net : List (Packet n)) :
    (s.act i f net).net = net ++ (f (s.procs i).clear).out.flatMap (packets i) := rfl

theorem Reachable.steps {G : Cluster n → Event n → Prop} {s' : Cluster n} (h : Reachable c G s)
    (hs : Steps c G s s') :
    Reachable c G s' := by
  obtain ⟨s₀, h₀, hr⟩ := h
  exact ⟨s₀, h₀, hr.trans hs⟩

theorem steps_input (i : Fin n) (inp : Input) (h : (s.procs i).enabled inp = true) :
    Steps c Free s (s.act i (·.handle inp) s.net) :=
  .single ⟨.input i inp, trivial, by simp [step, h]⟩

theorem steps_deliver (l₁ l₂ : List (Packet n)) (pk : Packet n) (hn : s.net = l₁ ++ pk :: l₂)
    (ho : ∀ q ∈ l₁, q.src = pk.src → q.dst ≠ pk.dst) (now : Int) :
    Steps c Free s (s.act pk.dst (·.localMessageHandler now 0 pk.msg) (l₁ ++ l₂)) := by
  refine .single ⟨.deliver l₁.length now, trivial, ?_⟩
  have hin : inOrder s.net l₁.length pk = true := by
    simp only [inOrder, hn, List.take_left', List.all_eq_true]
    intro q hq
    by_cases hsrc : q.src = pk.src
    · simp [hsrc, ho q hq hsrc]
    · simp [hsrc]
  simp [step, hn, List.eraseIdx_append_of_length_le, hn ▸ hin]

theorem steps_lose {l l' : List (Packet n)} (h : l'.Sublist l) :
    ∀ pre, Steps c Free { s with net := pre ++ l } { s with net := pre ++ l' } := by
  induction h with
  | slnil => exact fun pre => .refl
  | @cons l' l pk _ ih =>
    intro pre
    have hlose : step c { s with net := pre ++ pk :: l } (.lose pre.length) =
      some { s with net := pre ++ l } := by
      simp [step, List.eraseIdx_append_of_length_le]
    exact .head ⟨_, trivial, hlose⟩ (ih pre)
  | @cons_cons l' l pk _ ih =>
    intro pre
    simpa using ih (pre ++ [pk])

theorem steps_only {pk : Packet n} (h : pk ∈ s.net) (now : Int) :
    Steps c Free s (s.act pk.dst (·.localMessageHandler now 0 pk.msg) []) :=
  (steps_lose (s := s) (List.singleton_sublist.mpr h) []).trans
    (steps_deliver (s := { s with net := [pk] }) [] [] pk rfl (by simp) now)

def Only (j : Fin n) (s s' : Cluster n) : Prop := ∀ k, k ≠ j → s'.raft k = s.raft k

theorem only_act (j : Fin n) (f : Process → Process) (net : List (Packet n)) : Only j s (s.act j f net) :=
  fun _ hk => raft_act_of_ne hk f net

/-! ## A node that is not a leader can be a candidate of any later term -/

structure Stands (r : RaftState) (t : Int) : Prop where
  state : r.state = .candidate
  curTerm : r.curTerm = t
  votedFor : r.votedFor = -1
  votes : r.votesCollected = 0
  timers : 0 < r.voteRequestTimers

theorem rise_one {j : Fin n} (h : (s.raft j).state ≠ .leader) :
    ∃ s', Steps c Free s s' ∧ Only j s s' ∧ s'.net = s.net ∧ Stands (s'.raft j) ((s.raft j).curTerm + 1) := by
  obtain ⟨hr, hout⟩ := Process.voteTimer_late (p := (s.procs j).clear) h
    ((s.procs j).lastHeartBeatReceived + 6) (by simp [Process.clear])
  refine ⟨_, steps_input j (.voteTimer ((s.procs j).lastHeartBeatReceived + 6)) rfl, only_act j _ _, ?_, ?_⟩
  · simp only [net_act, Process.handle, hout]
    simp
  · simp only [raft_act_self, Process.handle, hr]
    exact ⟨rfl, rfl, rfl, rfl, Nat.succ_pos _⟩

theorem rise {j : Fin n} (h : (s.raft j).state ≠ .leader) (k : Nat) :
    ∃ s', Steps c Free s s' ∧ Only j s s' ∧ s'.net = s.net ∧
    Stands (s'.raft j) ((s.raft j).curTerm + k + 1) := by
  induction k with
  | zero => simpa using rise_one h
  | succ k ih =>
    obtain ⟨s₁, hs₁, ho₁, hn₁, hr₁⟩ := ih
    obtain ⟨s₂, hs₂, ho₂, hn₂, hr₂⟩ := rise_one (c := c) (s := s₁) (j := j) (by rw [hr₁.state]; decide)
    refine ⟨s₂, hs₁.trans hs₂, fun i hi => (ho₂ i hi).trans (ho₁ i hi), hn₂.trans hn₁, ?_⟩
    rw [hr₁.curTerm] at hr₂
    simpa [add_assoc] using hr₂

/-! ## It can be elected -/

theorem ids_reachable {G : Cluster n → Event n → Prop} (h : Reachable c G s) (i : Fin n) :
    (s.raft i).nodeId = i.val ∧ (s.raft i).totalNodes = n := by
  revert i
  refine reachable_induct (P := fun s => ∀ i, (s.raft i).nodeId = i.val ∧ (s.raft i).totalNodes = n) ?_ ?_ h
  · rintro _ ⟨partitionId, serverNodes, garbage, rfl⟩ i
    rw [raft_init]
    exact ⟨rfl, rfl⟩
  · intro s e s' _ ih _ hs
    have hact : ∀ {j msg net s'}, Acts s j msg net s' →
        ∀ i, (s'.raft i).nodeId = i.val ∧ (s'.raft i).totalNodes = n := by
      intro j msg net s' ha
      refine ha.forall_raft (P := fun i r => r.nodeId = i.val ∧ r.totalNodes = n) ih ?_
      obtain ⟨h₁, h₂⟩ := ha.trans.ids
      rw [h₁, h₂]
      exact ih j
    cases step_spec hs with
    | lose => exact ih
    | input ha => exact hact ha
    | message _ _ _ ha => exact hact ha

theorem packets_writeMessage {i j : Fin n} (h : j ≠ i) (msg : RaftMessage) :
    packets i (.writeMessage j.val msg) = [⟨i, j, msg⟩] := by
  have hone : (List.finRange n).filter (fun k => (k.val : Int) = j.val ∧ k ≠ i) = [j] := by
    have hiff : ∀ k : Fin n, decide ((k.val : Int) = j.val ∧ k ≠ i) = (k == j) := by
      intro k
      rw [Bool.eq_iff_iff, decide_eq_true_eq, beq_iff_eq]
      constructor
      · exact fun hk => Fin.ext (by omega)
      · rintro rfl
        exact ⟨rfl, h⟩
    simp only [hiff, List.filter_beq, List.nodup_finRange, List.count_eq_one_of_mem, List.mem_finRange,
      List.replicate_one]
  simp only [packets, hone, List.map_singleton]

structure Polls (s : Cluster n) (i : Fin n) (t v : Int) (q : RequestVoteRequest) (js : List (Fin n)) :
    Prop where
  curTerm : (s.raft i).curTerm = t
  total : (s.raft i).totalNodes = n
  votes : (s.raft i).state = .leader ∨ ((s.raft i).state = .candidate ∧ (s.raft i).votesCollected = v)
  request : q.term = t ∧ q.candidateId = i.val
  net : s.net = js.map fun j => ⟨i, j, .requestVoteRequest q⟩
  voters : ∀ j ∈ js, j ≠ i ∧ (s.raft j).state ≠ .leader ∧ (s.raft j).curTerm < t
  others : ∀ j, j ≠ i → (s.raft j).state ≠ .leader ∧ (s.raft j).curTerm ≤ t

theorem poll_one {i j : Fin n} {t v : Int} {q : RequestVoteRequest} {js : List (Fin n)}
    (h : Polls s i t v q (j :: js)) (hj : j ∉ js) :
    ∃ s', Steps c Free s s' ∧ Polls s' i t (v + 1) q js ∧
    ((s'.raft i).state = .candidate → v + 1 ≤ (n : Int) / 2) := by
  obtain ⟨hji, hjs, hjt⟩ := h.voters j List.mem_cons_self
  obtain ⟨hqt, hqc⟩ := h.request
  let request : Fin n → Packet n := fun j => ⟨i, j, .requestVoteRequest q⟩
  -- the request reaches `j`
  obtain ⟨hr₁, ho₁⟩ := Process.requestVoteRequest_grants (p := (s.procs j).clear) (q := q)
    (show (s.raft j).curTerm < q.term by rw [hqt]; exact hjt) hjs
  let s₁ := s.act j (·.localMessageHandler 0 0 (.requestVoteRequest q)) (js.map request)
  have hs₁ : Steps c Free s s₁ := steps_deliver [] _ (request j) h.net (by simp) 0
  have hn₁ : s₁.net = js.map request ++ [⟨j, i, .requestVoteResponse ⟨t, 1⟩⟩] := by
    simp only [s₁, net_act, Process.localMessageHandler, ho₁, Process.clear_out, List.nil_append,
      List.flatMap_singleton, hqc, packets_writeMessage hji.symm, hqt]
  have hi₁ : s₁.raft i = s.raft i := raft_act_of_ne hji.symm _ _
  -- and its vote reaches `i`
  let s₂ := s₁.act i (·.localMessageHandler 0 0 (.requestVoteResponse ⟨t, 1⟩)) (js.map request)
  have hs₂ : Steps c Free s₁ s₂ := by
    have := steps_deliver (c := c) (s := s₁) (js.map request) [] ⟨j, i, .requestVoteResponse ⟨t, 1⟩⟩ hn₁
      (by simpa [request] using fun _ _ hij => absurd hij.symm hji) 0
    rwa [List.append_nil] at this
  have hrest : ∀ k, k ≠ i → k ≠ j → s₂.raft k = s.raft k := fun k hki hkj =>
    (raft_act_of_ne hki _ _).trans (raft_act_of_ne hkj _ _)
  have hj₂ : s₂.raft j = { s.raft j with curTerm := q.term, votesCollected := 0,
                                         votedFor := q.candidateId } := by
    rw [show s₂.raft j = s₁.raft j from raft_act_of_ne hji _ _]
    simp only [s₁, raft_act_self, Process.localMessageHandler, hr₁]
    rfl
  have hi₂ : (s₂.raft i).curTerm = t ∧ (s₂.raft i).totalNodes = n ∧ s₂.net = js.map request ∧
      ((s₂.raft i).state = .leader ∨
        (s₂.raft i).state = .candidate ∧ (s₂.raft i).votesCollected = v + 1 ∧ v + 1 ≤ (n : Int) / 2) := by
    have hcur : (s₁.procs i).clear.toRaftState = s.raft i := hi₁
    simp only [s₂, raft_act_self, net_act, Process.localMessageHandler]
    rcases h.votes with hl | ⟨hcand, hv⟩
    · rw [Process.requestVoteResponse_leader (by rw [hcur]; exact hl), hcur]
      simpa [hl] using ⟨h.curTerm, h.total⟩
    · have hterm : (s₁.procs i).clear.curTerm = t := by rw [hcur]; exact h.curTerm
      obtain ⟨hr₂, ho₂⟩ :=
        Process.requestVoteResponse_counts (p := (s₁.procs i).clear) (by rw [hcur]; exact hcand)
      rw [hterm] at hr₂ ho₂
      rw [hr₂, ho₂, hcur, h.total, hv]
      refine ⟨h.curTerm, rfl, by simp, ?_⟩
      by_cases hmaj : (n : Int) / 2 < v + 1
      · simp [hmaj]
      · simpa [hmaj] using not_lt.mp hmaj
  obtain ⟨hterm, htotal, hnet, hvotes⟩ := hi₂
  refine ⟨s₂, hs₁.trans hs₂, ⟨hterm, htotal, ?_, h.request, hnet, ?_, ?_⟩, ?_⟩
  · exact hvotes.imp_right fun hv => ⟨hv.1, hv.2.1⟩
  · intro k hk
    have hkj : k ≠ j := fun hkj => hj (hkj ▸ hk)
    have hold := h.voters k (List.mem_cons_of_mem _ hk)
    rw [hrest k hold.1 hkj]
    exact hold
  · intro k hki
    by_cases hkj : k = j
    · subst hkj
      rw [hj₂]
      exact ⟨hjs, hqt.le⟩
    · rw [hrest k hki hkj]
      exact h.others k hki
  · intro hcand
    rcases hvotes with hl | hv
    · rw [hl] at hcand
      cases hcand
    · exact hv.2.2

theorem poll {i : Fin n} {t : Int} {q : RequestVoteRequest} {js : List (Fin n)} (hjs : js.Nodup) :
    ∀ {s : Cluster n} {v : Int}, Polls s i t v q js → ((s.raft i).state = .candidate → v ≤ (n : Int) / 2) →
      ∃ s', Steps c Free s s' ∧ Polls s' i t (v + js.length) q [] ∧
        ((s'.raft i).state = .candidate → v + js.length ≤ (n : Int) / 2) := by
  induction js with
  | nil => exact fun {s v} h hv => ⟨s, .refl, by simpa using h, by simpa using hv⟩
  | cons j js ih =>
    intro s v h _
    obtain ⟨hj, hjs⟩ := List.nodup_cons.mp hjs
    obtain ⟨s₁, hs₁, h₁, hv₁⟩ := poll_one (c := c) h hj
    obtain ⟨s₂, hs₂, h₂, hv₂⟩ := ih hjs h₁ hv₁
    have hlen : v + ((j :: js).length : Int) = v + 1 + js.length := by
      rw [List.length_cons]
      omega
    rw [hlen]
    exact ⟨s₂, hs₁.trans hs₂, h₂, hv₂⟩

theorem ask {i : Fin n} {t : Int} (hid : (s.raft i).nodeId = i.val ∧ (s.raft i).totalNodes = n)
    (hr : Stands (s.raft i) t) (hbelow : ∀ j, j ≠ i → (s.raft j).state ≠ .leader ∧ (s.raft j).curTerm < t) :
    ∃ s' q, Steps c Free s s' ∧ Polls s' i t 1 q ((List.finRange n).filter fun j => j ≠ i) := by
  let s₁ : Cluster n := { s with net := [] }
  have hs₁ : Steps c Free s s₁ := steps_lose (s := s) (List.nil_sublist s.net) []
  obtain ⟨hr₁, ho₁⟩ := Process.voteRequestTimer_asks (p := (s.procs i).clear) hr.votedFor
  have hs₂ : Steps c Free s₁ (s₁.act i (·.handle .voteRequestTimer) []) :=
    steps_input i .voteRequestTimer (decide_eq_true hr.timers)
  have hi₂ : (s₁.act i (·.handle .voteRequestTimer) []).raft i =
      { s.raft i with voteRequestTimers := (s.raft i).voteRequestTimers - 1, votedFor := (s.raft i).nodeId
                      votesCollected := (s.raft i).votesCollected + 1 } := by
    simp only [s₁, raft_act_self, Process.handle, hr₁]
    rfl
  have hrest : ∀ j, j ≠ i → (s₁.act i (·.handle .voteRequestTimer) []).raft j = s.raft j :=
    fun j hj => raft_act_of_ne hj _ _
  refine ⟨_, (s.raft i).voteRequest, hs₁.trans hs₂, ?_, ?_, ?_, ⟨hr.curTerm, hid.1⟩, ?_, ?_, ?_⟩
  · rw [hi₂]; exact hr.curTerm
  · rw [hi₂]; exact hid.2
  · rw [hi₂]
    exact Or.inr ⟨hr.state, by simp [hr.votes]⟩
  · simp only [s₁, net_act, Process.handle, ho₁, Process.clear_out, List.nil_append,
      List.flatMap_singleton, packets]
    rfl
  · intro j hj
    have hji : j ≠ i := by simpa using (List.mem_filter.mp hj).2
    rw [hrest j hji]
    exact ⟨hji, hbelow j hji⟩
  · intro j hji
    rw [hrest j hji]
    exact ⟨(hbelow j hji).1, (hbelow j hji).2.le⟩

theorem length_others (i : Fin n) : ((List.finRange n).filter fun j => j ≠ i).length + 1 = n := by
  have hlen := List.length_erase_of_mem (List.mem_finRange i)
  rw [(List.nodup_finRange n).erase_eq_filter i, List.length_finRange] at hlen
  have hlen' : ((List.finRange n).filter fun j => j ≠ i).length = n - 1 := by
    simpa [bne, beq_eq_decide] using hlen
  have hpos := i.pos
  omega

theorem rise_above {j : Fin n} (h : (s.raft j).state ≠ .leader) :
    ∃ s' t, Steps c Free s s' ∧ Only j s s' ∧ Stands (s'.raft j) t ∧ ∀ k, k ≠ j → (s.raft k).curTerm < t := by
  obtain ⟨B, hB⟩ := Finite.exists_le fun k => (s.raft k).curTerm
  obtain ⟨s', hs, ho, -, hr⟩ := rise (c := c) h (B - (s.raft j).curTerm).toNat
  refine ⟨s', _, hs, ho, hr, fun k _ => ?_⟩
  have := hB k
  have := hB j
  omega

theorem elect (hn : 2 ≤ n) (hreach : Reachable c Free s) (hnone : ∀ j, (s.raft j).state ≠ .leader) (i : Fin n) :
    ∃ s', Steps c Free s s' ∧ (s'.raft i).state = .leader ∧
      ∀ j, j ≠ i → (s'.raft j).state ≠ .leader ∧ (s'.raft j).curTerm ≤ (s'.raft i).curTerm := by
  obtain ⟨s₁, t, hs₁, ho₁, hr₁, habove⟩ := rise_above (c := c) (hnone i)
  have hbelow : ∀ j, j ≠ i → (s₁.raft j).state ≠ .leader ∧ (s₁.raft j).curTerm < t := fun j hj => by
    rw [ho₁ j hj]
    exact ⟨hnone j, habove j hj⟩
  obtain ⟨s₂, q, hs₂, h₂⟩ := ask (c := c) (ids_reachable (hreach.steps hs₁) i) hr₁ hbelow
  obtain ⟨s₃, hs₃, h₃, hv₃⟩ := poll (c := c) ((List.nodup_finRange n).filter _) h₂ fun _ => by omega
  refine ⟨s₃, (hs₁.trans hs₂).trans hs₃, ?_, fun j hj => ?_⟩
  · have hlen := length_others i
    refine h₃.votes.resolve_right fun hcand => ?_
    have := hv₃ hcand.1
    omega
  · rw [h₃.curTerm]
    exact h₃.others j hj

/-! ## A leader that no one is ahead of is followed by all -/

theorem beat {i j : Fin n} (hl : (s.raft i).state = .leader) (hji : j ≠ i) :
    ∃ s', Steps c Free s s' ∧ Only i s s' ∧
    (∃ pending, s'.raft i = { s.raft i with pendingAppendReqs := pending }) ∧
      (⟨i, j, .appendEntriesRequest (s.raft i).heartbeat⟩ : Packet n) ∈ s'.net := by
  obtain ⟨⟨pending, hr⟩, ho⟩ := Process.heartbeatTimer_beats (p := (s.procs i).clear) hl
  refine ⟨_, steps_input i .heartbeatTimer rfl, only_act i _ _, ⟨pending, ?_⟩, ?_⟩
  · simp only [raft_act_self, Process.handle, hr]
    rfl
  · simp only [net_act, Process.handle, ho, Process.clear_out, List.nil_append,
      List.flatMap_singleton, packets, List.mem_append, List.mem_map, List.mem_filter, List.mem_finRange,
      true_and, decide_eq_true_eq]
    exact Or.inr ⟨j, hji, rfl⟩

def Follows (s : Cluster n) (i j : Fin n) : Prop :=
  (s.raft j).state = .follower ∧ (s.raft j).curTerm = (s.raft i).curTerm ∧ (s.raft j).curLeader = i.val

def Settled (s : Cluster n) (i : Fin n) : Prop := (s.raft i).state = .leader ∧ ∀ j, j ≠ i → Follows s i j

def Ahead (s : Cluster n) (i : Fin n) : Prop :=
  (s.raft i).state = .leader ∧ ∀ j, j ≠ i →
    (s.raft j).curTerm ≤ (s.raft i).curTerm ∧
    ((s.raft j).state = .leader → (s.raft j).curTerm < (s.raft i).curTerm)

theorem follow {i j : Fin n} (hid : (s.raft i).nodeId = i.val) (h : Ahead s i) (hji : j ≠ i) :
    ∃ s', Steps c Free s s' ∧ (∀ k, k ≠ i → k ≠ j → s'.raft k = s.raft k) ∧
      (s'.raft i).state = .leader ∧ (s'.raft i).curTerm = (s.raft i).curTerm ∧ Follows s' i j := by
  obtain ⟨hl, hrest⟩ := h
  obtain ⟨s₁, hs₁, ho₁, ⟨pending, hi₁⟩, hpk⟩ := beat (c := c) hl hji
  have hact := acts_message s₁ ⟨i, j, .appendEntriesRequest (s.raft i).heartbeat⟩ 0 []
  have htrans := hact.trans
  rw [ho₁ j hji] at htrans
  obtain ⟨h₁, h₂, h₃⟩ := htrans.follows (hrest j hji).1 (hrest j hji).2
  have hi := (hact.others i hji.symm).trans hi₁
  refine ⟨_, hs₁.trans (steps_only hpk 0), fun k hki hkj => (hact.others k hkj).trans (ho₁ k hki), ?_,
    ?_, h₁, ?_, ?_⟩
  · rw [hi]; exact hl
  · rw [hi]
  · rw [hi]; exact h₂
  · exact h₃.trans hid

theorem settle_all {i : Fin n} (js : List (Fin n)) : ∀ {s : Cluster n}, Reachable c Free s → Ahead s i →
    ∃ s', Steps c Free s s' ∧ Ahead s' i ∧ ∀ k, k ≠ i → k ∈ js ∨ Follows s i k → Follows s' i k := by
  induction js with
  | nil => exact fun {s} _ h => ⟨s, .refl, h, fun k _ hk => hk.resolve_left List.not_mem_nil⟩
  | cons j js ih =>
    intro s hreach h
    by_cases hji : j = i
    · obtain ⟨s', hs, h', hf⟩ := ih hreach h
      refine ⟨s', hs, h', fun k hki hk => hf k hki (hk.imp_left fun hk => ?_)⟩
      exact (List.mem_cons.mp hk).resolve_left fun hkj => hki (hkj.trans hji)
    · obtain ⟨s₁, hs₁, ho₁, hl₁, ht₁, hj₁⟩ := follow (ids_reachable hreach i).1 h hji
      have h₁ : Ahead s₁ i := by
        refine ⟨hl₁, fun k hki => ?_⟩
        by_cases hkj : k = j
        · subst hkj
          exact ⟨hj₁.2.1.le, fun hk => by rw [hj₁.1] at hk; cases hk⟩
        · rw [ho₁ k hki hkj, ht₁]
          exact h.2 k hki
      obtain ⟨s₂, hs₂, h₂, hf₂⟩ := ih (hreach.steps hs₁) h₁
      refine ⟨s₂, hs₁.trans hs₂, h₂, fun k hki hk => hf₂ k hki ?_⟩
      by_cases hkj : k = j
      · exact Or.inr (hkj ▸ hj₁)
      · refine hk.imp (fun hk => (List.mem_cons.mp hk).resolve_left hkj) fun hk => ?_
        unfold Follows
        rw [ho₁ k hki hkj, ht₁]
        exact hk

theorem settle {i : Fin n} (hreach : Reachable c Free s) (h : Ahead s i) :
    ∃ s', Steps c Free s s' ∧ Settled s' i := by
  obtain ⟨s', hs, ha, hf⟩ := settle_all (List.finRange n) hreach h
  exact ⟨s', hs, ha.1, fun j hj => hf j hj (Or.inl (List.mem_finRange j))⟩

theorem take_over {i j : Fin n} (hreach : Reachable c Free s) (hl : (s.raft i).state = .leader)
    (hj : (s.raft j).state ≠ .leader) : ∃ s', Steps c Free s s' ∧ Ahead s' i := by
  have hji : j ≠ i := fun h => hj (h ▸ hl)
  obtain ⟨s₁, t, hs₁, ho₁, hr₁, habove⟩ := rise_above (c := c) hj
  have hid₁ := ids_reachable (hreach.steps hs₁)
  obtain ⟨s₂, hs₂, ho₂, ⟨pending, hi₂⟩, hpk⟩ := beat (c := c) (s := s₁) (i := i) (j := j)
    (by rw [ho₁ i hji.symm]; exact hl) hji
  have hj₂ := ho₂ j hji
  -- the heartbeat is refused
  have hlower : (s₁.raft i).heartbeat.term < (s₂.procs j).clear.curTerm := by
    change (s₁.raft i).curTerm < (s₂.raft j).curTerm
    rw [hj₂, hr₁.curTerm, ho₁ i hji.symm]
    exact habove i hji.symm
  obtain ⟨hr₃, hout₃⟩ := Process.appendEntriesRequest_stale hlower 0
  let s₃ := s₂.act j (·.localMessageHandler 0 0 (.appendEntriesRequest (s₁.raft i).heartbeat)) []
  have hs₃ : Steps c Free s₂ s₃ := steps_only hpk 0
  let pk : Packet n := ⟨j, i, .appendEntriesResponse ⟨t, j.val, 0, -1⟩⟩
  have hpk₃ : pk ∈ s₃.net := by
    have hterm : (s₂.procs j).clear.curTerm = t := (congrArg RaftState.curTerm hj₂).trans hr₁.curTerm
    have hnode : (s₂.procs j).clear.nodeId = j.val := (congrArg RaftState.nodeId hj₂).trans (hid₁ j).1
    have hleader : (s₁.raft i).heartbeat.leaderId = i.val := (hid₁ i).1
    simp only [s₃, net_act, Process.localMessageHandler, hout₃, Process.clear_out, List.nil_append,
      List.flatMap_singleton, hterm, hnode, hleader, packets_writeMessage hji.symm, pk, List.mem_singleton]
  -- and the refusal raises the leader's term
  have hact := acts_message s₃ pk 0 []
  have hi₃ : s₃.raft i = { s₁.raft i with pendingAppendReqs := pending } :=
    (raft_act_of_ne hji.symm _ _).trans hi₂
  have htrans := hact.trans
  obtain ⟨h₁, h₂⟩ := htrans.takes_term rfl (by rw [hi₃, ho₁ i hji.symm]; exact habove i hji.symm)
  refine ⟨_, ((hs₁.trans hs₂).trans hs₃).trans (steps_only hpk₃ 0), ?_, fun k hki => ?_⟩
  · rw [h₁, hi₃, ho₁ i hji.symm]
    exact hl
  · rw [h₂, hact.others k hki]
    by_cases hkj : k = j
    · subst hkj
      have hk₃ : s₃.raft k = { s₂.raft k with curLeader := -1 } := by
        simp only [s₃, raft_act_self, Process.localMessageHandler, hr₃]
        rfl
      rw [hk₃, hj₂]
      exact ⟨hr₁.curTerm.le, fun hk => by rw [hr₁.state] at hk; cases hk⟩
    · rw [show s₃.raft k = s₂.raft k from raft_act_of_ne hkj _ _, ho₂ k hki, ho₁ k hkj]
      exact ⟨(habove k hkj).le, fun _ => habove k hkj⟩

theorem exists_nonleader (hc : c ≠ .duplicating) (hn : 2 ≤ n) (h : Reachable c Free s) :
    ∃ j, (s.raft j).state ≠ .leader := by
  obtain ⟨r, -, rfl⟩ := h.exists_run
  by_contra hall
  have hmem : ∀ i, i ∈ (r.states r.length).leaders := fun i =>
    Finset.mem_filter.mpr ⟨Finset.mem_univ i, by_contra fun hi => hall ⟨i, hi⟩⟩
  obtain ⟨m, Q, hQ, honly⟩ :=
    exists_newest (electionInv hc r _ le_rfl) (sinceWin hc r _ le_rfl) ⟨⟨0, by omega⟩, hmem _⟩
  have hone : Q.card ≤ 1 := Finset.card_le_one.mpr fun a ha b hb =>
    (honly a ha (hmem a)).trans (honly b hb (hmem b)).symm
  unfold TermLog.IsMajority at hQ
  rw [Fintype.card_fin] at hQ
  omega

theorem can_settle (hc : c ≠ .duplicating) (hn : 2 ≤ n) (h : Reachable c Free s) :
    ∃ s' i, Steps c Free s s' ∧ Settled s' i := by
  obtain ⟨j, hj⟩ := exists_nonleader hc hn h
  by_cases hl : ∃ i, (s.raft i).state = .leader
  · obtain ⟨i, hi⟩ := hl
    obtain ⟨s₁, hs₁, h₁⟩ := take_over h hi hj
    obtain ⟨s₂, hs₂, h₂⟩ := settle (h.steps hs₁) h₁
    exact ⟨s₂, i, hs₁.trans hs₂, h₂⟩
  · obtain ⟨s₁, hs₁, hi, hrest⟩ := elect hn h (not_exists.mp hl) j
    have h₁ : Ahead s₁ j := ⟨hi, fun k hk => ⟨(hrest k hk).2, fun hk' => absurd hk' (hrest k hk).1⟩⟩
    obtain ⟨s₂, hs₂, h₂⟩ := settle (h.steps hs₁) h₁
    exact ⟨s₂, j, hs₁.trans hs₂, h₂⟩

/-! ## A node alone is never elected -/

theorem alone_reachable {G : Cluster n → Event n → Prop} (hn : n ≤ 1) (h : Reachable c G s) (i : Fin n) :
    (s.raft i).state ≠ .leader := by
  have hsub : ∀ a b : Fin n, a = b := fun a b => Fin.ext (by omega)
  suffices hinv : (∀ i, (s.raft i).state ≠ .leader) ∧ ∀ pk ∈ s.net, pk.src ≠ pk.dst from hinv.1 i
  refine reachable_induct
    (P := fun s => (∀ i, (s.raft i).state ≠ .leader) ∧ ∀ pk ∈ s.net, pk.src ≠ pk.dst) ?_ ?_ h
  · rintro _ ⟨partitionId, serverNodes, garbage, rfl⟩
    refine ⟨fun i => ?_, fun pk hpk => by cases hpk⟩
    rw [raft_init]
    exact nofun
  · rintro s e s' - ⟨ih, hlinks⟩ - hs
    cases step_spec hs with
    | lose hn => exact ⟨ih, fun pk hpk => hlinks pk (mem_of_split hn pk hpk)⟩
    | @input i inp ha =>
      refine ⟨ha.forall_raft (P := fun _ r => r.state ≠ .leader) ih fun hl => ?_,
        ha.links (fun _ h => h) hlinks⟩
      rcases ha.trans.leader_or_wins hl with hl | hw
      · exact ih i hl
      · obtain ⟨q, hq, -⟩ := ha.trans.votes.wins hw
        cases hq
    | @message _ _ _ pk _ _ _ hl ha => exact absurd (hsub _ _) (hlinks pk hl.subset.1)

/-- From every state a cluster gets into, it can get to one leader that all
others follow, and this exactly when it has at least two nodes. -/
theorem can_settle_iff (hc : c ≠ .duplicating) (h : Reachable c Free s) :
    (∃ s' i, Steps c Free s s' ∧ Settled s' i) ↔ 2 ≤ n := by
  constructor
  · rintro ⟨s', i, hs, hset⟩
    by_contra hn
    exact alone_reachable (by omega) (h.steps hs) i hset.1
  · exact fun hn => can_settle hc hn h

theorem can_settle_iff_disturbed :
    ∃ s : Cluster 3, Reachable .fifo Free s ∧ ¬ OneLeader s ∧ ∃ s' i, Steps .fifo Free s s' ∧ Settled s' i := by
  obtain ⟨s, hs, hone⟩ := exists_reachable (c := .fifo) (G := Free) disturbedLeader (fun s => ¬ OneLeader s)
    (by decide +kernel)
  exact ⟨s, hs, hone, (can_settle_iff (by decide) hs).mpr (by decide)⟩

end Cluster

end FlowMQ
