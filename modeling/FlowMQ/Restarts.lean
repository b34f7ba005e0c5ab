import FlowMQ.Recovery
import FlowMQ.Votes

/-!
# Votes across restarts

Nodes crash and are constructed again from their files. The files hold committed
log entries and the commit index, and neither `cur_term_` nor `voted_for_`, so
a node that comes back starts in term 0 without a vote.
-/

namespace FlowMQ

/-- A cluster with the storage of its nodes. `reached` is the highest `cur_term_` a node had
when it crashed. -/
structure Deployment (n : Nat) extends Cluster n where
  storage : Fin n → ClusterNodeStorage
  reached : Fin n → Option Int

inductive Incident (n : Nat) where
  | event (e : Event n)
  | flush (i : Fin n) (logOpen metadataOpen : Bool)
  | restart (i : Fin n) (garbage : Process.Garbage) (metadataBuffer : Int)
  deriving Inhabited

structure Vote where
  candidateId : Int
  term : Int
  deriving DecidableEq

def Effect.grant : Effect → Option Vote
  | .writeMessage candidateId (.requestVoteResponse q) =>
    if q.voteResultTermGranted = 1 then some ⟨candidateId, q.term⟩ else none
  | _ => none

def Effect.selfVote : Effect → Option Int
  | .broadCast (.requestVoteRequest q) => some q.term
  | _ => none

def Cluster.replace {n : Nat} (s : Cluster n) (i : Fin n) (p : Process) : Cluster n :=
  { s with procs := Function.update s.procs i p }

namespace Deployment

variable {n : Nat}

def stored (s s' : Cluster n) (i : Fin n) : List StorageOp :=
  (s'.history.drop s.history.length).filterMap fun x => if x.1 = i then x.2.asStore else none

def highest (reached : Option Int) (t : Int) : Int := (reached.map (max t)).getD t

def step (k : Codec) (c : Channel) (s : Deployment n) : Incident n → Option (Deployment n)
  | .event e => (s.toCluster.step c e).map fun s' =>
      { s' with
        storage := fun i => (stored s.toCluster s' i).foldl (StorageOp.perform k) (s.storage i)
        reached := s.reached }
  | .flush i logOpen metadataOpen =>
    some { s with
      storage := Function.update s.storage i ((s.storage i).consumeAndStoreMessages k logOpen metadataOpen) }
  | .restart i garbage metadataBuffer => ((s.procs i).restart k (s.storage i) garbage).map fun p =>
      { s.replace i p with
        -- what was not flushed is gone
        storage := Function.update s.storage i
          { s.storage i with logEntryBuffers := [], metadataBuffer := metadataBuffer }
        reached := Function.update s.reached i (some (highest (s.reached i) (s.procs i).curTerm)) }

structure Starts (s : Deployment n) : Prop where
  cluster : Cluster.Starts s.toCluster
  storage : ∀ i, ∃ m, s.storage i = .empty m
  reached : ∀ i, s.reached i = none

def Execution (n : Nat) (k : Codec) (c : Channel) : Type := Runs.Run (S := Deployment n) Starts (step k c)

/-- `x` happened before `y`: if `y` is a grant, it is the only vote of its node in that term,
unless repeated. -/
def MayFollow (x y : Fin n × Effect) : Prop :=
  x.1 = y.1 → ∀ v ∈ y.2.grant, (∀ v' ∈ x.2.grant, v'.term = v.term → v' = v) ∧ x.2.selfVote ≠ some v.term

instance (x y : Fin n × Effect) : Decidable (MayFollow x y) := inferInstanceAs (Decidable (_ → _))

def VotesOnce (history : List (Fin n × Effect)) : Prop := history.Pairwise MayFollow

instance (history : List (Fin n × Effect)) : Decidable (VotesOnce history) :=
  inferInstanceAs (Decidable (List.Pairwise _ _))

/-- A vote request that would be granted is of a later term than the node reached before it crashed. -/
def LaterVote (s : Deployment n) (pk : Packet n) : Prop :=
  onVoteRequest (fun r q => r.votable q → r.state ≠ .leader → ∀ t ∈ s.reached pk.dst, t < q.term)
    (s.procs pk.dst).toRaftState pk.msg

def VotesLater (s : Deployment n) : Incident n → Prop
  | .event (.deliver k _) => ∀ pk ∈ s.net[k]?, s.LaterVote pk
  | .event (.redeliver k _) => ∀ pk ∈ s.net[k]?, s.LaterVote pk
  | _ => True

instance (s : Deployment n) (pk : Packet n) : Decidable (s.LaterVote pk) := by
  unfold LaterVote
  infer_instance

instance (s : Deployment n) : (e : Incident n) → Decidable (s.VotesLater e)
  | .event (.deliver k _) => inferInstanceAs (Decidable (∀ pk ∈ s.net[k]?, s.LaterVote pk))
  | .event (.redeliver k _) => inferInstanceAs (Decidable (∀ pk ∈ s.net[k]?, s.LaterVote pk))
  | .event (.input _ _) => inferInstanceAs (Decidable True)
  | .event (.lose _) => inferInstanceAs (Decidable True)
  | .flush _ _ _ => inferInstanceAs (Decidable True)
  | .restart _ _ _ => inferInstanceAs (Decidable True)

end Deployment

/-! ## The votes of one handler -/

namespace VoteStep

variable {r r' : RaftState} {msg : Option RaftMessage} {l : List Effect} (h : VoteStep r msg r' l)
include h

theorem grants {e : Effect} (he : e ∈ l) {v : Vote} (hg : e.grant = some v) :
    l = [e] ∧ r'.curTerm = v.term ∧ r'.votedFor = v.candidateId ∧
      ∃ q, msg = some (.requestVoteRequest q) ∧ r.votable q ∧ r.state ≠ .leader ∧
      v = ⟨q.candidateId, q.term⟩ := by
  cases h with
  | quiet h =>
    cases e with
    | writeMessage dst m =>
      cases m with
      | requestVoteResponse q =>
        simp only [Effect.grant] at hg
        split at hg
        · rename_i h1
          refine absurd ?_ (h.casts _ (Or.inl ⟨dst, he⟩))
          simp [Casts, h1]
        · cases hg
      | _ => cases hg
    | _ => cases hg
  | start h => cases he
  | ask h ht =>
    cases List.mem_singleton.mp he
    cases hg
  | grant q h hst =>
    cases List.mem_singleton.mp he
    cases hg
    exact ⟨rfl, rfl, rfl, q, rfl, h, hst, rfl⟩
  | count => cases he

theorem selfVotes {e : Effect} (he : e ∈ l) {t : Int} (hs : e.selfVote = some t) :
    r'.curTerm = t ∧ r'.votedFor = r.nodeId := by
  cases h with
  | quiet h =>
    cases e with
    | broadCast m =>
      cases m with
      | requestVoteRequest q => exact absurd trivial (h.casts _ (Or.inr he))
      | _ => cases hs
    | _ => cases hs
  | start h => cases he
  | ask h ht =>
    cases List.mem_singleton.mp he
    cases hs
    exact ⟨rfl, rfl⟩
  | grant q h hst =>
    cases List.mem_singleton.mp he
    cases hs
  | count => cases he

theorem request_id {q : RequestVoteRequest} (hq : Carries l (.requestVoteRequest q)) :
    q.candidateId = r.nodeId := by
  cases h with
  | quiet h => exact absurd trivial (h.casts _ hq)
  | ask h ht =>
    cases carries_broadCast.mp hq
    rfl
  | _ => simp at hq

end VoteStep

namespace Deployment

variable {n : Nat}

/-! ## The invariant -/

def Backed (r : RaftState) (reached : Option Int) (t c : Int) : Prop :=
  (∃ u ∈ reached, t ≤ u) ∨ (t ≤ r.curTerm ∧ (t = r.curTerm → r.votedFor = c))

structure VoteInv (s : Cluster n) (reached : Fin n → Option Int) : Prop where
  ids : ∀ i, (s.raft i).nodeId = i.val
  links : ∀ pk ∈ s.net, pk.src ≠ pk.dst
  request : ∀ pk ∈ s.net, ∀ q, pk.msg = .requestVoteRequest q → q.candidateId = pk.src.val
  granted : ∀ i e, (i, e) ∈ s.history → ∀ v, e.grant = some v →
    0 ≤ v.candidateId ∧ Backed (s.raft i) (reached i) v.term v.candidateId
  self : ∀ i e, (i, e) ∈ s.history → ∀ t, e.selfVote = some t → Backed (s.raft i) (reached i) t i.val
  once : VotesOnce s.history

theorem Backed.trans {r r' : RaftState} {msg : Option RaftMessage} {l : List Effect} (ht : Trans r msg r' l)
    {reached : Option Int} {t c : Int} (hc : 0 ≤ c) (h : Backed r reached t c) : Backed r' reached t c := by
  rcases h with h | ⟨hle, hv⟩
  · exact Or.inl h
  · refine Or.inr ⟨hle.trans ht.curTerm_le, fun heq => ?_⟩
    have hle' := ht.curTerm_le
    have hsame : r'.curTerm = r.curTerm := by omega
    have hvote := hv (by omega)
    rw [ht.votes.votedFor_stable hsame (by omega), hvote]

theorem voteInv_starts {s : Cluster n} (h : Cluster.Starts s) (reached : Fin n → Option Int) :
    VoteInv s reached := by
  obtain ⟨partitionId, serverNodes, garbage, rfl⟩ := h
  have hnet : (Cluster.init n partitionId serverNodes garbage).net = [] := rfl
  have hhist : (Cluster.init n partitionId serverNodes garbage).history = [] := rfl
  constructor
  · intro i
    rw [Cluster.raft_init]
  · simp [hnet]
  · simp [hnet]
  · simp [hhist]
  · simp [hhist]
  · rw [hhist]
    exact List.Pairwise.nil

section
variable {s s' : Cluster n} {reached : Fin n → Option Int} {i : Fin n} {msg : Option RaftMessage}
  {net : List (Packet n)} (h : VoteInv s reached) (ha : s.Acts i msg net s')

include ha in
theorem mem_history {j : Fin n} {e : Effect} (hmem : (j, e) ∈ s'.history) :
    (j, e) ∈ s.history ∨ (j = i ∧ e ∈ (s'.procs i).out) := by
  rw [ha.history] at hmem
  rcases List.mem_append.mp hmem with hmem | hmem
  · exact Or.inl hmem
  · obtain ⟨e', he', heq⟩ := List.mem_map.mp hmem
    cases heq
    exact Or.inr ⟨rfl, he'⟩

theorem mem_sends_of_grant {out : List Effect} {e : Effect} (he : e ∈ out) {v : Vote}
    (hg : e.grant = some v) :
    e ∈ sends out := by
  refine List.mem_filter.mpr ⟨he, ?_⟩
  cases e with
  | writeMessage dst m => rfl
  | _ => cases hg

theorem mem_sends_of_selfVote {out : List Effect} {e : Effect} (he : e ∈ out) {t : Int}
    (hs : e.selfVote = some t) :
    e ∈ sends out := by
  refine List.mem_filter.mpr ⟨he, ?_⟩
  cases e with
  | broadCast m => rfl
  | _ => cases hs

include ha in
theorem votesOnce_out : VotesOnce ((s'.procs i).out.map fun e => (i, e)) := by
  apply List.pairwise_of_forall_mem_list
  intro x hx y hy _ v hg
  obtain ⟨e₁, he₁, rfl⟩ := List.mem_map.mp hx
  obtain ⟨e₂, he₂, rfl⟩ := List.mem_map.mp hy
  obtain ⟨hone, -⟩ := ha.trans.votes.grants (mem_sends_of_grant he₂ hg) hg
  have hsame : e₁ ∈ sends (s'.procs i).out → e₁ = e₂ := by
    intro he
    rw [hone] at he
    exact List.mem_singleton.mp he
  constructor
  · intro v' hg' _
    cases hsame (mem_sends_of_grant he₁ hg')
    exact Option.some.inj (hg'.symm.trans hg)
  · intro hs
    cases hsame (mem_sends_of_selfVote he₁ hs)
    cases e₁ with
    | broadCast m => cases hg
    | _ => cases hs

include h ha

theorem mayFollow_history (hreq : ∀ q, msg = some (.requestVoteRequest q) →
      0 ≤ q.candidateId ∧ q.candidateId ≠ i.val ∧ ((s.raft i).votable q → (s.raft i).state ≠ .leader →
        ∀ t ∈ reached i, t < q.term))
    {x : Fin n × Effect} (hx : x ∈ s.history) {e : Effect} (he : e ∈ (s'.procs i).out) :
    MayFollow x (i, e) := by
  rintro hxi v hg
  obtain ⟨-, -, -, q, rfl, hv, hst, rfl⟩ := ha.trans.votes.grants (mem_sends_of_grant he hg) hg
  obtain ⟨hpos, hother, hlater⟩ := hreq q rfl
  have hfresh : ∀ {v : Int}, 0 ≤ v → Backed (s.raft i) (reached i) q.term v → v = q.candidateId := by
    rintro v hv0 (⟨u, hu, hle⟩ | ⟨hle, heq⟩)
    · have := hlater hv hst u hu
      omega
    · rcases hv with hlt | ⟨hterm, hnone | hsame⟩
      · omega
      · have := heq hterm
        omega
      · rw [← heq hterm, hsame]
  obtain ⟨j, e'⟩ := x
  cases hxi
  constructor
  · rintro ⟨c', t'⟩ hg' hterm
    cases hterm
    obtain ⟨hc', hb⟩ := h.granted i e' hx _ hg'
    exact congrArg (Vote.mk · q.term) (hfresh hc' hb)
  · intro hs
    exact hother (hfresh (by omega) (h.self i e' hx q.term hs)).symm

theorem VoteInv.acts (hnet : ∀ pk ∈ net, pk ∈ s.net)
    (hreq : ∀ q, msg = some (.requestVoteRequest q) →
      0 ≤ q.candidateId ∧ q.candidateId ≠ i.val ∧ ((s.raft i).votable q → (s.raft i).state ≠ .leader →
        ∀ t ∈ reached i, t < q.term)) : VoteInv s' reached := by
  have hstays : ∀ j t c, 0 ≤ c → Backed (s.raft j) (reached j) t c → Backed (s'.raft j) (reached j) t c := by
    intro j t c hc hb
    by_cases hj : j = i
    · subst hj
      exact hb.trans ha.trans hc
    · rw [ha.others j hj]
      exact hb
  constructor
  · exact ha.forall_raft (P := fun j r => r.nodeId = j.val) h.ids (ha.trans.ids.1.trans (h.ids i))
  · exact ha.links hnet h.links
  · intro pk hpk q hq
    rcases ha.mem_net hnet hpk with hold | hnew
    · exact h.request pk hold q hq
    · have hc := Cluster.carries_of_mem hnew
      rw [hq] at hc
      rw [ha.trans.votes.request_id hc, (Cluster.mem_sent hnew).1]
      exact h.ids i
  · intro j e hje v hg
    rcases mem_history ha hje with hold | ⟨rfl, hnew⟩
    · obtain ⟨hc, hb⟩ := h.granted j e hold v hg
      exact ⟨hc, hstays j v.term v.candidateId hc hb⟩
    · obtain ⟨-, hterm, hvote, q, rfl, -, -, rfl⟩ := ha.trans.votes.grants (mem_sends_of_grant hnew hg) hg
      exact ⟨(hreq q rfl).1, Or.inr ⟨hterm.ge, fun _ => hvote⟩⟩
  · intro j e hje t hs
    rcases mem_history ha hje with hold | ⟨rfl, hnew⟩
    · exact hstays j t j.val (by omega) (h.self j e hold t hs)
    · obtain ⟨hterm, hvote⟩ := ha.trans.votes.selfVotes (mem_sends_of_selfVote hnew hs) hs
      exact Or.inr ⟨hterm.ge, fun _ => hvote.trans (h.ids j)⟩
  · unfold VotesOnce
    rw [ha.history, List.pairwise_append]
    refine ⟨h.once, votesOnce_out ha, fun x hx y hy => ?_⟩
    obtain ⟨e, he, rfl⟩ := List.mem_map.mp hy
    exact mayFollow_history h ha hreq hx he

end

theorem VoteInv.lose {s : Cluster n} {reached : Fin n → Option Int} (h : VoteInv s reached) {net : List (Packet n)}
    (hnet : ∀ pk ∈ net, pk ∈ s.net) : VoteInv { s with net := net } reached :=
  ⟨h.ids, fun pk hpk => h.links pk (hnet pk hpk), fun pk hpk => h.request pk (hnet pk hpk), h.granted,
    h.self, h.once⟩

theorem VoteInv.event {s : Deployment n} (h : VoteInv s.toCluster s.reached) {c : Channel} {e : Event n}
    {s' : Cluster n} (hs : s.toCluster.step c e = some s') (hl : s.VotesLater (.event e)) :
    VoteInv s' s.reached := by
  cases Cluster.step_spec hs with
  | lose hnet => exact h.lose (Cluster.mem_of_split hnet)
  | input ha =>
    apply h.acts ha fun _ => id
    intro q hq
    cases hq
  | @message e k now pk net he hk hleft ha =>
    have hpk : pk ∈ s.net := List.mem_of_getElem? hk
    apply h.acts ha hleft.subset.2
    intro q hq
    have hmsg : pk.msg = .requestVoteRequest q := Option.some.inj hq
    have hcand := h.request pk hpk q hmsg
    refine ⟨by omega, ?_, ?_⟩
    · rw [hcand]
      exact_mod_cast fun heq => h.links pk hpk (Fin.val_injective heq)
    · have hlater : s.LaterVote pk := by
        rcases he with rfl | rfl
        · exact hl pk hk
        · exact hl pk hk
      rw [LaterVote, hmsg] at hlater
      exact hlater

theorem construct_nodeId (partitionId nodeId totalNodes : Int) (serverNodes : List ServerNode)
    (garbage : Process.Garbage) (es : List LogEntry) (m : Int) :
    (Process.construct partitionId nodeId totalNodes serverNodes garbage es m).nodeId = nodeId := by
  simp only [Process.construct, Process.commitLoop_raft]

theorem le_highest {r : Option Int} {t u : Int} (h : t ≤ u ∨ ∃ v ∈ r, t ≤ v) : t ≤ highest r u := by
  cases r with
  | none =>
    rcases h with h | ⟨v, hv, -⟩
    · exact h
    · cases hv
  | some w =>
    rcases h with h | ⟨v, hv, h⟩
    · exact le_max_of_le_left h
    · cases hv
      exact le_max_of_le_right h

theorem raft_replace_self (s : Cluster n) (i : Fin n) (p : Process) :
    (s.replace i p).raft i = p.toRaftState := by
  simp [Cluster.raft, Cluster.replace]

theorem raft_replace_of_ne (s : Cluster n) {i j : Fin n} (hj : j ≠ i) (p : Process) :
    (s.replace i p).raft j = s.raft j := by
  simp [Cluster.raft, Cluster.replace, hj]

theorem VoteInv.restart {s : Cluster n} {reached : Fin n → Option Int} (h : VoteInv s reached) (i : Fin n)
    (p : Process) (hid : p.nodeId = (s.procs i).nodeId) :
    VoteInv (s.replace i p) (Function.update reached i (some (highest (reached i) (s.procs i).curTerm))) := by
  have hback : ∀ j t c, Backed (s.raft j) (reached j) t c → Backed ((s.replace i p).raft j)
      (Function.update reached i (some (highest (reached i) (s.procs i).curTerm)) j) t c := by
    intro j t c hb
    by_cases hj : j = i
    · subst hj
      left
      refine ⟨_, by rw [Function.update_self]; rfl, le_highest ?_⟩
      rcases hb with hb | hb
      · exact Or.inr hb
      · exact Or.inl hb.1
    · rw [Function.update_of_ne hj, raft_replace_of_ne s hj]
      exact hb
  constructor
  · intro j
    by_cases hj : j = i
    · subst hj
      rw [raft_replace_self]
      exact hid.trans (h.ids j)
    · rw [raft_replace_of_ne s hj]
      exact h.ids j
  · exact h.links
  · exact h.request
  · intro j e hje v hg
    obtain ⟨hc, hb⟩ := h.granted j e hje v hg
    exact ⟨hc, hback j v.term v.candidateId hb⟩
  · intro j e hje t hs
    exact hback j t j.val (h.self j e hje t hs)
  · exact h.once

theorem VoteInv.step {k : Codec} {c : Channel} {s s' : Deployment n} (h : VoteInv s.toCluster s.reached)
    {e : Incident n} (hs : s.step k c e = some s') (hl : s.VotesLater e) :
    VoteInv s'.toCluster s'.reached := by
  cases e with
  | event e =>
    obtain ⟨s₁, hs₁, rfl⟩ := Option.map_eq_some_iff.mp hs
    exact h.event hs₁ hl
  | flush i logOpen metadataOpen =>
    cases hs
    exact h
  | restart i garbage metadataBuffer =>
    obtain ⟨p, hp, rfl⟩ := Option.map_eq_some_iff.mp hs
    obtain ⟨loaded, -, rfl⟩ := Option.map_eq_some_iff.mp hp
    exact h.restart i _ (construct_nodeId ..)

/-- As long as nodes that come back grant votes in later terms only, no node grants two votes in one term. -/
theorem votesOnce_of_later {k : Codec} {c : Channel} (r : Execution n k c) (hr : r.Always VotesLater) :
    ∀ j ≤ r.length, VotesOnce (r.states j).history := by
  have hinv : ∀ j ≤ r.length, VoteInv (r.states j).toCluster (r.states j).reached :=
    r.induct (voteInv_starts r.starts.cluster _) fun j hj ih => ih.step (r.steps j hj) (hr j hj)
  exact fun j hj => (hinv j hj).once

def fresh (n : Nat) : Deployment n :=
  { Cluster.fresh n with storage := fun _ => .empty 0, reached := fun _ => none }

theorem starts_fresh : Starts (fresh n) := ⟨Cluster.starts_fresh, fun _ => ⟨0, rfl⟩, fun _ => rfl⟩

/-- Node 1 grants term 1 to node 0 and comes back from a crash. Node 2 has started `elections` elections when
it asks node 1 for its vote. -/
def restartedVoter (elections : List (Incident 3)) : List (Incident 3) :=
  [.event (.input 0 (.voteTimer 1)), .event (.input 0 .voteRequestTimer), .event (.deliver 0 1), .flush 1 true true,
    .restart 1 ⟨0, 0⟩ 0] ++ elections ++ [.event (.input 2 .voteRequestTimer), .event (.deliver 3 2)]

def laterElection : List (Incident 3) :=
  restartedVoter [.event (.input 2 (.voteTimer 1)), .event (.input 2 (.voteTimer 2))]

theorem laterElection_isSome :
    (Runs.exec (Runs.guarded VotesLater (step .proto .fifo)) (fresh 3) laterElection).isSome := by
  decide +kernel

theorem votesOnce_laterElection : ∃ r : Execution 3 .proto .fifo, r.Always VotesLater ∧
    (r.states r.length).history.filterMap (fun x => x.2.grant) = [⟨0, 1⟩, ⟨2, 2⟩] ∧
    VotesOnce (r.states r.length).history := by
  let r : Execution 3 .proto .fifo := .ofEvents (fresh 3) starts_fresh laterElection
    (Runs.isSome_of_guarded laterElection_isSome)
  have hr : r.Always VotesLater := Runs.Run.ofEvents_always laterElection_isSome
  exact ⟨r, hr, by decide +kernel, votesOnce_of_later r hr r.length le_rfl⟩

def sameElection : List (Incident 3) := restartedVoter [.event (.input 2 (.voteTimer 1))]

theorem sameElection_isSome : (Runs.exec (step .proto .fifo) (fresh 3) sameElection).isSome := by
  decide +kernel

theorem not_votesOnce_sameElection :
    ∃ r : Execution 3 .proto .fifo, ∃ j ≤ r.length, ¬ VotesOnce (r.states j).history := by
  let r : Execution 3 .proto .fifo := .ofEvents (fresh 3) starts_fresh sameElection sameElection_isSome
  exact ⟨r, r.length, le_rfl, by decide +kernel⟩

end Deployment

end FlowMQ
