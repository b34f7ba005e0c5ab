import FlowMQ.LogMatching

/-!
# Replication

What a leader may conclude from a successful append response. The follower
answers with the last index of its whole log, and the leader counts that number
as agreement with its own log. This is sound in runs where responses are handled
in the leadership they belong to and where followers answer for no tail that
the request did not verify.
-/

namespace FlowMQ

def SilentReply (r : RaftState) (q : AppendEntriesResponse) : Prop :=
  r.state ≠ .leader → ¬ r.sendsAfterReply q

def CurrentReply (r : RaftState) (q : AppendEntriesResponse) : Prop :=
  r.state = .leader → q.appendResultSuccess ≠ 0 → q.term = r.curTerm

/-- Behind what an accepted request covers there is no tail, or the request cuts it, or it is of the
request's term. -/
def VerifiedTail (r : RaftState) (q : AppendEntriesRequest) : Prop :=
  r.curTerm ≤ q.term → checkIfPreviousLogInSync q.prevLogTerm q.prevLogIndex r.logEntries = true →
    (r.logEntries.length : Int) ≤ q.prevLogIndex + 1 + q.entries.length ∨
    (∃ e ∈ q.entries, ∃ e' ∈ r.logEntries[(q.prevLogIndex + 1).toNat]?, e'.term ≠ e.term) ∨
    (backEntry r.logEntries).term = q.term

def RaftState.winsOn (r : RaftState) (q : RequestVoteResponse) : Prop :=
  r.state = .candidate ∧ q.voteResultTermGranted ≠ 0 ∧ r.curTerm ≤ q.term ∧
    r.totalNodes / 2 < if q.voteResultTermGranted = 1 then r.votesCollected + 1 else r.votesCollected

/-- A node that wins an election has no more in `matched_index_` than what it has committed. -/
def FreshMatches (r : RaftState) (q : RequestVoteResponse) : Prop :=
  r.winsOn q → ∀ m ∈ r.matchedIndex.toList, m.2 ≤ r.commitIndex

instance (r : RaftState) (q : AppendEntriesResponse) : Decidable (SilentReply r q) :=
  inferInstanceAs (Decidable (_ → _))

instance (r : RaftState) (q : AppendEntriesResponse) : Decidable (CurrentReply r q) :=
  inferInstanceAs (Decidable (_ → _))

instance (r : RaftState) (q : AppendEntriesRequest) : Decidable (VerifiedTail r q) :=
  inferInstanceAs (Decidable (_ → _))

instance (r : RaftState) (q : RequestVoteResponse) : Decidable (r.winsOn q) :=
  inferInstanceAs (Decidable (_ ∧ _))

instance (r : RaftState) (q : RequestVoteResponse) : Decidable (FreshMatches r q) :=
  inferInstanceAs (Decidable (_ → _))

def SoundReplies (r : RaftState) (m : RaftMessage) : Prop :=
  KeepsTerm r m ∧ onAppendResponse SilentReply r m ∧ onAppendResponse CurrentReply r m ∧
    onAppendRequest VerifiedTail r m ∧ onVoteResponse FreshMatches r m

instance (r : RaftState) (m : RaftMessage) : Decidable (SoundReplies r m) :=
  inferInstanceAs (Decidable (_ ∧ _))

/-! ## Single steps -/

theorem appendLog_keeps {F log L : List LogEntry} {p : Nat} {e : LogEntry} (hF : F <+: log) (hL : F <+: L)
    (he : L[p + 1]? = some e) (hp : p < log.length) : F <+: appendLog p [e] log := by
  rcases appendLog_single (e := e) hp with ⟨e', -, -, hlog⟩ | ⟨hend | ⟨e', he', hne⟩, hlog⟩
  · rw [hlog]; exact hF
  · rw [hlog, List.take_of_length_le (by omega)]
    exact hF.trans (List.prefix_append _ _)
  · rw [hlog]
    have hlen : F.length ≤ p + 1 := by
      by_contra hlt
      have h₁ : F[p + 1]? = some e' := by
        rw [List.prefix_iff_getElem?.mp hF (p + 1) (by omega)] at he'
        rw [← he', List.getElem?_eq_getElem]
      have h₂ : F[p + 1]? = some e := by
        rw [List.prefix_iff_getElem?.mp hL (p + 1) (by omega)] at he
        rw [← he, List.getElem?_eq_getElem]
      rw [h₁] at h₂
      exact hne (by rw [Option.some.inj h₂])
    exact ((List.prefix_take_iff).mpr ⟨hF, hlen⟩).trans (List.prefix_append _ _)

theorem Trans.commitIndex_le {r r' : RaftState} {msg : Option RaftMessage} {l : List Effect}
    (h : Trans r msg r' l) :
    r.commitIndex ≤ r'.commitIndex := by
  cases h with
  | acceptAppend q now h hs =>
    simp only [RaftState.commitAfter]
    split
    · rename_i hc
      exact hc.1.le
    · exact le_refl _
  | replySuccess q h c hc =>
    rcases hc with ⟨rfl, -⟩ | ⟨hc, rfl⟩
    · exact le_refl _
    · exact hc.2.1.le
  | _ => exact le_refl _

theorem Trans.replies {r r' : RaftState} {msg : Option RaftMessage} {l : List Effect} (h : Trans r msg r' l)
    {q : AppendEntriesResponse} (hq : Carries l (.appendEntriesResponse q)) (hs : q.appendResultSuccess ≠ 0) :
    ∃ q₀, msg = some (.appendEntriesRequest q₀) ∧ r.curTerm ≤ q₀.term ∧
      checkIfPreviousLogInSync q₀.prevLogTerm q₀.prevLogIndex r.logEntries = true ∧
      r'.logEntries = appendLog q₀.prevLogIndex q₀.entries r.logEntries ∧ r'.curTerm = q₀.term ∧
      q = ⟨q₀.term, r.nodeId, 1, (backEntry r'.logEntries).index⟩ ∧
      l = [.writeMessage q₀.leaderId (.appendEntriesResponse q)] := by
  have hent : ∀ r₀ : RaftState, ¬ r₀.EntryRequests l := by
    intro r₀ hr
    obtain ⟨-, k, -, he⟩ := hr.carries hq
    cases he
  cases h with
  | staleAppend q₀ h =>
    cases carries_writeMessage.mp hq
    exact absurd rfl hs
  | refuseAppend q₀ now h =>
    cases carries_writeMessage.mp hq
    exact absurd rfl hs
  | acceptAppend q₀ now h hsync =>
    cases carries_writeMessage.mp hq
    exact ⟨q₀, rfl, h, hsync, rfl, rfl, rfl, rfl⟩
  | replySuccess q' h' c hc next pending l hl hr => exact absurd hr (hent _)
  | replyTerm q' h' ht next pending l hl hr => exact absurd hr (hent _)
  | replyRetry q' h' ht next pending l hl hr => exact absurd hr (hent _)
  | clientAppend hl e hi ht next pending l hr => exact absurd hr (hent _)
  | _ => simp at hq

theorem Trans.matched {r r' : RaftState} {msg : Option RaftMessage} {l : List Effect} (h : Trans r msg r' l) :
    r'.matchedIndex = r.matchedIndex ∨ ∃ q, msg = some (.appendEntriesResponse q) ∧
    q.appendResultSuccess ≠ 0 ∧
      r'.matchedIndex = r.matchedIndex.insert q.followerId q.lastIndexSynced := by
  cases h with
  | replySuccess q h => exact Or.inr ⟨q, rfl, h, rfl⟩
  | _ => exact Or.inl rfl

theorem Trans.winsOn {r r' : RaftState} {msg : Option RaftMessage} {l : List Effect} (h : Trans r msg r' l)
    (hw : Wins r r') :
    ∃ q, msg = some (.requestVoteResponse q) ∧ r.winsOn q ∧ r'.matchedIndex = r.matchedIndex ∧
      r'.commitIndex = r.commitIndex ∧ r'.logEntries = r.logEntries := by
  obtain ⟨hc, hl⟩ := hw
  have haccept : ∀ (q : AppendEntriesRequest) (now : Int), (r.acceptLeader now q).state = .leader → False := by
    intro q now hs
    rw [(quiet_acceptLeader r q now).1 hs] at hc
    cases hc
  cases h with
  | win q hst hg ht v hv hw => exact ⟨q, rfl, ⟨hst, hg, ht, hv ▸ hw⟩, rfl, rfl, rfl⟩
  | startElection => cases hl
  | refuseAppend q now h => exact (haccept q now hl).elim
  | acceptAppend q now h => exact (haccept q now hl).elim
  | _ => rw [show r.state = .leader from hl] at hc; cases hc

namespace Cluster

variable {n : Nat}

def RequestsWon (s : Cluster n) (g : Ghost n) : Prop :=
  ∀ pk ∈ s.net, ∀ q, pk.msg = .appendEntriesRequest q → g.won q.term = some pk.src

theorem RequestsWon.moves {c : Channel} (hc : c ≠ .duplicating) {s s' : Cluster n} {g g' : Ghost n} {e : Event n}
    (h : RequestsWon s g) (he : ElectionInv s g) (hlw : LeadersWon s' g') (hm : Moves c s g e s' g')
    (hs : onMessage (onAppendResponse SilentReply) s e) : RequestsWon s' g' := by
  intro pk hpk q hq
  have hstable := @won_stable n c s s' g g' e he hm hc
  cases hm.inFlight hpk with
  | old hpk => exact hstable (h pk hpk q hq)
  | @sent i who msg net l hh ht ho hpk =>
    obtain ⟨hform, hlead⟩ := ht.requests (hq ▸ carries_of_mem hpk)
    have hterm : q.term = (s'.raft i).curTerm := by
      rcases hform with rfl | ⟨k, -, rfl⟩ <;> rfl
    rw [(mem_sent hpk).1, hterm]
    refine hlw i ?_
    rcases hlead with hlead | ⟨q', rfl, hsend, hst⟩
    · exact hlead.2
    · rw [hst]
      by_contra hnot
      exact hh.condition hs _ rfl hnot hsend

theorem requestsWon {c : Channel} (hc : c ≠ .duplicating) (r : Execution n c)
    (hk : r.Always (onMessage KeepsTerm)) (hs : r.Always (onMessage (onAppendResponse SilentReply))) :
    ∀ k ≤ r.length, RequestsWon (r.states k) (past r k) := by
  refine r.induct ?_ fun k hk' ih => ih.moves hc (electionInv hc r k hk'.le) (leadersWon hc r hk (k + 1) hk')
    (moves r hk') (hs k hk')
  intro pk hpk
  obtain ⟨partitionId, serverNodes, garbage, hs⟩ := r.starts
  rw [hs] at hpk
  cases hpk

theorem keepsLeaderLog {s : Cluster n} {g : Ghost n} (h : RequestsWon s g) (he : ElectionInv s g)
    (hlw : LeadersWon s g) (e : Event n) : onMessage (onAppendRequest KeepsLeaderLog) s e := by
  have hpk : ∀ pk ∈ s.net, onAppendRequest KeepsLeaderLog (s.procs pk.dst).toRaftState pk.msg := by
    intro pk hpk
    unfold onAppendRequest
    split
    · rename_i q hq
      intro hl ht
      have h₁ := h pk hpk q hq
      rw [ht] at h₁
      have h₂ := hlw pk.dst hl
      rw [show (s.raft pk.dst).curTerm = (s.procs pk.dst).curTerm from rfl, h₁] at h₂
      exact absurd (Option.some.inj h₂) (he.links pk hpk)
    · trivial
  cases e with
  | deliver k now => exact fun pk hk => hpk pk (List.mem_of_getElem? hk)
  | redeliver k now => exact fun pk hk => hpk pk (List.mem_of_getElem? hk)
  | _ => trivial

/-! ## What is replicated -/

end Cluster

def Ghost.Holds {n : Nat} (g : Ghost n) (v : Fin n) (t : Int) (k : Nat) : Prop :=
  k < (g.log t).length ∧ (g.log t).take (k + 1) <+: g.lastLog v t

namespace Cluster

structure BaseInv (s : Cluster n) (g : Ghost n) : Prop where
  election : ElectionInv s g
  shape : WellFormed s
  logs : LogInv s g
  leaders : LeadersWon s g
  requests : RequestsWon s g

structure MatchInv (s : Cluster n) (g : Ghost n) : Prop where
  future : ∀ i t, (s.raft i).curTerm < t → g.lastLog i t = []
  request : ∀ pk ∈ s.net, ∀ q, pk.msg = .appendEntriesRequest q → q.leaderId = pk.src.val ∧
    ∃ p : Nat, q.prevLogIndex = p ∧ (∃ e₀, (g.log q.term)[p]? = some e₀ ∧ e₀.term = q.prevLogTerm) ∧
      (q.entries = [] ∨ ∃ e, q.entries = [e] ∧ (g.log q.term)[p + 1]? = some e)
  reply : ∀ pk ∈ s.net, ∀ q, pk.msg = .appendEntriesResponse q → q.appendResultSuccess ≠ 0 →
    q.followerId = pk.src.val ∧ g.won q.term = some pk.dst ∧
      ∃ k : Nat, q.lastIndexSynced = k ∧ g.Holds pk.src q.term k
  keys : ∀ i m, m ∈ (s.raft i).matchedIndex → ∃ j : Fin n, m = j.val ∧ j ≠ i
  matched : ∀ i, (s.raft i).state = .leader → ∀ (j : Fin n) (v : Int),
    (s.raft i).matchedIndex[(j.val : Int)]? = some v →
      v ≤ (s.raft i).commitIndex ∨ ∃ k : Nat, v = k ∧ g.Holds j (s.raft i).curTerm k

section
variable {c : Channel} {s s' : Cluster n} {g g' : Ghost n} {e : Event n}

theorem BaseInv.log_leader (hb : BaseInv s g) {i : Fin n} (hl : (s.raft i).state = .leader) :
    g.log (s.raft i).curTerm = (s.raft i).logEntries := by
  unfold Ghost.log
  rw [hb.leaders i hl]
  exact hb.logs.current i

theorem BaseInv.consistent_log (hb : BaseInv s g) {t : Int} {w : Fin n} (hw : g.won t = some w) :
    TermLog.Consistent LogEntry.term g.log (g.log t) := by
  have h := hb.logs.consistent w t
  unfold Ghost.log at h ⊢
  simp only [hw]
  exact h

theorem BaseInv.consistent (hb : BaseInv s g) (i : Fin n) :
    TermLog.Consistent LogEntry.term g.log (s.raft i).logEntries := by
  have h := hb.logs.consistent i (s.raft i).curTerm
  rwa [hb.logs.current] at h

theorem BaseInv.prefix_of_back (hb : BaseInv s g) {i : Fin n} {t : Int}
    (ht : (backEntry (s.raft i).logEntries).term = t) : (s.raft i).logEntries <+: g.log t := by
  have hne := (hb.shape.logs i).ne_nil
  have hback : backEntry (s.raft i).logEntries = (s.raft i).logEntries.getLast hne := by
    unfold backEntry
    rw [List.getLastD_eq_getLast?, List.getLast?_eq_some_getLast hne]
    rfl
  have hsplit := List.dropLast_append_getLast hne
  rw [← hback] at hsplit
  have hp := hb.consistent i (s.raft i).logEntries.dropLast (backEntry (s.raft i).logEntries) (by rw [hsplit])
  rwa [hsplit, ht] at hp

theorem future_moves (hm : Moves c s g e s' g') (h : MatchInv s g) (i : Fin n) (t : Int)
    (ht : (s'.raft i).curTerm < t) :
    g'.lastLog i t = [] := by
  have hold := h.future i t (lt_of_le_of_lt (curTerm_moves hm i) ht)
  cases hm with
  | lose => exact hold
  | @act j who msg net l hh _ ho hn =>
    rw [Ghost.record_lastLog_of_ne fun hj => by obtain ⟨rfl, rfl⟩ := hj; exact lt_irrefl _ ht]
    exact hold

variable (hc : c ≠ .duplicating) (hb : BaseInv s g) (hb' : BaseInv s' g') (hm : Moves c s g e s' g')
include hc hb hb' hm

theorem grow_moves (t : Int) : g.log t <+: g'.log t :=
  log_moves hc hb.logs hb.election hb.shape hb'.shape hm (keepsLeaderLog hb.requests hb.election hb.leaders e) t

theorem holds_moves (h : MatchInv s g) {v : Fin n} {t : Int} {k : Nat} (hh : g.Holds v t k) :
    g'.Holds v t k := by
  have hgrow := grow_moves hc hb hb' hm t
  obtain ⟨hk, hp⟩ := hh
  refine ⟨hk.trans_le hgrow.length_le, ?_⟩
  rw [take_eq_of_isPrefix hgrow hk]
  cases hm with
  | lose => exact hp
  | @act i who msg net l hh ht ho hn =>
    by_cases hi : v = i ∧ t = (s'.raft i).curTerm
    · obtain ⟨rfl, rfl⟩ := hi
      rw [Ghost.record_lastLog_self]
      rcases ht.curTerm_le.lt_or_eq with hlt | heq
      · rw [h.future v _ hlt, List.prefix_nil, List.take_eq_nil_iff] at hp
        rcases hp with hp | hp
        · cases hp
        · rw [hp] at hk; cases hk
      · rw [← heq, hb.logs.current] at hp
        rw [← heq]
        have hL : (g.log (s.raft v).curTerm).take (k + 1) <+: g.log (s.raft v).curTerm := List.take_prefix _ _
        revert heq
        generalize s'.raft v = r' at ht
        intro heq
        cases ht with
        | clientAppend => exact hp.trans (List.prefix_append _ _)
        | acceptAppend q now hle hs =>
          have hqt : (s.raft v).curTerm = q.term := heq
          obtain ⟨pk, -, -, hmsg, hl, -⟩ := hh.message_inv
          obtain ⟨-, p, hpq, -, hes | ⟨e', hes, he'⟩⟩ := h.request pk hl.subset.1 q hmsg
          · simpa [hes, appendLog] using hp
          · rw [← hqt] at he'
            simp only [hpq, hes] at hs ⊢
            obtain ⟨e₀, he₀, -⟩ := inSync_iff.mp hs
            exact appendLog_keeps hp hL he' (List.getElem?_eq_some_iff.mp he₀).1
        | _ => exact hp
    · rw [Ghost.record_lastLog_of_ne hi]
      exact hp

theorem request_holds (h : MatchInv s g) (pk : Packet n) (hpk : pk ∈ s'.net) (q : AppendEntriesRequest)
    (hq : pk.msg = .appendEntriesRequest q) : q.leaderId = pk.src.val ∧
    ∃ p : Nat, q.prevLogIndex = p ∧ (∃ e₀, (g'.log q.term)[p]? = some e₀ ∧ e₀.term = q.prevLogTerm) ∧
      (q.entries = [] ∨ ∃ e, q.entries = [e] ∧ (g'.log q.term)[p + 1]? = some e) := by
  have hgrow := grow_moves hc hb hb' hm q.term
  have hids := hb'.election.ids
  have hwon := hb'.requests pk hpk q hq
  have hshape := hb'.shape.logs
  cases hm.inFlight hpk with
  | old hpk =>
    obtain ⟨h₁, p, hp, ⟨e₀, he₀, ht₀⟩, hes⟩ := h.request pk hpk q hq
    exact ⟨h₁, p, hp, ⟨e₀, get_of_isPrefix hgrow he₀, ht₀⟩,
      hes.imp id fun ⟨e', he', hg'⟩ => ⟨e', he', get_of_isPrefix hgrow hg'⟩⟩
  | @sent i who msg net l hh ht ho hpk =>
    have hform := (ht.requests (hq ▸ carries_of_mem hpk)).1
    have hterm : q.term = (s'.raft i).curTerm := by
      rcases hform with rfl | ⟨k, -, rfl⟩ <;> rfl
    have hlog : (g.record i who (s.raft i) (s'.raft i)).log q.term = (s'.raft i).logEntries := by
      unfold Ghost.log
      rw [hwon, (mem_sent hpk).1, hterm]
      exact Ghost.record_lastLog_self ..
    rw [hlog, (mem_sent hpk).1, ← (hids i).1]
    rcases hform with rfl | ⟨k, hk, rfl⟩
    · have hlen := (hshape i).pos
      refine ⟨rfl, (s'.raft i).logEntries.length - 1, ?_, ⟨_, (hshape i).back, rfl⟩, Or.inl rfl⟩
      have := (hshape i).back_index
      simp only [RaftState.heartbeat]
      omega
    · have hprev : ((k + 1 : Nat) : Int) - 1 = (k : Nat) := by omega
      refine ⟨rfl, k, hprev, ⟨_, get_of_lt (by omega), ?_⟩, Or.inr ⟨_, rfl, get_of_lt hk⟩⟩
      simp only [RaftState.entryRequest, hprev]

omit hc hb' hm in
theorem prefix_of_accepted (h : MatchInv s g) {i who : Fin n} {q : AppendEntriesRequest} {net : List (Packet n)}
    (hh : Handles c s e i who (some (.appendEntriesRequest q)) net) (hle : (s.raft i).curTerm ≤ q.term)
    (hs : checkIfPreviousLogInSync q.prevLogTerm q.prevLogIndex (s.raft i).logEntries = true)
    (hv : VerifiedTail (s.raft i) q) :
    appendLog q.prevLogIndex q.entries (s.raft i).logEntries <+: g.log q.term := by
  obtain ⟨pk, -, -, hmsg, hl, -⟩ := hh.message_inv
  have hcon := hb.consistent i
  have hconL := hb.consistent_log (hb.requests pk hl.subset.1 q hmsg)
  have hv := hv hle hs
  obtain ⟨-, p, hp, ⟨e₁, he₁, ht₁⟩, hes⟩ := h.request pk hl.subset.1 q hmsg
  rw [hp] at hs hv ⊢
  obtain ⟨e₀, he₀, ht₀⟩ := inSync_iff.mp hs
  have hlt : p < (s.raft i).logEntries.length := (List.getElem?_eq_some_iff.mp he₀).1
  have hagree := hcon.matching hconL _ _ _ he₀ he₁ (ht₀.trans ht₁.symm)
  have hback := @BaseInv.prefix_of_back n s g hb i q.term
  have hcast : ((p : Int) + 1).toNat = p + 1 := by omega
  rcases hes with hes | ⟨e', hes, he'⟩
  · rw [hes]
    rcases hv with hlen | ⟨e', hmem, -⟩ | hterm
    · simp only [hes, List.length_nil] at hlen
      have hall := List.take_of_length_le (l := (s.raft i).logEntries) (i := p + 1) (by omega)
      show (s.raft i).logEntries <+: _
      rw [← hall, hagree]
      exact List.take_prefix _ _
    · simp [hes] at hmem
    · exact hback hterm
  · rw [hes]
    rcases appendLog_single (e := e') hlt with ⟨e'', he'', ht'', hlog⟩ | ⟨-, hlog⟩
    · rw [hlog]
      rcases hv with hlen | ⟨x, hmem, y, hy, hne⟩ | hterm
      · simp only [hes, List.length_singleton] at hlen
        have hall := List.take_of_length_le (l := (s.raft i).logEntries) (i := p + 1 + 1) (by omega)
        rw [← hall, hcon.matching hconL _ _ _ he'' he' ht'']
        exact List.take_prefix _ _
      · rw [hes, List.mem_singleton] at hmem
        rw [hcast, he''] at hy
        cases hy
        exact absurd (hmem ▸ ht'') hne
      · exact hback hterm
    · rw [hlog, hagree]
      obtain ⟨hlt', rfl⟩ := List.getElem?_eq_some_iff.mp he'
      rw [← List.take_succ_eq_append_getElem hlt']
      exact List.take_prefix _ _

theorem reply_holds (h : MatchInv s g) (hv : onMessage (onAppendRequest VerifiedTail) s e) (pk : Packet n)
    (hpk : pk ∈ s'.net) (q : AppendEntriesResponse) (hq : pk.msg = .appendEntriesResponse q)
    (hs : q.appendResultSuccess ≠ 0) : q.followerId = pk.src.val ∧ g'.won q.term = some pk.dst ∧
      ∃ k : Nat, q.lastIndexSynced = k ∧ g'.Holds pk.src q.term k := by
  have hgrow := grow_moves hc hb hb' hm q.term
  have hstable := @won_stable n c s s' g g' e hb.election hm hc
  have hholds := @holds_moves n c s s' g g' e hc hb hb' hm h
  have hshape := hb'.shape.logs
  cases hm.inFlight hpk with
  | old hpk =>
    obtain ⟨h₁, h₂, k, hk, hold⟩ := h.reply pk hpk q hq hs
    exact ⟨h₁, hstable h₂, k, hk, hholds hold⟩
  | sent hh ht ho hpk =>
    obtain ⟨hsrc, -, hsent⟩ := mem_sent hpk
    obtain ⟨q₀, rfl, hle, hsync, hlog, hct, rfl, hl⟩ := ht.replies (hq ▸ carries_of_mem hpk) hs
    have hpre := prefix_of_accepted hb h hh hle hsync (hh.condition hv _ rfl)
    obtain ⟨pk₀, rfl, rfl, hmsg, hleft, -⟩ := hh.message_inv
    have hlead := (h.request pk₀ hleft.subset.1 q₀ hmsg).1
    have hwon := hb.requests pk₀ hleft.subset.1 q₀ hmsg
    simp only [hl, hq, List.mem_singleton, Effect.writeMessage.injEq, reduceCtorEq, or_false, and_true] at hsent
    have hdst : pk.dst = pk₀.src := Fin.ext (by omega)
    rw [hsrc, hdst]
    refine ⟨(hb.election.ids _).1, hstable hwon, (s'.raft pk₀.dst).logEntries.length - 1, ?_, ?_⟩
    · have := (hshape pk₀.dst).back_index
      have := (hshape pk₀.dst).pos
      simp only
      omega
    · rw [← hlog] at hpre
      have hpos := (hshape pk₀.dst).pos
      have hlen := (hpre.trans hgrow).length_le
      refine ⟨by omega, ?_⟩
      rw [take_eq_of_isPrefix (hpre.trans hgrow) (by omega), List.take_of_length_le (by omega)]
      simp only [← hct, Ghost.record_lastLog_self]
      exact List.prefix_refl _

omit hc hb hb' in
theorem keys_moves (h : MatchInv s g) (i : Fin n) (m : Int) (hmem : m ∈ (s'.raft i).matchedIndex)
    (hlinks : ∀ pk ∈ s.net, pk.src ≠ pk.dst) : ∃ j : Fin n, m = j.val ∧ j ≠ i := by
  cases hm with
  | lose hn hn' hr => rw [hr] at hmem; exact h.keys i m hmem
  | @act j who msg net l hh ht ho hn =>
    by_cases hi : i = j
    · subst hi
      rcases ht.matched with heq | ⟨q, rfl, hs, heq⟩
      · rw [heq] at hmem; exact h.keys i m hmem
      · rw [heq, Std.ExtTreeMap.mem_insert] at hmem
        rcases hmem with hmem | hmem
        · obtain ⟨pk, rfl, rfl, hmsg, hl, -⟩ := hh.message_inv
          have hf := (h.reply pk hl.subset.1 q hmsg hs).1
          refine ⟨pk.src, ?_, hlinks pk hl.subset.1⟩
          rw [← hf]
          exact (compare_eq_iff_eq.mp hmem).symm
        · exact h.keys i m hmem
    · rw [ho i hi] at hmem
      exact h.keys i m hmem

theorem matched_holds (h : MatchInv s g) (hk : onMessage KeepsTerm s e)
    (hr : onMessage (onAppendResponse CurrentReply) s e) (hf : onMessage (onVoteResponse FreshMatches) s e)
    (i : Fin n) (hl : (s'.raft i).state = .leader) (j : Fin n) (v : Int)
    (hv : (s'.raft i).matchedIndex[(j.val : Int)]? = some v) :
    v ≤ (s'.raft i).commitIndex ∨ ∃ k : Nat, v = k ∧ g'.Holds j (s'.raft i).curTerm k := by
  have hholds := @holds_moves n c s s' g g' e hc hb hb' hm h
  have hkeep : ∀ {t : Int} {k₀ k₁ : Int}, k₀ ≤ k₁ → (v ≤ k₀ ∨ ∃ k : Nat, v = k ∧ g.Holds j t k) →
      v ≤ k₁ ∨ ∃ k : Nat, v = k ∧ g'.Holds j t k := by
    rintro t k₀ k₁ hle (hv | ⟨k, hk, hh⟩)
    · exact Or.inl (hv.trans hle)
    · exact Or.inr ⟨k, hk, hholds hh⟩
  cases hm with
  | lose hn hn' hr => rw [hr] at hl hv ⊢; exact h.matched i hl j v hv
  | @act i' who msg net l hh ht ho hn =>
    by_cases hi : i = i'
    · subst hi
      by_cases hw : Wins (s.raft i) (s'.raft i)
      · obtain ⟨q, rfl, hwins, hmi, hci, -⟩ := ht.winsOn hw
        rw [hmi] at hv
        left
        rw [hci]
        exact hh.condition hf _ rfl hwins (_, v) (Std.ExtTreeMap.mem_toList_iff_getElem?_eq_some.mpr hv)
      · obtain ⟨hl₀, hct⟩ := ht.leads (hh.condition hk) hl hw
        rcases ht.matched with hmi | ⟨q, rfl, hs, hmi⟩
        · rw [hmi] at hv
          rw [hct]
          exact hkeep ht.commitIndex_le (h.matched i hl₀ j v hv)
        · rw [hmi, Std.ExtTreeMap.getElem?_insert] at hv
          split at hv
          · rename_i hcmp
            obtain ⟨pk, rfl, rfl, hmsg, hl', -⟩ := hh.message_inv
            obtain ⟨hfol, -, k, hk', hhold⟩ := h.reply pk hl'.subset.1 q hmsg hs
            have hsrc : pk.src = j := Fin.ext (by have := compare_eq_iff_eq.mp hcmp; omega)
            have hqt : q.term = (s.raft pk.dst).curTerm := hh.condition hr _ rfl hl₀ hs
            rw [hsrc, hqt] at hhold
            rw [hct]
            exact Or.inr ⟨k, (Option.some.inj hv).symm.trans hk', hholds hhold⟩
          · rw [hct]
            exact hkeep ht.commitIndex_le (h.matched i hl₀ j v hv)
    · rw [ho i hi] at hl hv ⊢
      exact hkeep (le_refl _) (h.matched i hl j v hv)

end

theorem matchInv_starts {s : Cluster n} (h : Starts s) : MatchInv s (Ghost.start n) := by
  obtain ⟨partitionId, serverNodes, garbage, rfl⟩ := h
  have hr := raft_init (n := n) partitionId serverNodes garbage
  constructor
  · intro i t ht
    rw [hr] at ht
    exact if_neg (ne_of_gt ht)
  · intro pk hpk; cases hpk
  · intro pk hpk; cases hpk
  · intro i m hm
    have hm' : m ∈ ((List.range n).filter fun j : Nat => decide ((j : Int) ≠ (i.val : Int))).foldl
        (fun m j => m.insert (j : Int) 0) (∅ : IndexMap) := by
      simpa [raft, init, Process.construct, Process.commitLoop] using hm
    rcases Maps.mem_foldl_insert.mp hm' with hm' | ⟨j, hj, rfl⟩
    · simp at hm'
    · simp only [List.mem_filter, List.mem_range, decide_eq_true_eq] at hj
      exact ⟨⟨j, hj.1⟩, rfl, fun hji => hj.2 (by rw [← hji])⟩
  · intro i hl
    rw [hr] at hl
    cases hl

theorem baseInv {c : Channel} (hc : c ≠ .duplicating) (r : Execution n c)
    (hk : r.Always (onMessage KeepsTerm)) (hs : r.Always (onMessage (onAppendResponse SilentReply))) {k : Nat}
    (hk' : k ≤ r.length) :
    BaseInv (r.states k) (past r k) := by
  have hlog : r.Always (onMessage (onAppendRequest KeepsLeaderLog)) := fun j hj =>
    keepsLeaderLog (requestsWon hc r hk hs j hj.le) (electionInv hc r j hj.le) (leadersWon hc r hk j hj.le) _
  exact ⟨electionInv hc r k hk', wellFormed_run r hk', logInv hc r hk hlog k hk', leadersWon hc r hk k hk',
    requestsWon hc r hk hs k hk'⟩

section
variable {c : Channel} (hc : c ≠ .duplicating) (r : Execution n c) (hg : r.Always (onMessage SoundReplies))
include hc hg

theorem baseInv_sound {k : Nat} (hk : k ≤ r.length) : BaseInv (r.states k) (past r k) :=
  baseInv hc r (hg.mono (onMessage_mono fun _ _ h => h.1)) (hg.mono (onMessage_mono fun _ _ h => h.2.1)) hk

theorem matchInv {k : Nat} (hk : k ≤ r.length) : MatchInv (r.states k) (past r k) := by
  refine r.induct (P := fun k => MatchInv (r.states k) (past r k)) (matchInv_starts r.starts) ?_ k hk
  intro k hk ih
  have hb := baseInv_sound hc r hg hk.le
  have hb' := baseInv_sound hc r hg (k := k + 1) hk
  have hm := moves r hk
  have hgk := hg k hk
  exact ⟨future_moves hm ih, request_holds hc hb hb' hm ih,
    reply_holds hc hb hb' hm ih (onMessage_mono (fun _ _ h => h.2.2.2.1) _ _ hgk),
    fun i m hmem => keys_moves hm ih i m hmem hb.election.links,
    matched_holds hc hb hb' hm ih (onMessage_mono (fun _ _ h => h.1) _ _ hgk)
      (onMessage_mono (fun _ _ h => h.2.2.1) _ _ hgk) (onMessage_mono (fun _ _ h => h.2.2.2.2) _ _ hgk)⟩

end

end Cluster

end FlowMQ
