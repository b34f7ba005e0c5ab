import FlowMQ.FlowProto
import FlowMQ.Integrity
import FlowMQ.LogShape

/-!
# Numbers do not overflow

The `int32` numbers of the nodes and of their messages count events: terms are
raised by timers, logs grow by puts, and everything else is copied. So none of
them has exceeded the number of steps, and a run has to be as long as the range
of `int32` before one does not fit into its field.
-/

namespace FlowMQ

def Small (b z : Int) : Prop := -1 ≤ z ∧ z ≤ b

theorem Small.mono {b b' z : Int} (h : Small b z) (hb : b ≤ b') : Small b' z := ⟨h.1, h.2.trans hb⟩

theorem Small.fits {b z : Int} (h : Small b z) (hb : b < 2 ^ 31) : Wire.Fits32 z := by
  obtain ⟨h₁, h₂⟩ := h
  constructor <;> omega

def RaftMessage.Small (b : Int) : RaftMessage → Prop
  | .requestVoteRequest q =>
    FlowMQ.Small b q.term ∧ FlowMQ.Small b q.candidateId ∧ FlowMQ.Small b q.lastLogIndex ∧
      FlowMQ.Small b q.lastLogTerm
  | .requestVoteResponse q => FlowMQ.Small b q.term ∧ FlowMQ.Small b q.voteResultTermGranted
  | .appendEntriesRequest q =>
    FlowMQ.Small b q.term ∧ FlowMQ.Small b q.leaderId ∧ FlowMQ.Small b q.prevLogIndex ∧
      FlowMQ.Small b q.prevLogTerm ∧
      (∀ e ∈ q.entries, FlowMQ.Small b e.index ∧ FlowMQ.Small b e.term) ∧ FlowMQ.Small b q.leaderCommit
  | .appendEntriesResponse q =>
    FlowMQ.Small b q.term ∧ FlowMQ.Small b q.followerId ∧ FlowMQ.Small b q.appendResultSuccess ∧
      FlowMQ.Small b q.lastIndexSynced
  | _ => False

structure RaftState.Small (b : Int) (r : RaftState) : Prop where
  one : 1 ≤ b
  nodeId : FlowMQ.Small b r.nodeId
  curTerm : FlowMQ.Small b r.curTerm
  commitIndex : FlowMQ.Small b r.commitIndex
  log : Shaped r.curTerm r.logEntries
  length : (r.logEntries.length : Int) ≤ b + 1

section
variable {b b' : Int} {r r' : RaftState} {msg : Option RaftMessage} {l : List Effect}

theorem RaftMessage.Small.mono {m : RaftMessage} (h : m.Small b) (hb : b ≤ b') : m.Small b' := by
  cases m with
  | requestVoteRequest q => exact ⟨h.1.mono hb, h.2.1.mono hb, h.2.2.1.mono hb, h.2.2.2.mono hb⟩
  | requestVoteResponse q => exact ⟨h.1.mono hb, h.2.mono hb⟩
  | appendEntriesRequest q =>
    obtain ⟨h₁, h₂, h₃, h₄, h₅, h₆⟩ := h
    exact ⟨h₁.mono hb, h₂.mono hb, h₃.mono hb, h₄.mono hb,
      fun e he => ⟨(h₅ e he).1.mono hb, (h₅ e he).2.mono hb⟩, h₆.mono hb⟩
  | appendEntriesResponse q => exact ⟨h.1.mono hb, h.2.1.mono hb, h.2.2.1.mono hb, h.2.2.2.mono hb⟩
  | _ => exact h

namespace RaftState.Small

theorem mono (h : r.Small b) (hb : b ≤ b') : r.Small b' where
  one := h.one.trans hb
  nodeId := h.nodeId.mono hb
  curTerm := h.curTerm.mono hb
  commitIndex := h.commitIndex.mono hb
  log := h.log
  length := h.length.trans (by omega)

theorem bit (h : r.Small b) {z : Int} (hz : z = 0 ∨ z = 1) : FlowMQ.Small b z := by
  have hone := h.one
  constructor <;> omega

theorem none (h : r.Small b) : FlowMQ.Small b (-1) := ⟨le_rfl, by have := h.one; omega⟩

theorem entry (h : r.Small b) {k : Nat} {e : LogEntry} (he : r.logEntries[k]? = some e) :
    FlowMQ.Small b e.index ∧ FlowMQ.Small b e.term := by
  have hk : k < r.logEntries.length := (List.getElem?_eq_some_iff.mp he).1
  have hlength := h.length
  have hindex := h.log.index k e he
  have hbound := h.log.bound e (List.mem_of_getElem? he)
  have hpos := h.log.sorted 0 k _ e (Nat.zero_le k) h.log.head he
  have hterm := h.curTerm.2
  exact ⟨⟨by omega, by omega⟩, (show (-1 : Int) ≤ 0 by decide).trans hpos, hbound.trans hterm⟩

theorem heartbeat (h : r.Small b) : RaftMessage.Small b (.appendEntriesRequest r.heartbeat) := by
  obtain ⟨hindex, hterm⟩ := h.entry h.log.back
  exact ⟨h.curTerm, h.nodeId, hindex, hterm, List.forall_mem_nil _, h.commitIndex⟩

theorem entryRequest (h : r.Small b) {k : Nat} (hk : k + 1 < r.logEntries.length) :
    RaftMessage.Small b (.appendEntriesRequest (r.entryRequest (k + 1 : Nat))) := by
  have hlength := h.length
  have hprev : ((k + 1 : Nat) : Int) - 1 = (k : Nat) := by omega
  have hpterm := (h.entry (get_of_lt (show k < r.logEntries.length by omega))).2
  refine ⟨h.curTerm, h.nodeId, ?_, ?_, ?_, h.commitIndex⟩
  · exact ⟨by simp only [RaftState.entryRequest]; omega, by simp only [RaftState.entryRequest]; omega⟩
  · rw [RaftState.entryRequest, hprev]
    exact hpterm
  · intro e he
    rw [List.mem_singleton.mp he]
    exact h.entry (get_of_lt hk)

theorem voteRequest (h : r.Small b) : RaftMessage.Small b (.requestVoteRequest r.voteRequest) := by
  obtain ⟨hindex, hterm⟩ := h.entry h.log.back
  exact ⟨h.curTerm, h.nodeId, hindex, hterm⟩

end RaftState.Small

theorem length_appendLog {log : List LogEntry} {q : AppendEntriesRequest} (hq : ShapedRequest q)
    (hs : checkIfPreviousLogInSync q.prevLogTerm q.prevLogIndex log = true) :
    (appendLog q.prevLogIndex q.entries log).length ≤ log.length + 1 := by
  obtain ⟨p, hp, he | ⟨e, he, -⟩⟩ := hq.cases
  · rw [he, appendLog]
    omega
  · rw [hp] at hs ⊢
    obtain ⟨e₀, he₀, -⟩ := inSync_iff.mp hs
    have hlt : p < log.length := (List.getElem?_eq_some_iff.mp he₀).1
    rw [he]
    rcases appendLog_single (e := e) hlt with ⟨e', -, -, hl⟩ | ⟨-, hl⟩
    · rw [hl]
      omega
    · rw [hl, List.length_append, List.length_take, List.length_singleton]
      omega

theorem Trans.small (ht : Trans r msg r' l) (h : r.Small b) (hm : ∀ m ∈ msg, m.Small b)
    (hq : ∀ q, msg = some (.appendEntriesRequest q) → ShapedRequest q) : r'.Small (b + 1) := by
  have hlog := ht.shaped h.log hq
  have hone := h.one
  have hlength := h.length
  have hup : ∀ {z : Int}, FlowMQ.Small b z → FlowMQ.Small (b + 1) z := fun hz => hz.mono (by omega)
  have hterm := hup h.curTerm
  have hcommit := hup h.commitIndex
  have hgrows : ∀ {r' : RaftState}, r'.nodeId = r.nodeId → r'.logEntries.length ≤ r.logEntries.length + 1 →
      FlowMQ.Small (b + 1) r'.curTerm → FlowMQ.Small (b + 1) r'.commitIndex →
      Shaped r'.curTerm r'.logEntries →
      r'.Small (b + 1) := fun hn hl hT hc hs =>
    ⟨by omega, by rw [hn]; exact hup h.nodeId, hT, hc, hs, by omega⟩
  cases ht with
  | startElection =>
    have hnext : FlowMQ.Small (b + 1) (r.curTerm + 1) := by
      obtain ⟨h₁, h₂⟩ := h.curTerm
      exact ⟨by omega, by omega⟩
    exact hgrows rfl (Nat.le_succ _) hnext hcommit hlog
  | refuseAppend q now hT => exact hgrows rfl (Nat.le_succ _) (hup (hm _ rfl).1) hcommit hlog
  | acceptAppend q now hT hs =>
    refine hgrows rfl (length_appendLog (hq q rfl) hs) (hup (hm _ rfl).1) ?_ hlog
    simp only [RaftState.commitAfter]
    split
    · exact hup (hm _ rfl).2.2.2.2.2
    · exact hcommit
  | replySuccess q hs c hc next pending l hl hr =>
    refine hgrows rfl (Nat.le_succ _) hterm ?_ hlog
    rcases hc with ⟨rfl, -⟩ | ⟨-, rfl⟩
    · exact hcommit
    · exact hup (hm _ rfl).2.2.2
  | replyTerm q hs ht next pending l hl hr => exact hgrows rfl (Nat.le_succ _) (hup (hm _ rfl).1) hcommit hlog
  | grantVote q hv hst => exact hgrows rfl (Nat.le_succ _) (hup (hm _ rfl).1) hcommit hlog
  | ignoreVote q hv hst => exact hgrows rfl (Nat.le_succ _) (hup (hm _ rfl).1) hcommit hlog
  | win q hst hg ht v hv hw => exact hgrows rfl (Nat.le_succ _) (hup (hm _ rfl).1) hcommit hlog
  | clientAppend hl e hi ht next pending l hr => exact hgrows rfl List.length_append.le hterm hcommit hlog
  | _ => exact hgrows rfl (Nat.le_succ _) hterm hcommit hlog

theorem Trans.sends_small (ht : Trans r msg r' l) (h : r.Small b) (h' : r'.Small (b + 1))
    (hm : ∀ m ∈ msg, m.Small b) {m : RaftMessage} (hc : Carries l m) : m.Small (b + 1) := by
  have hup : ∀ {z : Int}, FlowMQ.Small b z → FlowMQ.Small (b + 1) z := fun hz => hz.mono (by omega)
  have hrequest : ∀ q, m = .appendEntriesRequest q → m.Small (b + 1) := by
    rintro q rfl
    rcases (ht.requests hc).1 with rfl | ⟨k, hk, rfl⟩
    · exact h'.heartbeat
    · exact h'.entryRequest hk
  cases ht with
  | askVotes hv ht =>
    rw [carries_broadCast.mp hc]
    exact h'.voteRequest
  | staleAppend q hlt =>
    rw [carries_writeMessage.mp hc]
    exact ⟨hup h.curTerm, hup h.nodeId, h'.bit (Or.inl rfl), h'.none⟩
  | refuseAppend q now hT hs =>
    rw [carries_writeMessage.mp hc]
    exact ⟨hup (hm _ rfl).1, hup h.nodeId, h'.bit (Or.inl rfl), h'.none⟩
  | acceptAppend q now hT hs =>
    rw [carries_writeMessage.mp hc]
    exact ⟨hup (hm _ rfl).1, hup h.nodeId, h'.bit (Or.inr rfl), (h'.entry h'.log.back).1⟩
  | denyVote q hv =>
    rw [carries_writeMessage.mp hc]
    exact ⟨hup (hm _ rfl).1, h'.bit (Or.inl rfl)⟩
  | grantVote q hv hst =>
    rw [carries_writeMessage.mp hc]
    exact ⟨hup (hm _ rfl).1, h'.bit (Or.inr rfl)⟩
  | heartbeat hl pending => exact hrequest _ (carries_broadCast.mp hc)
  | replySuccess q hs c hc' next pending l hl hr => exact hrequest _ (hr.carries hc).2.choose_spec.2
  | replyTerm q hs ht next pending l hl hr => exact hrequest _ (hr.carries hc).2.choose_spec.2
  | replyRetry q hs ht next pending l hl hr => exact hrequest _ (hr.carries hc).2.choose_spec.2
  | clientAppend hl e hi ht next pending l hr => exact hrequest _ (hr.carries hc).2.choose_spec.2
  | _ => exact absurd hc not_carries_nil

end

namespace Cluster

variable {n : Nat} {c : Channel} {b : Int} {s s' : Cluster n}

structure Small (b : Int) (s : Cluster n) : Prop where
  raft : ∀ i, (s.raft i).Small b
  net : ∀ pk ∈ s.net, pk.msg.Small b

theorem small_starts (h : Starts s) (hb : (n : Int) ≤ b) (hone : 1 ≤ b) : s.Small b where
  raft := fun i => by
    have hlog := (wellFormed_starts h).logs i
    obtain ⟨partitionId, serverNodes, garbage, rfl⟩ := h
    rw [raft_init] at hlog ⊢
    have hi := i.isLt
    have hzero : FlowMQ.Small b 0 := ⟨by decide, by omega⟩
    have hnode : FlowMQ.Small b i.val := ⟨by omega, by omega⟩
    exact ⟨hone, hnode, hzero, hzero, hlog, by simp only [List.length_singleton]; omega⟩
  net := by
    obtain ⟨partitionId, serverNodes, garbage, rfl⟩ := h
    exact List.forall_mem_nil _

theorem Small.acts (h : s.Small b) {i : Fin n} {msg : Option RaftMessage} {net : List (Packet n)}
    (ha : Acts s i msg net s') (hnet : ∀ pk ∈ net, pk ∈ s.net) (hm : ∀ m ∈ msg, m.Small b)
    (hq : ∀ q, msg = some (.appendEntriesRequest q) → ShapedRequest q) : s'.Small (b + 1) := by
  have hi := ha.trans.small (h.raft i) hm hq
  refine ⟨?_, fun pk hpk => ?_⟩
  · exact ha.forall_raft (P := fun _ r => r.Small (b + 1)) (fun j => (h.raft j).mono (by omega)) hi
  · rcases ha.mem_net hnet hpk with hold | hnew
    · exact (h.net pk hold).mono (by omega)
    · exact ha.trans.sends_small (h.raft i) hi hm (carries_of_mem hnew)

theorem Small.step {e : Event n} (h : s.Small b) (hw : WellFormed s) (hs : s.step c e = some s') :
    s'.Small (b + 1) := by
  cases step_spec hs with
  | lose hn =>
    exact ⟨fun i => (h.raft i).mono (by omega),
      fun pk hpk => (h.net pk (mem_of_split hn pk hpk)).mono (by omega)⟩
  | input ha => exact h.acts ha (fun _ hpk => hpk) nofun nofun
  | message he hk hl ha =>
    refine h.acts ha hl.subset.2 (fun m hm => ?_) fun q hq => hw.requests _ hl.subset.1 q (Option.some.inj hq)
    rw [← Option.some.inj hm]
    exact h.net _ hl.subset.1

theorem small_run (r : Execution n c) : ∀ k ≤ r.length, (r.states k).Small (n + 1 + k) := by
  have hboth : ∀ k ≤ r.length, WellFormed (r.states k) ∧ (r.states k).Small (n + 1 + k) := by
    apply r.induct (P := fun k => WellFormed (r.states k) ∧ (r.states k).Small (n + 1 + k))
    · exact ⟨wellFormed_starts r.starts, small_starts r.starts (by omega) (by omega)⟩
    · intro k hk ih
      refine ⟨ih.1.step (r.steps k hk), ?_⟩
      have hnext := ih.2.step ih.1 (r.steps k hk)
      push_cast
      rwa [← add_assoc]
  exact fun k hk => (hboth k hk).2

end Cluster

/-! ## What goes into the messages -/

def Input.Fits : Input → Prop
  | .clientPutMessage randomId message => Wire.Fits64 randomId ∧ message.length < 2 ^ 31
  | .clientCommitMessage messageId => Wire.Fits64 messageId
  | _ => True

instance : (inp : Input) → Decidable inp.Fits
  | .clientPutMessage .. => inferInstanceAs (Decidable (_ ∧ _))
  | .clientCommitMessage messageId => inferInstanceAs (Decidable (Wire.Fits64 messageId))
  | .voteTimer _ | .voteRequestTimer | .heartbeatTimer | .clientOpenQueue
  | .consumerDisconnected _ | .acceptNewConnection _
  | .registerConsumer .. | .removeSession _ | .deliverOther _ => inferInstanceAs (Decidable True)

structure LogEntry.Given (e : LogEntry) : Prop where
  index : 0 ≤ e.index
  messageId : Wire.Fits64 e.messageId
  operation : Wire.Fits32 e.operation
  message : e.message.length < 2 ^ 31

theorem Input.creates_given {inp : Input} (h : inp.Fits) {e : LogEntry} (hc : inp.creates e)
    (hi : 0 ≤ e.index) : e.Given := by
  match inp, h, hc with
  | .clientPutMessage id text, h, ⟨h₁, h₂, h₃⟩ =>
    subst h₂ h₃
    exact ⟨hi, h.1, by rw [h₁]; decide, h.2⟩
  | .clientCommitMessage id, h, ⟨h₁, h₂, h₃⟩ =>
    subst h₂
    exact ⟨hi, h, by rw [h₁]; decide, by rw [h₃]; decide⟩

section
variable {b : Int} (hb : b < 2 ^ 31)
include hb

theorem LogEntry.Given.fits {e : LogEntry} (h : e.Given) (hi : Small b e.index) (ht : Small b e.term) :
    e.Fits :=
  ⟨hi.fits hb, ht.fits hb, h.messageId, h.operation, h.message⟩

theorem RaftMessage.Small.fits_load {m : RaftMessage} (h : m.Small b) (hfrom : m.From LogEntry.Given)
    (opening : ClientOpenQueue) : (m.load opening).Fits := by
  cases m with
  | requestVoteRequest q =>
    exact FlowProto.fits_empty.loadVoteRequest ⟨h.1.fits hb, h.2.1.fits hb, h.2.2.1.fits hb, h.2.2.2.fits hb⟩
  | requestVoteResponse q => exact FlowProto.fits_empty.loadVoteResult ⟨h.1.fits hb, h.2.fits hb⟩
  | appendEntriesRequest q =>
    obtain ⟨h₁, h₂, h₃, h₄, h₅, h₆⟩ := h
    refine FlowProto.fits_empty.loadAppendEntriesRequest ⟨h₁.fits hb, h₂.fits hb, h₃.fits hb, h₄.fits hb,
      fun e he => ?_, h₆.fits hb⟩
    exact (hfrom.2 e he).fits hb (h₅ e he).1 (h₅ e he).2
  | appendEntriesResponse q =>
    exact FlowProto.fits_empty.loadAppendEntriesResponse ⟨h.1.fits hb, h.2.1.fits hb, h.2.2.1.fits hb,
      h.2.2.2.fits hb⟩
  | _ => cases h

end

namespace Cluster

variable {n : Nat} {c : Channel}

def FitsInput (_ : Cluster n) : Event n → Prop
  | .input _ inp => inp.Fits
  | _ => True

instance (s : Cluster n) : (e : Event n) → Decidable (s.FitsInput e)
  | .input _ inp => inferInstanceAs (Decidable inp.Fits)
  | .deliver .. | .redeliver .. | .lose _ => inferInstanceAs (Decidable True)

structure Fits (s : Cluster n) : Prop where
  curTerm : ∀ i, Wire.Fits32 (s.raft i).curTerm
  commitIndex : ∀ i, Wire.Fits32 (s.raft i).commitIndex
  log : ∀ i, ∀ e ∈ (s.raft i).logEntries, e.Fits
  net : ∀ pk ∈ s.net, ∀ opening, (pk.msg.load opening).Fits

theorem given_step {s s' : Cluster n} {e : Event n} (h : s.From LogEntry.Given) (hfits : s.FitsInput e)
    (hs : s.step c e = some s') : s'.From LogEntry.Given := by
  refine h.step (fun e he => he.index) (fun x hx hi => ?_) hs
  cases e with
  | input i inp => exact Input.creates_given hfits hx hi
  | _ => cases hx

theorem given_run (r : Execution n c) (hr : r.Always FitsInput) :
    ∀ k ≤ r.length, (r.states k).From LogEntry.Given :=
  r.induct (P := fun k => (r.states k).From LogEntry.Given) (from_starts r.starts)
    fun k hk ih => given_step ih (hr k hk) (r.steps k hk)

theorem fits_of_small {s : Cluster n} {b : Int} (hb : b < 2 ^ 31) (h : s.Small b)
    (hfrom : s.From LogEntry.Given) : s.Fits where
  curTerm := fun i => (h.raft i).curTerm.fits hb
  commitIndex := fun i => (h.raft i).commitIndex.fits hb
  log := fun i e he => by
    obtain ⟨k, hk⟩ := List.mem_iff_getElem?.mp he
    obtain ⟨hindex, hterm⟩ := (h.raft i).entry hk
    cases k with
    | zero =>
      rw [(h.raft i).log.head] at hk
      cases hk
      decide
    | succ k => exact ((hfrom.raft i).log.get (Nat.succ_pos k) hk).fits hb hindex hterm
  net := fun pk hpk opening => (h.net pk hpk).fits_load hb (hfrom.net pk hpk) opening

/-- Whatever the links do, no term, index or entry has overflowed and every message in flight is one that its
fields have room for before a run is as long as the range of `int`. -/
theorem fits_run (r : Execution n c) (hr : r.Always FitsInput) (hlen : n + 1 + r.length < 2 ^ 31) :
    ∀ k ≤ r.length, (r.states k).Fits := by
  intro k hk
  exact fits_of_small (b := n + 1 + k) (by omega) (small_run r k hk) (given_run r hr k hk)

theorem committedPut_fits :
    (Runs.exec (Runs.guarded FitsInput (step .fifo)) (fresh 3) committedPut).isSome := by decide +kernel

theorem fits_committedPut :
    ∃ r : Execution 3 .fifo, (r.states r.length).history ≠ [] ∧ (r.states r.length).Fits := by
  let r : Execution 3 .fifo :=
    .ofEvents (fresh 3) ⟨_, _, _, rfl⟩ committedPut (Runs.isSome_of_guarded committedPut_fits)
  have hr : r.Always FitsInput := Runs.Run.ofEvents_always committedPut_fits
  exact ⟨r, by decide +kernel, fits_run r hr (by decide) r.length le_rfl⟩

end Cluster

end FlowMQ
