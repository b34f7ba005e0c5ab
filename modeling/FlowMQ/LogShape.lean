import FlowMQ.ClusterStep
import FlowMQ.LogOps

/-!
# The shape of logs and append requests

One invariant over all nodes and all messages in flight, kept by every handler
whatever the links do: logs are `Shaped` up to the term of their node, and a
request carries at most one entry, which continues its `prev` entry.
-/

namespace FlowMQ

structure ShapedRequest (q : AppendEntriesRequest) : Prop where
  prev : 0 ≤ q.prevLogIndex
  single : q.entries.length ≤ 1
  entry : ∀ e ∈ q.entries, e.index = q.prevLogIndex + 1 ∧ q.prevLogTerm ≤ e.term ∧ e.term ≤ q.term

theorem ShapedRequest.cases {q : AppendEntriesRequest} (h : ShapedRequest q) :
    ∃ p : Nat, q.prevLogIndex = p ∧ (q.entries = [] ∨ ∃ e, q.entries = [e] ∧ e.index = p + 1 ∧
      q.prevLogTerm ≤ e.term ∧ e.term ≤ q.term) := by
  obtain ⟨p, hp⟩ := Int.eq_ofNat_of_zero_le h.prev
  refine ⟨p, hp, ?_⟩
  cases hq : q.entries with
  | nil => exact Or.inl rfl
  | cons e es =>
    have hes : es = [] := by
      have := h.single
      rw [hq] at this
      simpa using this
    subst hes
    obtain ⟨h₁, h₂, h₃⟩ := h.entry e (by rw [hq]; simp)
    exact Or.inr ⟨e, rfl, by omega, h₂, h₃⟩

/-! ## What one handler does to a shaped log -/

theorem Shaped.appendLog {T : Int} {log : List LogEntry} (h : Shaped T log) {q : AppendEntriesRequest}
    (hq : ShapedRequest q) (hT : T ≤ q.term)
    (hs : checkIfPreviousLogInSync q.prevLogTerm q.prevLogIndex log = true) :
    Shaped q.term (FlowMQ.appendLog q.prevLogIndex q.entries log) := by
  obtain ⟨p, hp, he | ⟨e, he, hi, h₁, h₂⟩⟩ := hq.cases
  · rw [he]; exact h.mono hT
  · rw [hp] at hs ⊢
    rw [he]
    obtain ⟨e₀, he₀, ht₀⟩ := inSync_iff.mp hs
    have hlt : p < log.length := (List.getElem?_eq_some_iff.mp he₀).1
    rcases appendLog_single (e := e) hlt with ⟨e', -, -, hl⟩ | ⟨-, hl⟩
    · rw [hl]; exact h.mono hT
    · rw [hl]
      refine ((h.mono hT).take (by omega)).snoc ?_ ?_ h₂
      · rw [hi, List.length_take]; omega
      · rw [backEntry_take he₀, ht₀]; exact h₁

theorem shapedRequest_entryRequest {r : RaftState} (h : Shaped r.curTerm r.logEntries) {i : Int} (h₁ : 1 ≤ i)
    (h₂ : i ≤ (r.logEntries.length : Int) - 1) : ShapedRequest (r.entryRequest i) := by
  obtain ⟨k, rfl⟩ : ∃ k : Nat, i = (k + 1 : Nat) := ⟨(i - 1).toNat, by omega⟩
  have hk : k + 1 < r.logEntries.length := by omega
  have hprev : ((k + 1 : Nat) : Int) - 1 = (k : Nat) := by omega
  refine ⟨by simp [RaftState.entryRequest], by simp [RaftState.entryRequest], ?_⟩
  intro e he
  simp only [RaftState.entryRequest, List.mem_singleton] at he ⊢
  subst he
  have hget := get_of_lt hk
  rw [hprev]
  refine ⟨?_, ?_, h.bound _ (List.mem_of_getElem? hget)⟩
  · rw [h.index _ _ hget]; push_cast; ring
  · exact h.sorted k (k + 1) _ _ (by omega) (get_of_lt (by omega)) hget

theorem Trans.shaped {r r' : RaftState} {msg : Option RaftMessage} {l : List Effect} (ht : Trans r msg r' l)
    (h : Shaped r.curTerm r.logEntries) (hq : ∀ q, msg = some (.appendEntriesRequest q) → ShapedRequest q) :
    Shaped r'.curTerm r'.logEntries := by
  have hmono := ht.curTerm_le
  cases ht with
  | acceptAppend q now hT hs => exact h.appendLog (hq q rfl) hT hs
  | clientAppend hl e hi ht => exact h.snoc hi (by rw [ht]; exact h.back_term) ht.le
  | _ => exact h.mono hmono

theorem entryRequests_mem {r : RaftState} {l : List Effect} (hr : r.EntryRequests l)
    {q : AppendEntriesRequest} (hq : Carries l (.appendEntriesRequest q)) :
    l ≠ [] ∧ ∃ k : Nat, k + 1 < r.logEntries.length ∧ q = r.entryRequest (k + 1 : Nat) := by
  obtain ⟨hne, k, hk, hm⟩ := hr.carries hq
  exact ⟨hne, k, hk, RaftMessage.appendEntriesRequest.inj hm⟩

theorem Trans.requests {r r' : RaftState} {msg : Option RaftMessage} {l : List Effect} (ht : Trans r msg r' l)
    {q : AppendEntriesRequest} (hq : Carries l (.appendEntriesRequest q)) :
    (q = r'.heartbeat ∨ ∃ k : Nat, k + 1 < r'.logEntries.length ∧ q = r'.entryRequest (k + 1 : Nat)) ∧
      ((r.state = .leader ∧ r'.state = .leader) ∨ ∃ q', msg = some (.appendEntriesResponse q') ∧
        r.sendsAfterReply q' ∧ r'.state = r.state) := by
  cases ht with
  | heartbeat hl pending =>
    cases carries_broadCast.mp hq
    exact ⟨Or.inl rfl, Or.inl ⟨hl, hl⟩⟩
  | replySuccess q' h' c hc next pending l hl hr =>
    obtain ⟨hne, hk⟩ := entryRequests_mem hr hq
    exact ⟨Or.inr hk, Or.inr ⟨q', rfl, not_not.mp fun hs => hne (hl.mpr hs), rfl⟩⟩
  | replyTerm q' h' ht next pending l hl hr =>
    obtain ⟨hne, hk⟩ := entryRequests_mem hr hq
    exact ⟨Or.inr hk, Or.inr ⟨q', rfl, not_not.mp fun hs => hne (hl.mpr hs), rfl⟩⟩
  | replyRetry q' h' ht next pending l hl hr =>
    obtain ⟨hne, hk⟩ := entryRequests_mem hr hq
    exact ⟨Or.inr hk, Or.inr ⟨q', rfl, not_not.mp fun hs => hne (hl.mpr hs), rfl⟩⟩
  | clientAppend hl e hi ht next pending l hr => exact ⟨Or.inr (entryRequests_mem hr hq).2, Or.inl ⟨hl, hl⟩⟩
  | _ => simp at hq

theorem Trans.shapedRequest {r r' : RaftState} {msg : Option RaftMessage} {l : List Effect}
    (ht : Trans r msg r' l) (h : Shaped r'.curTerm r'.logEntries) {q : AppendEntriesRequest}
    (hq : Carries l (.appendEntriesRequest q)) : ShapedRequest q := by
  rcases (ht.requests hq).1 with rfl | ⟨k, hk, rfl⟩
  · refine ⟨?_, by simp [RaftState.heartbeat], by simp [RaftState.heartbeat]⟩
    have hb := h.back_index
    have hpos := h.pos
    simp only [RaftState.heartbeat]
    omega
  · exact shapedRequest_entryRequest h (by omega) (by omega)

/-! ## The invariant -/

namespace Cluster

variable {n : Nat}

structure WellFormed (s : Cluster n) : Prop where
  logs : ∀ i, Shaped (s.raft i).curTerm (s.raft i).logEntries
  requests : ∀ pk ∈ s.net, ∀ q, pk.msg = .appendEntriesRequest q → ShapedRequest q

theorem wellFormed_starts {s : Cluster n} (h : Starts s) : WellFormed s where
  logs := fun i => by
    obtain ⟨partitionId, serverNodes, garbage, rfl⟩ := h
    rw [raft_init]
    refine ⟨rfl, ?_, ?_, ?_⟩
    · intro k e he
      cases k with
      | zero => cases he; rfl
      | succ k => simp at he
    · intro j k e e' hjk he he'
      cases k with
      | zero =>
        obtain rfl : j = 0 := by omega
        rw [he] at he'
        cases he'
        exact le_refl _
      | succ k => simp at he'
    · intro e he
      rw [List.mem_singleton.mp he]
      exact le_refl 0
  requests := fun pk hpk => by
    obtain ⟨partitionId, serverNodes, garbage, rfl⟩ := h
    cases hpk

theorem WellFormed.acts {s s' : Cluster n} (h : WellFormed s) {i : Fin n} {msg : Option RaftMessage}
    {net : List (Packet n)} (ha : Acts s i msg net s') (hnet : ∀ pk ∈ net, pk ∈ s.net)
    (hmsg : ∀ q, msg = some (.appendEntriesRequest q) → ShapedRequest q) : WellFormed s' := by
  have hi : Shaped (s'.raft i).curTerm (s'.raft i).logEntries := ha.trans.shaped (h.logs i) hmsg
  constructor
  · exact ha.forall_raft (P := fun _ r => Shaped r.curTerm r.logEntries) h.logs hi
  · intro pk hpk q hq
    rcases ha.mem_net hnet hpk with hpk | hpk
    · exact h.requests pk hpk q hq
    · exact ha.trans.shapedRequest hi (hq ▸ carries_of_mem hpk)

theorem WellFormed.step {c : Channel} {s s' : Cluster n} {e : Event n} (h : WellFormed s)
    (hs : s.step c e = some s') : WellFormed s' := by
  cases step_spec hs with
  | lose hl =>
    exact ⟨h.logs, fun pk hpk => h.requests pk (mem_of_split hl pk hpk)⟩
  | input ha => exact h.acts ha (fun _ hpk => hpk) (fun q hq => by cases hq)
  | message he hk hl ha =>
    refine h.acts ha hl.subset.2 fun q hq => ?_
    exact h.requests _ hl.subset.1 q (Option.some.inj hq)

theorem wellFormed_reachable {c : Channel} {G : Cluster n → Event n → Prop} {s : Cluster n}
    (h : Reachable c G s) : WellFormed s :=
  reachable_induct (fun _ => wellFormed_starts) (fun _ _ _ _ ih _ hs => ih.step hs) h

/-! ## Pushes -/

def isPush : Effect → Bool
  | .pushLogEntry .. => true
  | _ => false

def PushesInPlace (s : Cluster n) : Prop :=
  ∀ i pos e, (i, Effect.pushLogEntry pos e) ∈ s.history → e.index = pos

theorem not_mem_of_pushes {out : List Effect} (h : out.filter isPush = []) {pos : Int} {e : LogEntry} :
    Effect.pushLogEntry pos e ∉ out := fun hm => by
  have hmem : Effect.pushLogEntry pos e ∈ out.filter isPush := List.mem_filter.mpr ⟨hm, rfl⟩
  rw [h] at hmem
  cases hmem

theorem appendLogEntries_pushes {p : Process} {q : AppendEntriesRequest}
    (hq : ShapedRequest q) (hs : checkIfPreviousLogInSync q.prevLogTerm q.prevLogIndex p.logEntries = true)
    (hp : p.out.filter isPush = []) {pos : Int} {e : LogEntry}
    (he : .pushLogEntry pos e ∈ (p.appendLogEntries q.prevLogIndex q.entries).out) : e.index = pos := by
  have hold : Effect.pushLogEntry pos e ∉ p.out := not_mem_of_pushes hp
  obtain ⟨k, hk, hes | ⟨e', hes, hi, -, -⟩⟩ := hq.cases
  · rw [hes] at he
    exact absurd he hold
  · rw [hk] at hs he
    rw [hes] at he
    obtain ⟨e₀, he₀, -⟩ := inSync_iff.mp hs
    have hlt : k < p.logEntries.length := (List.getElem?_eq_some_iff.mp he₀).1
    simp only [Process.appendLogEntries, Process.appendLogEntry] at he
    split at he
    · rename_i hend
      simp only [Process.emit_out, List.mem_append, hold, List.mem_singleton, Effect.pushLogEntry.injEq,
        false_or] at he
      obtain ⟨rfl, rfl⟩ := he
      rw [hi]; omega
    · split at he
      · exact absurd he hold
      · simp only [Process.emit_out, List.mem_append, hold, List.mem_singleton, Effect.pushLogEntry.injEq,
          false_or, cleanLogEntriesOutOfSync, List.length_take] at he
        obtain ⟨rfl, rfl⟩ := he
        rw [hi]; omega

theorem advanceCommit_pushes (target stop : Int) (p : Process) :
    (p.advanceCommit target stop).out.filter isPush = p.out.filter isPush :=
  Process.advanceCommit_filter (by simp [isPush]) (by simp [isPush]) (by simp [isPush]) target stop p

theorem blind_pushes : Blind fun p => p.out.filter isPush := blind_filter (by simp [isPush])

theorem message_pushes {p : Process} (hout : p.out = []) {msg : RaftMessage}
    (hq : ∀ q, msg = .appendEntriesRequest q → ShapedRequest q) {now randomId pos : Int} {e : LogEntry}
    (he : .pushLogEntry pos e ∈ (p.localMessageHandler now randomId msg).out) : e.index = pos := by
  cases msg with
  | appendEntriesRequest q =>
    have hmem : Effect.pushLogEntry pos e ∈ (p.appendEntriesRequest now q).out.filter isPush :=
      List.mem_filter.mpr ⟨he, rfl⟩
    rw [blind_pushes.appendEntriesRequest now q p] at hmem
    split at hmem
    · rename_i hacc
      have hr := Process.updateLeaderCommit_raft (p.acceptLeader now q) q
      refine appendLogEntries_pushes (hq q rfl) ?_ ?_ (List.mem_filter.mp hmem).1
      · rw [hr]; exact hacc.2
      · unfold Process.updateLeaderCommit
        split
        · rw [advanceCommit_pushes, Process.acceptLeader, hout]; rfl
        · rw [Process.acceptLeader, hout]; rfl
    · rw [hout] at hmem
      cases hmem
  | appendEntriesResponse q =>
    refine absurd he (not_mem_of_pushes ((blind_pushes.appendEntriesResponse q p).trans ?_))
    split
    · rw [advanceCommit_pushes, hout]; rfl
    · rw [hout]; rfl
  | _ =>
    refine absurd he (not_mem_of_pushes ?_)
    rw [Process.localMessageHandler_filter (by simp [isPush]) (by simp [isPush]) _ _ _ _ rfl, hout]
    rfl

theorem mem_history_act {s : Cluster n} {i j : Fin n} {f : Process → Process} {net : List (Packet n)} {e : Effect}
    (h : (j, e) ∈ (s.act i f net).history) :
    (j, e) ∈ s.history ∨ (j = i ∧ e ∈ (f (s.procs i).clear).out) := by
  simp only [act, List.mem_append, List.mem_map, Prod.mk.injEq] at h
  rcases h with h | ⟨e', he', rfl, rfl⟩
  · exact Or.inl h
  · exact Or.inr ⟨rfl, he'⟩

theorem pushesInPlace_step {c : Channel} {s s' : Cluster n} {e : Event n} (hi : WellFormed s)
    (h : PushesInPlace s) (hs : s.step c e = some s') : PushesInPlace s' := by
  cases step_spec hs with
  | lose hl => exact h
  | @input i inp ha =>
    intro j pos e he
    rcases mem_history_act he with he | ⟨-, he⟩
    · exact h j pos e he
    · refine absurd he (not_mem_of_pushes ?_)
      rw [Process.handle_filter (by simp [isPush]) (by simp [isPush]) (by simp [isPush])]
      rfl
  | @message _ k now pk net he hk hl ha =>
    intro j pos e he
    rcases mem_history_act he with he | ⟨-, he⟩
    · exact h j pos e he
    · exact message_pushes rfl (hi.requests pk hl.subset.1) he

/-- Over links that lose, repeat and reorder as they like, logs and requests stay in shape. -/
theorem logs_wellFormed {s : Cluster n} (h : Reachable .duplicating Free s) :
    WellFormed s ∧ PushesInPlace s := by
  refine ⟨wellFormed_reachable h, ?_⟩
  refine reachable_induct (P := PushesInPlace) ?_
    (fun _ _ _ hr ih _ hs => pushesInPlace_step (wellFormed_reachable hr) ih hs) h
  rintro s ⟨partitionId, serverNodes, garbage, rfl⟩ i pos e he
  cases he

/-- Node 0 accepts two messages, and node 1 handles its requests for the first one again and again. -/
def repeatedPuts : List (Event 3) :=
  electZero ++ [.input 0 (.clientPutMessage 7 (toBytes "a")), .input 0 (.clientPutMessage 8 (toBytes "b")),
    .redeliver 1 1, .redeliver 1 1, .redeliver 3 1, .deliver 1 1]

theorem logs_wellFormed_repeatedPuts : ∃ s, Runs.exec (step .duplicating) (fresh 3) repeatedPuts = some s ∧
    (WellFormed s ∧ PushesInPlace s) := by
  obtain ⟨s, hs⟩ := Option.isSome_iff_exists.mp
    (show (Runs.exec (step .duplicating) (fresh 3) repeatedPuts).isSome = true by decide +kernel)
  exact ⟨s, hs, logs_wellFormed (reachable_fresh hs)⟩

end Cluster

end FlowMQ
