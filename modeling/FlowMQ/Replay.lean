import FlowMQ.NodeQueue
import FlowMQ.QueueStatus

/-!
# Entries that are applied again

Recovery applies the loaded entries, and may apply entries again from a commit
index that lags behind. An entry that was applied once does nothing when it is
applied to a later state of the queue: an added id is known, and a committed id
is no longer with any consumer.
-/

namespace FlowMQ

open Std (ExtTreeMap ExtTreeSet)

/-! ## Known and committed ids only grow -/

section
variable {id : Int}

theorem QueueOp.replicate_mono (op : QueueOp) (v : Replica) :
    (id ∈ v.1 → id ∈ (op.replicate v).1) ∧ (id ∈ v.2 → id ∈ (op.replicate v).2) := by
  cases op with
  | insertMessage messageId m =>
    simp only [replicate]
    split
    · exact ⟨fun h => h, fun h => h⟩
    · exact ⟨fun h => ExtTreeMap.mem_insert.mpr (Or.inr h), fun h => h⟩
  | commitMessage messageId =>
    simp only [replicate]
    split
    · exact ⟨fun h => h, fun h => ExtTreeSet.mem_insert.mpr (Or.inr h)⟩
    · exact ⟨fun h => h, fun h => h⟩
  | _ => exact ⟨fun h => h, fun h => h⟩

theorem foldl_replicate_mono (ops : List QueueOp) (v : Replica) :
    (id ∈ v.1 → id ∈ (ops.foldl QueueOp.replicate v).1) ∧
    (id ∈ v.2 → id ∈ (ops.foldl QueueOp.replicate v).2) := by
  induction ops generalizing v with
  | nil => exact ⟨fun h => h, fun h => h⟩
  | cons op ops ih =>
    obtain ⟨hs, hc⟩ := op.replicate_mono v
    obtain ⟨hs', hc'⟩ := ih (op.replicate v)
    exact ⟨fun h => hs' (hs h), fun h => hc' (hc h)⟩

theorem known_after_insert (messageId : Int) (m : Bytes) (v : Replica) :
    messageId ∈ (QueueOp.replicate v (.insertMessage messageId m)).1 := by
  simp only [QueueOp.replicate]
  split
  · rename_i h
    exact h
  · simp

theorem committed_after_commit {messageId : Int} {v : Replica} (h : messageId ∈ v.1) :
    messageId ∈ (QueueOp.replicate v (.commitMessage messageId)).2 := by
  have hc : v.1.contains messageId = true := h
  simp [QueueOp.replicate, hc]

end

/-! ## What a list of applied entries leaves -/

theorem queueOps_add {e : LogEntry} (h : e.operation = LogEntry.ADD) :
    e.queueOps = [.insertMessage e.messageId e.message] :=
  if_pos h

theorem queueOps_commit {e : LogEntry} (h : e.operation = LogEntry.COMMIT) :
    e.queueOps = [.commitMessage e.messageId] := by
  have hne : e.operation ≠ LogEntry.ADD := by
    rw [h]
    decide
  rw [LogEntry.queueOps, if_neg hne, if_pos h]

def CommitsKnown (es : List LogEntry) : Prop :=
  ∀ (i : Nat) (e : LogEntry), es[i]? = some e → e.operation = LogEntry.COMMIT →
    ∃ j < i, ∃ e', es[j]? = some e' ∧ e'.operation = LogEntry.ADD ∧ e'.messageId = e.messageId

theorem known_of_add {es : List LogEntry} {e : LogEntry} (he : e ∈ es) (ha : e.operation = LogEntry.ADD)
    (v : Replica) :
    e.messageId ∈ ((es.flatMap LogEntry.queueOps).foldl QueueOp.replicate v).1 := by
  obtain ⟨es₁, es₂, rfl⟩ := List.append_of_mem he
  rw [List.flatMap_append, List.flatMap_cons, queueOps_add ha, List.foldl_append, List.foldl_append]
  apply (foldl_replicate_mono _ _).1
  exact known_after_insert _ _ _

theorem committed_of_commit {es : List LogEntry} (hk : CommitsKnown es) {e : LogEntry} (he : e ∈ es)
    (hc : e.operation = LogEntry.COMMIT) (v : Replica) :
    e.messageId ∈ ((es.flatMap LogEntry.queueOps).foldl QueueOp.replicate v).2 := by
  obtain ⟨i, hi⟩ := List.getElem?_of_mem he
  obtain ⟨j, hj, e', he', ha, hid⟩ := hk i e hi hc
  -- the entry that added the id stands in the part before the commit
  have hadd : e' ∈ es.take i := List.mem_of_getElem? (by rwa [List.getElem?_take_of_lt hj])
  have hlt : i < es.length := (List.getElem?_eq_some_iff.mp hi).1
  have hsplit : es = es.take i ++ e :: es.drop (i + 1) := by
    rw [← (List.getElem?_eq_some_iff.mp hi).2, ← List.drop_eq_getElem_cons hlt, List.take_append_drop]
  have hknown := known_of_add hadd ha v
  rw [hid] at hknown
  rw [hsplit, List.flatMap_append, List.flatMap_cons, queueOps_commit hc, List.foldl_append, List.foldl_append]
  apply (foldl_replicate_mono _ _).2
  exact committed_after_commit hknown

/-! ## Applying an entry again -/

namespace MessageQueue

theorem insertMessage_known {q : MessageQueue} {id : Int} (h : id ∈ q.messageStore) (m : Bytes) :
    (q.insertMessage id m).2 = q := by
  rw [insertMessage, if_pos (ExtTreeMap.mem_iff_contains.mp h)]

theorem commitMessage_committed {q : MessageQueue} (hp : q.Partitioned) {id : Int}
    (h : id ∈ q.committedMessages) :
    (q.commitMessage id).2 = q := by
  have hknown : id ∈ q.messageStore := (hp.stored id).mpr (Or.inr (Or.inl h))
  have hfree : q.messageIdToConsumer[id]? = none := by
    cases hc : q.messageIdToConsumer[id]? with
    | none => rfl
    | some c => exact absurd ⟨h, c, (hp.inverse id c).mp hc⟩ (hp.committed_delivered id)
  have hrelease : q.releaseConsumer id = q := by
    unfold releaseConsumer
    rw [hfree]
  have hcommitted : q.committedMessages.insert id = q.committedMessages := by
    ext x
    rw [ExtTreeSet.mem_insert, compare_eq_iff_eq]
    exact or_iff_right_of_imp fun hx => hx ▸ h
  have hundelivered : q.undeliveredMessages.erase id = q.undeliveredMessages := by
    ext x
    rw [ExtTreeSet.mem_erase]
    refine and_iff_right_of_imp fun hx hx' => ?_
    rw [compare_eq_iff_eq.mp hx'] at h
    exact hp.undelivered_committed x ⟨hx, h⟩
  rw [commitMessage, if_pos (ExtTreeMap.mem_iff_contains.mp hknown), hrelease]
  dsimp only
  rw [hcommitted, hundelivered]

end MessageQueue

theorem applyEntry_again {es : List LogEntry} (hk : CommitsKnown es) {q : MessageQueue}
    (hq : Performs es MessageQueue.empty q) {e : LogEntry} (he : e ∈ es) : Process.applyEntry e q = q := by
  have hreplica := hq.replica MessageQueue.stored_empty
  have hstore : q.messageStore = _ := congrArg Prod.fst hreplica
  have hcommitted : q.committedMessages = _ := congrArg Prod.snd hreplica
  obtain ⟨ops, hops, -⟩ := hq
  have hp : q.Partitioned :=
    MessageQueue.partitioned_of_reads fun id => (MessageQueue.reads_empty id).exec hops
  unfold Process.applyEntry
  split
  · rename_i ha
    apply MessageQueue.insertMessage_known
    rw [hstore]
    exact known_of_add he ha _
  · split
    · rename_i hc
      apply MessageQueue.commitMessage_committed hp
      rw [hcommitted]
      exact committed_of_commit hk he hc _
    · rfl

/-- However the queue was reached, `commit_log_entry` changes nothing for entries that were applied before, in
any order and number. -/
theorem replay_harmless {es : List LogEntry} (hk : CommitsKnown es) {q : MessageQueue}
    (hq : Performs es MessageQueue.empty q) {p : Process} (hp : p.messageQueue = q) (indices : List Int)
    (hi : ∀ i ∈ indices, 0 < i → i < p.logEntries.length → entryAt p.logEntries i ∈ es) :
    (indices.foldl (fun p i => p.commitLogEntry i) p).messageQueue = q := by
  induction indices generalizing p with
  | nil => exact hp
  | cons i indices ih =>
    have hlog : (p.commitLogEntry i).logEntries = p.logEntries :=
      congrArg RaftState.logEntries (Process.commitLogEntry_raft i p)
    have hqueue : (p.commitLogEntry i).messageQueue = q := by
      unfold Process.commitLogEntry
      split
      · exact hp
      · split
        · exact hp
        · rename_i h₁ h₂
          have hmem := hi i List.mem_cons_self (by omega) (by omega)
          have happly := applyEntry_again hk hq hmem
          rw [← hp] at happly ⊢
          exact happly
    rw [List.foldl_cons]
    apply ih hqueue
    rw [hlog]
    exact fun j hj => hi j (List.mem_cons_of_mem i hj)

def usedEntries : List LogEntry :=
  [⟨1, 1, 7, LogEntry.ADD, toBytes "a"⟩, ⟨2, 1, 8, LogEntry.ADD, toBytes "b"⟩, ⟨3, 1, 7, LogEntry.COMMIT, []⟩]

def usedQueue : List QueueOp :=
  [.insertMessage 7 (toBytes "a"), .deliverMessageToClientId 7 1, .insertMessage 8 (toBytes "b"),
    .deliverMessageToClientId 8 1, .commitMessage 7, .handleClientDisconnected 1,
    .deliverMessageToClientId 8 2]

def usedNode : Process := Process.construct 0 0 3 [] ⟨0, 0⟩ usedEntries 2

theorem replay_harmless_usedQueue : ∃ q, Runs.exec MessageQueue.next MessageQueue.empty usedQueue = some q ∧
    ([3, 1, 2, 0, 1, 3].foldl (fun (p : Process) i => p.commitLogEntry i)
      { usedNode with messageQueue := q }).messageQueue = q := by
  obtain ⟨q, hq⟩ := Option.isSome_iff_exists.mp
    (show (Runs.exec MessageQueue.next MessageQueue.empty usedQueue).isSome = true by decide +kernel)
  have hknown : CommitsKnown usedEntries := by
    intro i e he hc
    have hi : i < 3 := (List.getElem?_eq_some_iff.mp he).1
    interval_cases i <;> cases he
    · cases hc
    · cases hc
    · exact ⟨0, by decide, _, rfl, rfl, rfl⟩
  have hmem : ∀ i ∈ ([3, 1, 2, 0, 1, 3] : List Int), 0 < i → i < usedNode.logEntries.length →
      entryAt usedNode.logEntries i ∈ usedEntries := by decide +kernel
  exact ⟨q, hq, replay_harmless hknown ⟨usedQueue, hq, rfl⟩ rfl [3, 1, 2, 0, 1, 3] hmem⟩

end FlowMQ
