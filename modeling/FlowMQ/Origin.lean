import FlowMQ.Recovery
import FlowMQ.LogShape

/-!
# Where a node has its messages from

A node writes to clients what is in its message store, puts into the store what
it applies, applies entries of its log, and has these from its own clients or
from the requests of other nodes. `K` stands for the entries that clients have
asked for so far.
-/

namespace FlowMQ

def AddedBy (K : LogEntry → Prop) (id : Int) (text : Bytes) : Prop :=
  ∃ e, K e ∧ e.operation = LogEntry.ADD ∧ e.messageId = id ∧ e.message = text

def ConsumedBy (K : LogEntry → Prop) (id : Int) : Prop :=
  ∃ e, K e ∧ e.operation = LogEntry.COMMIT ∧ e.messageId = id

section
variable {K K' : LogEntry → Prop}

theorem AddedBy.mono (hK : ∀ e, K e → K' e) {id : Int} {text : Bytes} (h : AddedBy K id text) :
    AddedBy K' id text := by
  obtain ⟨e, he, h⟩ := h
  exact ⟨e, hK e he, h⟩

theorem ConsumedBy.mono (hK : ∀ e, K e → K' e) {id : Int} (h : ConsumedBy K id) : ConsumedBy K' id := by
  obtain ⟨e, he, h⟩ := h
  exact ⟨e, hK e he, h⟩

end

/-! ## The queue -/

structure MessageQueue.From (K : LogEntry → Prop) (q : MessageQueue) : Prop where
  stored : q.Stored
  texts : ∀ id text, q.messageStore[id]? = some text → AddedBy K id text
  committed : ∀ id ∈ q.committedMessages, ConsumedBy K id

namespace MessageQueue.From

variable {K : LogEntry → Prop} {q q' : MessageQueue}

theorem empty : MessageQueue.empty.From K where
  stored := stored_empty
  texts := fun id text h => by simp [MessageQueue.empty] at h
  committed := fun id h => absurd h Std.ExtTreeSet.not_mem_empty

theorem replicate {v : Replica} (ht : ∀ id text, v.1[id]? = some text → AddedBy K id text)
    (hc : ∀ id ∈ v.2, ConsumedBy K id) {e : LogEntry} (he : K e) :
    (∀ id text, (e.queueOps.foldl QueueOp.replicate v).1[id]? = some text → AddedBy K id text) ∧
      ∀ id ∈ (e.queueOps.foldl QueueOp.replicate v).2, ConsumedBy K id := by
  unfold LogEntry.queueOps
  split
  · rename_i hadd
    simp only [List.foldl_cons, List.foldl_nil, QueueOp.replicate]
    split
    · exact ⟨ht, hc⟩
    · refine ⟨fun id text h => ?_, hc⟩
      rw [Std.ExtTreeMap.getElem?_insert] at h
      split at h
      · rename_i hid
        cases h
        exact ⟨e, he, hadd, compare_eq_iff_eq.mp hid, rfl⟩
      · exact ht id text h
  · split
    · rename_i hcommit
      simp only [List.foldl_cons, List.foldl_nil, QueueOp.replicate]
      split
      · refine ⟨ht, fun id h => ?_⟩
        rcases Std.ExtTreeSet.mem_insert.mp h with h | h
        · exact ⟨e, he, hcommit, compare_eq_iff_eq.mp h⟩
        · exact hc id h
      · exact ⟨ht, hc⟩
    · exact ⟨ht, hc⟩

theorem replicate_all {es : List LogEntry} (hes : ∀ e ∈ es, K e) : ∀ {v : Replica},
    (∀ id text, v.1[id]? = some text → AddedBy K id text) → (∀ id ∈ v.2, ConsumedBy K id) →
    (∀ id text, ((es.flatMap LogEntry.queueOps).foldl QueueOp.replicate v).1[id]? = some text → AddedBy K id text) ∧
      ∀ id ∈ ((es.flatMap LogEntry.queueOps).foldl QueueOp.replicate v).2, ConsumedBy K id := by
  induction es with
  | nil => exact fun ht hc => ⟨ht, hc⟩
  | cons e es ih =>
    intro v ht hc
    obtain ⟨ht', hc'⟩ := replicate ht hc (hes e List.mem_cons_self)
    rw [List.flatMap_cons, List.foldl_append]
    exact ih (fun e' he' => hes e' (List.mem_cons_of_mem e he')) ht' hc'

theorem performs (h : q.From K) {es : List LogEntry} (hes : ∀ e ∈ es, K e) (hp : Performs es q q') :
    q'.From K := by
  have hrep := hp.replica h.stored
  obtain ⟨ht, hc⟩ := replicate_all hes (v := q.replica) h.texts h.committed
  rw [← hrep] at ht hc
  obtain ⟨ops, hops, -⟩ := hp
  exact ⟨(exec_replica h.stored hops).1, ht, hc⟩

theorem mono {K' : LogEntry → Prop} (hK : ∀ e, K e → K' e) (h : q.From K) : q.From K' where
  stored := h.stored
  texts := fun id text ht => (h.texts id text ht).mono hK
  committed := fun id hc => (h.committed id hc).mono hK

end MessageQueue.From

/-! ## What is written to clients -/

def Effect.served : Effect → Option (Int × Bytes)
  | .writeClient _ _ (.serverSendMessage messageId message) => some (messageId, message)
  | _ => none

namespace Process

def served (p : Process) : List (Int × Bytes) := p.out.filterMap Effect.served

theorem blind_served : Blind served := ⟨fun _ _ => rfl, fun p i m => by simp [served, Effect.served]⟩

variable {K : LogEntry → Prop}

theorem deliverToClient_served (msg : RaftMessage) (p : Process) :
    ∀ x ∈ (p.deliverToClient msg).2.served, x ∈ p.served ∨ msg = .serverSendMessage x.1 x.2 := by
  intro x hx
  have hd := deliverToClient_calls msg p
  generalize p.deliverToClient msg = d at hd hx
  cases hd with
  | missing _ => exact Or.inl hx
  | empty _ => exact Or.inl hx
  | write _ _ _ _ =>
    simp only [served, emit_out, List.filterMap_append, List.mem_append] at hx
    refine hx.imp_right fun hx => ?_
    cases msg with
    | serverSendMessage id text =>
      obtain rfl : x = (id, text) := by simpa [Effect.served] using hx
      rfl
    | _ => simp [Effect.served] at hx

theorem deliverMessages_served {texts : Std.ExtTreeMap Int Bytes compare}
    (ht : ∀ id text, texts[id]? = some text → AddedBy K id text) : ∀ (ids : List Int) (p : Process),
    p.messageQueue.messageStore = texts → (∀ id ∈ ids, id ∈ texts) →
    ∀ x ∈ (p.deliverMessages ids).served, x ∈ p.served ∨ AddedBy K x.1 x.2
  | [], p, _, _, x, hx => Or.inl hx
  | id :: ids, p, hp, hids, x, hx => by
    have hid := hids id List.mem_cons_self
    have htext : texts[id]? = some (p.messageQueue.getMessage id).1 := by
      obtain ⟨text, htext⟩ := Option.isSome_iff_exists.mp (Std.ExtTreeMap.mem_iff_isSome_getElem?.mp hid)
      rw [MessageQueue.getMessage, Std.ExtTreeMap.getD_eq_getD_getElem?, hp, htext]
      rfl
    have hstore : (p.messageQueue.getMessage id).2.messageStore = texts := by
      rw [MessageQueue.getMessage, hp]
      exact Maps.insertIfNew_of_mem hid
    simp only [deliverMessages] at hx
    have hserved := deliverToClient_served (.serverSendMessage id (p.messageQueue.getMessage id).1)
      { p with messageQueue := (p.messageQueue.getMessage id).2 }
    have hkeeps := (deliverToClient_calls (.serverSendMessage id (p.messageQueue.getMessage id).1)
      { p with messageQueue := (p.messageQueue.getMessage id).2 }).keeps.2.1
    generalize deliverToClient _ _ = d at hx hserved hkeeps
    have hround : ∀ x ∈ d.2.served, x ∈ p.served ∨ AddedBy K x.1 x.2 := fun x hx =>
      (hserved x hx).imp_right fun hmsg => by
        obtain ⟨rfl, heq⟩ := RaftMessage.serverSendMessage.inj hmsg
        exact ht _ _ (heq ▸ htext)
    split at hx
    · exact hround x hx
    · rcases deliverMessages_served ht ids _ (by rw [hkeeps]; exact hstore)
        (fun id' hid' => hids id' (List.mem_cons_of_mem id hid')) x hx with hx | hx
      · exact hround x hx
      · exact Or.inr hx

theorem triggerMessageDelivery_served {p : Process} (h : p.messageQueue.From K) :
    ∀ x ∈ p.triggerMessageDelivery.served, x ∈ p.served ∨ AddedBy K x.1 x.2 := by
  intro x hx
  unfold triggerMessageDelivery at hx
  split at hx
  · exact Or.inl hx
  · split at hx
    · exact Or.inl hx
    · exact deliverMessages_served h.texts _ p rfl
        (fun id hid => h.stored.undelivered id (Std.ExtTreeSet.mem_toList.mp hid)) x hx

theorem commitLoop_served : ∀ (k : Nat) (i : Int) (p : Process), (commitLoop k i p).served = p.served
  | 0, _, _ => rfl
  | k + 1, i, p => by
    rw [commitLoop, commitLoop_served k]
    simp [served, commitLogEntry_out, applyCall, Effect.served]

theorem advanceCommit_served {p : Process} (h : p.messageQueue.From K) {target : Int}
    (hes : ∀ e ∈ (p.toRaftState.commitRecord target).filterMap Effect.asEntry, K e) :
    ∀ x ∈ (p.advanceCommit target (target + 1)).served, x ∈ p.served ∨ AddedBy K x.1 x.2 := by
  intro x hx
  have hcount : target + 1 - (p.commitIndex + 1) = target - p.commitIndex := by omega
  have hrec : (p.toRaftState.commitRecord target).filterMap Effect.asEntry =
      (applyCalls p.logEntries (p.commitIndex + 1) (target - p.commitIndex).toNat).filterMap Effect.asEntry := by
    rw [RaftState.commitRecord, List.filterMap_append]
    exact List.append_nil _
  have hserved : (p.advanceCommit target (target + 1)).served =
      (commitLoop (target - p.commitIndex).toNat (p.commitIndex + 1) p).triggerMessageDelivery.served := by
    rw [← hcount]
    simp [advanceCommit, commitLogEntries, served, Effect.served]
  rw [hserved] at hx
  rw [hrec] at hes
  rw [← commitLoop_served (target - p.commitIndex).toNat (p.commitIndex + 1) p]
  exact triggerMessageDelivery_served (h.performs hes (commitLoop_performs _ _ p)) x hx

theorem appendLogEntries_served : ∀ (es : List LogEntry) (last : Int) (p : Process),
    (p.appendLogEntries last es).served = p.served
  | [], _, _ => rfl
  | e :: es, last, p => by
    rw [appendLogEntries, appendLogEntries_served es]
    unfold appendLogEntry
    split
    · simp [served, Effect.served]
    · split
      · rfl
      · simp [served, Effect.served]

section
variable {p : Process} (h : p.messageQueue.From K)
include h

theorem clientOpenQueue_served : ∀ x ∈ p.clientOpenQueue.served, x ∈ p.served ∨ AddedBy K x.1 x.2 := by
  have hcall : ∀ resp, ∀ x ∈ (p.deliverToClient (.clientOpenQueueResponse resp)).2.served, x ∈ p.served :=
    fun resp x hx => (deliverToClient_served _ p x hx).resolve_right fun h => by cases h
  intro x hx
  unfold clientOpenQueue at hx
  split at hx
  · exact Or.inl (hcall _ x hx)
  · refine (triggerMessageDelivery_served ?_ x hx).imp_left (hcall _ x)
    rw [(deliverToClient_calls _ p).keeps.2.1]
    exact h

theorem localMessageHandler_served (now randomId : Int) (msg : RaftMessage)
    (hes : ∀ e ∈ (p.toRaftState.records (some msg)).filterMap Effect.asEntry, K e) :
    ∀ x ∈ (p.localMessageHandler now randomId msg).served, x ∈ p.served ∨ AddedBy K x.1 x.2 := by
  intro x hx
  cases msg with
  | appendEntriesRequest q =>
    simp only [localMessageHandler] at hx
    rw [blind_served.appendEntriesRequest now q p] at hx
    simp only [RaftState.records, RaftState.commitTarget] at hes
    split at hx
    · rename_i hs
      simp only [hs, true_and] at hes
      rw [appendLogEntries_served, updateLeaderCommit_acceptLeader] at hx
      split at hx
      · rename_i hc
        rw [if_pos hc] at hes
        exact advanceCommit_served (p := p.acceptLeader now q) h hes x hx
      · exact Or.inl hx
    · exact Or.inl hx
  | appendEntriesResponse q =>
    simp only [localMessageHandler] at hx
    rw [blind_served.appendEntriesResponse q p] at hx
    simp only [RaftState.records, RaftState.commitTarget] at hes
    split at hx
    · rename_i hc
      rw [if_pos hc] at hes
      exact advanceCommit_served (p := { p with
        pendingAppendReqs := p.pendingAppendReqs.insert q.followerId
          (max 0 (p.pendingAppendReqs.getD q.followerId 0 - 1))
        matchedIndex := p.matchedIndex.insert q.followerId q.lastIndexSynced }) h hes x hx
    · exact Or.inl hx
  | requestVoteRequest q => exact Or.inl (blind_served.requestVoteRequest q p ▸ hx)
  | requestVoteResponse q => exact Or.inl (blind_served.requestVoteResponse q p ▸ hx)
  | clientPutMessage m => exact Or.inl (blind_served.clientPutMessage randomId m p ▸ hx)
  | clientCommitMessage id => exact Or.inl (blind_served.clientCommitMessage id p ▸ hx)
  | clientOpenQueue => exact clientOpenQueue_served h x hx
  | clientOpenQueueResponse _ => exact Or.inl hx
  | serverSendMessage _ _ => exact Or.inl hx

theorem handle_served (inp : Input) : ∀ x ∈ (p.handle inp).served, x ∈ p.served ∨ AddedBy K x.1 x.2 := by
  have hb : ∀ (p : Process) (m : RaftMessage), (p.emit (.broadCast m)).served = p.served := fun p m => by
    simp [served, Effect.served]
  intro x hx
  cases inp with
  | voteTimer now => exact Or.inl (blind_served.voteTimer now p ▸ hx)
  | voteRequestTimer => exact Or.inl (blind_served.voteRequestTimer hb p ▸ hx)
  | heartbeatTimer => exact Or.inl (blind_served.heartbeatTimer hb p ▸ hx)
  | clientPutMessage randomId m => exact Or.inl (blind_served.clientPutMessage randomId m p ▸ hx)
  | clientCommitMessage id => exact Or.inl (blind_served.clientCommitMessage id p ▸ hx)
  | clientOpenQueue => exact clientOpenQueue_served h x hx
  | consumerDisconnected id =>
    have hback : (p.messageQueue.handleClientDisconnected id).2.From K :=
      h.performs (List.forall_mem_nil K) (.silent (.handleClientDisconnected id) rfl rfl)
    exact triggerMessageDelivery_served
      (p := { p with messageQueue := (p.messageQueue.handleClientDisconnected id).2 }) hback x hx
  | _ => exact Or.inl hx

end

end Process

/-! ## Logs and requests -/

def LogFrom (K : LogEntry → Prop) (log : List LogEntry) : Prop :=
  ∃ rest, log = LogEntry.dummy :: rest ∧ ∀ e ∈ rest, K e

namespace LogFrom

variable {K K' : LogEntry → Prop} {log : List LogEntry}

theorem mono (hK : ∀ e, K e → K' e) (h : LogFrom K log) : LogFrom K' log := by
  obtain ⟨rest, hlog, hrest⟩ := h
  exact ⟨rest, hlog, fun e he => hK e (hrest e he)⟩

theorem snoc (h : LogFrom K log) {e : LogEntry} (he : K e) : LogFrom K (log ++ [e]) := by
  obtain ⟨rest, rfl, hrest⟩ := h
  refine ⟨rest ++ [e], rfl, fun e' he' => ?_⟩
  rcases List.mem_append.mp he' with he' | he'
  · exact hrest e' he'
  · exact List.mem_singleton.mp he' ▸ he

theorem take (h : LogFrom K log) {k : Nat} (hk : 0 < k) : LogFrom K (log.take k) := by
  obtain ⟨rest, rfl, hrest⟩ := h
  obtain ⟨k, rfl⟩ := Nat.exists_eq_add_one_of_ne_zero hk.ne'
  exact ⟨rest.take k, rfl, fun e he => hrest e (List.mem_of_mem_take he)⟩

theorem get (h : LogFrom K log) {k : Nat} (hk : 0 < k) {e : LogEntry} (he : log[k]? = some e) : K e := by
  obtain ⟨rest, rfl, hrest⟩ := h
  obtain ⟨k, rfl⟩ := Nat.exists_eq_add_one_of_ne_zero hk.ne'
  exact hrest e (List.mem_of_getElem? he)

theorem appendLogAt (h : LogFrom K log) {i : Int} (hi : 1 ≤ i) {e : LogEntry} (he : K e) :
    LogFrom K (FlowMQ.appendLogAt i e log) := by
  unfold FlowMQ.appendLogAt
  split
  · exact h.snoc he
  · split
    · exact h
    · exact (h.take (by omega)).snoc he

theorem appendLog {es : List LogEntry} (hes : ∀ e ∈ es, K e) {last : Int} (hl : 0 ≤ last) (h : LogFrom K log) :
    LogFrom K (FlowMQ.appendLog last es log) := by
  induction es generalizing last log with
  | nil => exact h
  | cons e es ih =>
    have hrest := fun e' he' => hes e' (List.mem_cons_of_mem e he')
    exact ih hrest (by omega) (h.appendLogAt (by omega) (hes e List.mem_cons_self))

theorem logRange (h : LogFrom K log) {start stop : Int} (hs : 1 ≤ start) :
    ∀ e ∈ FlowMQ.logRange log start stop, K e := by
  intro e he
  obtain ⟨k, hk⟩ := List.mem_iff_getElem?.mp (List.mem_of_mem_take he)
  rw [List.getElem?_drop] at hk
  exact h.get (by omega) hk

theorem applyCalls (h : LogFrom K log) (start : Int) (count : Nat) :
    ∀ e ∈ (FlowMQ.applyCalls log start count).filterMap Effect.asEntry, K e := by
  intro e he
  obtain ⟨call, hcall, he⟩ := List.mem_filterMap.mp he
  obtain ⟨j, -, rfl⟩ := List.mem_map.mp hcall
  by_cases hj : 1 ≤ start + j
  · rw [asEntry_applyCall hj] at he
    exact h.get (by omega) he
  · rw [applyCall, if_pos (Or.inl (by omega))] at he
    cases he

theorem back_index (hK : ∀ e, K e → 0 ≤ e.index) (h : LogFrom K log) : 0 ≤ (backEntry log).index := by
  obtain ⟨rest, rfl, hrest⟩ := h
  rcases List.eq_nil_or_concat rest with rfl | ⟨rest, e, rfl⟩
  · exact le_refl 0
  · have hback : backEntry (LogEntry.dummy :: (rest ++ [e])) = e := by
      rw [backEntry, ← List.cons_append, List.getLastD_concat]
    rw [List.concat_eq_append] at *
    rw [hback]
    exact hK e (hrest e (by simp))

end LogFrom

def RaftMessage.betweenNodes : RaftMessage → Bool
  | .appendEntriesRequest _ => true
  | .appendEntriesResponse _ => true
  | .requestVoteRequest _ => true
  | .requestVoteResponse _ => true
  | _ => false

/-- What a node may be sent: nothing of a client, and requests with allowed entries that go behind the
dummy entry. -/
def RaftMessage.From (K : LogEntry → Prop) : RaftMessage → Prop
  | .appendEntriesRequest q => 0 ≤ q.prevLogIndex ∧ ∀ e ∈ q.entries, K e
  | .appendEntriesResponse _ => True
  | .requestVoteRequest _ => True
  | .requestVoteResponse _ => True
  | _ => False

structure RaftState.From (K : LogEntry → Prop) (r : RaftState) : Prop where
  log : LogFrom K r.logEntries
  commitIndex : 0 ≤ r.commitIndex

def Input.creates : Input → LogEntry → Prop
  | .clientPutMessage randomId message, e =>
    e.operation = LogEntry.ADD ∧ e.messageId = randomId ∧ e.message = message
  | .clientCommitMessage messageId, e =>
    e.operation = LogEntry.COMMIT ∧ e.messageId = messageId ∧ e.message = []
  | _, _ => False

def Event.creates {n : Nat} : Event n → LogEntry → Prop
  | .input _ inp, e => inp.creates e
  | _, _ => False

section
variable {K K' : LogEntry → Prop} {r r' : RaftState} {msg : Option RaftMessage} {l : List Effect}

theorem RaftMessage.From.mono (hK : ∀ e, K e → K' e) {m : RaftMessage} (h : m.From K) : m.From K' := by
  cases m with
  | appendEntriesRequest q => exact ⟨h.1, fun e he => hK e (h.2 e he)⟩
  | _ => exact h

theorem RaftState.From.mono (hK : ∀ e, K e → K' e) (h : r.From K) : r.From K' :=
  ⟨h.log.mono hK, h.commitIndex⟩

theorem Trans.sends_kind (h : Trans r msg r' l) {m : RaftMessage} (hm : Carries l m) :
    m.betweenNodes = true := by
  have hentries : ∀ {r : RaftState} {l : List Effect}, r.EntryRequests l → Carries l m →
      m.betweenNodes = true := by
    intro r l hr hm
    obtain ⟨-, k, -, rfl⟩ := hr.carries hm
    rfl
  cases h with
  | replySuccess q h c hc next pending l hl hr => exact hentries hr hm
  | replyTerm q h ht next pending l hl hr => exact hentries hr hm
  | replyRetry q h ht next pending l hl hr => exact hentries hr hm
  | clientAppend h e hi ht next pending l hr => exact hentries hr hm
  | askVotes | heartbeat =>
    rw [carries_broadCast.mp hm]
    rfl
  | staleAppend | refuseAppend | acceptAppend | denyVote | grantVote =>
    rw [carries_writeMessage.mp hm]
    rfl
  | _ => exact absurd hm not_carries_nil

theorem Trans.sends_from (hK : ∀ e, K e → 0 ≤ e.index) (h : Trans r msg r' l) (hr' : LogFrom K r'.logEntries)
    {m : RaftMessage} (hm : Carries l m) : m.From K := by
  cases m with
  | appendEntriesRequest q =>
    rcases (h.requests hm).1 with rfl | ⟨k, hk, rfl⟩
    · exact ⟨hr'.back_index hK, by simp [RaftState.heartbeat]⟩
    · refine ⟨by simp [RaftState.entryRequest], fun e he => ?_⟩
      rw [List.mem_singleton.mp he]
      exact hr'.get (Nat.succ_pos k) (get_of_lt hk)
  | appendEntriesResponse q => trivial
  | requestVoteRequest q => trivial
  | requestVoteResponse q => trivial
  | _ => cases h.sends_kind hm

end

section
variable {K : LogEntry → Prop} {p : Process}

theorem RaftState.From.localMessageHandler (h : p.toRaftState.From K) (hout : p.out = []) (now randomId : Int)
    {msg : RaftMessage} (hm : msg.From K) : (p.localMessageHandler now randomId msg).toRaftState.From K := by
  have hsame : ∀ {p' : Process}, p'.logEntries = p.logEntries → p'.commitIndex = p.commitIndex →
      p'.toRaftState.From K := fun h₁ h₂ => ⟨h₁ ▸ h.log, h₂ ▸ h.commitIndex⟩
  cases msg with
  | appendEntriesRequest q =>
    have ht := Process.does_localMessageHandler p hout now randomId (.appendEntriesRequest q)
    unfold Process.Does at ht
    generalize (p.localMessageHandler now randomId (.appendEntriesRequest q)).toRaftState = r' at ht ⊢
    generalize sends _ = l at ht
    cases ht with
    | idle hm => cases hm
    | staleAppend => exact ⟨h.log, h.commitIndex⟩
    | refuseAppend => exact ⟨h.log, h.commitIndex⟩
    | acceptAppend =>
      refine ⟨h.log.appendLog hm.2 hm.1, ?_⟩
      have hc := h.commitIndex
      simp only [RaftState.commitAfter]
      split <;> omega
    | clientAppend _ _ _ _ _ _ _ _ hm => cases hm
  | appendEntriesResponse q =>
    have ht := Process.does_localMessageHandler p hout now randomId (.appendEntriesResponse q)
    unfold Process.Does at ht
    generalize (p.localMessageHandler now randomId (.appendEntriesResponse q)).toRaftState = r' at ht ⊢
    generalize sends _ = l at ht
    have hc := h.commitIndex
    cases ht with
    | idle hm => cases hm
    | replySuccess q _ c hcommit =>
      refine ⟨h.log, ?_⟩
      rcases hcommit with ⟨rfl, -⟩ | ⟨hcommits, rfl⟩
      · exact hc
      · exact hc.trans hcommits.2.1.le
    | replyTerm => exact ⟨h.log, hc⟩
    | replyRetry => exact ⟨h.log, hc⟩
    | clientAppend _ _ _ _ _ _ _ _ hm => cases hm
  | requestVoteRequest q =>
    simp only [Process.localMessageHandler, Process.requestVoteRequest]
    split
    · exact hsame rfl rfl
    · split <;> split <;> exact hsame rfl rfl
  | requestVoteResponse q =>
    simp only [Process.localMessageHandler, Process.requestVoteResponse]
    split
    · exact h
    split
    · exact h
    split
    · exact h
    split
    · exact h
    split <;> split <;> exact hsame rfl rfl
  | _ => exact hm.elim

theorem RaftState.From.handle (h : p.toRaftState.From K) {inp : Input}
    (hinp : ∀ e, inp.creates e → 0 ≤ e.index → K e) :
    (p.handle inp).toRaftState.From K := by
  have hsame : ∀ {p' : Process}, p'.logEntries = p.logEntries → p'.commitIndex = p.commitIndex →
      p'.toRaftState.From K := fun h₁ h₂ => ⟨h₁ ▸ h.log, h₂ ▸ h.commitIndex⟩
  have hraft : ∀ {p' : Process}, p'.toRaftState = p.toRaftState → p'.toRaftState.From K := fun hr => hr ▸ h
  have hadd : ∀ e, K e → (p.addLogEntry e).toRaftState.From K := by
    intro e he
    obtain ⟨next, pending, l, hr, -⟩ :=
      Process.triggerEntryUpdates_spec p.nextIndex.keys { p with logEntries := p.logEntries ++ [e] }
    unfold Process.addLogEntry
    rw [hr]
    exact ⟨h.log.snoc he, h.commitIndex⟩
  cases inp with
  | voteTimer now =>
    simp only [Process.handle, Process.voteTimer]
    split <;> split <;> exact hsame rfl rfl
  | voteRequestTimer =>
    simp only [Process.handle, Process.voteRequestTimer]
    split <;> exact hsame rfl rfl
  | heartbeatTimer =>
    simp only [Process.handle, Process.heartbeatTimer]
    split <;> exact hsame rfl rfl
  | clientPutMessage randomId message =>
    simp only [Process.handle, Process.localMessageHandler, Process.clientPutMessage]
    split
    · exact h
    · exact hadd _ (hinp _ ⟨rfl, rfl, rfl⟩ (by simp))
  | clientCommitMessage messageId =>
    simp only [Process.handle, Process.localMessageHandler, Process.clientCommitMessage]
    split
    · exact h
    · exact hadd _ (hinp _ ⟨rfl, rfl, rfl⟩ (by simp))
  | clientOpenQueue =>
    simp only [Process.handle, Process.localMessageHandler, Process.clientOpenQueue]
    split
    · exact hraft (Process.deliverToClient_raft ..)
    · exact hraft ((Process.triggerMessageDelivery_raft _).trans (Process.deliverToClient_raft ..))
  | consumerDisconnected clientId => exact hraft (Process.triggerMessageDelivery_raft _)
  | _ => exact h

end

theorem RaftState.From.records {K : LogEntry → Prop} {r : RaftState} (h : r.From K)
    (msg : Option RaftMessage) :
    (∀ e ∈ (r.records msg).filterMap Effect.asEntry, K e) ∧
      ∀ op ∈ (r.records msg).filterMap Effect.asStore, ∃ t, 1 ≤ t ∧ op = .store r.logEntries t (t + 1) t := by
  unfold RaftState.records
  cases ht : r.commitTarget msg with
  | none => simp
  | some t =>
    have hlt := lt_of_commitTarget ht
    have hc := h.commitIndex
    simp only [Option.map_some, Option.getD_some]
    constructor
    · intro e he
      rw [RaftState.commitRecord, List.filterMap_append] at he
      rcases List.mem_append.mp he with he | he
      · exact h.log.applyCalls _ _ e he
      · simp [Effect.asEntry] at he
    · intro op hop
      rw [stores_commitRecord] at hop
      exact ⟨t, by omega, List.mem_singleton.mp hop⟩

end FlowMQ
