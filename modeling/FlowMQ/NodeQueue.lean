import FlowMQ.NodeEffects
import FlowMQ.QueueOps
import FlowMQ.ClientSessions

/-!
# What handlers do to the message queue and the clients

A handler applies some log entries and then, at most once, goes over the
undelivered messages. `Serves` says what of this is seen from outside: entries
applied and messages sent, in order. For the queue alone that is a run of queue
operations whose inserts and commits are those of the applied entries.
-/

namespace FlowMQ

open Std (ExtTreeSet)

def LogEntry.queueOps (e : LogEntry) : List QueueOp :=
  if e.operation = LogEntry.ADD then [.insertMessage e.messageId e.message]
  else if e.operation = LogEntry.COMMIT then [.commitMessage e.messageId]
  else []

theorem exec_queueOps (e : LogEntry) (q : MessageQueue) :
    Runs.exec MessageQueue.next q e.queueOps = some (Process.applyEntry e q) := by
  unfold Process.applyEntry LogEntry.queueOps
  split
  · rfl
  · split <;> rfl

def Performs (es : List LogEntry) (q q' : MessageQueue) : Prop :=
  ∃ ops, Runs.exec MessageQueue.next q ops = some q' ∧
    ops.filter QueueOp.isReplicated = es.flatMap LogEntry.queueOps

namespace Performs

variable {es es' : List LogEntry} {q q₁ q₂ : MessageQueue}

theorem refl (q : MessageQueue) : Performs [] q q := ⟨[], rfl, rfl⟩

theorem trans (h : Performs es q q₁) (h' : Performs es' q₁ q₂) : Performs (es ++ es') q q₂ := by
  obtain ⟨ops, h₁, h₂⟩ := h
  obtain ⟨ops', h₁', h₂'⟩ := h'
  refine ⟨ops ++ ops', ?_, ?_⟩
  · rw [Runs.exec_append, h₁]
    exact h₁'
  · rw [List.filter_append, h₂, h₂', List.flatMap_append]

theorem append_silent (h : Performs es q q₁) (h' : Performs [] q₁ q₂) : Performs es q q₂ := by
  simpa using h.trans h'

theorem silent (op : QueueOp) (ha : q.allows op = true) (hr : op.isReplicated = false) :
    Performs [] q (q.perform op) :=
  ⟨[op], by simp [Runs.exec, MessageQueue.next, ha], by simp [hr]⟩

theorem apply (e : LogEntry) (q : MessageQueue) : Performs [e] q (Process.applyEntry e q) := by
  refine ⟨e.queueOps, exec_queueOps e q, ?_⟩
  simp only [List.flatMap_singleton]
  unfold LogEntry.queueOps
  split
  · rfl
  · split <;> rfl

theorem replica (h : Performs es q q₁) (hs : q.Stored) :
    q₁.replica = (es.flatMap LogEntry.queueOps).foldl QueueOp.replicate q.replica := by
  obtain ⟨ops, h₁, h₂⟩ := h
  rw [(MessageQueue.exec_replica hs h₁).2, h₂]

end Performs

/-! ## What is seen of a handler -/

inductive Observation where
  | applied (e : LogEntry)
  | sent (messageId clientId : Int)
  | disconnected (clientId : Int)
  deriving DecidableEq

def Effect.observe : Effect → Option Observation
  | .commitLogEntry _ e => e.map .applied
  | .writeClient clientId _ (.serverSendMessage messageId _) => some (.sent messageId clientId)
  | _ => none

structure View where
  queue : MessageQueue
  seen : List Observation
  clients : ClientManager

def Process.view (p : Process) : View :=
  { queue := p.messageQueue, seen := p.out.filterMap Effect.observe, clients := p.clients }

theorem blind_view : Blind Process.view :=
  ⟨fun _ _ => rfl, fun p i m => by simp [Process.view, Process.emit, Effect.observe]⟩

def View.apply (v : View) (es : List LogEntry) : View :=
  { v with queue := es.foldl (fun q e => Process.applyEntry e q) v.queue, seen := v.seen ++ es.map .applied }

theorem View.apply_nil (v : View) : v.apply [] = v := by simp [View.apply]

theorem View.apply_append (v : View) (es es' : List LogEntry) :
    v.apply (es ++ es') = (v.apply es).apply es' := by
  simp [View.apply]

/-! ## Delivery -/

/-- One round of the delivery loop: the list of consumers is empty, a message is
written to a consumer, or the partition has no list and client 1 is noted. -/
inductive DeliveryOp where
  | read (messageId : Int)
  | send (messageId clientId : Int)
  | assign (messageId : Int)

namespace DeliveryOp

/-- A client with the number of the failure code is not noted. -/
def queueOps : DeliveryOp → List QueueOp
  | .read messageId => [.getMessage messageId]
  | .send messageId clientId =>
    if clientId = -1 then [.getMessage messageId]
    else [.getMessage messageId, .deliverMessageToClientId messageId clientId]
  | .assign messageId => [.getMessage messageId, .deliverMessageToClientId messageId 1]

def observe : DeliveryOp → Option Observation
  | .send messageId clientId => some (.sent messageId clientId)
  | _ => none

theorem queueOps_silent (d : DeliveryOp) : d.queueOps.filter QueueOp.isReplicated = [] := by
  cases d with
  | send id c =>
    simp only [queueOps]
    split <;> rfl
  | _ => rfl

end DeliveryOp

structure Delivers (r : RaftState) (v : View) (ds : List DeliveryOp) (v' : View) : Prop where
  queue : Runs.exec MessageQueue.next v.queue (ds.flatMap DeliveryOp.queueOps) = some v'.queue
  seen : v'.seen = v.seen ++ ds.filterMap DeliveryOp.observe
  lists : v'.clients.consumerClientIdArray = v.clients.consumerClientIdArray
  connected : ∀ c, v'.clients.Connected c ↔ v.clients.Connected c
  send : ∀ id c, .send id c ∈ ds → c ∈ v.clients.consumers r.partitionId
  assign : ∀ id, .assign id ∈ ds → r.state = .leader ∧ v.clients.hasConsumers = true ∧
    v.clients.consumerClientIdArray[r.partitionId]? = none ∧ id ∈ v.queue.undeliveredMessages

namespace Delivers

variable {r : RaftState} {v v' v₁ : View} {ds ds' : List DeliveryOp}

theorem idle (hq : v'.queue = v.queue) (hs : v'.seen = v.seen)
    (hl : v'.clients.consumerClientIdArray = v.clients.consumerClientIdArray)
    (hc : ∀ c, v'.clients.Connected c ↔ v.clients.Connected c) :
    Delivers r v [] v' where
  queue := by simp [Runs.exec, hq]
  seen := by simp [hs]
  lists := hl
  connected := hc
  send := fun _ _ h => by cases h
  assign := fun _ h => by cases h

theorem refl (r : RaftState) (v : View) : Delivers r v [] v := idle rfl rfl rfl fun _ => Iff.rfl

theorem trans (h : Delivers r v ds v₁) (h' : Delivers r v₁ ds' v')
    (hu : ∀ id ∈ v₁.queue.undeliveredMessages, id ∈ v.queue.undeliveredMessages) :
    Delivers r v (ds ++ ds') v' where
  queue := by
    rw [List.flatMap_append, Runs.exec_append, h.queue]
    exact h'.queue
  seen := by rw [h'.seen, h.seen, List.filterMap_append, List.append_assoc]
  lists := h'.lists.trans h.lists
  connected := fun c => (h'.connected c).trans (h.connected c)
  send := fun id c hd => by
    rcases List.mem_append.mp hd with hd | hd
    · exact h.send id c hd
    · exact ClientManager.consumers_congr h.lists _ ▸ h'.send id c hd
  assign := fun id hd => by
    rcases List.mem_append.mp hd with hd | hd
    · exact h.assign id hd
    · obtain ⟨hr, hc, hl, hid⟩ := h'.assign id hd
      exact ⟨hr, ClientManager.hasConsumers_congr h.lists ▸ hc, h.lists ▸ hl, hu id hid⟩

end Delivers

namespace Process

inductive Calls (p : Process) (msg : RaftMessage) : Int × Process → Prop
  | missing (h : p.clients.consumerClientIdArray[p.partitionId]? = none) : Calls p msg (1, p)
  | empty (h : p.clients.consumerClientIdArray[p.partitionId]? = some []) : Calls p msg (-1, p)
  | write {ids c m} (h : p.clients.consumerClientIdArray[p.partitionId]? = some ids) (hc : c ∈ ids)
    (hl : m.consumerClientIdArray = p.clients.consumerClientIdArray)
    (hs : ∀ c, m.Connected c ↔ p.clients.Connected c) :
    Calls p msg (c, { p with clients := m }.emit (.writeClient c (p.clients.clientSessions.getD c false) msg))

theorem deliverToClient_calls (msg : RaftMessage) (p : Process) : Calls p msg (p.deliverToClient msg) := by
  unfold deliverToClient
  have hd := p.clients.deliverOneMessageRoundRobin_spec p.partitionId
  have hk := ClientManager.deliver_keeps hd
  generalize p.clients.deliverOneMessageRoundRobin p.partitionId = d at hd hk
  cases hd with
  | missing h => exact .missing h
  | empty h => exact .empty h
  | write h hc => exact .write h hc hk.1 hk.2

theorem exec_read {q : MessageQueue} {id : Int} (hid : q.undeliveredMessages.contains id = true) :
    Runs.exec MessageQueue.next q [.getMessage id] = some (q.getMessage id).2 := by
  simp only [Runs.exec, MessageQueue.next, MessageQueue.allows, hid, if_true, Option.bind_some,
    MessageQueue.perform]

theorem exec_deliver {q : MessageQueue} {id : Int} (hid : q.undeliveredMessages.contains id = true) (c : Int) :
    Runs.exec MessageQueue.next q [.getMessage id, .deliverMessageToClientId id c] =
      some ((q.getMessage id).2.deliverMessageToClientId id c) := by
  have hread : (q.getMessage id).2.undeliveredMessages.contains id = true := hid
  simp only [Runs.exec, MessageQueue.next, MessageQueue.allows, hid, hread, if_true, Option.bind_some,
    MessageQueue.perform]

section
variable {r : RaftState} {p : Process} {id : Int}
  (hid : p.messageQueue.undeliveredMessages.contains id = true) (hp : p.partitionId = r.partitionId)
  (hlead : r.state = .leader) (hcons : p.clients.hasConsumers = true)
include hid hp hlead hcons

theorem round_delivers {text : Bytes} {d : Int × Process}
    (hd : Calls { p with messageQueue := (p.messageQueue.getMessage id).2 } (.serverSendMessage id text) d) :
    ∃ op, (d.1 = -1 → Delivers r p.view [op] d.2.view) ∧
      (d.1 ≠ -1 → Delivers r p.view [op]
        { d.2 with messageQueue := d.2.messageQueue.deliverMessageToClientId id d.1 : Process }.view) := by
  cases hd with
  | missing h =>
    refine ⟨.assign id, fun hc => absurd hc (by simp), fun _ => ?_⟩
    refine ⟨exec_deliver hid 1, by simp [DeliveryOp.observe, view], rfl, fun _ => Iff.rfl, ?_, ?_⟩
    · intro id' c h'
      simp at h'
    · intro id' h'
      obtain rfl : id' = id := by simpa using h'
      exact ⟨hlead, hcons, hp ▸ h, ExtTreeSet.mem_iff_contains.mpr hid⟩
  | empty h =>
    refine ⟨.read id, fun _ => ?_, fun hc => absurd rfl hc⟩
    refine ⟨exec_read hid, by simp [DeliveryOp.observe, view], rfl, fun _ => Iff.rfl, ?_, ?_⟩
    · intro id' c h'
      simp at h'
    · intro id' h'
      simp at h'
  | @write ids c m h hc hl hs =>
    have hsend : ∀ id' c', DeliveryOp.send id' c' ∈ [DeliveryOp.send id c] →
        c' ∈ p.clients.consumers r.partitionId := by
      intro id' c' h'
      obtain ⟨-, rfl⟩ : id' = id ∧ c' = c := by simpa using h'
      rw [← hp, ClientManager.consumers_of_some _ _ h]
      exact hc
    refine ⟨.send id c, fun hfail => ?_, fun hok => ?_⟩
    · have hops : [DeliveryOp.send id c].flatMap DeliveryOp.queueOps = [.getMessage id] := by
        simp [DeliveryOp.queueOps, show c = -1 from hfail]
      refine ⟨?_, by simp [DeliveryOp.observe, view, emit, Effect.observe], hl, hs, hsend,
        fun _ h' => by simp at h'⟩
      rw [hops]
      exact exec_read hid
    · have hops : [DeliveryOp.send id c].flatMap DeliveryOp.queueOps =
          [.getMessage id, .deliverMessageToClientId id c] := by
        simp [DeliveryOp.queueOps, show c ≠ -1 from hok]
      refine ⟨?_, by simp [DeliveryOp.observe, view, emit, Effect.observe], hl, hs, hsend,
        fun _ h' => by simp at h'⟩
      rw [hops]
      exact exec_deliver hid c

end

theorem Calls.keeps {msg : RaftMessage} {p : Process} {d : Int × Process} (h : Calls p msg d) :
    d.2.toRaftState = p.toRaftState ∧ d.2.messageQueue = p.messageQueue ∧
      d.2.clients.consumerClientIdArray = p.clients.consumerClientIdArray := by
  cases h with
  | missing _ => exact ⟨rfl, rfl, rfl⟩
  | empty _ => exact ⟨rfl, rfl, rfl⟩
  | write _ _ hl _ => exact ⟨rfl, rfl, hl⟩

theorem deliverMessages_delivers {r : RaftState} (hlead : r.state = .leader) (ids : List Int) (p : Process)
    (hnd : ids.Nodup) (hu : ∀ id ∈ ids, p.messageQueue.undeliveredMessages.contains id = true)
    (hp : p.partitionId = r.partitionId) (hcons : p.clients.hasConsumers = true) :
    ∃ ds, Delivers r p.view ds (p.deliverMessages ids).view := by
  induction ids generalizing p with
  | nil => exact ⟨[], .refl r p.view⟩
  | cons id ids ih =>
    have hid := hu id List.mem_cons_self
    simp only [deliverMessages]
    have hd := deliverToClient_calls (.serverSendMessage id (p.messageQueue.getMessage id).1)
      { p with messageQueue := (p.messageQueue.getMessage id).2 }
    generalize deliverToClient _ _ = d at hd ⊢
    obtain ⟨hraft, hqueue, hlists⟩ := hd.keeps
    obtain ⟨op, hstop, hgo⟩ := round_delivers hid hp hlead hcons hd
    split
    · rename_i hfail
      exact ⟨[op], hstop hfail⟩
    · rename_i hok
      have hundelivered : ∀ id',
          id' ∈ (d.2.messageQueue.deliverMessageToClientId id d.1).undeliveredMessages ↔
          id ≠ id' ∧ id' ∈ p.messageQueue.undeliveredMessages := by
        intro id'
        rw [hqueue]
        exact ExtTreeSet.mem_erase.trans (by rw [Ne, Ne, compare_eq_iff_eq]; rfl)
      obtain ⟨ds, hds⟩ := ih { d.2 with messageQueue := d.2.messageQueue.deliverMessageToClientId id d.1 }
        (List.nodup_cons.mp hnd).2
        (fun id' hid' => by
          have hne : id ≠ id' := fun h => (List.nodup_cons.mp hnd).1 (h ▸ hid')
          have hmem := ExtTreeSet.mem_iff_contains.mpr (hu id' (List.mem_cons_of_mem id hid'))
          exact ExtTreeSet.mem_iff_contains.mp ((hundelivered id').mpr ⟨hne, hmem⟩))
        (by rw [← hp]; exact congrArg RaftState.partitionId hraft)
        (by rw [← hcons]; exact ClientManager.hasConsumers_congr hlists)
      exact ⟨[op] ++ ds, (hgo hok).trans hds fun id' hid' => ((hundelivered id').mp hid').2⟩

def Within (r : RaftState) (p : Process) : Prop :=
  p.partitionId = r.partitionId ∧ (p.state = .leader → r.state = .leader)

theorem triggerMessageDelivery_delivers {r : RaftState} {p : Process} (hr : Within r p) :
    ∃ ds, Delivers r p.view ds p.triggerMessageDelivery.view := by
  unfold triggerMessageDelivery
  split
  · exact ⟨[], .refl r p.view⟩
  · rename_i hst
    split
    · exact ⟨[], .refl r p.view⟩
    · rename_i hcons
      refine deliverMessages_delivers (hr.2 (not_not.mp hst)) _ p ?_ (fun id hid => ?_) hr.1 (by simpa using hcons)
      · exact ExtTreeSet.distinct_toList.imp fun hc h => hc (compare_eq_iff_eq.mpr h)
      · exact ExtTreeSet.mem_iff_contains.mp (ExtTreeSet.mem_toList.mp hid)

end Process

/-! ## Applying entries -/

def Effect.asEntry : Effect → Option LogEntry
  | .commitLogEntry _ e => e
  | _ => none

theorem filterMap_getElem? {α : Type} (l : List α) (k : Nat) :
    (List.range k).filterMap (fun j => l[j]?) = l.take k := by
  induction k with
  | zero => simp
  | succ k ih =>
    rw [List.range_succ, List.filterMap_append, ih, List.take_add_one]
    cases h : l[k]? <;> simp [h]

theorem asEntry_applyCall {log : List LogEntry} {i : Int} (hi : 1 ≤ i) :
    (applyCall log i).asEntry = log[i.toNat]? := by
  unfold applyCall Effect.asEntry
  by_cases hlt : i < log.length
  · rw [if_neg (by omega), entryAt, if_neg (by omega), List.getElem?_eq_getElem (by omega)]
    simp [List.getD, List.getElem?_eq_getElem (show i.toNat < log.length by omega)]
  · rw [if_pos (by omega), List.getElem?_eq_none (by omega)]

theorem entries_applyCalls (log : List LogEntry) {i : Int} (hi : 1 ≤ i) (k : Nat) :
    (applyCalls log i k).filterMap Effect.asEntry = (log.drop i.toNat).take k := by
  rw [← filterMap_getElem?, applyCalls, List.filterMap_map]
  refine List.filterMap_congr fun j _ => ?_
  have hj : (i + (j : Int)).toNat = i.toNat + j := by omega
  rw [Function.comp_apply, asEntry_applyCall (by omega), hj, List.getElem?_drop]

def Serves (r : RaftState) (es : List LogEntry) (v v' : View) : Prop := ∃ ds, Delivers r (v.apply es) ds v'

theorem Serves.of_delivers {r : RaftState} {v v' : View} (h : ∃ ds, Delivers r v ds v') :
    Serves r [] v v' := by
  unfold Serves
  rwa [View.apply_nil]

theorem Serves.refl (r : RaftState) (v : View) : Serves r [] v v := .of_delivers ⟨[], .refl r v⟩

theorem performs_apply (es : List LogEntry) (v : View) : Performs es v.queue (v.apply es).queue := by
  induction es generalizing v with
  | nil => exact .refl _
  | cons e es ih => exact (Performs.apply e v.queue).trans (ih (v.apply [e]))

theorem Serves.performs {r : RaftState} {es : List LogEntry} {v v' : View} (h : Serves r es v v') :
    Performs es v.queue v'.queue := by
  obtain ⟨ds, hd⟩ := h
  refine (performs_apply es v).append_silent ⟨_, hd.queue, ?_⟩
  rw [List.filter_flatMap]
  simp [DeliveryOp.queueOps_silent]

namespace Process

theorem commitLogEntry_view (i : Int) (p : Process) :
    (p.commitLogEntry i).view = p.view.apply (applyCall p.logEntries i).asEntry.toList := by
  by_cases h : i ≤ 0
  · rw [applyCall, if_pos (Or.inl h), commitLogEntry, if_pos h]
    simp [view, Effect.asEntry, View.apply, Effect.observe, emit]
  · by_cases h' : (p.logEntries.length : Int) ≤ i
    · rw [applyCall, if_pos (Or.inr h'), commitLogEntry, if_neg h, if_pos h']
      simp [view, Effect.asEntry, View.apply, Effect.observe, emit]
    · rw [applyCall, if_neg (not_or.mpr ⟨h, h'⟩), commitLogEntry, if_neg h, if_neg h']
      simp [view, Effect.asEntry, View.apply, Effect.observe, emit]

theorem commitLoop_view (k : Nat) (i : Int) (p : Process) :
    (commitLoop k i p).view = p.view.apply ((applyCalls p.logEntries i k).filterMap Effect.asEntry) := by
  induction k generalizing i p with
  | zero => exact (View.apply_nil _).symm
  | succ k ih =>
    have hlog : (p.commitLogEntry i).logEntries = p.logEntries := by rw [commitLogEntry_raft]
    have hcons : (applyCalls p.logEntries i (k + 1)).filterMap Effect.asEntry =
        (applyCall p.logEntries i).asEntry.toList ++ (applyCalls p.logEntries (i + 1) k).filterMap
        Effect.asEntry := by
      rw [applyCalls_succ]
      cases h : (applyCall p.logEntries i).asEntry <;> simp [h]
    rw [commitLoop, ih, hlog, commitLogEntry_view, hcons, View.apply_append]

theorem commitLoop_performs (k : Nat) (i : Int) (p : Process) :
    Performs ((applyCalls p.logEntries i k).filterMap Effect.asEntry) p.messageQueue
      (commitLoop k i p).messageQueue := by
  have h := performs_apply ((applyCalls p.logEntries i k).filterMap Effect.asEntry) p.view
  rwa [← commitLoop_view] at h

theorem advanceCommit_serves {r : RaftState} {p : Process} (hr : Within r p) (target : Int) :
    Serves r ((p.toRaftState.commitRecord target).filterMap Effect.asEntry) p.view
      (p.advanceCommit target (target + 1)).view := by
  have hcount : target + 1 - (p.commitIndex + 1) = target - p.commitIndex := by omega
  have hrec : (p.toRaftState.commitRecord target).filterMap Effect.asEntry =
      (applyCalls p.logEntries (p.commitIndex + 1) (target - p.commitIndex).toNat).filterMap Effect.asEntry := by
    rw [RaftState.commitRecord, List.filterMap_append]
    exact List.append_nil _
  have hview : (p.advanceCommit target (target + 1)).view =
      (commitLoop (target - p.commitIndex).toNat (p.commitIndex + 1) p).triggerMessageDelivery.view := by
    rw [← hcount]
    simp [advanceCommit, commitLogEntries, view, emit, Effect.observe]
  have hwithin : Within r (commitLoop (target - p.commitIndex).toNat (p.commitIndex + 1) p) := by
    unfold Within
    rw [commitLoop_raft]
    exact hr
  obtain ⟨ds, hd⟩ := triggerMessageDelivery_delivers hwithin
  refine ⟨ds, ?_⟩
  rw [hrec, hview, ← commitLoop_view]
  exact hd

theorem appendLogEntries_view : ∀ (es : List LogEntry) (last : Int) (p : Process),
    (p.appendLogEntries last es).view = p.view
  | [], _, _ => rfl
  | e :: es, last, p => by
    rw [appendLogEntries, appendLogEntries_view es]
    unfold appendLogEntry
    split
    · simp [view, emit, Effect.observe]
    · split
      · rfl
      · simp [view, emit, Effect.observe]

/-! ## Handlers -/

theorem appendEntriesRequest_serves (now : Int) (q : AppendEntriesRequest) (p : Process) :
    Serves p.toRaftState ((p.toRaftState.records (some (.appendEntriesRequest q))).filterMap Effect.asEntry) p.view
      (p.appendEntriesRequest now q).view := by
  rw [blind_view.appendEntriesRequest now q p]
  simp only [RaftState.records, RaftState.commitTarget]
  by_cases hs : p.curTerm ≤ q.term ∧
      checkIfPreviousLogInSync q.prevLogTerm q.prevLogIndex p.logEntries = true
  · rw [if_pos hs, appendLogEntries_view]
    simp only [hs, true_and]
    have hwithin : Within p.toRaftState (p.acceptLeader now q) := by
      refine ⟨rfl, fun hst => ?_⟩
      simp only [acceptLeader] at hst
      split at hst
      · cases hst
      · exact hst
    rw [updateLeaderCommit_acceptLeader]
    split
    · exact advanceCommit_serves hwithin q.leaderCommit
    · exact .refl _ _
  · rw [if_neg hs, if_neg fun h => hs h.1]
    exact .refl _ _

theorem appendEntriesResponse_serves (q : AppendEntriesResponse) (p : Process) :
    Serves p.toRaftState ((p.toRaftState.records (some (.appendEntriesResponse q))).filterMap Effect.asEntry) p.view
      (p.appendEntriesResponse q).view := by
  rw [blind_view.appendEntriesResponse q p]
  simp only [RaftState.records, RaftState.commitTarget]
  split
  · exact advanceCommit_serves (r := p.toRaftState)
      (p := { p with
        pendingAppendReqs := p.pendingAppendReqs.insert q.followerId
          (max 0 (p.pendingAppendReqs.getD q.followerId 0 - 1))
        matchedIndex := p.matchedIndex.insert q.followerId q.lastIndexSynced }) ⟨rfl, id⟩ q.lastIndexSynced
  · exact .refl _ _

theorem Calls.idle (r : RaftState) {resp : ClientOpenQueueResponse} {p : Process} {d : Int × Process}
    (h : Calls p (.clientOpenQueueResponse resp) d) : Delivers r p.view [] d.2.view := by
  cases h with
  | missing _ => exact .refl r _
  | empty _ => exact .refl r _
  | write _ _ hl hs => exact .idle rfl (by simp [view, emit, Effect.observe]) hl hs

theorem clientOpenQueue_serves (p : Process) : Serves p.toRaftState [] p.view p.clientOpenQueue.view := by
  refine .of_delivers ?_
  unfold clientOpenQueue
  split
  · exact ⟨[], (deliverToClient_calls _ p).idle _⟩
  · have hd := deliverToClient_calls (.clientOpenQueueResponse
      { status := .success, errorMessage := [], leaderIp := none, leaderPort := none }) p
    generalize deliverToClient _ _ = d at hd ⊢
    obtain ⟨hraft, hqueue, -⟩ := hd.keeps
    have hwithin : Within p.toRaftState d.2 := by
      unfold Within
      rw [hraft]
      exact ⟨rfl, id⟩
    obtain ⟨ds, hds⟩ := triggerMessageDelivery_delivers hwithin
    refine ⟨[] ++ ds, (hd.idle p.toRaftState).trans hds fun id hid => ?_⟩
    have hid' : id ∈ d.2.messageQueue.undeliveredMessages := hid
    rwa [hqueue] at hid'

theorem localMessageHandler_serves (now randomId : Int) (msg : RaftMessage) (p : Process) :
    Serves p.toRaftState ((p.toRaftState.records (some msg)).filterMap Effect.asEntry) p.view
      (p.localMessageHandler now randomId msg).view := by
  cases msg with
  | appendEntriesRequest q => exact appendEntriesRequest_serves now q p
  | appendEntriesResponse q => exact appendEntriesResponse_serves q p
  | requestVoteRequest q => exact blind_view.requestVoteRequest q p ▸ .refl _ _
  | requestVoteResponse q => exact blind_view.requestVoteResponse q p ▸ .refl _ _
  | clientPutMessage m => exact blind_view.clientPutMessage randomId m p ▸ .refl _ _
  | clientCommitMessage id => exact blind_view.clientCommitMessage id p ▸ .refl _ _
  | clientOpenQueue => exact clientOpenQueue_serves p
  | clientOpenQueueResponse _ => exact .refl _ _
  | serverSendMessage _ _ => exact .refl _ _

theorem timer_view {inp : Input} (p : Process)
    (h : inp = .voteRequestTimer ∨ inp = .heartbeatTimer ∨ ∃ now, inp = .voteTimer now) :
    (p.handle inp).view = p.view := by
  have hb : ∀ (p : Process) (m : RaftMessage), (p.emit (.broadCast m)).view = p.view := fun p m => by
    simp [view, emit, Effect.observe]
  rcases h with rfl | rfl | ⟨now, rfl⟩
  · exact blind_view.voteRequestTimer hb p
  · exact blind_view.heartbeatTimer hb p
  · exact blind_view.voteTimer now p

theorem consumerDisconnected_serves (clientId : Int) (p : Process) :
    Serves p.toRaftState [] { p.view with queue := (p.messageQueue.handleClientDisconnected clientId).2 }
      (p.consumerDisconnected clientId).view :=
  .of_delivers (triggerMessageDelivery_delivers (r := p.toRaftState)
    (p := { p with messageQueue := (p.messageQueue.handleClientDisconnected clientId).2 }) ⟨rfl, id⟩)

/-! ## The queue alone -/

theorem localMessageHandler_performs (now randomId : Int) (msg : RaftMessage) (p : Process) :
    Performs ((p.toRaftState.records (some msg)).filterMap Effect.asEntry) p.messageQueue
      (p.localMessageHandler now randomId msg).messageQueue :=
  (localMessageHandler_serves now randomId msg p).performs

theorem handle_performs (inp : Input) (p : Process) :
    Performs [] p.messageQueue (p.handle inp).messageQueue := by
  have htimer : ∀ {inp}, (p.handle inp).view = p.view →
      Performs [] p.messageQueue (p.handle inp).messageQueue := by
    intro inp h
    have hq : (p.handle inp).messageQueue = p.messageQueue := congrArg View.queue h
    rw [hq]
    exact .refl _
  cases inp with
  | voteTimer now => exact htimer (timer_view p (Or.inr (Or.inr ⟨now, rfl⟩)))
  | voteRequestTimer => exact htimer (timer_view p (Or.inl rfl))
  | heartbeatTimer => exact htimer (timer_view p (Or.inr (Or.inl rfl)))
  | clientPutMessage randomId m => exact localMessageHandler_performs 0 randomId (.clientPutMessage m) p
  | clientCommitMessage id => exact localMessageHandler_performs 0 0 (.clientCommitMessage id) p
  | clientOpenQueue => exact localMessageHandler_performs 0 0 .clientOpenQueue p
  | consumerDisconnected id =>
    have hback : Performs [] p.messageQueue (p.messageQueue.handleClientDisconnected id).2 :=
      .silent (.handleClientDisconnected id) rfl rfl
    exact hback.append_silent (consumerDisconnected_serves id p).performs
  | _ => exact .refl _

end Process

end FlowMQ
