import FlowMQ.NodeQueue
import FlowMQ.QueueStatus

/-!
# Several partitions on one server

A server leads several partitions. Each has its own event loop over its message
queue, and all share the client manager, whose own loop accepts connections,
registers consumers and removes sessions. The loops interleave between any two
calls: a client can leave while a message is being delivered to it, and the
call that takes its messages back is posted to the loops of all partitions.
-/

namespace FlowMQ

open Std (ExtTreeMap ExtTreeSet)

/-- The event loop of a partition: its queue, the messages `trigger_message_delivery` still has to go through,
and a message that `deliver_one_message_round_robin` returned from but that is not noted in the queue yet. -/
structure Loop where
  queue : MessageQueue
  todo : List Int
  delivery : Option (Int × Int)

def Loop.Idle (l : Loop) : Prop := l.todo = [] ∧ l.delivery = none

instance (l : Loop) : Decidable l.Idle := inferInstanceAs (Decidable (_ ∧ _))

/-- `posted` are the calls of `handle_client_disconnected` that wait, as client and partition.
`opened` lists who opened which partition, and `written` the partition, client and id of every message
written to a session. -/
structure Server extends Sessions where
  loops : Int → Loop
  posted : List (Int × Int)
  opened : List (Int × Int)
  written : List (Int × Int × Int)

inductive ServerEvent where
  | acceptNewConnection (id : Int)
  | openQueue (clientId partitionId : Int)
  | disconnected (clientId : Int)
  | handleClientDisconnected (clientId partitionId : Int)
  | commitLogEntry (partitionId : Int) (e : LogEntry)
  | triggerMessageDelivery (partitionId : Int)
  | deliverOneMessage (partitionId : Int)
  | noteDelivery (partitionId : Int)
  | answerOpenQueue (partitionId : Int)
  deriving Inhabited

namespace Server

def setLoop (s : Server) (partitionId : Int) (l : Loop) : Server :=
  { s with loops := Function.update s.loops partitionId l }

def step (partitions : List Int) (s : Server) : ServerEvent → Option Server
  | .acceptNewConnection id =>
    (s.toSessions.step (.acceptNewConnection id)).map fun t => { s with toSessions := t }
  | .openQueue clientId partitionId =>
    if partitionId ∈ partitions then
      (s.toSessions.step (.openQueue clientId partitionId)).map fun t =>
        { s with toSessions := t, opened := (clientId, partitionId) :: s.opened }
    else none
  | .disconnected clientId =>
    (s.toSessions.step (.disconnected clientId)).map fun t =>
      { s with toSessions := t, posted := s.posted ++ partitions.map fun p => (clientId, p) }
  | .handleClientDisconnected clientId partitionId =>
    if (clientId, partitionId) ∈ s.posted ∧ (s.loops partitionId).Idle then
      some { s.setLoop partitionId { s.loops partitionId with
               queue := ((s.loops partitionId).queue.handleClientDisconnected clientId).2 } with
             posted := s.posted.erase (clientId, partitionId) }
    else none
  | .commitLogEntry partitionId e =>
    if partitionId ∈ partitions ∧ (s.loops partitionId).Idle then
      some (s.setLoop partitionId { s.loops partitionId with
        queue := Process.applyEntry e (s.loops partitionId).queue })
    else none
  | .triggerMessageDelivery partitionId =>
    if partitionId ∈ partitions ∧ (s.loops partitionId).Idle then
      if !s.manager.hasConsumers then some s
      else some (s.setLoop partitionId { s.loops partitionId with
        todo := (s.loops partitionId).queue.getAllUndeliveredMessages })
    else none
  | .deliverOneMessage partitionId =>
    match (s.loops partitionId).todo, (s.loops partitionId).delivery with
    | messageId :: todo, none =>
      let d := s.manager.deliverOneMessageRoundRobin partitionId
      let queue := ((s.loops partitionId).queue.getMessage messageId).2
      some { s.setLoop partitionId
               (if d.result = -1 then { queue := queue, todo := [], delivery := none }
                else { queue := queue, todo := todo, delivery := some (messageId, d.result) }) with
             manager := d.manager
             written := match d.written with
               | some (clientId, true) => (partitionId, clientId, messageId) :: s.written
               | _ => s.written }
    | _, _ => none
  | .noteDelivery partitionId =>
    match (s.loops partitionId).delivery with
    | some (messageId, clientId) =>
      some (s.setLoop partitionId { s.loops partitionId with
        queue := (s.loops partitionId).queue.deliverMessageToClientId messageId clientId, delivery := none })
    | none => none
  | .answerOpenQueue partitionId =>
    -- the answer to a client that opens the partition is delivered as messages are
    if partitionId ∈ partitions ∧ (s.loops partitionId).Idle then
      some { s with manager := (s.manager.deliverOneMessageRoundRobin partitionId).manager }
    else none

def fresh : Server :=
  { manager := .empty, accepted := [], ended := [],
    loops := fun _ => { queue := .empty, todo := [], delivery := none }
    posted := [], opened := [], written := [] }

def Starts (s : Server) : Prop := s = fresh

abbrev Execution (partitions : List Int) := Runs.Run Starts (step partitions)

structure Backed (s : Server) (p c id : Int) : Prop where
  written : (p, c, id) ∈ s.written
  opened : (c, p) ∈ s.opened
  here : s.manager.Connected c ∨ (c, p) ∈ s.posted

/-- Every message noted as delivered is with its consumer, and every other uncommitted message waits. -/
structure NotStranded (partitions : List Int) (s : Server) : Prop where
  held : ∀ p ∈ partitions, ∀ c id, id ∈ (s.loops p).queue.held c → s.Backed p c id
  uncommitted : ∀ p ∈ partitions, ∀ id ∈ (s.loops p).queue.messageStore,
    id ∉ (s.loops p).queue.committedMessages →
    id ∈ (s.loops p).queue.undeliveredMessages ∨ ∃ c, id ∈ (s.loops p).queue.held c ∧ s.Backed p c id

/-- Clients open queues while they are connected and are listed at most once when they leave, and messages are
delivered only in partitions that have a consumer list. -/
def Careful (s : Server) : ServerEvent → Prop
  | .openQueue clientId partitionId => s.manager.Orderly (.openQueue clientId partitionId)
  | .disconnected clientId => s.manager.Orderly (.disconnected clientId)
  | .deliverOneMessage partitionId => s.manager.consumerClientIdArray[partitionId]?.isSome = true
  | _ => True

instance (s : Server) : (e : ServerEvent) → Decidable (s.Careful e)
  | .openQueue clientId partitionId =>
    inferInstanceAs (Decidable (s.manager.Orderly (.openQueue clientId partitionId)))
  | .disconnected clientId => inferInstanceAs (Decidable (s.manager.Orderly (.disconnected clientId)))
  | .deliverOneMessage partitionId =>
    inferInstanceAs (Decidable (s.manager.consumerClientIdArray[partitionId]?.isSome = true))
  | .acceptNewConnection _ => inferInstanceAs (Decidable True)
  | .handleClientDisconnected _ _ => inferInstanceAs (Decidable True)
  | .commitLogEntry _ _ => inferInstanceAs (Decidable True)
  | .triggerMessageDelivery _ => inferInstanceAs (Decidable True)
  | .noteDelivery _ => inferInstanceAs (Decidable True)
  | .answerOpenQueue _ => inferInstanceAs (Decidable True)

/-! ## The invariant -/

structure LoopInv (s : Server) (p : Int) (l : Loop) : Prop where
  reads : ∀ id, ∃ st, l.queue.Reads id st
  nodup : l.todo.Nodup
  todo : ∀ id ∈ l.todo, id ∈ l.queue.undeliveredMessages
  delivery : ∀ id c, l.delivery = some (id, c) → id ∈ l.queue.undeliveredMessages ∧ id ∉ l.todo ∧ s.Backed p c id
  held : ∀ c id, id ∈ l.queue.held c → s.Backed p c id

structure Inv (partitions : List Int) (s : Server) : Prop where
  live : s.manager.Live
  listed : ∀ p, ∀ c ∈ s.manager.consumers p, (c, p) ∈ s.opened
  loops : ∀ p ∈ partitions, LoopInv s p (s.loops p)

section
variable {partitions : List Int} {s s' : Server} {p c id : Int}

theorem Backed.mono (h : s.Backed p c id) (hw : ∀ x ∈ s.written, x ∈ s'.written)
    (ho : ∀ x ∈ s.opened, x ∈ s'.opened)
    (hc : s.manager.Connected c ∨ (c, p) ∈ s.posted → s'.manager.Connected c ∨ (c, p) ∈ s'.posted) :
    s'.Backed p c id :=
  ⟨hw _ h.written, ho _ h.opened, hc h.here⟩

theorem LoopInv.mono {l : Loop} (h : LoopInv s p l) (hb : ∀ c id, s.Backed p c id → s'.Backed p c id) :
    LoopInv s' p l where
  reads := h.reads
  nodup := h.nodup
  todo := h.todo
  delivery :=
    fun id c hd => ⟨(h.delivery id c hd).1, (h.delivery id c hd).2.1, hb c id (h.delivery id c hd).2.2⟩
  held := fun c id hid => hb c id (h.held c id hid)

theorem Inv.setLoop (h : Inv partitions s) {l : Loop} (hl : p ∈ partitions → LoopInv s p l) :
    Inv partitions (s.setLoop p l) where
  live := h.live
  listed := h.listed
  loops := fun p' hp' => by
    have hb : ∀ c id, s.Backed p' c id → (s.setLoop p l).Backed p' c id :=
      fun c id hb => ⟨hb.written, hb.opened, hb.here⟩
    by_cases hpp : p' = p
    · subst hpp
      rw [show (s.setLoop p' l).loops p' = l from Function.update_self ..]
      exact (hl hp').mono hb
    · rw [show (s.setLoop p l).loops p' = s.loops p' from Function.update_of_ne hpp ..]
      exact (h.loops p' hp').mono hb

theorem Inv.frame (h : Inv partitions s) (hloops : s'.loops = s.loops) (hlive : s'.manager.Live)
    (hlisted : ∀ p, ∀ c ∈ s'.manager.consumers p, (c, p) ∈ s'.opened)
    (hb : ∀ p ∈ partitions, ∀ c id, s.Backed p c id → s'.Backed p c id) : Inv partitions s' where
  live := hlive
  listed := hlisted
  loops := fun p hp => by
    rw [hloops]
    exact (h.loops p hp).mono (hb p hp)

/-! ## Events of the client manager -/

theorem Inv.acceptNewConnection (h : Inv partitions s) (id : Int) (accepted : List Int) :
    Inv partitions { s with manager := s.manager.acceptNewConnection id, accepted := accepted } :=
  h.frame rfl (ClientManager.live_accept h.live id) h.listed fun _ _ _ _ hb =>
    ⟨hb.written, hb.opened, hb.here.imp (fun hc => (ClientManager.connected_accept _ _ _).mpr (Or.inr hc))
      fun hp => hp⟩

theorem Inv.openQueue (h : Inv partitions s) (hc : s.manager.Connected c) :
    Inv partitions { s with manager := s.manager.registerConsumer p c, opened := (c, p) :: s.opened } := by
  refine h.frame rfl ((ClientManager.live_register_iff h.live p c).mpr hc) (fun p' c' hc' => ?_) fun _ _ c' _ hb =>
    ⟨hb.written, List.mem_cons_of_mem _ hb.opened, hb.here⟩
  rw [ClientManager.consumers_register] at hc'
  split at hc'
  · rename_i hp
    rcases List.mem_append.mp hc' with hc' | hc'
    · exact List.mem_cons_of_mem _ (h.listed p' c' hc')
    · rw [List.mem_singleton.mp hc', ← hp]
      exact List.mem_cons_self
  · exact List.mem_cons_of_mem _ (h.listed p' c' hc')

theorem Inv.disconnected (h : Inv partitions s) (hc : ∀ p, (s.manager.consumers p).count c ≤ 1) (ended : List Int) :
    Inv partitions { s with
      manager := s.manager.removeSession c, ended := ended, posted :=
  s.posted ++ partitions.map fun p => (c, p) } := by
  refine h.frame rfl ((ClientManager.live_remove_iff h.live c).mpr hc) (fun p' c' hc' => ?_)
    fun p' hp' c' _ hb => ?_
  · rw [ClientManager.consumers_remove] at hc'
    exact h.listed p' c' (List.mem_of_mem_erase hc')
  · refine ⟨hb.written, hb.opened, ?_⟩
    by_cases hcc : c = c'
    · subst hcc
      exact Or.inr (List.mem_append_right _ (List.mem_map.mpr ⟨p', hp', rfl⟩))
    · exact hb.here.imp (fun hcon => (ClientManager.connected_remove _ _ _).mpr ⟨hcc, hcon⟩)
        fun hpost => List.mem_append_left _ hpost

/-! ## Events of a partition -/

theorem Inv.handleClientDisconnected (h : Inv partitions s) (hidle : (s.loops p).Idle) :
    Inv partitions
      { s.setLoop p { s.loops p with queue := ((s.loops p).queue.handleClientDisconnected c).2 } with
        posted := s.posted.erase (c, p) } := by
  -- the call that is now handled is no longer posted, so only other clients and other partitions may
  -- rely on it
  have hposted : ∀ c' p', (c', p') ≠ (c, p) → (c', p') ∈ s.posted → (c', p') ∈ s.posted.erase (c, p) :=
    fun c' p' hne hmem => (List.mem_erase_of_ne hne).mpr hmem
  refine ⟨h.live, h.listed, fun p' hp' => ?_⟩
  by_cases hpp : p' = p
  · subst hpp
    have hl := h.loops p' hp'
    simp only [Server.setLoop, Function.update_self]
    refine ⟨fun id' => ?_, hl.nodup, fun id' hid' => ?_, fun id' c' hd' => ?_, fun c' id' hid' => ?_⟩
    · obtain ⟨st, hst⟩ := hl.reads id'
      exact ⟨_, hst.handleClientDisconnected c⟩
    · simp [hidle.1] at hid'
    · simp [hidle.2] at hd'
    · obtain ⟨hne, hheld⟩ := (MessageQueue.mem_held_disconnected _ _ _ _).mp hid'
      have hb := hl.held c' id' hheld
      exact ⟨hb.written, hb.opened, hb.here.imp_right (hposted c' p' fun heq => hne (Prod.mk.inj heq).1.symm)⟩
  · simp only [Server.setLoop, Function.update_of_ne hpp]
    refine (h.loops p' hp').mono fun c' id' hb => ?_
    exact ⟨hb.written, hb.opened, hb.here.imp_right (hposted c' p' fun heq => hpp (Prod.mk.inj heq).2)⟩

theorem delivered_of_queueOps {e : LogEntry} {st : MessageStatus}
    (h : e.queueOps.foldl (MessageStatus.step id) st = .delivered c) : st = .delivered c := by
  unfold LogEntry.queueOps at h
  split at h
  · simp only [List.foldl_cons, List.foldl_nil, MessageStatus.step] at h
    split at h
    · cases h
    · exact h
  · split at h
    · simp only [List.foldl_cons, List.foldl_nil, MessageStatus.step] at h
      split at h
      · cases h
      · exact h
    · exact h

theorem Inv.commitLogEntry (h : Inv partitions s) (hidle : (s.loops p).Idle) (e : LogEntry) :
    Inv partitions (s.setLoop p { s.loops p with queue := Process.applyEntry e (s.loops p).queue }) := by
  refine h.setLoop fun hp => ?_
  have hl := h.loops p hp
  refine ⟨fun id => ?_, hl.nodup, fun id hid => ?_, fun id c hd => ?_, fun c id hid => ?_⟩
  · obtain ⟨st, hst⟩ := hl.reads id
    exact ⟨_, hst.exec (exec_queueOps e _)⟩
  · rw [hidle.1] at hid
    cases hid
  · rw [hidle.2] at hd
    cases hd
  · obtain ⟨st, hst⟩ := hl.reads id
    have hafter := ((hst.exec (exec_queueOps e _)).held c).mp hid
    exact hl.held c id ((hst.held c).mpr (delivered_of_queueOps hafter))

theorem Inv.trigger (h : Inv partitions s) (hidle : (s.loops p).Idle) :
    Inv partitions (s.setLoop p { s.loops p with todo := (s.loops p).queue.getAllUndeliveredMessages }) := by
  refine h.setLoop fun hp => ?_
  have hl := h.loops p hp
  refine ⟨hl.reads, ?_, fun id hid => ExtTreeSet.mem_toList.mp hid, fun id c hd => ?_, hl.held⟩
  · exact ExtTreeSet.distinct_toList.imp fun hc heq => hc (compare_eq_iff_eq.mpr heq)
  · rw [hidle.2] at hd
    cases hd

theorem Inv.deliverOneMessage (h : Inv partitions s) {todo : List Int} (htodo : (s.loops p).todo = id :: todo)
    {d : ClientManager.Delivery} (hd : s.manager.Picks p d)
    (hlist : s.manager.consumerClientIdArray[p]?.isSome = true) :
    Inv partitions { s.setLoop p
        (if d.result = -1 then { queue := ((s.loops p).queue.getMessage id).2, todo := [], delivery := none }
         else { queue := ((s.loops p).queue.getMessage id).2, todo := todo,
                delivery := some (id, d.result) }) with
      manager := d.manager
      written := match d.written with
        | some (clientId, true) => (p, clientId, id) :: s.written
        | _ => s.written } := by
  -- reading the text changes nothing, since the message waits
  have hread : p ∈ partitions → ∀ id', ∃ st, ((s.loops p).queue.getMessage id).2.Reads id' st := by
    intro hp id'
    obtain ⟨st, hst⟩ := (h.loops p hp).reads id'
    have hwait := (h.loops p hp).todo id (htodo ▸ List.mem_cons_self)
    have ha : (s.loops p).queue.allows (.getMessage id) = true := ExtTreeSet.mem_iff_contains.mp hwait
    exact ⟨_, hst.perform ha⟩
  cases hd with
  | missing hnone => simp [hnone] at hlist
  | empty _ =>
    refine h.setLoop fun hp => ?_
    exact ⟨hread hp, List.nodup_nil, fun id' hid' => (by cases hid'), fun id' c' hd' => (by cases hd'),
      (h.loops p hp).held⟩
  | @write ids c count hl hc =>
    have hmem : c ∈ s.manager.consumers p := by rwa [ClientManager.consumers_of_some _ _ hl]
    have hcon := h.live p c hmem
    have hsession : s.manager.clientSessions.getD c false = true := by
      rw [ExtTreeMap.getD_eq_getD_getElem?, hcon, Option.getD_some]
    simp only [hsession]
    let s₁ : Server := { s with
      manager := { s.manager with clientSessions := s.manager.clientSessions.insertIfNew c false,
                                  deliverCount := count }
      written := (p, c, id) :: s.written }
    have hkeep : ∀ c', s₁.manager.Connected c' ↔ s.manager.Connected c' := fun c' =>
      Maps.getElem?_insertIfNew_of_ne (by decide)
    have hgrow : ∀ p' c' id', s.Backed p' c' id' → s₁.Backed p' c' id' := fun p' c' id' hb =>
      ⟨List.mem_cons_of_mem _ hb.written, hb.opened, hb.here.imp_left (hkeep c').mpr⟩
    have h₁ : Inv partitions s₁ :=
      h.frame rfl (fun p' c' hc' => (hkeep c').mpr (h.live p' c' hc')) h.listed fun p' _ => hgrow p'
    have hback : s₁.Backed p c id := ⟨List.mem_cons_self, h.listed p c hmem, Or.inl ((hkeep c).mpr hcon)⟩
    refine Inv.setLoop h₁ fun hp => ?_
    have hloop := h.loops p hp
    have hnd := htodo ▸ hloop.nodup
    have hheld : ∀ c' id', id' ∈ (s.loops p).queue.held c' → s₁.Backed p c' id' := fun c' id' hid' =>
      hgrow p c' id' (hloop.held c' id' hid')
    split
    · exact ⟨hread hp, List.nodup_nil, fun id' hid' => (by cases hid'), fun id' c' hd' => (by cases hd'), hheld⟩
    · refine ⟨hread hp, (List.nodup_cons.mp hnd).2, fun id' hid' => ?_, fun id' c' hd' => ?_, hheld⟩
      · exact hloop.todo id' (htodo ▸ List.mem_cons_of_mem _ hid')
      · obtain ⟨rfl, rfl⟩ : id = id' ∧ c = c' := by simpa using hd'
        exact ⟨hloop.todo id (htodo ▸ List.mem_cons_self), (List.nodup_cons.mp hnd).1, hback⟩

theorem Inv.noteDelivery (h : Inv partitions s) (hd : (s.loops p).delivery = some (id, c)) :
    Inv partitions (s.setLoop p { s.loops p with
      queue := (s.loops p).queue.deliverMessageToClientId id c, delivery := none }) := by
  refine h.setLoop fun hp => ?_
  have hl := h.loops p hp
  obtain ⟨hwait, htodo, hback⟩ := hl.delivery id c hd
  refine ⟨fun id' => ?_, hl.nodup, fun id' hid' => ?_, fun id' c' hd' => (by cases hd'), fun c' id' hid' => ?_⟩
  · obtain ⟨st, hst⟩ := hl.reads id'
    exact ⟨_, hst.deliverMessageToClientId id c (ExtTreeSet.mem_iff_contains.mp hwait)⟩
  · refine ExtTreeSet.mem_erase.mpr ⟨fun hc => htodo ?_, hl.todo id' hid'⟩
    rw [compare_eq_iff_eq.mp hc]
    exact hid'
  · rcases (MessageQueue.mem_held_deliver _ _ _ _ _).mp hid' with ⟨rfl, rfl⟩ | hid'
    · exact hback
    · exact hl.held c' id' hid'

theorem Inv.answerOpenQueue (h : Inv partitions s) (p : Int) :
    Inv partitions { s with manager := (s.manager.deliverOneMessageRoundRobin p).manager } := by
  obtain ⟨harray, hcon⟩ := ClientManager.deliver_keeps (s.manager.deliverOneMessageRoundRobin_spec p)
  have hconsumers := ClientManager.consumers_congr harray
  refine h.frame rfl (fun p' c hc => (hcon c).mpr (h.live p' c (hconsumers p' ▸ hc)))
    (fun p' c hc => h.listed p' c (hconsumers p' ▸ hc)) fun _ _ c _ hb => ?_
  exact ⟨hb.written, hb.opened, hb.here.imp_left (hcon c).mpr⟩

theorem Inv.step {e : ServerEvent} (h : Inv partitions s) (hG : s.Careful e)
    (hs : s.step partitions e = some s') :
    Inv partitions s' := by
  cases e with
  | acceptNewConnection id =>
    obtain ⟨t, ht, rfl⟩ := Option.map_eq_some_iff.mp hs
    cases Sessions.step_cases ht
    exact h.acceptNewConnection id _
  | openQueue c p =>
    simp only [Server.step] at hs
    split at hs
    · obtain ⟨t, ht, rfl⟩ := Option.map_eq_some_iff.mp hs
      cases Sessions.step_cases ht
      exact h.openQueue hG
    · cases hs
  | disconnected c =>
    obtain ⟨t, ht, rfl⟩ := Option.map_eq_some_iff.mp hs
    cases Sessions.step_cases ht
    exact h.disconnected ((ClientManager.count_le_iff s.manager c).mp hG) _
  | handleClientDisconnected c p =>
    simp only [Server.step] at hs
    split at hs
    · rename_i hen
      cases hs
      exact h.handleClientDisconnected hen.2
    · cases hs
  | commitLogEntry p e =>
    simp only [Server.step] at hs
    split at hs
    · rename_i hen
      cases hs
      exact h.commitLogEntry hen.2 e
    · cases hs
  | triggerMessageDelivery p =>
    simp only [Server.step] at hs
    split at hs
    · rename_i hen
      split at hs
      · cases hs
        exact h
      · cases hs
        exact h.trigger hen.2
    · cases hs
  | deliverOneMessage p =>
    simp only [Server.step] at hs
    split at hs
    · rename_i id todo htodo _
      cases hs
      exact h.deliverOneMessage htodo (s.manager.deliverOneMessageRoundRobin_spec p) hG
    · cases hs
  | noteDelivery p =>
    simp only [Server.step] at hs
    split at hs
    · rename_i id c hd
      cases hs
      exact h.noteDelivery hd
    · cases hs
  | answerOpenQueue p =>
    simp only [Server.step] at hs
    split at hs
    · cases hs
      exact h.answerOpenQueue p
    · cases hs

theorem inv_starts (h : Starts s) : Inv partitions s := by
  subst h
  refine ⟨Sessions.live_empty, fun p c hc => ?_, fun p _ => ?_⟩
  · simp [fresh, ClientManager.consumers, ClientManager.empty] at hc
  · refine ⟨fun id => ⟨.unknown, MessageQueue.reads_empty id⟩, List.nodup_nil, fun id hid => (by cases hid),
      fun id c hd => (by cases hd), fun c id hid => ?_⟩
    exact absurd (((MessageQueue.reads_empty id).held c).mp hid) (by simp)

theorem Inv.notStranded (h : Inv partitions s) : NotStranded partitions s where
  held := fun p hp => (h.loops p hp).held
  uncommitted := fun p hp id hid hc => by
    obtain ⟨st, hst⟩ := (h.loops p hp).reads id
    cases st with
    | unknown => exact absurd rfl (hst.stored.mp hid)
    | undelivered => exact Or.inl (hst.undelivered.mpr rfl)
    | delivered c =>
      have hheld := (hst.held c).mpr rfl
      exact Or.inr ⟨c, hheld, (h.loops p hp).held c id hheld⟩
    | committed => exact absurd (hst.committed.mpr rfl) hc

end

theorem notStranded_of_careful {partitions : List Int} (r : Execution partitions) (hr : r.Always Careful) :
    ∀ k ≤ r.length, NotStranded partitions (r.states k) := by
  have hinv : ∀ k ≤ r.length, Inv partitions (r.states k) :=
    r.induct (inv_starts r.starts) fun k hk ih => ih.step (hr k hk) (r.steps k hk)
  exact fun k hk => (hinv k hk).notStranded

def addSeven : LogEntry :=
  { index := 1, term := 1, messageId := 7, operation := LogEntry.ADD, message := toBytes "a" }

/-- Client 5 leaves after message 7 was written to it and before the delivery is noted. -/
def leftBehind : List ServerEvent :=
  [.acceptNewConnection 5, .openQueue 5 1, .commitLogEntry 1 addSeven, .triggerMessageDelivery 1,
    .deliverOneMessage 1, .disconnected 5, .noteDelivery 1]

theorem leftBehind_isSome : (Runs.exec (Runs.guarded Careful (step [0, 1])) fresh leftBehind).isSome := by
  decide +kernel

theorem notStranded_leftBehind : ∃ r : Execution [0, 1], r.Always Careful ∧
    7 ∈ ((r.states r.length).loops 1).queue.held 5 ∧ NotStranded [0, 1] (r.states r.length) := by
  let r : Execution [0, 1] := .ofEvents fresh rfl leftBehind (Runs.isSome_of_guarded leftBehind_isSome)
  have hr : r.Always Careful := Runs.Run.ofEvents_always leftBehind_isSome
  exact ⟨r, hr, by decide +kernel, notStranded_of_careful r hr r.length le_rfl⟩

/-- Partition 0 has a consumer and partition 1 none: message 7 of partition 1 is noted as delivered to
client 1. -/
theorem not_notStranded_missingList :
    ∃ r : Execution [0, 1], ∃ k ≤ r.length, ¬ NotStranded [0, 1] (r.states k) := by
  let r : Execution [0, 1] := .ofEvents fresh rfl
    [.acceptNewConnection 5, .openQueue 5 0, .commitLogEntry 1 addSeven, .triggerMessageDelivery 1,
      .deliverOneMessage 1, .noteDelivery 1] (by decide +kernel)
  have hheld : 7 ∈ ((r.states r.length).loops 1).queue.held 1 := by decide +kernel
  have hnone : (r.states r.length).written = [] := by decide +kernel
  refine ⟨r, r.length, le_rfl, fun h => ?_⟩
  have hb := h.held 1 (by decide) 1 7 hheld
  exact absurd hb.written (by rw [hnone]; exact List.not_mem_nil)

/-! ## The delivery loop of a node -/

section
variable (partitions : List Int)

theorem deliverToClient_eq (msg : RaftMessage) (p : Process) :
    (p.deliverToClient msg).1 = (p.clients.deliverOneMessageRoundRobin p.partitionId).result ∧
      (p.deliverToClient msg).2.clients = (p.clients.deliverOneMessageRoundRobin p.partitionId).manager ∧
      (p.deliverToClient msg).2.messageQueue = p.messageQueue ∧
      (p.deliverToClient msg).2.partitionId = p.partitionId := by
  unfold Process.deliverToClient
  simp only
  split <;> exact ⟨rfl, rfl, rfl, rfl⟩

theorem deliverMessages_refines (ids : List Int) (p : Process) (s : Server)
    (hl : s.loops p.partitionId = { queue := p.messageQueue, todo := ids, delivery := none })
    (hc : s.manager = p.clients) :
    ∃ es s', Runs.exec (step partitions) s es = some s' ∧ s'.manager = (p.deliverMessages ids).clients ∧
      s'.loops p.partitionId = { queue := (p.deliverMessages ids).messageQueue, todo := [],
                                 delivery := none } := by
  induction ids generalizing p s with
  | nil => exact ⟨[], s, rfl, hc, hl⟩
  | cons id ids ih =>
    obtain ⟨hres, hman, hqueue, hpart⟩ :=
      deliverToClient_eq (.serverSendMessage id (p.messageQueue.getMessage id).1)
      { p with messageQueue := (p.messageQueue.getMessage id).2 }
    simp only [Process.deliverMessages]
    generalize Process.deliverToClient _ _ = d at hres hman hqueue hpart ⊢
    have hfirst : ∃ s₁, s.step partitions (.deliverOneMessage p.partitionId) = some s₁ ∧
        s₁.manager = d.2.clients ∧
        s₁.loops p.partitionId =
          if d.1 = -1 then { queue := d.2.messageQueue, todo := [], delivery := none }
          else { queue := d.2.messageQueue, todo := ids, delivery := some (id, d.1) } := by
      refine ⟨_, by simp only [step, hl]; rfl, ?_, ?_⟩
      · rw [hman, hc]
      · simp only [setLoop, Function.update_self, hqueue, hres, hc]
    obtain ⟨s₁, hs₁, hman₁, hloop₁⟩ := hfirst
    split
    · rename_i hfail
      rw [if_pos hfail] at hloop₁
      exact ⟨[.deliverOneMessage p.partitionId], s₁, by simp [Runs.exec, hs₁], hman₁, hloop₁⟩
    · rename_i hok
      rw [if_neg hok] at hloop₁
      have hsecond : ∃ s₂, s₁.step partitions (.noteDelivery p.partitionId) = some s₂ ∧
          s₂.manager = s₁.manager ∧
          s₂.loops p.partitionId =
            { queue := d.2.messageQueue.deliverMessageToClientId id d.1, todo := ids, delivery := none } := by
        refine ⟨s₁.setLoop p.partitionId
          { queue := d.2.messageQueue.deliverMessageToClientId id d.1, todo := ids, delivery := none }, ?_, rfl, ?_⟩
        · simp only [step, hloop₁]
        · exact Function.update_self ..
      obtain ⟨s₂, hs₂, hman₂, hloop₂⟩ := hsecond
      obtain ⟨es, s', hes, hman', hloop'⟩ := ih
        { d.2 with messageQueue := d.2.messageQueue.deliverMessageToClientId id d.1 } s₂
        (by rw [show RaftState.partitionId _ = p.partitionId from hpart]; exact hloop₂) (hman₂.trans hman₁)
      refine ⟨.deliverOneMessage p.partitionId :: .noteDelivery p.partitionId :: es, s', ?_, hman', ?_⟩
      · simp [Runs.exec, hs₁, hs₂, hes]
      · rw [show RaftState.partitionId _ = p.partitionId from hpart] at hloop'
        exact hloop'

theorem triggerMessageDelivery_refines (p : Process) (hp : p.partitionId ∈ partitions)
    (hlead : p.state = .leader) (s : Server)
    (hl : s.loops p.partitionId = { queue := p.messageQueue, todo := [], delivery := none })
    (hc : s.manager = p.clients) :
    ∃ es s', Runs.exec (step partitions) s es = some s' ∧ s'.manager = p.triggerMessageDelivery.clients ∧
      s'.loops p.partitionId = { queue := p.triggerMessageDelivery.messageQueue, todo := [],
                                 delivery := none } := by
  have hidle : (s.loops p.partitionId).Idle := by
    rw [hl]
    exact ⟨rfl, rfl⟩
  unfold Process.triggerMessageDelivery
  rw [if_neg (not_not.mpr hlead)]
  split
  · exact ⟨[], s, rfl, hc, hl⟩
  · rename_i hcons
    have hstep : s.step partitions (.triggerMessageDelivery p.partitionId) = some (s.setLoop p.partitionId
        { s.loops p.partitionId with todo := (s.loops p.partitionId).queue.getAllUndeliveredMessages }) := by
      simp only [step]
      rw [if_pos ⟨hp, hidle⟩, hc, if_neg hcons]
    obtain ⟨es, s', hes, h⟩ := deliverMessages_refines partitions
      p.messageQueue.getAllUndeliveredMessages p (s.setLoop p.partitionId
        { s.loops p.partitionId with todo := (s.loops p.partitionId).queue.getAllUndeliveredMessages })
      (by simp [setLoop, hl]) hc
    exact ⟨.triggerMessageDelivery p.partitionId :: es, s', by simp [Runs.exec, hstep, hes], h⟩

end

end Server

end FlowMQ
