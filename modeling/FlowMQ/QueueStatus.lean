import FlowMQ.QueueOps

/-!
# The status of a message

The five containers of `MessageQueue` say one thing about a message: it is not
known, waits for delivery, is with a consumer, or is committed. `Reads` is that
reading of the containers, and every operation moves the status of a message by
`MessageStatus.step`.
-/

namespace FlowMQ

open Std (ExtTreeMap ExtTreeSet)

inductive MessageStatus where
  | unknown
  | undelivered
  | delivered (clientId : Int)
  | committed
  deriving DecidableEq, Repr

def MessageStatus.step (id : Int) (st : MessageStatus) : QueueOp → MessageStatus
  | .insertMessage messageId _ => if messageId = id ∧ st = .unknown then .undelivered else st
  | .commitMessage messageId => if messageId = id ∧ st ≠ .unknown then .committed else st
  | .getMessage _ => st
  | .deliverMessageToClientId messageId clientId => if messageId = id then .delivered clientId else st
  | .handleClientDisconnected clientId => if st = .delivered clientId then .undelivered else st

namespace MessageQueue

def held (q : MessageQueue) (c : Int) : IdSet := q.consumerIdDeliveredMessages.getD c ∅

def Delivered (q : MessageQueue) (id : Int) : Prop := ∃ c, id ∈ q.held c

structure Reads (q : MessageQueue) (id : Int) (st : MessageStatus) : Prop where
  stored : id ∈ q.messageStore ↔ st ≠ .unknown
  undelivered : id ∈ q.undeliveredMessages ↔ st = .undelivered
  committed : id ∈ q.committedMessages ↔ st = .committed
  held : ∀ c, id ∈ q.held c ↔ st = .delivered c
  consumer : ∀ c, q.messageIdToConsumer[id]? = some c ↔ st = .delivered c

theorem reads_empty (id : Int) : empty.Reads id .unknown where
  stored := by simp [empty]
  undelivered := by simp [empty]
  committed := by simp [empty]
  held := by simp [empty, MessageQueue.held]
  consumer := by simp [empty]

/-! ## Who holds what after an operation -/

theorem getD_insert_ids (m : ExtTreeMap Int IdSet compare) (c c' : Int) (ids : IdSet) :
    (m.insert c ids).getD c' ∅ = if c = c' then ids else m.getD c' ∅ := by
  rw [ExtTreeMap.getD_insert]
  simp only [compare_eq_iff_eq]

section
variable (q : MessageQueue) (messageId id c c' : Int)

theorem mem_held_deliver :
    id ∈ (q.deliverMessageToClientId messageId c).held c' ↔ (messageId = id ∧ c = c') ∨ id ∈ q.held c' := by
  simp only [held, deliverMessageToClientId, getD_insert_ids]
  by_cases hc : c = c'
  · subst hc
    simp
  · simp [hc]

theorem mem_held_release :
    id ∈ (q.releaseConsumer messageId).held c ↔
      id ∈ q.held c ∧ ¬ (messageId = id ∧ q.messageIdToConsumer[messageId]? = some c) := by
  unfold releaseConsumer
  split
  · rename_i c₀ hc₀
    simp only [held, getD_insert_ids, hc₀]
    by_cases hc : c₀ = c
    · subst hc
      simp [and_comm]
    · simp [hc]
  · rename_i hc₀
    simp [hc₀]

theorem consumer_release :
    (q.releaseConsumer messageId).messageIdToConsumer[id]? =
      if messageId = id then none else q.messageIdToConsumer[id]? := by
  unfold releaseConsumer
  split
  · simp only [ExtTreeMap.getElem?_erase, compare_eq_iff_eq]
  · rename_i hc₀
    by_cases hid : messageId = id
    · rw [if_pos hid, ← hid, hc₀]
    · rw [if_neg hid]

theorem foldl_returnMessage_iff (ids : List Int) (q : MessageQueue) :
    (id ∈ (ids.foldl returnMessage q).undeliveredMessages ↔ id ∈ ids ∨ id ∈ q.undeliveredMessages) ∧
      (ids.foldl returnMessage q).messageIdToConsumer[id]? =
        if id ∈ ids then none else q.messageIdToConsumer[id]? := by
  induction ids generalizing q with
  | nil => simp
  | cons i ids ih =>
    obtain ⟨hu, hc⟩ := ih (q.returnMessage i)
    rw [List.foldl_cons, hu, hc]
    simp only [returnMessage, ExtTreeMap.getElem?_erase, ExtTreeSet.mem_insert, compare_eq_iff_eq, List.mem_cons]
    by_cases hi : i = id
    · simp [hi]
    · simp [hi, Ne.symm hi]

theorem held_of_none (h : q.consumerIdDeliveredMessages[c]? = none) : id ∉ q.held c := by
  rw [held, ExtTreeMap.getD_eq_getD_getElem?, h]
  exact ExtTreeSet.not_mem_empty

theorem held_of_some {ids : IdSet} (h : q.consumerIdDeliveredMessages[c]? = some ids) : q.held c = ids := by
  rw [held, ExtTreeMap.getD_eq_getD_getElem?, h]
  rfl

theorem mem_held_disconnected :
    id ∈ (q.handleClientDisconnected c).2.held c' ↔ c ≠ c' ∧ id ∈ q.held c' := by
  unfold handleClientDisconnected
  split
  · rename_i hc
    by_cases hcc : c = c'
    · subst hcc
      simp [held_of_none q id c hc]
    · simp [hcc]
  · rename_i ids hc
    simp only [held, (foldl_returnMessage ids.toList q).2.2.1, ExtTreeMap.getD_erase, compare_eq_iff_eq]
    by_cases hcc : c = c'
    · simp [hcc]
    · simp [hcc]

theorem mem_undelivered_disconnected :
    id ∈ (q.handleClientDisconnected c).2.undeliveredMessages ↔ id ∈ q.held c ∨
    id ∈ q.undeliveredMessages := by
  unfold handleClientDisconnected
  split
  · rename_i hc
    simp [held_of_none q id c hc]
  · rename_i ids hc
    rw [held_of_some q c hc]
    simpa using (foldl_returnMessage_iff id ids.toList q).1

theorem consumer_disconnected :
    (id ∈ q.held c → (q.handleClientDisconnected c).2.messageIdToConsumer[id]? = none) ∧
      (id ∉ q.held c →
        (q.handleClientDisconnected c).2.messageIdToConsumer[id]? = q.messageIdToConsumer[id]?) := by
  unfold handleClientDisconnected
  split
  · rename_i hc
    simp [held_of_none q id c hc]
  · rename_i ids hc
    rw [held_of_some q c hc]
    have hf := (foldl_returnMessage_iff id ids.toList q).2
    simp only [ExtTreeSet.mem_toList] at hf
    refine ⟨fun hid => ?_, fun hid => ?_⟩
    · simp only [hf, if_pos hid]
    · simp only [hf, if_neg hid]

end

/-! ## The status after an operation -/

namespace Reads

variable {q q' : MessageQueue} {id : Int} {st : MessageStatus} (h : q.Reads id st)
include h

theorem congr (hs : id ∈ q'.messageStore ↔ id ∈ q.messageStore)
    (hu : id ∈ q'.undeliveredMessages ↔ id ∈ q.undeliveredMessages)
    (hc : id ∈ q'.committedMessages ↔ id ∈ q.committedMessages)
    (hh : ∀ c, id ∈ q'.held c ↔ id ∈ q.held c)
    (hm : q'.messageIdToConsumer[id]? = q.messageIdToConsumer[id]?) : q'.Reads id st where
  stored := hs.trans h.stored
  undelivered := hu.trans h.undelivered
  committed := hc.trans h.committed
  held := fun c => (hh c).trans (h.held c)
  consumer := fun c => by rw [hm]; exact h.consumer c

theorem insertMessage (messageId : Int) (m : Bytes) :
    (q.insertMessage messageId m).2.Reads id (st.step id (.insertMessage messageId m)) := by
  by_cases hs : q.messageStore.contains messageId = true
  · have hst : st.step id (.insertMessage messageId m) = st := by
      refine if_neg fun hc => ?_
      rw [hc.1] at hs
      exact h.stored.mp hs hc.2
    rw [MessageQueue.insertMessage, if_pos hs, hst]
    exact h
  · rw [MessageQueue.insertMessage, if_neg hs]
    by_cases hid : messageId = id
    · subst hid
      have hunknown : st = .unknown := by
        by_contra hne
        exact hs (h.stored.mpr hne)
      subst hunknown
      have hst : MessageStatus.unknown.step messageId (.insertMessage messageId m) = .undelivered :=
        if_pos ⟨rfl, rfl⟩
      rw [hst]
      exact
        { stored := by simp
          undelivered := by simp
          committed := by simpa using h.committed
          held := fun c => (h.held c).trans (by simp)
          consumer := fun c => (h.consumer c).trans (by simp) }
    · have hst : st.step id (.insertMessage messageId m) = st := if_neg fun hc => hid hc.1
      rw [hst]
      exact h.congr (by simp [ExtTreeMap.mem_insert, hid]) (by simp [hid]) Iff.rfl (fun c => Iff.rfl) rfl

theorem commitMessage (messageId : Int) :
    (q.commitMessage messageId).2.Reads id (st.step id (.commitMessage messageId)) := by
  by_cases hs : q.messageStore.contains messageId = true
  · obtain ⟨h₁, h₂, h₃⟩ := releaseConsumer_spec messageId q
    rw [MessageQueue.commitMessage, if_pos hs]
    by_cases hid : messageId = id
    · subst hid
      have hst : st.step messageId (.commitMessage messageId) = .committed := if_pos ⟨rfl, h.stored.mp hs⟩
      rw [hst]
      refine
        { stored := by simpa [h₁] using hs
          undelivered := by simp
          committed := by simp
          held := fun c => ?_
          consumer := fun c => ?_ }
      · have hiff := (h.held c).trans (h.consumer c).symm
        refine (mem_held_release q messageId messageId c).trans
          (iff_of_false (fun hc => hc.2 ⟨rfl, ?_⟩) (by simp))
        exact hiff.mp hc.1
      · have hnone := consumer_release q messageId messageId
        rw [if_pos rfl] at hnone
        simp [hnone]
    · have hst : st.step id (.commitMessage messageId) = st := if_neg fun hc => hid hc.1
      have hcons := consumer_release q messageId id
      rw [if_neg hid] at hcons
      rw [hst]
      exact h.congr (by simp [h₁]) (by simp [h₃, hid]) (by simp [h₂, hid])
        (fun c => (mem_held_release q messageId id c).trans (by simp [hid])) hcons
  · have hst : st.step id (.commitMessage messageId) = st := by
      refine if_neg fun hc => hs ?_
      rw [hc.1]
      exact h.stored.mpr hc.2
    rw [MessageQueue.commitMessage, if_neg hs, hst]
    exact h

theorem deliverMessageToClientId (messageId c : Int) (ha : q.undeliveredMessages.contains messageId = true) :
    (q.deliverMessageToClientId messageId c).Reads id
    (st.step id (.deliverMessageToClientId messageId c)) := by
  by_cases hid : messageId = id
  · subst hid
    have hwait : st = .undelivered := h.undelivered.mp ha
    subst hwait
    have hst : MessageStatus.undelivered.step messageId (.deliverMessageToClientId messageId c) = .delivered c :=
      if_pos rfl
    rw [hst]
    refine
      { stored := h.stored.trans (by simp)
        undelivered := by simp [MessageQueue.deliverMessageToClientId]
        committed := h.committed.trans (by simp)
        held := fun c' => (mem_held_deliver q messageId messageId c c').trans ?_
        consumer := fun c' => by simp [MessageQueue.deliverMessageToClientId] }
    have hfree : messageId ∉ q.held c' := fun hc => by simpa using (h.held c').mp hc
    simp [hfree]
  · have hst : st.step id (.deliverMessageToClientId messageId c) = st := if_neg hid
    rw [hst]
    refine h.congr Iff.rfl ?_ Iff.rfl (fun c' => (mem_held_deliver q messageId id c c').trans (by simp [hid])) ?_
    · simp [MessageQueue.deliverMessageToClientId, hid]
    · simp [MessageQueue.deliverMessageToClientId, ExtTreeMap.getElem?_insert, hid]

theorem handleClientDisconnected (c : Int) :
    (q.handleClientDisconnected c).2.Reads id (st.step id (.handleClientDisconnected c)) := by
  have hkeep : (q.handleClientDisconnected c).2.messageStore = q.messageStore ∧
      (q.handleClientDisconnected c).2.committedMessages = q.committedMessages := by
    unfold MessageQueue.handleClientDisconnected
    split
    · exact ⟨rfl, rfl⟩
    · rename_i ids _
      exact ⟨(foldl_returnMessage ids.toList q).1, (foldl_returnMessage ids.toList q).2.1⟩
  have hmem := mem_undelivered_disconnected q id c
  by_cases hid : id ∈ q.held c
  · have hwith : st = .delivered c := (h.held c).mp hid
    subst hwith
    have hst : (MessageStatus.delivered c).step id (.handleClientDisconnected c) = .undelivered := if_pos rfl
    rw [hst]
    refine
      { stored := by rw [hkeep.1]; simpa using h.stored
        undelivered := by simp [hmem, hid]
        committed := by rw [hkeep.2]; simpa using h.committed
        held := fun c' => (mem_held_disconnected q id c c').trans ?_
        consumer := fun c' => by simp [(consumer_disconnected q id c).1 hid] }
    have hother := h.held c'
    simp only [MessageStatus.delivered.injEq] at hother
    simp [hother]
  · have hst : st.step id (.handleClientDisconnected c) = st := if_neg fun hc => hid ((h.held c).mpr hc)
    rw [hst]
    refine h.congr (by rw [hkeep.1]) (by simp [hmem, hid]) (by rw [hkeep.2]) (fun c' => ?_)
      ((consumer_disconnected q id c).2 hid)
    rw [mem_held_disconnected]
    exact ⟨And.right, fun hc => ⟨fun hcc => hid (hcc ▸ hc), hc⟩⟩

theorem perform {op : QueueOp} (ha : q.allows op = true) : (q.perform op).Reads id (st.step id op) := by
  cases op with
  | insertMessage messageId m => exact h.insertMessage messageId m
  | commitMessage messageId => exact h.commitMessage messageId
  | getMessage messageId =>
    refine h.congr ?_ Iff.rfl Iff.rfl (fun c => Iff.rfl) rfl
    simp only [MessageQueue.perform, MessageQueue.getMessage, ExtTreeMap.mem_insertIfNew, compare_eq_iff_eq]
    refine or_iff_right_of_imp fun hid => h.stored.mpr ?_
    have hwait : st = .undelivered := h.undelivered.mp (hid ▸ ha)
    simp [hwait]
  | deliverMessageToClientId messageId c => exact h.deliverMessageToClientId messageId c ha
  | handleClientDisconnected c => exact h.handleClientDisconnected c

theorem exec {ops : List QueueOp} (hq : Runs.exec next q ops = some q') :
    q'.Reads id (ops.foldl (MessageStatus.step id) st) := by
  induction ops generalizing q st with
  | nil => cases hq; exact h
  | cons op ops ih =>
    obtain ⟨q₁, h₁, h₂⟩ := Option.bind_eq_some_iff.mp hq
    unfold next at h₁
    split at h₁
    · rename_i ha
      cases h₁
      exact ih (h.perform ha) h₂
    · cases h₁

end Reads

/-! ## The containers in every state of the queue -/

/-- Every stored id is in exactly one place, and the two maps between ids and consumers are inverse to
each other. -/
structure Partitioned (q : MessageQueue) : Prop where
  stored : ∀ id, id ∈ q.messageStore ↔ id ∈ q.undeliveredMessages ∨ id ∈ q.committedMessages ∨ q.Delivered id
  undelivered_committed : ∀ id, ¬ (id ∈ q.undeliveredMessages ∧ id ∈ q.committedMessages)
  undelivered_delivered : ∀ id, ¬ (id ∈ q.undeliveredMessages ∧ q.Delivered id)
  committed_delivered : ∀ id, ¬ (id ∈ q.committedMessages ∧ q.Delivered id)
  inverse : ∀ id c, q.messageIdToConsumer[id]? = some c ↔ id ∈ q.held c
  exclusive : ∀ id c c', id ∈ q.held c → id ∈ q.held c' → c = c'

theorem Reads.delivered_iff {q : MessageQueue} {id : Int} {st : MessageStatus} (h : q.Reads id st) :
    q.Delivered id ↔ ∃ c, st = .delivered c := exists_congr h.held

theorem partitioned_of_reads {q : MessageQueue} {st : Int → MessageStatus} (h : ∀ id, q.Reads id (st id)) :
    q.Partitioned where
  stored := fun id => by
    rw [(h id).stored, (h id).undelivered, (h id).committed, (h id).delivered_iff]
    cases st id <;> simp
  undelivered_committed := fun id hc => by
    have h₁ := (h id).undelivered.mp hc.1
    rw [(h id).committed.mp hc.2] at h₁
    cases h₁
  undelivered_delivered := fun id hc => by
    obtain ⟨c, h₂⟩ := (h id).delivered_iff.mp hc.2
    rw [(h id).undelivered.mp hc.1] at h₂
    cases h₂
  committed_delivered := fun id hc => by
    obtain ⟨c, h₂⟩ := (h id).delivered_iff.mp hc.2
    rw [(h id).committed.mp hc.1] at h₂
    cases h₂
  inverse := fun id c => ((h id).consumer c).trans ((h id).held c).symm
  exclusive := fun id c c' hc hc' => by
    have h₁ := ((h id).held c).mp hc
    rw [((h id).held c').mp hc'] at h₁
    exact (MessageStatus.delivered.inj h₁).symm

theorem exec_partitioned {ops : List QueueOp} {q : MessageQueue} (h : Runs.exec next empty ops = some q) :
    q.Partitioned :=
  partitioned_of_reads fun id => (reads_empty id).exec h

def mixedOps : List QueueOp :=
  [.insertMessage 1 (toBytes "a"), .insertMessage 2 (toBytes "b"), .getMessage 1,
    .deliverMessageToClientId 1 4, .getMessage 2, .deliverMessageToClientId 2 5, .handleClientDisconnected 4,
    .commitMessage 1, .commitMessage 3]

theorem exec_partitioned_mixed : ∃ q, Runs.exec next empty mixedOps = some q ∧ q.Partitioned := by
  refine ⟨(Runs.exec next empty mixedOps).get (by decide +kernel), Option.eq_some_of_isSome _, ?_⟩
  exact exec_partitioned (Option.eq_some_of_isSome _)

end MessageQueue

/-! ## Deliveries do not show in the replicated part -/

def QueueOp.insertedText (id : Int) : QueueOp → Option Bytes
  | .insertMessage messageId message => if messageId = id then some message else none
  | _ => none

def firstText (id : Int) (ops : List QueueOp) : Option Bytes := ops.findSome? (QueueOp.insertedText id)

theorem QueueOp.replicate_text (id : Int) (op : QueueOp) (v : Replica) :
    (op.replicate v).1[id]? = v.1[id]?.or (op.insertedText id) := by
  cases op with
  | insertMessage messageId m =>
    by_cases hs : v.1.contains messageId = true
    · have hr : QueueOp.replicate v (.insertMessage messageId m) = v := if_pos hs
      rw [hr, insertedText]
      split
      · rename_i hid
        obtain ⟨text, ht⟩ := Option.isSome_iff_exists.mp (ExtTreeMap.isSome_getElem?_iff_mem.mpr (hid ▸ hs))
        rw [ht, Option.some_or]
      · rw [Option.or_none]
    · have hr : QueueOp.replicate v (.insertMessage messageId m) = (v.1.insert messageId m, v.2) := if_neg hs
      rw [hr, insertedText, ExtTreeMap.getElem?_insert]
      simp only [compare_eq_iff_eq]
      split
      · rename_i hid
        rw [ExtTreeMap.getElem?_eq_none (hid ▸ hs), Option.none_or]
      · rw [Option.or_none]
  | commitMessage messageId =>
    simp only [replicate, insertedText, Option.or_none]
    split <;> rfl
  | _ => simp [replicate, insertedText]

theorem foldl_replicate_text (id : Int) (ops : List QueueOp) (v : Replica) :
    (ops.foldl QueueOp.replicate v).1[id]? = v.1[id]?.or (firstText id ops) := by
  induction ops generalizing v with
  | nil => simp [firstText]
  | cons op ops ih =>
    rw [List.foldl_cons, ih, QueueOp.replicate_text, Option.or_assoc, firstText, firstText, List.findSome?_cons]
    congr 1
    cases op.insertedText id <;> rfl

theorem firstText_filter (id : Int) (ops : List QueueOp) :
    firstText id (ops.filter QueueOp.isReplicated) = firstText id ops := by
  induction ops with
  | nil => rfl
  | cons op ops ih =>
    unfold firstText at ih ⊢
    by_cases hop : op.isReplicated = true
    · rw [List.filter_cons_of_pos hop, List.findSome?_cons, List.findSome?_cons, ih]
    · have hnone : op.insertedText id = none := by
        cases op with
        | insertMessage messageId m => exact absurd rfl hop
        | _ => rfl
      rw [List.filter_cons_of_neg hop, List.findSome?_cons, hnone, ih]

namespace MessageQueue

theorem Partitioned.uncommitted {q : MessageQueue} (h : q.Partitioned) (id : Int) :
    (id ∈ q.undeliveredMessages ∨ q.Delivered id) ↔ id ∈ q.messageStore ∧ id ∉ q.committedMessages := by
  rw [h.stored]
  constructor
  · rintro (hid | hid)
    · exact ⟨Or.inl hid, fun hc => h.undelivered_committed id ⟨hid, hc⟩⟩
    · exact ⟨Or.inr (Or.inr hid), fun hc => h.committed_delivered id ⟨hc, hid⟩⟩
  · rintro ⟨hid | hid | hid, hc⟩
    · exact Or.inl hid
    · exact absurd hid hc
    · exact Or.inr hid

theorem exec_agree {ops ops' : List QueueOp} {q q' : MessageQueue} (h : Runs.exec next empty ops = some q)
    (h' : Runs.exec next empty ops' = some q')
    (hops : ops.filter QueueOp.isReplicated = ops'.filter QueueOp.isReplicated) :
    q.messageStore = q'.messageStore ∧ q.committedMessages = q'.committedMessages ∧
      (∀ id,
        (id ∈ q.undeliveredMessages ∨ q.Delivered id) ↔ (id ∈ q'.undeliveredMessages ∨ q'.Delivered id)) ∧
      (∀ id, (id ∈ q.undeliveredMessages ∨ q.Delivered id) ↔ id ∈ q.messageStore ∧ id ∉ q.committedMessages) ∧
      ∀ id, q.messageStore[id]? = firstText id ops := by
  have hr := (exec_replica stored_empty h).2
  have hr' := (exec_replica stored_empty h').2
  have hsame : q.replica = q'.replica := by rw [hr, hr', hops]
  have hstore : q.messageStore = q'.messageStore := congrArg Prod.fst hsame
  have hcommitted : q.committedMessages = q'.committedMessages := congrArg Prod.snd hsame
  have hp := partitioned_of_reads fun id => (reads_empty id).exec h
  have hp' := partitioned_of_reads fun id => (reads_empty id).exec h'
  refine ⟨hstore, hcommitted, fun id => ?_, hp.uncommitted, fun id => ?_⟩
  · rw [hp.uncommitted, hp'.uncommitted, hstore, hcommitted]
  · have htext : q.messageStore[id]? = (empty.replica.1)[id]?.or (firstText id ops) := by
      rw [← firstText_filter, ← foldl_replicate_text, ← hr]
      rfl
    simpa [empty, replica] using htext

def followerOps : List QueueOp :=
  [.insertMessage 1 (toBytes "a"), .insertMessage 2 (toBytes "b"), .commitMessage 1, .commitMessage 3]

theorem exec_agree_mixed :
    ∃ q q', Runs.exec next empty mixedOps = some q ∧ Runs.exec next empty followerOps = some q' ∧
    q.messageStore = q'.messageStore ∧ q.committedMessages = q'.committedMessages := by
  have h : Runs.exec next empty mixedOps = some ((Runs.exec next empty mixedOps).get (by decide +kernel)) :=
    Option.eq_some_of_isSome _
  have h' : Runs.exec next empty followerOps =
      some ((Runs.exec next empty followerOps).get (by decide +kernel)) :=
    Option.eq_some_of_isSome _
  obtain ⟨hstore, hcommitted, -⟩ := exec_agree h h' rfl
  exact ⟨_, _, h, h', hstore, hcommitted⟩

end MessageQueue

end FlowMQ
