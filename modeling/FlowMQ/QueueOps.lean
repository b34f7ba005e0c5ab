import FlowMQ.MessageQueue
import FlowMQ.Lib.Runs
import FlowMQ.Lib.Maps

/-!
# Runs of the message queue

A node inserts and commits messages as log entries say, and in between reads,
delivers and takes back messages as its clients come and go. The texts and the
committed ids depend on the log entries alone.
-/

namespace FlowMQ

open Std (ExtTreeMap ExtTreeSet)

inductive QueueOp where
  | insertMessage (messageId : Int) (message : Bytes)
  | commitMessage (messageId : Int)
  | getMessage (messageId : Int)
  | deliverMessageToClientId (messageId clientId : Int)
  | handleClientDisconnected (clientId : Int)

def QueueOp.isReplicated : QueueOp → Bool
  | .insertMessage .. => true
  | .commitMessage _ => true
  | _ => false

abbrev Replica := ExtTreeMap Int Bytes compare × IdSet

def QueueOp.replicate (v : Replica) : QueueOp → Replica
  | .insertMessage messageId message =>
    if v.1.contains messageId then v else (v.1.insert messageId message, v.2)
  | .commitMessage messageId => if v.1.contains messageId then (v.1, v.2.insert messageId) else v
  | _ => v

namespace MessageQueue

def perform (q : MessageQueue) : QueueOp → MessageQueue
  | .insertMessage messageId message => (q.insertMessage messageId message).2
  | .commitMessage messageId => (q.commitMessage messageId).2
  | .getMessage messageId => (q.getMessage messageId).2
  | .deliverMessageToClientId messageId clientId => q.deliverMessageToClientId messageId clientId
  | .handleClientDisconnected clientId => (q.handleClientDisconnected clientId).2

def allows (q : MessageQueue) : QueueOp → Bool
  | .getMessage messageId => q.undeliveredMessages.contains messageId
  | .deliverMessageToClientId messageId _ => q.undeliveredMessages.contains messageId
  | _ => true

def next (q : MessageQueue) (op : QueueOp) : Option MessageQueue :=
  if q.allows op then some (q.perform op) else none

def replica (q : MessageQueue) : Replica := (q.messageStore, q.committedMessages)

structure Stored (q : MessageQueue) : Prop where
  undelivered : ∀ id ∈ q.undeliveredMessages, id ∈ q.messageStore
  delivered : ∀ (c : Int) (ids : IdSet), q.consumerIdDeliveredMessages[c]? = some ids →
    ∀ id ∈ ids, id ∈ q.messageStore

theorem stored_empty : Stored empty where
  undelivered := fun id h => absurd h ExtTreeSet.not_mem_empty
  delivered := fun c ids h => by simp [empty] at h

theorem foldl_returnMessage (ids : List Int) (q : MessageQueue) :
    (ids.foldl returnMessage q).messageStore = q.messageStore ∧
      (ids.foldl returnMessage q).committedMessages = q.committedMessages ∧
      (ids.foldl returnMessage q).consumerIdDeliveredMessages = q.consumerIdDeliveredMessages ∧
      ∀ id ∈ (ids.foldl returnMessage q).undeliveredMessages, id ∈ ids ∨ id ∈ q.undeliveredMessages := by
  induction ids generalizing q with
  | nil => exact ⟨rfl, rfl, rfl, fun id h => Or.inr h⟩
  | cons i ids ih =>
    obtain ⟨h₁, h₂, h₃, h₄⟩ := ih (q.returnMessage i)
    refine ⟨h₁, h₂, h₃, fun id hid => ?_⟩
    rcases h₄ id hid with hid | hid
    · exact Or.inl (List.mem_cons_of_mem _ hid)
    · rw [returnMessage, ExtTreeSet.mem_insert] at hid
      rcases hid with hid | hid
      · exact Or.inl (by rw [compare_eq_iff_eq.mp hid]; simp)
      · exact Or.inr hid

theorem releaseConsumer_spec (id : Int) (q : MessageQueue) :
    (q.releaseConsumer id).messageStore = q.messageStore ∧
      (q.releaseConsumer id).committedMessages = q.committedMessages ∧
      (q.releaseConsumer id).undeliveredMessages = q.undeliveredMessages := by
  unfold releaseConsumer
  split <;> exact ⟨rfl, rfl, rfl⟩

theorem perform_replica {q : MessageQueue} (h : q.Stored) {op : QueueOp} (ha : q.allows op = true) :
    (q.perform op).replica = op.replicate q.replica := by
  cases op with
  | insertMessage id m =>
    by_cases hid : q.messageStore.contains id = true
    · have hr : QueueOp.replicate q.replica (.insertMessage id m) = q.replica := if_pos hid
      rw [hr, perform, insertMessage, if_pos hid]
    · have hr : QueueOp.replicate q.replica (.insertMessage id m) =
          (q.messageStore.insert id m, q.committedMessages) := if_neg hid
      rw [hr, perform, insertMessage, if_neg hid, replica]
  | commitMessage id =>
    obtain ⟨h₁, h₂, -⟩ := releaseConsumer_spec id q
    by_cases hid : q.messageStore.contains id = true
    · have hr : QueueOp.replicate q.replica (.commitMessage id) =
          (q.messageStore, q.committedMessages.insert id) := if_pos hid
      rw [hr]
      simp only [perform, commitMessage, if_pos hid, replica, h₁, h₂]
    · have hr : QueueOp.replicate q.replica (.commitMessage id) = q.replica := if_neg hid
      rw [hr, perform, commitMessage, if_neg hid]
  | getMessage id =>
    have hid : id ∈ q.messageStore := h.undelivered id (ExtTreeSet.mem_iff_contains.mpr ha)
    simp only [perform, getMessage, replica, Maps.insertIfNew_of_mem hid]
    rfl
  | deliverMessageToClientId id c => rfl
  | handleClientDisconnected c =>
    simp only [perform, handleClientDisconnected, QueueOp.replicate, replica]
    split
    · rfl
    · rename_i ids _
      obtain ⟨h₁, h₂, -⟩ := foldl_returnMessage ids.toList q
      simp only [h₁, h₂]

theorem Stored.getD {q : MessageQueue} (h : q.Stored) {c id : Int}
    (hid : id ∈ q.consumerIdDeliveredMessages.getD c ∅) : id ∈ q.messageStore := by
  rw [ExtTreeMap.getD_eq_getD_getElem?] at hid
  cases hc : q.consumerIdDeliveredMessages[c]? with
  | none => rw [hc] at hid; exact absurd hid ExtTreeSet.not_mem_empty
  | some ids => rw [hc] at hid; exact h.delivered c ids hc id hid

theorem Stored.insert_delivered {q : MessageQueue} (h : q.Stored) {c : Int} {ids : IdSet}
    (hids : ∀ id ∈ ids, id ∈ q.messageStore) (c' : Int) (ids' : IdSet)
    (hc : (q.consumerIdDeliveredMessages.insert c ids)[c']? = some ids') :
    ∀ id ∈ ids', id ∈ q.messageStore := by
  rw [ExtTreeMap.getElem?_insert] at hc
  split at hc
  · cases hc
    exact hids
  · exact h.delivered c' ids' hc

theorem Stored.releaseConsumer {q : MessageQueue} (h : q.Stored) (id : Int) :
    (q.releaseConsumer id).Stored := by
  unfold MessageQueue.releaseConsumer
  split
  · refine ⟨h.undelivered, h.insert_delivered fun x hx => ?_⟩
    exact h.getD (ExtTreeSet.mem_of_mem_erase hx)
  · exact h

theorem Stored.perform {q : MessageQueue} (h : q.Stored) {op : QueueOp} (ha : q.allows op = true) :
    (q.perform op).Stored := by
  cases op with
  | insertMessage id m =>
    simp only [MessageQueue.perform, insertMessage]
    split
    · exact h
    · have hmem : ∀ {x : Int}, x ∈ q.messageStore → x ∈ q.messageStore.insert id m := fun hx =>
        ExtTreeMap.mem_insert.mpr (Or.inr hx)
      refine ⟨fun x hx => ?_, fun c ids hc x hx => hmem (h.delivered c ids hc x hx)⟩
      rcases ExtTreeSet.mem_insert.mp hx with hx | hx
      · exact ExtTreeMap.mem_insert.mpr (Or.inl hx)
      · exact hmem (h.undelivered x hx)
  | commitMessage id =>
    simp only [MessageQueue.perform, commitMessage]
    split
    · have hr := h.releaseConsumer id
      exact ⟨fun x hx => hr.undelivered x (ExtTreeSet.mem_of_mem_erase hx), hr.delivered⟩
    · exact h
  | getMessage id =>
    have hid : id ∈ q.messageStore := h.undelivered id (ExtTreeSet.mem_iff_contains.mpr ha)
    simp only [MessageQueue.perform, getMessage, Maps.insertIfNew_of_mem hid]
    exact h
  | deliverMessageToClientId id c =>
    have hid : id ∈ q.messageStore := h.undelivered id (ExtTreeSet.mem_iff_contains.mpr ha)
    refine ⟨fun x hx => h.undelivered x (ExtTreeSet.mem_of_mem_erase hx), h.insert_delivered fun x hx => ?_⟩
    rcases ExtTreeSet.mem_insert.mp hx with hx | hx
    · rwa [← compare_eq_iff_eq.mp hx]
    · exact h.getD hx
  | handleClientDisconnected c =>
    simp only [MessageQueue.perform, handleClientDisconnected]
    split
    · exact h
    · rename_i ids hids
      obtain ⟨h₁, -, h₃, h₄⟩ := foldl_returnMessage ids.toList q
      refine ⟨fun x hx => ?_, fun c' ids' hc' x hx => ?_⟩
      · rw [h₁]
        rcases h₄ x hx with hx | hx
        · exact h.delivered c ids hids x (ExtTreeSet.mem_toList.mp hx)
        · exact h.undelivered x hx
      · simp only [h₃] at hc'
        rw [h₁]
        rw [ExtTreeMap.getElem?_erase] at hc'
        split at hc'
        · cases hc'
        · exact h.delivered c' ids' hc' x hx

theorem exec_replica {q q' : MessageQueue} {ops : List QueueOp} (h : q.Stored)
    (hq : Runs.exec next q ops = some q') :
    q'.Stored ∧ q'.replica = (ops.filter QueueOp.isReplicated).foldl QueueOp.replicate q.replica := by
  induction ops generalizing q with
  | nil => cases hq; exact ⟨h, rfl⟩
  | cons op ops ih =>
    obtain ⟨q₁, h₁, h₂⟩ := Option.bind_eq_some_iff.mp hq
    unfold next at h₁
    split at h₁
    · rename_i ha
      cases h₁
      obtain ⟨hs, hr⟩ := ih (h.perform ha) h₂
      refine ⟨hs, ?_⟩
      rw [hr, perform_replica h ha]
      cases op <;> rfl
    · cases h₁

end MessageQueue

end FlowMQ
