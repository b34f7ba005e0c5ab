import FlowMQ.FlowMessage

/-!
# The message queue of a partition

`MessageQueue`: the store of messages by id, and for each message whether it is
undelivered, delivered to a consumer, or committed. The ordered containers of
the source are the ordered maps and sets of the library.
-/

namespace FlowMQ

open Std

abbrev IdSet := ExtTreeSet Int compare

structure MessageQueue where
  messageStore : ExtTreeMap Int Bytes compare
  undeliveredMessages : IdSet
  committedMessages : IdSet
  consumerIdDeliveredMessages : ExtTreeMap Int IdSet compare
  messageIdToConsumer : ExtTreeMap Int Int compare

namespace MessageQueue

def empty : MessageQueue :=
  { messageStore := ∅, undeliveredMessages := ∅, committedMessages := ∅, consumerIdDeliveredMessages := ∅,
    messageIdToConsumer := ∅ }

def insertMessage (messageId : Int) (message : Bytes) (q : MessageQueue) : Int × MessageQueue :=
  if q.messageStore.contains messageId then (1, q)
  else (0, { q with
    messageStore := q.messageStore.insert messageId message
    undeliveredMessages := q.undeliveredMessages.insert messageId })

def releaseConsumer (messageId : Int) (q : MessageQueue) : MessageQueue :=
  match q.messageIdToConsumer[messageId]? with
  | some consumerId =>
    let ids := q.consumerIdDeliveredMessages.getD consumerId ∅
    { q with
      consumerIdDeliveredMessages := q.consumerIdDeliveredMessages.insert consumerId (ids.erase messageId)
      messageIdToConsumer := q.messageIdToConsumer.erase messageId }
  | none => q

def commitMessage (messageId : Int) (q : MessageQueue) : Int × MessageQueue :=
  if q.messageStore.contains messageId then
    let q := q.releaseConsumer messageId
    (0, { q with
      committedMessages := q.committedMessages.insert messageId
      undeliveredMessages := q.undeliveredMessages.erase messageId })
  else (1, q)

/-- `message_store_[message_id]`, which creates an empty text for an unknown id. -/
def getMessage (messageId : Int) (q : MessageQueue) : Bytes × MessageQueue :=
  (q.messageStore.getD messageId [], { q with messageStore := q.messageStore.insertIfNew messageId [] })

def getAllUndeliveredMessages (q : MessageQueue) : List Int := q.undeliveredMessages.toList

def deliverMessageToClientId (messageId clientId : Int) (q : MessageQueue) : MessageQueue :=
  let ids := q.consumerIdDeliveredMessages.getD clientId ∅
  { q with
    undeliveredMessages := q.undeliveredMessages.erase messageId
    consumerIdDeliveredMessages := q.consumerIdDeliveredMessages.insert clientId (ids.insert messageId)
    messageIdToConsumer := q.messageIdToConsumer.insert messageId clientId }

def returnMessage (q : MessageQueue) (messageId : Int) : MessageQueue :=
  { q with
    undeliveredMessages := q.undeliveredMessages.insert messageId
    messageIdToConsumer := q.messageIdToConsumer.erase messageId }

def handleClientDisconnected (clientId : Int) (q : MessageQueue) : Int × MessageQueue :=
  match q.consumerIdDeliveredMessages[clientId]? with
  | none => (1, q)
  | some ids =>
    let q := ids.toList.foldl returnMessage q
    (0, { q with consumerIdDeliveredMessages := q.consumerIdDeliveredMessages.erase clientId })

end MessageQueue

end FlowMQ
