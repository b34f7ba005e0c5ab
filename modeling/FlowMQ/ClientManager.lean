import FlowMQ.FlowMessage

/-!
# Client connections of a server process

`ClientManager` is shared by the nodes of all partitions of a process. A
session pointer is modelled by whether it is non-null.
-/

namespace FlowMQ

open Std

structure ClientManager where
  clientSessions : ExtTreeMap Int Bool compare
  consumerClientIdArray : ExtTreeMap Int (List Int) compare
  deliverCount : ExtTreeMap Int Int compare

namespace ClientManager

def empty : ClientManager := { clientSessions := ∅, consumerClientIdArray := ∅, deliverCount := ∅ }

def hasConsumers (m : ClientManager) : Bool := 0 < m.consumerClientIdArray.size

/-- What `deliver_one_message_round_robin` returns, the manager it leaves, and
the client whose session it wrote to with whether the pointer was non-null. -/
structure Delivery where
  result : Int
  manager : ClientManager
  written : Option (Int × Bool)

def deliverOneMessageRoundRobin (partitionId : Int) (m : ClientManager) : Delivery :=
  match m.consumerClientIdArray[partitionId]? with
  | none => { result := 1, manager := m, written := none }
  | some [] => { result := -1, manager := m, written := none }
  | some ids =>
    let count := m.deliverCount.getD partitionId 0
    -- the counter is converted to `size_t` before the division
    let clientId := ids.getD ((count % 2 ^ 64) % ids.length).toNat 0
    { result := clientId
      manager := { m with
        clientSessions := m.clientSessions.insertIfNew clientId false
        deliverCount := m.deliverCount.insert partitionId (count + 1) }
      written := some (clientId, m.clientSessions.getD clientId false) }

def acceptNewConnection (id : Int) (m : ClientManager) : ClientManager :=
  { m with clientSessions := m.clientSessions.insert id true }

/-- The disconnect handler of a session, up to the call of `client_disconnected_handler_`. -/
def removeSession (id : Int) (m : ClientManager) : ClientManager :=
  { m with
    clientSessions := m.clientSessions.erase id
    consumerClientIdArray := m.consumerClientIdArray.map fun _ ids => ids.erase id }

/-- What `handle_message` does with `CLIENT_OPEN_QUEUE` before it forwards the message. -/
def registerConsumer (partitionId clientId : Int) (m : ClientManager) : ClientManager :=
  let ids := m.consumerClientIdArray.getD partitionId []
  { m with consumerClientIdArray := m.consumerClientIdArray.insert partitionId (ids ++ [clientId]) }

end ClientManager

end FlowMQ
