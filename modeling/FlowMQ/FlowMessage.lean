import Mathlib

/-!
# Messages of the queue

The protocol buffer types of `flow_message.proto` that the cluster node reads
or writes. Machine integers are `Int`: the code never wraps them on purpose,
and signed overflow is undefined in the source.
-/

namespace FlowMQ

abbrev Bytes := List UInt8

def toBytes (s : String) : Bytes := s.toUTF8.toList

structure LogEntry where
  index : Int
  term : Int
  messageId : Int
  operation : Int
  message : Bytes
  deriving DecidableEq, Repr, Inhabited

/-- `LogEntry::OPERATION`; the field itself is a plain `int32`. -/
def LogEntry.ADD : Int := 0

def LogEntry.COMMIT : Int := 1

def LogEntry.dummy : LogEntry := { index := 0, term := 0, messageId := 0, operation := 0, message := [] }

structure RequestVoteRequest where
  term : Int
  candidateId : Int
  lastLogIndex : Int
  lastLogTerm : Int
  deriving DecidableEq, Repr

structure RequestVoteResponse where
  term : Int
  voteResultTermGranted : Int
  deriving DecidableEq, Repr

structure AppendEntriesRequest where
  term : Int
  leaderId : Int
  prevLogIndex : Int
  prevLogTerm : Int
  entries : List LogEntry
  leaderCommit : Int
  deriving DecidableEq, Repr

structure AppendEntriesResponse where
  term : Int
  followerId : Int
  appendResultSuccess : Int
  lastIndexSynced : Int
  deriving DecidableEq, Repr

inductive Status where
  | success
  | error
  deriving DecidableEq, Repr

structure ClientOpenQueueResponse where
  status : Status
  errorMessage : Bytes
  leaderIp : Option Bytes
  leaderPort : Option Bytes
  deriving DecidableEq, Repr

inductive RaftMessage where
  | requestVoteRequest (req : RequestVoteRequest)
  | requestVoteResponse (resp : RequestVoteResponse)
  | appendEntriesRequest (req : AppendEntriesRequest)
  | appendEntriesResponse (resp : AppendEntriesResponse)
  | clientPutMessage (message : Bytes)
  | clientCommitMessage (messageId : Int)
  | clientOpenQueue
  | clientOpenQueueResponse (resp : ClientOpenQueueResponse)
  | serverSendMessage (messageId : Int) (message : Bytes)
  deriving DecidableEq, Repr

end FlowMQ
