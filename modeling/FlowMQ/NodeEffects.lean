import FlowMQ.NodeTrans

/-!
# Which handlers apply, store and push

Applying an entry, storing and pushing from a request happen in the two append
handlers only. A kind of effect that is none of the messages a node sends is
therefore absent from every other handler, and in the append handlers it comes
from the commit step or from `append_log_entries`. `RaftState.records` is what a
message makes a node apply and store.
-/

namespace FlowMQ

structure Blind {α : Type} (f : Process → α) : Prop where
  raft : ∀ (p : Process) (r : RaftState), f { p with toRaftState := r } = f p
  write : ∀ (p : Process) (i : Int) (m : RaftMessage), f (p.emit (.writeMessage i m)) = f p

theorem blind_messageQueue : Blind fun p => p.messageQueue := ⟨fun _ _ => rfl, fun _ _ _ => rfl⟩

theorem blind_filter {K : Effect → Bool} (hm : ∀ i m, K (.writeMessage i m) = false) :
    Blind fun p => p.out.filter K :=
  ⟨fun _ _ => rfl, fun p i m => by simp [hm]⟩

namespace Blind

variable {α : Type} {f : Process → α} (h : Blind f)
include h

theorem triggerEntryUpdate (i : Int) (p : Process) : f (p.triggerEntryUpdate i) = f p := by
  unfold Process.triggerEntryUpdate
  simp only
  split
  · split
    · exact (h.write ..).trans (h.raft p _)
    · exact h.raft p _
  · exact h.raft p _

theorem triggerEntryUpdates : ∀ (is : List Int) (p : Process),
    f (is.foldl (fun p i => p.triggerEntryUpdate i) p) = f p
  | [], _ => rfl
  | i :: is, p => by rw [List.foldl_cons, triggerEntryUpdates is, h.triggerEntryUpdate]

theorem addLogEntry (e : LogEntry) (p : Process) : f (p.addLogEntry e) = f p :=
  (h.triggerEntryUpdates _ _).trans (h.raft p _)

theorem appendEntriesResponse (q : AppendEntriesResponse) (p : Process) :
    f (p.appendEntriesResponse q) =
      if p.toRaftState.commits q then
        f ({ p with
            pendingAppendReqs := p.pendingAppendReqs.insert q.followerId
              (max 0 (p.pendingAppendReqs.getD q.followerId 0 - 1))
            matchedIndex := p.matchedIndex.insert q.followerId q.lastIndexSynced : Process }.advanceCommit
          q.lastIndexSynced (q.lastIndexSynced + 1))
      else f p := by
  unfold Process.appendEntriesResponse
  simp only
  rw [h.triggerEntryUpdate]
  by_cases hs : q.appendResultSuccess ≠ 0
  · rw [if_pos hs]
    refine (h.raft _ _).trans ?_
    simp only [Process.commitOnMajority]
    by_cases hlt : p.commitIndex < q.lastIndexSynced
    · rw [if_pos hlt]
      by_cases hmaj : p.totalNodes / 2 < Process.countSyncedNodes q.lastIndexSynced
          (p.matchedIndex.insert q.followerId q.lastIndexSynced) + 1
      · have hc : p.toRaftState.commits q := ⟨hs, hlt, hmaj⟩
        rw [if_pos hmaj, if_pos hc, max_eq_right (by omega)]
      · have hc : ¬ p.toRaftState.commits q := fun h => hmaj h.2.2
        rw [if_neg hmaj, if_neg hc]
        exact h.raft p _
    · have hc : ¬ p.toRaftState.commits q := fun h => hlt h.2.1
      rw [if_neg hlt, if_neg hc]
      exact h.raft p _
  · rw [if_neg hs]
    have hn : ¬ p.toRaftState.commits q := fun h => hs h.1
    rw [if_neg hn]
    split <;> exact h.raft p _

theorem appendEntriesRequest (now : Int) (q : AppendEntriesRequest) (p : Process) :
    f (p.appendEntriesRequest now q) =
      if p.curTerm ≤ q.term ∧ checkIfPreviousLogInSync q.prevLogTerm q.prevLogIndex p.logEntries = true then
        f (((p.acceptLeader now q).updateLeaderCommit q.leaderCommit).appendLogEntries
          q.prevLogIndex q.entries)
      else f p := by
  unfold Process.appendEntriesRequest
  by_cases ht : q.term < p.curTerm
  · rw [if_pos ht, if_neg fun hc => absurd hc.1 (not_le.mpr ht)]
    exact (h.write ..).trans (h.raft p _)
  · have hlog : (p.acceptLeader now q).logEntries = p.logEntries := rfl
    simp only [if_neg ht, hlog, not_lt.mp ht, true_and]
    by_cases hc : checkIfPreviousLogInSync q.prevLogTerm q.prevLogIndex p.logEntries = true
    · rw [if_pos hc, hc, if_neg (by decide)]
      exact h.write ..
    · rw [if_neg hc, Bool.not_eq_true _ |>.mp hc, if_pos (by decide)]
      exact (h.write ..).trans (h.raft p _)

theorem requestVoteRequest (q : RequestVoteRequest) (p : Process) : f (p.requestVoteRequest q) = f p := by
  unfold Process.requestVoteRequest
  split
  · exact h.write ..
  · simp only
    split <;> split
    · exact (h.write ..).trans (h.raft p _)
    · exact h.raft p _
    · exact (h.write ..).trans (h.raft p _)
    · rfl

theorem requestVoteResponse (q : RequestVoteResponse) (p : Process) : f (p.requestVoteResponse q) = f p := by
  unfold Process.requestVoteResponse
  split
  · rfl
  split
  · rfl
  split
  · rfl
  split
  · rfl
  simp only
  split <;> split <;> first | rfl | exact h.raft p _

theorem clientPutMessage (randomId : Int) (m : Bytes) (p : Process) :
    f (p.clientPutMessage randomId m) = f p := by
  unfold Process.clientPutMessage
  split
  · rfl
  · exact h.addLogEntry _ p

theorem clientCommitMessage (id : Int) (p : Process) : f (p.clientCommitMessage id) = f p := by
  unfold Process.clientCommitMessage
  split
  · rfl
  · exact h.addLogEntry _ p

variable (hb : ∀ (p : Process) (m : RaftMessage), f (p.emit (.broadCast m)) = f p)

omit hb in
theorem voteTimer (now : Int) (p : Process) : f (p.voteTimer now) = f p := by
  simp only [Process.voteTimer]
  split <;> split <;> first | rfl | exact h.raft p _

include hb

theorem voteRequestTimer (p : Process) : f p.voteRequestTimer = f p := by
  simp only [Process.voteRequestTimer]
  split
  · exact h.raft p _
  · exact (hb ..).trans (h.raft p _)

theorem heartbeatTimer (p : Process) : f p.heartbeatTimer = f p := by
  simp only [Process.heartbeatTimer]
  split
  · exact (h.raft _ _).trans (hb ..)
  · rfl

end Blind

namespace Process

section
variable {K : Effect → Bool} (hm : ∀ i m, K (.writeMessage i m) = false)
  (hw : ∀ id b m, K (.writeClient id b m) = false)
include hm hw

omit hm in
theorem clientOpenQueue_filter (p : Process) : p.clientOpenQueue.out.filter K = p.out.filter K := by
  unfold clientOpenQueue
  split
  · exact deliverToClient_filter hw _ _
  · rw [triggerMessageDelivery_filter hw, deliverToClient_filter hw]

theorem localMessageHandler_filter (now randomId : Int) (p : Process) (msg : RaftMessage)
    (happ : isAppend (some msg) = false) :
    (p.localMessageHandler now randomId msg).out.filter K = p.out.filter K := by
  cases msg with
  | appendEntriesRequest q => cases happ
  | appendEntriesResponse q => cases happ
  | requestVoteRequest q => exact (blind_filter hm).requestVoteRequest q p
  | requestVoteResponse q => exact (blind_filter hm).requestVoteResponse q p
  | clientPutMessage m => exact (blind_filter hm).clientPutMessage randomId m p
  | clientCommitMessage id => exact (blind_filter hm).clientCommitMessage id p
  | clientOpenQueue => exact clientOpenQueue_filter hw p
  | clientOpenQueueResponse _ => rfl
  | serverSendMessage _ _ => rfl

theorem handle_filter (hb : ∀ m, K (.broadCast m) = false) (inp : Input) (p : Process) :
    (p.handle inp).out.filter K = p.out.filter K := by
  have hbc : ∀ (p : Process) m, (p.emit (.broadCast m)).out.filter K = p.out.filter K :=
    fun p m => by simp [hb]
  cases inp with
  | voteTimer now => exact (blind_filter hm).voteTimer now p
  | voteRequestTimer => exact (blind_filter hm).voteRequestTimer hbc p
  | heartbeatTimer => exact (blind_filter hm).heartbeatTimer hbc p
  | clientPutMessage randomId m => exact (blind_filter hm).clientPutMessage randomId m p
  | clientCommitMessage id => exact (blind_filter hm).clientCommitMessage id p
  | clientOpenQueue => exact clientOpenQueue_filter hw p
  | consumerDisconnected id => exact triggerMessageDelivery_filter hw _
  | _ => rfl

end

end Process

/-! ## What is applied and stored -/

def Effect.isRecord : Effect → Bool
  | .commitLogEntry .. => true
  | .storeLogEntriesAndMetadata .. => true
  | _ => false

def applyCall (log : List LogEntry) (i : Int) : Effect :=
  .commitLogEntry i (if i ≤ 0 ∨ (log.length : Int) ≤ i then none else some (entryAt log i))

def applyCalls (log : List LogEntry) (start : Int) (count : Nat) : List Effect :=
  (List.range count).map fun j : Nat => applyCall log (start + j)

theorem applyCalls_succ (log : List LogEntry) (start : Int) (count : Nat) :
    applyCalls log start (count + 1) = applyCall log start :: applyCalls log (start + 1) count := by
  rw [applyCalls, List.range_succ_eq_map, List.map_cons, List.map_map, applyCalls]
  refine congrArg₂ _ (by simp) (List.map_congr_left fun j _ => ?_)
  simp only [Function.comp_apply]
  congr 1
  push_cast
  ring

namespace RaftState

def commitRecord (r : RaftState) (target : Int) : List Effect :=
  applyCalls r.logEntries (r.commitIndex + 1) (target - r.commitIndex).toNat ++
    [.storeLogEntriesAndMetadata r.logEntries target (target + 1) target]

def commitTarget (r : RaftState) : Option RaftMessage → Option Int
  | some (.appendEntriesRequest q) =>
    if (r.curTerm ≤ q.term ∧ checkIfPreviousLogInSync q.prevLogTerm q.prevLogIndex r.logEntries = true) ∧
        r.commitIndex < q.leaderCommit ∧ q.leaderCommit < r.logEntries.length then some q.leaderCommit
    else none
  | some (.appendEntriesResponse q) => if r.commits q then some q.lastIndexSynced else none
  | _ => none

def records (r : RaftState) (msg : Option RaftMessage) : List Effect :=
  ((r.commitTarget msg).map r.commitRecord).getD []

end RaftState

theorem filterMap_records {β : Type} {g : Effect → Option β} (hg : ∀ e, e.isRecord = false → g e = none)
    {out : List Effect} {r : RaftState} {msg : Option RaftMessage}
    (h : out.filter Effect.isRecord = r.records msg) :
    out.filterMap g = (r.records msg).filterMap g := by
  rw [← h, List.filterMap_filter]
  refine List.filterMap_congr fun e _ => ?_
  split
  · rfl
  · rename_i he
    exact hg e (Bool.not_eq_true _ |>.mp he)

theorem mem_records {out : List Effect} {r : RaftState} {msg : Option RaftMessage} {e : Effect}
    (h : out.filter Effect.isRecord = r.records msg) (he : e ∈ out) (hr : e.isRecord = true) :
    ∃ t, r.commitTarget msg = some t ∧ e ∈ r.commitRecord t := by
  have hmem : e ∈ r.records msg := h ▸ List.mem_filter.mpr ⟨he, hr⟩
  unfold RaftState.records at hmem
  cases hc : r.commitTarget msg with
  | none => rw [hc] at hmem; cases hmem
  | some t => rw [hc] at hmem; exact ⟨t, rfl, hmem⟩

theorem mem_commitRecord_store {r : RaftState} {t : Int} {l : List LogEntry} {start stop m : Int}
    (h : Effect.storeLogEntriesAndMetadata l start stop m ∈ r.commitRecord t) :
    l = r.logEntries ∧ start = t ∧ stop = t + 1 ∧ m = t := by
  rcases List.mem_append.mp h with h | h
  · obtain ⟨j, -, hj⟩ := List.mem_map.mp h
    cases hj
  · simpa using h

namespace Process

theorem commitLogEntry_out (i : Int) (p : Process) :
    (p.commitLogEntry i).out = p.out ++ [applyCall p.logEntries i] := by
  unfold commitLogEntry applyCall
  split
  · rename_i h
    simp [h]
  · rename_i h
    split
    · rename_i h'
      simp [h']
    · rename_i h'
      simp [h, h']

theorem commitLoop_out : ∀ (k : Nat) (i : Int) (p : Process),
    (commitLoop k i p).out = p.out ++ applyCalls p.logEntries i k
  | 0, _, _ => by simp [commitLoop, applyCalls]
  | k + 1, i, p => by
    have hlog : (p.commitLogEntry i).logEntries = p.logEntries := by rw [commitLogEntry_raft]
    rw [commitLoop, commitLoop_out k, commitLogEntry_out, hlog, applyCalls_succ, List.append_assoc,
      List.singleton_append]

theorem applyCalls_filter (log : List LogEntry) (i : Int) (k : Nat) :
    (applyCalls log i k).filter Effect.isRecord = applyCalls log i k := by
  refine List.filter_eq_self.mpr fun e he => ?_
  obtain ⟨j, -, rfl⟩ := List.mem_map.mp he
  rfl

theorem advanceCommit_records (target : Int) (p : Process) (hout : p.out = []) :
    (p.advanceCommit target (target + 1)).out.filter Effect.isRecord = p.toRaftState.commitRecord target := by
  have hlog : (p.commitLogEntries (p.commitIndex + 1) (target + 1)).logEntries = p.logEntries := by
    rw [commitLogEntries_raft]
  have hcount : target + 1 - (p.commitIndex + 1) = target - p.commitIndex := by omega
  simp only [advanceCommit, emit_out, List.filter_append, hlog]
  rw [commitLogEntries, triggerMessageDelivery_filter (by simp [Effect.isRecord]), commitLoop_out, hout, hcount,
    List.nil_append, applyCalls_filter]
  rfl

theorem updateLeaderCommit_acceptLeader (now : Int) (q : AppendEntriesRequest) (p : Process) :
    (p.acceptLeader now q).updateLeaderCommit q.leaderCommit =
      if p.commitIndex < q.leaderCommit ∧ q.leaderCommit < (p.logEntries.length : Int) then
        (p.acceptLeader now q).advanceCommit q.leaderCommit (q.leaderCommit + 1)
      else p.acceptLeader now q := rfl

section
variable (p : Process) (hout : p.out = [])
include hout

theorem records_appendEntriesRequest (now : Int) (q : AppendEntriesRequest) :
    (p.appendEntriesRequest now q).out.filter Effect.isRecord =
      p.toRaftState.records (some (.appendEntriesRequest q)) := by
  rw [(blind_filter (by simp [Effect.isRecord])).appendEntriesRequest now q p]
  simp only [RaftState.records, RaftState.commitTarget]
  by_cases hs : p.curTerm ≤ q.term ∧
      checkIfPreviousLogInSync q.prevLogTerm q.prevLogIndex p.logEntries = true
  · rw [if_pos hs, appendLogEntries_filter (by simp [Effect.isRecord])]
    simp only [hs, true_and]
    rw [updateLeaderCommit_acceptLeader]
    split
    · exact advanceCommit_records q.leaderCommit (p.acceptLeader now q) hout
    · simp [acceptLeader, hout]
  · rw [if_neg hs, if_neg fun h => hs h.1, hout]
    rfl

theorem records_appendEntriesResponse (q : AppendEntriesResponse) :
    (p.appendEntriesResponse q).out.filter Effect.isRecord =
      p.toRaftState.records (some (.appendEntriesResponse q)) := by
  rw [(blind_filter (by simp [Effect.isRecord])).appendEntriesResponse q p]
  simp only [RaftState.records, RaftState.commitTarget]
  split
  · exact advanceCommit_records _ _ hout
  · rw [hout]
    rfl

theorem records_localMessageHandler (now randomId : Int) (msg : RaftMessage) :
    (p.localMessageHandler now randomId msg).out.filter Effect.isRecord =
      p.toRaftState.records (some msg) := by
  cases msg with
  | appendEntriesRequest q => exact records_appendEntriesRequest p hout now q
  | appendEntriesResponse q => exact records_appendEntriesResponse p hout q
  | _ =>
    rw [localMessageHandler_filter (by simp [Effect.isRecord]) (by simp [Effect.isRecord]) _ _ _ _ rfl, hout]
    rfl

theorem records_handle (inp : Input) :
    (p.handle inp).out.filter Effect.isRecord = p.toRaftState.records none := by
  rw [handle_filter (by simp [Effect.isRecord]) (by simp [Effect.isRecord]) (by simp [Effect.isRecord]), hout]
  rfl

end

end Process

end FlowMQ
