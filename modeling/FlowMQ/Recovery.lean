import FlowMQ.Commit
import FlowMQ.NodeQueue
import FlowMQ.Storage

/-!
# Restarting a node from its files

A node stores entries when it moves `commit_index_`, and the constructor takes
the entries of the file for its log and applies them all. A restart therefore
restores the committed state when every entry was stored, once and in order.
The range that is stored starts at the new `commit_index_`, so the commit index
has to move one entry at a time.
-/

namespace FlowMQ

open TextStream

namespace Process

/-- The node that the constructor makes of the files, or `none` where loading throws. -/
def restart (c : Codec) (st : ClusterNodeStorage) (garbage : Garbage) (p : Process) : Option Process :=
  (LogEntryStorage.loadLogEntryFromFile c st.logFile []).map fun loaded =>
    construct p.partitionId p.nodeId p.totalNodes p.serverNodes garbage loaded.2
      (MetadataStorage.loadMetadataFromFile st.metadataFile 0).2

structure Restores (p p' : Process) : Prop where
  log : p'.logEntries = p.logEntries.take (p.commitIndex.toNat + 1)
  index : ∀ (k : Nat) (e : LogEntry), p'.logEntries[k]? = some e → e.index = k
  commitIndex : p'.commitIndex = p.commitIndex
  messageStore : p'.messageQueue.messageStore = p.messageQueue.messageStore
  committedMessages : p'.messageQueue.committedMessages = p.messageQueue.committedMessages

/-- Storage that was empty, with `metadata` in its uninitialised buffer, and performed
`ops` and a complete flush restores the committed part of `p`. -/
def Recovers (c : Codec) (metadata : Int) (garbage : Garbage) (ops : List StorageOp) (p : Process) : Prop :=
  ∃ p', p.restart c ((ops.foldl (StorageOp.perform c) (.empty metadata)).consumeAndStoreMessages c true true)
    garbage = some p' ∧ Restores p p'

theorem restart_of_records (c : Codec) {es : List LogEntry} (hes : ∀ e ∈ es, c.Storable e) {m : Int}
    (hm : -2 ^ 31 ≤ m ∧ m < 2 ^ 31) {st : ClusterNodeStorage} (hlog : st.logFile = some (c.records es))
    (hmeta : st.metadataFile = some (decimalInt m ++ [32])) (garbage : Garbage) (p : Process) :
    p.restart c st garbage =
      some (construct p.partitionId p.nodeId p.totalNodes p.serverNodes garbage es m) := by
  rw [restart, hlog, hmeta, load_records es hes, load_metadata m 0 hm]
  rfl

section
variable (partitionId nodeId totalNodes : Int) (serverNodes : List ServerNode) (garbage : Garbage)
  (es : List LogEntry) (m : Int)

theorem construct_log :
    (construct partitionId nodeId totalNodes serverNodes garbage es m).logEntries = LogEntry.dummy :: es := by
  simp only [construct, commitLoop_raft]
  rfl

theorem construct_performs :
    Performs es .empty (construct partitionId nodeId totalNodes serverNodes garbage es m).messageQueue := by
  have h := commitLoop_performs es.length 1
    { construct partitionId nodeId totalNodes serverNodes garbage [] 0 with
      logEntries := LogEntry.dummy :: es }
  rw [entries_applyCalls _ (le_refl 1)] at h
  simpa [construct, commitLoop] using h

end

theorem restores_construct {T : Int} {p : Process} (hsh : Shaped T p.logEntries) {es : List LogEntry}
    (hes : es = (p.logEntries.drop 1).take p.commitIndex.toNat) (hq : Performs es .empty p.messageQueue)
    (garbage : Garbage) :
    Restores p (construct p.partitionId p.nodeId p.totalNodes p.serverNodes garbage es p.commitIndex) := by
  have hlog : LogEntry.dummy :: es = p.logEntries.take (p.commitIndex.toNat + 1) := by
    rw [hes, ← List.take_succ_cons, ← hsh.eq_cons]
  have hrep :=
    (construct_performs p.partitionId p.nodeId p.totalNodes p.serverNodes garbage es p.commitIndex).replica
    MessageQueue.stored_empty
  rw [← hq.replica MessageQueue.stored_empty] at hrep
  refine ⟨?_, ?_, rfl, congrArg Prod.fst hrep, congrArg Prod.snd hrep⟩
  · rw [construct_log, hlog]
  · rw [construct_log, hlog]
    exact (hsh.take (Nat.succ_pos _)).index

end Process

/-! ## What a handler stores -/

def Effect.asStore : Effect → Option StorageOp
  | .storeLogEntriesAndMetadata entries start stop metadata => some (.store entries start stop metadata)
  | _ => none

theorem asStore_of_not_record (e : Effect) (h : e.isRecord = false) : e.asStore = none := by
  cases e <;> first | rfl | cases h

theorem stores_commitRecord (r : RaftState) (t : Int) :
    (r.commitRecord t).filterMap Effect.asStore = [.store r.logEntries t (t + 1) t] := by
  have hnone : (applyCalls r.logEntries (r.commitIndex + 1) (t - r.commitIndex).toNat).filterMap
      Effect.asStore = [] := by
    refine List.filterMap_eq_nil_iff.mpr fun e he => ?_
    obtain ⟨j, -, rfl⟩ := List.mem_map.mp he
    rfl
  rw [RaftState.commitRecord, List.filterMap_append, hnone]
  rfl

theorem entries_commitRecord {r : RaftState} (hc : 0 ≤ r.commitIndex) (t : Int) :
    (r.commitRecord t).filterMap Effect.asEntry =
      (r.logEntries.drop (r.commitIndex + 1).toNat).take (t - r.commitIndex).toNat := by
  rw [RaftState.commitRecord, List.filterMap_append, entries_applyCalls _ (by omega)]
  exact List.append_nil _

theorem filterMap_snd_asApply (l : List Effect) :
    (l.filterMap Effect.asApply).filterMap Prod.snd = l.filterMap Effect.asEntry := by
  rw [List.filterMap_filterMap]
  refine List.filterMap_congr fun e _ => ?_
  cases e <;> rfl

theorem Applied.entries {log : List LogEntry} {c : Int} {a : List (Int × Option LogEntry)} (h : Applied log c a) :
    a.filterMap Prod.snd = (log.drop 1).take c.toNat := by
  rw [h.calls, List.filterMap_map, ← filterMap_getElem?]
  refine List.filterMap_congr fun k _ => ?_
  rw [Function.comp_apply, List.getElem?_drop, Nat.add_comm]

namespace StorageOp

theorem entries_append (ops ops' : List StorageOp) : entries (ops ++ ops') = entries ops ++ entries ops' :=
  List.flatMap_append ..

theorem metadata_append (m : Int) (ops ops' : List StorageOp) :
    metadata m (ops ++ ops') = metadata (metadata m ops) ops' := List.foldl_append ..

theorem filter_isStore (ops : List StorageOp) (m : Int) :
    entries (ops.filter isStore) = entries ops ∧ metadata m (ops.filter isStore) = metadata m ops := by
  induction ops generalizing m with
  | nil => exact ⟨rfl, rfl⟩
  | cons op ops ih =>
    cases op with
    | store l a b m' =>
      obtain ⟨h₁, h₂⟩ := ih m'
      exact ⟨congrArg (logRange l a b ++ ·) h₁, h₂⟩
    | flush => exact ih m

end StorageOp

/-- A message that moves the commit index moves it to the next entry, inside the log, and replaces no
committed entry. -/
def StoresAll (r : RaftState) (m : RaftMessage) : Prop :=
  SafeCommit r m ∧ ∀ t ∈ r.commitTarget (some m), t = r.commitIndex + 1

instance (r : RaftState) (m : RaftMessage) : Decidable (StoresAll r m) := inferInstanceAs (Decidable (_ ∧ _))

/-! ## Runs -/

namespace Cluster

variable {n : Nat}

def stores (s : Cluster n) (i : Fin n) : List StorageOp :=
  s.history.filterMap fun x => if x.1 = i then x.2.asStore else none

structure Recorded (s : Cluster n) : Prop where
  queue : ∀ i, Performs ((s.applied i).filterMap Prod.snd) .empty (s.procs i).messageQueue
  entries : ∀ i, StorageOp.entries (s.stores i) = (s.applied i).filterMap Prod.snd
  metadata : ∀ i m, StorageOp.metadata m (s.stores i) =
    if (s.raft i).commitIndex = 0 then m else (s.raft i).commitIndex

theorem recorded_starts {s : Cluster n} (h : Starts s) : Recorded s := by
  obtain ⟨partitionId, serverNodes, garbage, rfl⟩ := h
  refine ⟨fun i => ?_, fun i => rfl, fun i m => ?_⟩
  · exact Process.construct_performs partitionId i.val n serverNodes (garbage i) [] 0
  · rw [raft_init]
    rfl

theorem Recorded.acts {s s' : Cluster n} {i : Fin n} {msg : Option RaftMessage} {net : List (Packet n)}
    (hc : ∀ i, 0 ≤ (s.raft i).commitIndex) (h : Recorded s) (ha : Acts s i msg net s')
    (hothers : ∀ j, j ≠ i → s'.procs j = s.procs j)
    (hqueue : Performs (((s.raft i).records msg).filterMap Effect.asEntry) (s.procs i).messageQueue
      (s'.procs i).messageQueue)
    (hnext : ∀ t ∈ (s.raft i).commitTarget msg, t = (s.raft i).commitIndex + 1) : Recorded s' := by
  have happ : (s'.applied i).filterMap Prod.snd =
      (s.applied i).filterMap Prod.snd ++ ((s.raft i).records msg).filterMap Effect.asEntry := by
    rw [ha.applied_self, List.filterMap_append, filterMap_snd_asApply]
  have hst : s'.stores i = s.stores i ++ ((s.raft i).records msg).filterMap Effect.asStore := by
    rw [← filterMap_records asStore_of_not_record ha.records]
    exact (filterMap_history _ ha.history i).trans (by rw [if_pos rfl]; rfl)
  have hst' : ∀ j, j ≠ i → s'.stores j = s.stores j := fun j hj =>
    (filterMap_history _ ha.history j).trans (by rw [if_neg hj.symm, List.append_nil]; rfl)
  -- what the handler stores is what it applies
  have hrec : StorageOp.entries (((s.raft i).records msg).filterMap Effect.asStore) =
        ((s.raft i).records msg).filterMap Effect.asEntry ∧
      ∀ m, StorageOp.metadata m (((s.raft i).records msg).filterMap Effect.asStore) =
        ((s.raft i).commitTarget msg).getD m := by
    unfold RaftState.records
    cases ht : (s.raft i).commitTarget msg with
    | none => exact ⟨rfl, fun m => rfl⟩
    | some t =>
      obtain rfl := hnext t ht
      simp only [Option.map_some, Option.getD_some, stores_commitRecord, entries_commitRecord (hc i)]
      refine ⟨?_, fun m => rfl⟩
      simp [StorageOp.entries, logRange]
  refine ⟨fun j => ?_, fun j => ?_, fun j m => ?_⟩
  · by_cases hj : j = i
    · subst hj
      rw [happ]
      exact (h.queue j).trans hqueue
    · rw [ha.applied_other hj, hothers j hj]
      exact h.queue j
  · by_cases hj : j = i
    · subst hj
      rw [happ, hst, StorageOp.entries_append, h.entries, hrec.1]
    · rw [ha.applied_other hj, hst' j hj]
      exact h.entries j
  · by_cases hj : j = i
    · subst hj
      rw [hst, StorageOp.metadata_append, h.metadata, hrec.2, ha.trans.commitIndex]
      cases ht : (s.raft j).commitTarget msg with
      | none => rfl
      | some t =>
        have := hc j
        have := lt_of_commitTarget ht
        rw [Option.getD_some, Option.getD_some, if_neg (by omega)]
    · rw [hst' j hj, ha.others j hj]
      exact h.metadata j m

theorem recorded_step {c : Channel} {s s' : Cluster n} {e : Event n} (hp : Permanent s) (h : Recorded s)
    (hG : onMessage StoresAll s e) (hs : s.step c e = some s') : Recorded s' := by
  have hc := fun i => (hp.applied i).nonneg
  cases step_spec hs with
  | lose hl => exact ⟨h.queue, h.entries, h.metadata⟩
  | @input i inp ha =>
    refine h.acts hc ha (fun j hj => Function.update_of_ne hj _ _) ?_ fun t ht => by cases ht
    simp only [act, Function.update_self]
    exact Process.handle_performs inp (s.procs i).clear
  | @message _ k now pk net he hk hl ha =>
    refine h.acts hc ha (fun j hj => Function.update_of_ne hj _ _) ?_ ?_
    · simp only [act, Function.update_self]
      exact Process.localMessageHandler_performs now 0 pk.msg (s.procs pk.dst).clear
    · rcases he with rfl | rfl <;> exact (hG pk hk).2

theorem recorded_of_storesAll {c : Channel} {s : Cluster n} (h : Reachable c (onMessage StoresAll) s) :
    Permanent s ∧ Recorded s := by
  refine reachable_induct (P := fun s => Permanent s ∧ Recorded s)
    (fun _ hs => ⟨permanent_starts hs, recorded_starts hs⟩) (fun s e s' hr ih hG hs => ⟨?_, ?_⟩) h
  · exact (permanent_step (wellFormed_reachable hr) ih.1 hs).mpr (onMessage_mono (fun _ _ h => h.1) s e hG)
  · exact recorded_step ih.1 ih.2 hG hs

/-- A restart restores the committed state in every run whose messages move commit indices one entry at a
time, whenever the storage thread flushes, once something is committed or if the metadata buffer happened to
be 0. -/
theorem recovers_of_storesAll {ch : Channel} {s : Cluster n} (h : Reachable ch (onMessage StoresAll) s) (i : Fin n)
    (c : Codec) (hsize : ∀ e ∈ (s.raft i).logEntries, c.Storable e)
    (hint : (s.raft i).commitIndex < 2 ^ 31) (ops : List StorageOp)
    (hops : ops.filter StorageOp.isStore = s.stores i) (m : Int) (hm : 1 ≤ (s.raft i).commitIndex ∨ m = 0)
    (garbage : Process.Garbage) :
    Process.Recovers c m garbage ops (s.procs i) := by
  obtain ⟨hp, hr⟩ := recorded_of_storesAll h
  have hc := (hp.applied i).nonneg
  have hes : StorageOp.entries ops = ((s.raft i).logEntries.drop 1).take (s.raft i).commitIndex.toNat := by
    rw [← (StorageOp.filter_isStore ops m).1, hops, hr.entries, (hp.applied i).entries]
  have hmeta : StorageOp.metadata m ops = (s.raft i).commitIndex := by
    rw [← (StorageOp.filter_isStore ops m).2, hops, hr.metadata]
    split <;> omega
  have hqueue : Performs (StorageOp.entries ops) .empty (s.procs i).messageQueue := by
    rw [hes, ← (hp.applied i).entries]
    exact hr.queue i
  obtain ⟨hfile, hmfile⟩ := storage_flushed c ops m
  rw [hmeta] at hmfile
  refine ⟨_, Process.restart_of_records c ?_ ⟨by omega, hint⟩ hfile hmfile garbage _, ?_⟩
  · intro e he
    rw [hes] at he
    exact hsize e (List.mem_of_mem_drop (List.mem_of_mem_take he))
  · exact Process.restores_construct ((wellFormed_reachable h).logs i) hes hqueue garbage

def twoPuts : List (Event 3) :=
  electZero ++ [.input 0 (.clientPutMessage 7 (toBytes "a")), .input 0 (.clientPutMessage 8 (toBytes "b")),
    .deliver 1 2, .deliver 4 3, .deliver 2 4, .deliver 3 5, .deliver 3 6, .deliver 3 6]

theorem recovers_twoPuts :
    ∃ s : Cluster 3, Reachable .fifo (onMessage StoresAll) s ∧ (s.raft 0).commitIndex = 2 ∧
    Process.Recovers .proto 5 ⟨0, 0⟩ (s.stores 0 ++ [.flush]) (s.procs 0) := by
  obtain ⟨s, hr, hci, hsize, hlen⟩ := exists_reachable (c := .fifo) (G := onMessage StoresAll) twoPuts
    (fun s => (s.raft 0).commitIndex = 2 ∧
      (∀ e ∈ (s.raft 0).logEntries, Codec.proto.Storable e) ∧
      (s.stores 0).all StorageOp.isStore = true) (by decide +kernel)
  have hops : (s.stores 0 ++ [StorageOp.flush]).filter StorageOp.isStore = s.stores 0 := by
    rw [List.filter_append, List.filter_eq_self.mpr (List.all_eq_true.mp hlen)]
    exact List.append_nil _
  exact ⟨s, hr, hci, recovers_of_storesAll hr 0 .proto hsize (by omega) _ hops 5 (by omega) ⟨0, 0⟩⟩

/-- Node 2 hears of the two messages later. The request that brings the second one says that both are
committed, and its repetition makes node 2 commit both at once. -/
def slowFollower : List (Event 3) :=
  twoPuts ++ [.deliver 0 7, .deliver 0 7, .deliver 0 7, .deliver 1 8, .deliver 1 8, .deliver 1 8, .deliver 1 9,
    .deliver 1 9]

/-- The restarted node 2 has commit index 2, and the second message at index 1 of a log that ends there. -/
theorem not_recovers_slowFollower : ∃ s : Cluster 3, Reachable .fifo Free s ∧ (s.raft 2).commitIndex = 2 ∧
    (∀ e ∈ (s.raft 2).logEntries, Codec.proto.Storable e) ∧
    ¬ Process.Recovers .proto 0 ⟨0, 0⟩ (s.stores 2) (s.procs 2) := by
  obtain ⟨s, hr, hci, hsize, hlen, hlost⟩ := exists_reachable (c := .fifo) (G := Free) slowFollower
    (fun s => (s.raft 2).commitIndex = 2 ∧
      (∀ e ∈ (s.raft 2).logEntries, Codec.proto.Storable e) ∧
      (s.raft 2).logEntries.length = 3 ∧
      ((s.procs 2).restart .proto
        (((s.stores 2).foldl (StorageOp.perform .proto) (.empty 0)).consumeAndStoreMessages .proto true true)
        ⟨0, 0⟩).any (fun p => p.logEntries.length = 2 ∧ p.commitIndex = 2) = true) (by decide +kernel)
  refine ⟨s, hr, hci, hsize, fun ⟨p, hp, hres⟩ => ?_⟩
  rw [hp] at hlost
  have hlen' : p.logEntries.length = 2 := (of_decide_eq_true hlost).1
  have htake : p.logEntries.length = min ((s.raft 2).commitIndex.toNat + 1) (s.raft 2).logEntries.length := by
    rw [hres.log, List.length_take]
    rfl
  rw [hci, hlen, hlen'] at htake
  cases htake

end Cluster

end FlowMQ
