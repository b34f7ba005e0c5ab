import FlowMQ.Origin
import FlowMQ.Restarts
import FlowMQ.StorageThread

/-!
# No message out of nothing

Whatever a node writes to a client, keeps in its store or counts as committed
goes back to something a client has asked for before: through the logs and
requests of the nodes it came by, and the files of nodes that were restarted. A
server that ends inside a record of its log file is the exception: the record is
read with what the one before it has left in the buffer.
-/

namespace FlowMQ

/-! ## Clusters -/

namespace Cluster

variable {n : Nat}

structure From (K : LogEntry → Prop) (s : Cluster n) : Prop where
  raft : ∀ i, (s.raft i).From K
  queue : ∀ i, (s.procs i).messageQueue.From K
  net : ∀ pk ∈ s.net, pk.msg.From K
  history : ∀ x ∈ s.history, ∀ id text, x.2.served = some (id, text) → AddedBy K id text

section
variable {K K' : LogEntry → Prop} {s s' : Cluster n}

theorem From.mono (hK : ∀ e, K e → K' e) (h : s.From K) : s.From K' where
  raft := fun i => (h.raft i).mono hK
  queue := fun i => (h.queue i).mono hK
  net := fun pk hpk => (h.net pk hpk).mono hK
  history := fun x hx id text hs => (h.history x hx id text hs).mono hK

theorem from_starts (h : Starts s) : s.From K := by
  obtain ⟨partitionId, serverNodes, garbage, rfl⟩ := h
  refine ⟨fun i => ?_, fun i => ?_, List.forall_mem_nil _, List.forall_mem_nil _⟩
  · rw [raft_init]
    exact ⟨⟨[], rfl, List.forall_mem_nil K⟩, le_rfl⟩
  · exact MessageQueue.From.empty.performs (List.forall_mem_nil K)
      (Process.construct_performs partitionId i.val n serverNodes (garbage i) [] 0)

theorem From.act (hK : ∀ e, K e → 0 ≤ e.index) (h : s.From K) {i : Fin n} {msg : Option RaftMessage}
    {f : Process → Process} {net : List (Packet n)} (ha : Acts s i msg net (s.act i f net))
    (hnet : ∀ pk ∈ net, pk ∈ s.net) (hraft : (f (s.procs i).clear).toRaftState.From K)
    (hqueue : (f (s.procs i).clear).messageQueue.From K)
    (hserved : ∀ x ∈ (f (s.procs i).clear).served, AddedBy K x.1 x.2) : (s.act i f net).From K := by
  have hself : (s.act i f net).procs i = f (s.procs i).clear := Function.update_self ..
  have hraft' : ((s.act i f net).raft i).From K := by
    rw [Cluster.raft, hself]
    exact hraft
  refine ⟨ha.forall_raft (P := fun _ r => r.From K) h.raft hraft', fun j => ?_, fun pk hpk => ?_, ?_⟩
  · by_cases hj : j = i
    · subst hj
      rw [hself]
      exact hqueue
    · rw [show (s.act i f net).procs j = s.procs j from Function.update_of_ne hj _ _]
      exact h.queue j
  · rcases ha.mem_net hnet hpk with hold | hnew
    · exact h.net pk hold
    · exact ha.trans.sends_from hK hraft'.log (carries_of_mem hnew)
  · intro x hx id text hs
    rcases List.mem_append.mp hx with hx | hx
    · exact h.history x hx id text hs
    · obtain ⟨e, he, rfl⟩ := List.mem_map.mp hx
      exact hserved (id, text) (List.mem_filterMap.mpr ⟨e, he, hs⟩)

theorem From.step {c : Channel} (hK : ∀ e, K e → 0 ≤ e.index) (h : s.From K) {e : Event n}
    (he : ∀ x, e.creates x → 0 ≤ x.index → K x) (hs : s.step c e = some s') : s'.From K := by
  cases step_spec hs with
  | lose hn => exact ⟨h.raft, h.queue, fun pk hpk => h.net pk (mem_of_split hn pk hpk), h.history⟩
  | @input i inp ha =>
    refine h.act hK ha (fun _ h => h) ?_ ?_ ?_
    · exact RaftState.From.handle (p := (s.procs i).clear) (h.raft i) he
    · exact (h.queue i).performs (List.forall_mem_nil K) (Process.handle_performs inp (s.procs i).clear)
    · intro x hx
      exact (Process.handle_served (p := (s.procs i).clear) (h.queue i) inp x hx).resolve_left List.not_mem_nil
  | @message _ _ now pk net _ _ hl ha =>
    have hes := ((h.raft pk.dst).records (some pk.msg)).1
    refine h.act hK ha hl.subset.2 ?_ ?_ ?_
    · exact RaftState.From.localMessageHandler (p := (s.procs pk.dst).clear) (h.raft pk.dst) rfl now 0
        (h.net pk hl.subset.1)
    · exact (h.queue pk.dst).performs hes
        (Process.localMessageHandler_performs now 0 pk.msg (s.procs pk.dst).clear)
    · intro x hx
      exact (Process.localMessageHandler_served (p := (s.procs pk.dst).clear) (h.queue pk.dst) now 0 pk.msg hes
        x hx).resolve_left List.not_mem_nil

end

end Cluster

/-! ## Deployments -/

theorem foldl_perform_stores (k : Codec) (ops : List StorageOp) (hops : ∀ op ∈ ops, op.isStore = true)
    (st : ClusterNodeStorage) :
    (ops.foldl (StorageOp.perform k) st).logFile = st.logFile ∧
      (ops.foldl (StorageOp.perform k) st).logEntryBuffers = st.logEntryBuffers ++ StorageOp.entries ops := by
  induction ops generalizing st with
  | nil => exact ⟨rfl, (List.append_nil _).symm⟩
  | cons op ops ih =>
    obtain ⟨hfile, hbuf⟩ :=
      ih (fun op' hop' => hops op' (List.mem_cons_of_mem op hop')) (StorageOp.perform k st op)
    rw [List.foldl_cons, hfile, hbuf]
    cases op with
    | store l start stop m => exact ⟨rfl, List.append_assoc ..⟩
    | flush => cases hops .flush List.mem_cons_self

namespace Deployment

variable {n : Nat}

structure StorageFrom (K : LogEntry → Prop) (k : Codec) (st : ClusterNodeStorage) : Prop where
  buffers : ∀ e ∈ st.logEntryBuffers, K e ∧ k.Storable e
  file : ∃ es, st.logFile.getD [] = k.records es ∧ ∀ e ∈ es, K e ∧ k.Storable e

/-- The entries of the logs fit into a record, and no node starts with a negative commit index. -/
def Clean (k : Codec) (s : Deployment n) : Incident n → Prop
  | .event _ => ∀ i, ∀ e ∈ (s.procs i).logEntries, k.Storable e
  | .flush _ _ _ => True
  | .restart i _ _ => 0 ≤ (MetadataStorage.loadMetadataFromFile (s.storage i).metadataFile 0).2

def creates : Incident n → LogEntry → Prop
  | .event e, x => e.creates x
  | _, _ => False

structure From (K : LogEntry → Prop) (k : Codec) (s : Deployment n) : Prop where
  cluster : s.toCluster.From K
  storage : ∀ i, StorageFrom K k (s.storage i)

theorem StorageFrom.mono {K K' : LogEntry → Prop} (hK : ∀ e, K e → K' e) {k : Codec} {st : ClusterNodeStorage}
    (h : StorageFrom K k st) : StorageFrom K' k st := by
  obtain ⟨es, hfile, hes⟩ := h.file
  exact ⟨fun e he => (h.buffers e he).imp_left (hK e), es, hfile, fun e he => (hes e he).imp_left (hK e)⟩

theorem From.mono {K K' : LogEntry → Prop} (hK : ∀ e, K e → K' e) {k : Codec} {s : Deployment n} (h : From K k s) :
    From K' k s :=
  ⟨h.cluster.mono hK, fun i => (h.storage i).mono hK⟩

theorem from_starts {K : LogEntry → Prop} {k : Codec} {s : Deployment n} (h : Starts s) : From K k s := by
  refine ⟨Cluster.from_starts h.cluster, fun i => ?_⟩
  obtain ⟨m, hm⟩ := h.storage i
  rw [hm]
  exact ⟨List.forall_mem_nil _, [], rfl, List.forall_mem_nil _⟩

section
variable {K : LogEntry → Prop} {k : Codec} {s : Deployment n}

theorem StorageFrom.flush {st : ClusterNodeStorage} (h : StorageFrom K k st) (logOpen metadataOpen : Bool) :
    StorageFrom K k (st.consumeAndStoreMessages k logOpen metadataOpen) := by
  obtain ⟨es, hfile, hes⟩ := h.file
  refine ⟨List.forall_mem_nil _, ?_⟩
  cases logOpen with
  | false => exact ⟨es, hfile, hes⟩
  | true =>
    refine ⟨es ++ st.logEntryBuffers, ?_, fun e he => ?_⟩
    · simp only [ClusterNodeStorage.consumeAndStoreMessages, LogEntryStorage.appendLogEntryToFile, records_append]
      simp [hfile]
    · rcases List.mem_append.mp he with he | he
      · exact hes e he
      · exact h.buffers e he

theorem From.update (h : From K k s) (i : Fin n) {st : ClusterNodeStorage} (hst : StorageFrom K k st) :
    ∀ j, StorageFrom K k (Function.update s.storage i st j) :=
  (Function.forall_update_iff s.storage fun _ st => StorageFrom K k st).mpr ⟨hst, fun j _ => h.storage j⟩

theorem From.restarted (h : From K k s) {i : Fin n} {garbage : Process.Garbage} {p : Process}
    (hp : (s.procs i).restart k (s.storage i) garbage = some p)
    (hc : 0 ≤ (MetadataStorage.loadMetadataFromFile (s.storage i).metadataFile 0).2) :
    p.toRaftState.From K ∧ p.messageQueue.From K := by
  obtain ⟨loaded, hload, rfl⟩ := Option.map_eq_some_iff.mp hp
  obtain ⟨es, hfile, hes⟩ := (h.storage i).file
  have hloaded := entries_of_records (s.storage i).logFile hfile (fun e he => (hes e he).2) []
  rw [hload] at hloaded
  obtain rfl : loaded.2 = es := by simpa using hloaded
  refine ⟨⟨⟨loaded.2, Process.construct_log .., fun e he => (hes e he).1⟩, hc⟩, ?_⟩
  exact MessageQueue.From.empty.performs (fun e he => (hes e he).1) (Process.construct_performs ..)

theorem stored_act {s : Cluster n} {i : Fin n} {f : Process → Process} {net : List (Packet n)} (j : Fin n) :
    stored s (s.act i f net) j = if j = i then (f (s.procs i).clear).out.filterMap Effect.asStore else [] := by
  simp only [stored, Cluster.act, List.drop_left, List.filterMap_map]
  by_cases hj : j = i
  · subst hj
    simp
  · simp [hj, Ne.symm hj]

theorem StorageFrom.stores {st : ClusterNodeStorage} (h : StorageFrom K k st) {r : RaftState} (hr : r.From K)
    (hsize : ∀ e ∈ r.logEntries, k.Storable e) (msg : Option RaftMessage) :
    StorageFrom K k (((r.records msg).filterMap Effect.asStore).foldl (StorageOp.perform k) st) := by
  have hops := (hr.records msg).2
  generalize (r.records msg).filterMap Effect.asStore = ops at hops
  have hstore : ∀ op ∈ ops, op.isStore = true := fun op hop => by
    obtain ⟨t, -, rfl⟩ := hops op hop
    rfl
  obtain ⟨hfile, hbuf⟩ := foldl_perform_stores k ops hstore st
  refine ⟨fun e he => ?_, ?_⟩
  · rw [hbuf] at he
    rcases List.mem_append.mp he with he | he
    · exact h.buffers e he
    · obtain ⟨op, hop, he⟩ := List.mem_flatMap.mp he
      obtain ⟨t, hpos, rfl⟩ := hops op hop
      exact ⟨hr.log.logRange hpos e he, hsize e (List.mem_of_mem_drop (List.mem_of_mem_take he))⟩
  · rw [hfile]
    exact h.file

theorem From.step {c : Channel} {s' : Deployment n} (hK : ∀ e, K e → 0 ≤ e.index) (h : From K k s) {e : Incident n}
    (he : ∀ x, creates e x → 0 ≤ x.index → K x) (hclean : Clean k s e) (hs : s.step k c e = some s') :
    From K k s' := by
  cases e with
  | event e =>
    obtain ⟨s₁, hs₁, rfl⟩ := Option.map_eq_some_iff.mp hs
    refine ⟨h.cluster.step hK he hs₁, fun j => ?_⟩
    have hact : ∀ {i : Fin n} {f : Process → Process} {net : List (Packet n)} {msg : Option RaftMessage},
        Cluster.Acts s.toCluster i msg net (s.toCluster.act i f net) →
        StorageFrom K k
        ((stored s.toCluster (s.toCluster.act i f net) j).foldl (StorageOp.perform k) (s.storage j)) := by
      intro i f net msg ha
      rw [stored_act]
      split
      · rename_i hj
        subst hj
        have hrec := ha.records
        simp only [Cluster.act, Function.update_self] at hrec
        rw [filterMap_records asStore_of_not_record hrec]
        exact (h.storage j).stores (h.cluster.raft j) (hclean j) msg
      · exact h.storage j
    cases Cluster.step_spec hs₁ with
    | lose => simpa [stored] using h.storage j
    | input ha => exact hact ha
    | message _ _ _ ha => exact hact ha
  | flush i logOpen metadataOpen =>
    cases hs
    exact ⟨h.cluster, h.update i ((h.storage i).flush logOpen metadataOpen)⟩
  | restart i garbage metadataBuffer =>
    obtain ⟨p, hp, rfl⟩ := Option.map_eq_some_iff.mp hs
    obtain ⟨hraft, hqueue⟩ := h.restarted hp hclean
    refine ⟨⟨fun j => ?_, fun j => ?_, h.cluster.net, h.cluster.history⟩,
      h.update i ⟨List.forall_mem_nil _, (h.storage i).file⟩⟩
    · by_cases hj : j = i
      · subst hj
        rw [raft_replace_self]
        exact hraft
      · rw [raft_replace_of_ne _ hj]
        exact h.cluster.raft j
    · by_cases hj : j = i
      · subst hj
        simpa [Cluster.replace] using hqueue
      · simpa [Cluster.replace, Function.update_of_ne hj] using h.cluster.queue j

end

/-! ## Servers that end while the thread writes -/

end Deployment

/-- How far the round of the storage thread had come in which a server ended. -/
inductive Torn where
  | log (written : Nat)
  | metadata (logOpen : Bool) (written : Nat)

namespace ClusterNodeStorage

def tear (k : Codec) (st : ClusterNodeStorage) : Torn → ClusterNodeStorage
  | .log written => { st with logFile := LogEntryStorage.tornAppend k written st.logEntryBuffers st.logFile }
  | .metadata logOpen written =>
    { st with
      logFile := (LogEntryStorage.appendLogEntryToFile k logOpen st.logEntryBuffers st.logFile).2
      metadataFile := some ((TextStream.decimalInt st.metadataBuffer ++ [32]).take written) }

def WholeRecords (k : Codec) (st : ClusterNodeStorage) : Torn → Prop
  | .log written => LogEntryStorage.BetweenRecords k st.logEntryBuffers written
  | .metadata _ _ => True

instance (k : Codec) (st : ClusterNodeStorage) : (torn : Torn) → Decidable (st.WholeRecords k torn)
  | .log written => inferInstanceAs (Decidable (LogEntryStorage.BetweenRecords k st.logEntryBuffers written))
  | .metadata _ _ => inferInstanceAs (Decidable True)

end ClusterNodeStorage

/-- The range is in the log, as `std::vector::insert` needs it. -/
def StorageOp.InRange : StorageOp → Prop
  | .store entries start stop _ => 0 ≤ start ∧ start < stop ∧ stop ≤ entries.length
  | .flush => True

instance : (op : StorageOp) → Decidable op.InRange
  | .store .. => inferInstanceAs (Decidable (_ ∧ _))
  | .flush => inferInstanceAs (Decidable True)

inductive Outage (n : Nat) where
  | incident (e : Incident n)
  | crash (i : Fin n) (torn : Torn) (garbage : Process.Garbage) (metadataBuffer : Int)

instance (n : Nat) : Inhabited (Outage n) := ⟨.incident default⟩

namespace Deployment

variable {n : Nat}

def InRange (c : Channel) (s : Deployment n) : Incident n → Prop
  | .event e => ∀ s' ∈ s.toCluster.step c e, ∀ i, ∀ op ∈ stored s.toCluster s' i, op.InRange
  | _ => True

instance (c : Channel) (s : Deployment n) : (e : Incident n) → Decidable (InRange c s e)
  | .event e =>
    inferInstanceAs (Decidable (∀ s' ∈ s.toCluster.step c e, ∀ i, ∀ op ∈ stored s.toCluster s' i, op.InRange))
  | .flush .. => inferInstanceAs (Decidable True)
  | .restart .. => inferInstanceAs (Decidable True)

def tear (k : Codec) (s : Deployment n) (i : Fin n) (torn : Torn) : Deployment n :=
  { s with storage := Function.update s.storage i ((s.storage i).tear k torn) }

/-- Nothing is said of a run once a range is stored that the log does not have. -/
def outage (k : Codec) (c : Channel) (s : Deployment n) : Outage n → Option (Deployment n)
  | .incident e => Runs.guarded (InRange c) (step k c) s e
  | .crash i torn garbage metadataBuffer => (s.tear k i torn).step k c (.restart i garbage metadataBuffer)

abbrev Outages (n : Nat) (k : Codec) (c : Channel) : Type := Runs.Run (S := Deployment n) Starts (outage k c)

def Whole (k : Codec) (s : Deployment n) : Outage n → Prop
  | .incident e => Clean k s e
  | .crash i torn garbage metadataBuffer =>
    (s.storage i).WholeRecords k torn ∧ Clean k (s.tear k i torn) (.restart i garbage metadataBuffer)

section
variable {K : LogEntry → Prop} {k : Codec} {s s' : Deployment n}

theorem StorageFrom.tear {st : ClusterNodeStorage} (h : StorageFrom K k st) {torn : Torn}
    (hw : st.WholeRecords k torn) :
    StorageFrom K k (st.tear k torn) := by
  cases torn with
  | log written =>
    obtain ⟨es, hfile, hes⟩ := h.file
    obtain ⟨j, hj⟩ := LogEntryStorage.BetweenRecords.tornAppend hw hfile
    refine ⟨h.buffers, es ++ st.logEntryBuffers.take j, hj, fun e he => ?_⟩
    rcases List.mem_append.mp he with he | he
    · exact hes e he
    · exact h.buffers e (List.mem_of_mem_take he)
  | metadata logOpen written => exact ⟨h.buffers, (h.flush logOpen true).file⟩

theorem From.tear (h : From K k s) {i : Fin n} {torn : Torn} (hw : (s.storage i).WholeRecords k torn) :
    From K k (s.tear k i torn) :=
  ⟨h.cluster, h.update i ((h.storage i).tear hw)⟩

def outageCreates : Outage n → LogEntry → Prop
  | .incident e, x => creates e x
  | .crash .., _ => False

theorem From.outage {c : Channel} (hK : ∀ e, K e → 0 ≤ e.index) (h : From K k s) {e : Outage n}
    (he : ∀ x, outageCreates e x → 0 ≤ x.index → K x) (hw : Whole k s e) (hs : s.outage k c e = some s') :
    From K k s' := by
  cases e with
  | incident e =>
    simp only [Deployment.outage, Runs.guarded] at hs
    split at hs
    · exact h.step hK he hw hs
    · cases hs
  | crash i torn garbage metadataBuffer =>
    exact (h.tear hw.1).step (c := c) (e := .restart i garbage metadataBuffer) hK (fun _ hx => False.elim hx)
      hw.2 hs

end

/-! ## Runs -/

section
variable {k : Codec} {c : Channel} (r : Outages n k c) (m : Nat)

def Origin (e : LogEntry) : Prop := 0 ≤ e.index ∧ ∃ j < m, outageCreates (r.events j) e

def PutBefore (id : Int) (text : Bytes) : Prop :=
  ∃ j < m, ∃ i, r.events j = .incident (.event (.input i (.clientPutMessage id text)))

def CommitBefore (id : Int) : Prop :=
  ∃ j < m, ∃ i, r.events j = .incident (.event (.input i (.clientCommitMessage id)))

end

theorem from_run {k : Codec} {c : Channel} (r : Outages n k c) (hr : r.Always (Whole k)) :
    ∀ m ≤ r.length, From (Origin r m) k (r.states m) := by
  refine r.induct (from_starts r.starts) fun m hm ih => ?_
  have hmono : ∀ e, Origin r m e → Origin r (m + 1) e := by
    rintro e ⟨hi, j, hj, he⟩
    exact ⟨hi, j, Nat.lt_succ_of_lt hj, he⟩
  exact (ih.mono hmono).outage (fun e he => he.1) (fun x hx hi => ⟨hi, m, Nat.lt_succ_self m, hx⟩) (hr m hm)
    (r.steps m hm)

theorem creates_inv {e : Outage n} {x : LogEntry} (h : outageCreates e x) :
    (∃ i, e = .incident (.event (.input i (.clientPutMessage x.messageId x.message))) ∧
      x.operation = LogEntry.ADD) ∨
      ∃ i, e = .incident (.event (.input i (.clientCommitMessage x.messageId))) ∧
      x.operation = LogEntry.COMMIT := by
  match e, h with
  | .incident (.event (.input i (.clientPutMessage id text))), ⟨h₁, h₂, h₃⟩ =>
    subst h₂ h₃
    exact Or.inl ⟨i, rfl, h₁⟩
  | .incident (.event (.input i (.clientCommitMessage id))), ⟨h₁, h₂, _⟩ =>
    subst h₂
    exact Or.inr ⟨i, rfl, h₁⟩

section
variable {k : Codec} {c : Channel} {r : Outages n k c} {m : Nat} {id : Int}

theorem putBefore_of_addedBy {text : Bytes} (h : AddedBy (Origin r m) id text) : PutBefore r m id text := by
  obtain ⟨e, ⟨-, j, hj, he⟩, hadd, rfl, rfl⟩ := h
  rcases creates_inv he with ⟨i, hi, -⟩ | ⟨i, -, hc⟩
  · exact ⟨j, hj, i, hi⟩
  · exact absurd (hadd.symm.trans hc) (by decide)

theorem commitBefore_of_consumedBy (h : ConsumedBy (Origin r m) id) : CommitBefore r m id := by
  obtain ⟨e, ⟨-, j, hj, he⟩, hc, rfl⟩ := h
  rcases creates_inv he with ⟨i, -, hadd⟩ | ⟨i, hi, -⟩
  · exact absurd (hadd.symm.trans hc) (by decide)
  · exact ⟨j, hj, i, hi⟩

end

/-- Every message a node writes to a client or keeps was put by a client before, with this id and text, and
every message it counts as committed was committed by a client: over any links, and across crashes that tear
no record. -/
theorem messages_from_clients {k : Codec} {c : Channel} (r : Outages n k c)
    (hr : r.Always (Whole k)) {m : Nat} (hm : m ≤ r.length) (i : Fin n) :
    (∀ clientId session id text,
      (i, .writeClient clientId session (.serverSendMessage id text)) ∈ (r.states m).history →
      PutBefore r m id text) ∧
    (∀ id text, ((r.states m).procs i).messageQueue.messageStore[id]? = some text → PutBefore r m id text) ∧
    (∀ id ∈ ((r.states m).procs i).messageQueue.committedMessages, CommitBefore r m id) := by
  obtain ⟨hcluster, -⟩ := from_run r hr m hm
  refine ⟨fun clientId session id text h => ?_, fun id text h => ?_, fun id h => ?_⟩
  · exact putBefore_of_addedBy (hcluster.history _ h id text rfl)
  · exact putBefore_of_addedBy ((hcluster.queue i).texts id text h)
  · exact commitBefore_of_consumedBy ((hcluster.queue i).committed id h)

instance (k : Codec) (s : Deployment n) : (e : Incident n) → Decidable (Clean k s e)
  | .event _ => inferInstanceAs (Decidable (∀ i, ∀ e ∈ (s.procs i).logEntries, k.Storable e))
  | .flush _ _ _ => inferInstanceAs (Decidable True)
  | .restart i _ _ =>
    inferInstanceAs (Decidable (0 ≤ (MetadataStorage.loadMetadataFromFile (s.storage i).metadataFile 0).2))

instance (k : Codec) (s : Deployment n) : (e : Outage n) → Decidable (Whole k s e)
  | .incident e => inferInstanceAs (Decidable (Clean k s e))
  | .crash i torn garbage metadataBuffer => inferInstanceAs (Decidable ((s.storage i).WholeRecords k torn ∧
      Clean k (s.tear k i torn) (.restart i garbage metadataBuffer)))

/-- Client 5 is sent two messages by node 0, whose server ends while the thread appends their records. -/
def servedThenCrashed (written : Nat) : List (Outage 3) :=
  let events : List (Event 3) := Cluster.electZero ++
    [.input 0 (.acceptNewConnection 5), .input 0 (.registerConsumer 0 5),
      .input 0 (.clientPutMessage 7 (toBytes "a")), .deliver 1 2, .deliver 2 3,
      .input 0 (.clientPutMessage 8 (toBytes "b")), .deliver 2 4, .deliver 3 5]
  events.map (fun e => .incident (.event e)) ++ [.crash 0 (.log written) ⟨0, 0⟩ 0]

theorem servedThenCrashed_isSome :
    (Runs.exec (Runs.guarded (Whole .proto) (outage .proto .fifo)) (fresh 3)
      (servedThenCrashed 14)).isSome := by
  decide +kernel

theorem messages_servedThenCrashed : ∃ r : Outages 3 .proto .fifo, r.Always (Whole .proto) ∧
    (0, .writeClient 5 true (.serverSendMessage 8 (toBytes "b"))) ∈ (r.states r.length).history ∧
    ((r.states r.length).procs 0).messageQueue.messageStore.toList = [(7, toBytes "a")] ∧
    PutBefore r r.length 8 (toBytes "b") := by
  let r : Outages 3 .proto .fifo := .ofEvents (fresh 3) starts_fresh (servedThenCrashed 14)
    (Runs.isSome_of_guarded servedThenCrashed_isSome)
  have hr : r.Always (Whole .proto) := Runs.Run.ofEvents_always servedThenCrashed_isSome
  have hsent : (0, .writeClient 5 true (.serverSendMessage 8 (toBytes "b"))) ∈
      (r.states r.length).history := by
    decide +kernel
  exact ⟨r, hr, hsent, by decide +kernel, (messages_from_clients r hr le_rfl 0).1 5 true 8 _ hsent⟩

def puts : Outage n → Option (Int × Bytes)
  | .incident (.event (.input _ (.clientPutMessage id text))) => some (id, text)
  | _ => none

theorem tornRecord_isSome : (Runs.exec (outage .proto .fifo) (fresh 3) (servedThenCrashed 23)).isSome := by
  decide +kernel

/-- The server ends in the second record behind the id. The loop has still the text of the first one. -/
theorem not_messages_tornRecord : ∃ r : Outages 3 .proto .fifo,
    ((List.range r.length).map r.events).filterMap puts = [(7, toBytes "a"), (8, toBytes "b")] ∧
    ((r.states r.length).procs 0).messageQueue.messageStore[(8 : Int)]? = some (toBytes "a") :=
  ⟨.ofEvents (fresh 3) starts_fresh (servedThenCrashed 23)
    tornRecord_isSome, by decide +kernel, by decide +kernel⟩

/-- The metadata buffer of node 1 holds -1 when its thread first writes it. The node then starts with that
commit index, and a heartbeat makes it store the dummy entry. -/
def storedDummy : List (Outage 3) :=
  let events : List (Incident 3) :=
    [.restart 1 ⟨0, 0⟩ (-1), .flush 1 true true, .restart 1 ⟨0, 0⟩ 0] ++ Cluster.electZero.map .event ++
      [.event (.input 0 .heartbeatTimer), .event (.deliver 1 2), .flush 1 true true, .restart 1 ⟨0, 0⟩ 0]
  events.map .incident

theorem storedDummy_isSome : (Runs.exec (outage .proto .fifo) (fresh 3) storedDummy).isSome := by
  decide +kernel

/-- Without a put, node 1 then has an empty message with id 0. -/
theorem not_messages_storedDummy : ∃ r : Outages 3 .proto .fifo,
    ((List.range r.length).map r.events).filterMap puts = [] ∧
    ((r.states r.length).procs 1).messageQueue.messageStore[(0 : Int)]? = some [] :=
  ⟨.ofEvents (fresh 3) starts_fresh storedDummy storedDummy_isSome, by decide +kernel, by decide +kernel⟩

end Deployment

end FlowMQ
