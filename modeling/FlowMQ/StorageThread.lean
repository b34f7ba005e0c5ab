import FlowMQ.LogFile
import FlowMQ.Lib.Runs

/-!
# The storage thread

The thread of `ClusterNodeStorage` runs from before the constructor has set the
file names until the destructor has joined it. A round of it takes the lock,
appends the buffers to the log file, opens the metadata file, which empties it,
and writes it. Calls of `store_log_entries_and_metadata` wait for the lock, and
the two load functions do not.
-/

namespace FlowMQ

open TextStream

/-- Where the thread stands: at the test of `cancelled_`, before the lock, and with the lock before the
metadata file is opened and before it is written. -/
inductive Stage where
  | check
  | lock
  | openMetadata
  | writeMetadata
  | done
  deriving DecidableEq, Repr

inductive Load where
  | logEntries (entries : List LogEntry) (result : Option (Int × List LogEntry))
  | metadata (result : Int × Int)
  deriving DecidableEq

/-- `stored` and `loads` are history: the entries of all store calls, and what the load
functions have returned. -/
structure StorageThread extends ClusterNodeStorage where
  logNamed : Bool
  metadataNamed : Bool
  cancelled : Bool
  stage : Stage
  stored : List LogEntry
  loads : List Load

inductive StorageEvent where
  | assignLogName
  | assignMetadataName
  | storeLogEntriesAndMetadata (entries : List LogEntry) (start stop metadata : Int)
  | loadLogEntryFromFile (entries : List LogEntry)
  | loadMetadataFromFile
  | checkCancelled
  | appendLogEntryToFile (isOpen : Bool)
  | openMetadata (isOpen : Bool)
  | writeMetadata
  | destroy
  deriving Inhabited

def ValidRange (c : Codec) (entries : List LogEntry) (start stop : Int) : Prop :=
  (0 ≤ start ∧ start < stop ∧ stop ≤ entries.length) ∧ ∀ e ∈ logRange entries start stop, c.Storable e

instance (c : Codec) (entries : List LogEntry) (start stop : Int) :
    Decidable (ValidRange c entries start stop) :=
  inferInstanceAs (Decidable (_ ∧ _))

theorem load_none (c : Codec) (entries : List LogEntry) :
    LogEntryStorage.loadLogEntryFromFile c none entries = some (1, entries) := by
  simp [LogEntryStorage.loadLogEntryFromFile, LogEntryStorage.loadLoop, IStream.ofFile, IStream.readInt,
    IStream.good]

theorem entries_of_records {c : Codec} {es : List LogEntry} (file : Option Bytes)
    (h : file.getD [] = c.records es) (hs : ∀ e ∈ es, c.Storable e) (entries : List LogEntry) :
    (LogEntryStorage.loadLogEntryFromFile c file entries).map Prod.snd = some (entries ++ es) := by
  cases file with
  | some data =>
    have hdata : data = c.records es := h
    rw [hdata, load_records es hs]
    rfl
  | none =>
    have hnil : es = [] := by
      cases es with
      | nil => rfl
      | cons e es => simp [Codec.records, Codec.record] at h
    rw [load_none, hnil, List.append_nil]
    rfl

namespace StorageThread

def alive (s : StorageThread) : Bool := s.metadataNamed && !s.cancelled

def locked (s : StorageThread) : Bool := s.stage = .openMetadata || s.stage = .writeMetadata

/-- A file without a name does not open. -/
def step (c : Codec) (s : StorageThread) : StorageEvent → Option StorageThread
  | .assignLogName => if s.logNamed then none else some { s with logNamed := true }
  | .assignMetadataName =>
    if s.logNamed && !s.metadataNamed then some { s with metadataNamed := true } else none
  | .storeLogEntriesAndMetadata entries start stop metadata =>
    if (s.alive && !s.locked) = true ∧ ValidRange c entries start stop then
      some { s with
        toClusterNodeStorage := s.toClusterNodeStorage.storeLogEntriesAndMetadata entries start stop metadata
        stored := s.stored ++ logRange entries start stop }
    else none
  | .loadLogEntryFromFile entries =>
    if s.alive then
      some { s with
        loads := s.loads ++ [.logEntries entries (LogEntryStorage.loadLogEntryFromFile c s.logFile entries)] }
    else none
  | .loadMetadataFromFile =>
    -- `ClusterNode` passes a record with `last_committed` 0
    if s.alive then
      some { s with loads := s.loads ++ [.metadata (MetadataStorage.loadMetadataFromFile s.metadataFile 0)] }
    else none
  | .checkCancelled =>
    if s.stage = .check then some { s with stage := if s.cancelled then .done else .lock } else none
  | .appendLogEntryToFile isOpen =>
    if s.stage = .lock then
      some { s with
        logFile :=
          (LogEntryStorage.appendLogEntryToFile c (isOpen && s.logNamed) s.logEntryBuffers s.logFile).2
        stage := .openMetadata }
    else none
  | .openMetadata isOpen =>
    if s.stage = .openMetadata then
      if isOpen && s.metadataNamed then some { s with metadataFile := some [], stage := .writeMetadata }
      else some { s with logEntryBuffers := [], stage := .check }
    else none
  | .writeMetadata =>
    if s.stage = .writeMetadata then
      some { s with
        metadataFile := (MetadataStorage.saveMetadataToFile true s.metadataBuffer s.metadataFile).2
        logEntryBuffers := []
        stage := .check }
    else none
  | .destroy => if s.alive then some { s with cancelled := true } else none

/-- Where the member initialiser has started the thread. `metadata_buffer_` is an `int` that nothing
has set. -/
structure Starts (s : StorageThread) : Prop where
  buffers : s.logEntryBuffers = []
  metadata : -2 ^ 31 ≤ s.metadataBuffer ∧ s.metadataBuffer < 2 ^ 31
  named : s.logNamed = false ∧ s.metadataNamed = false
  cancelled : s.cancelled = false
  stage : s.stage = .check
  stored : s.stored = []
  loads : s.loads = []

abbrev Execution (c : Codec) := Runs.Run Starts (step c)

inductive Step (c : Codec) (s : StorageThread) : StorageEvent → StorageThread → Prop
  | name {e s'} (hs : s'.toClusterNodeStorage = s.toClusterNodeStorage) (hstage : s'.stage = s.stage)
    (hstored : s'.stored = s.stored) (hloads : s'.loads = s.loads)
      (hc : s.cancelled = true → s'.cancelled = true)
    (he : e = .assignLogName ∨ e = .assignMetadataName ∨ e = .destroy) : Step c s e s'
  | store {entries start stop metadata} (halive : s.alive = true) (hlock : s.locked = false)
      (hr : ValidRange c entries start stop) :
    Step c s (.storeLogEntriesAndMetadata entries start stop metadata)
      { s with
        toClusterNodeStorage := s.toClusterNodeStorage.storeLogEntriesAndMetadata entries start stop metadata
        stored := s.stored ++ logRange entries start stop }
  | loadLog {entries} : Step c s (.loadLogEntryFromFile entries)
      { s with
        loads := s.loads ++ [.logEntries entries (LogEntryStorage.loadLogEntryFromFile c s.logFile entries)] }
  | loadMetadata : Step c s .loadMetadataFromFile
      { s with loads := s.loads ++ [.metadata (MetadataStorage.loadMetadataFromFile s.metadataFile 0)] }
  | exit (h : s.stage = .check) (hc : s.cancelled = true) : Step c s .checkCancelled { s with stage := .done }
  | enter (h : s.stage = .check) (hc : s.cancelled = false) : Step c s .checkCancelled
      { s with stage := .lock }
  | append {isOpen} (h : s.stage = .lock) (ho : (isOpen && s.logNamed) = true) : Step c s
      (.appendLogEntryToFile isOpen)
      { s with logFile := some (s.logFile.getD [] ++ c.records s.logEntryBuffers), stage := .openMetadata }
  | skip {isOpen} (h : s.stage = .lock) (ho : (isOpen && s.logNamed) = false) :
    Step c s (.appendLogEntryToFile isOpen) { s with stage := .openMetadata }
  | truncate {isOpen} (h : s.stage = .openMetadata) : Step c s (.openMetadata isOpen)
      { s with metadataFile := some [], stage := .writeMetadata }
  | unlock {isOpen} (h : s.stage = .openMetadata) : Step c s (.openMetadata isOpen)
      { s with logEntryBuffers := [], stage := .check }
  | write (h : s.stage = .writeMetadata) : Step c s .writeMetadata
      { s with metadataFile := some (decimalInt s.metadataBuffer ++ [32]), logEntryBuffers := [], stage := .check }

theorem step_spec {c : Codec} {s s' : StorageThread} {e : StorageEvent} (h : s.step c e = some s') :
    Step c s e s' := by
  cases e with
  | assignLogName =>
    simp only [step] at h
    split at h
    · cases h
    · cases h
      exact .name rfl rfl rfl rfl id (Or.inl rfl)
  | assignMetadataName =>
    simp only [step] at h
    split at h
    · cases h
      exact .name rfl rfl rfl rfl id (Or.inr (Or.inl rfl))
    · cases h
  | storeLogEntriesAndMetadata entries start stop metadata =>
    simp only [step] at h
    split at h
    · rename_i hen
      cases h
      obtain ⟨halive, hlock⟩ := Bool.and_eq_true_iff.mp hen.1
      exact .store halive (by simpa using hlock) hen.2
    · cases h
  | loadLogEntryFromFile entries =>
    simp only [step] at h
    split at h
    · cases h
      exact .loadLog
    · cases h
  | loadMetadataFromFile =>
    simp only [step] at h
    split at h
    · cases h
      exact .loadMetadata
    · cases h
  | checkCancelled =>
    simp only [step] at h
    split at h
    · rename_i hstage
      cases h
      by_cases hc : s.cancelled = true
      · rw [if_pos hc]
        exact .exit hstage hc
      · rw [if_neg hc]
        exact .enter hstage (Bool.eq_false_iff.mpr hc)
    · cases h
  | appendLogEntryToFile isOpen =>
    simp only [step] at h
    split at h
    · rename_i hstage
      cases h
      by_cases ho : (isOpen && s.logNamed) = true
      · rw [ho]
        exact .append hstage ho
      · rw [Bool.eq_false_iff.mpr ho]
        exact .skip hstage (Bool.eq_false_iff.mpr ho)
    · cases h
  | openMetadata isOpen =>
    simp only [step] at h
    split at h
    · rename_i hstage
      split at h
      · cases h
        exact .truncate hstage
      · cases h
        exact .unlock hstage
    · cases h
  | writeMetadata =>
    simp only [step] at h
    split at h
    · rename_i hstage
      cases h
      exact .write hstage
    · cases h
  | destroy =>
    simp only [step] at h
    split at h
    · cases h
      exact .name rfl rfl rfl rfl (fun _ => rfl) (Or.inr (Or.inr rfl))
    · cases h

theorem exec_round {c : Codec} {s : StorageThread} (h : s.stage = .lock) (logOpen metadataOpen : Bool) :
    Runs.exec (step c) s (.appendLogEntryToFile logOpen :: .openMetadata metadataOpen ::
        if metadataOpen && s.metadataNamed then [.writeMetadata] else []) =
      some { s with
        toClusterNodeStorage := s.toClusterNodeStorage.consumeAndStoreMessages c (logOpen && s.logNamed)
          (metadataOpen && s.metadataNamed)
        stage := .check } := by
  by_cases hm : (metadataOpen && s.metadataNamed) = true
  · simp only [Runs.exec, step, if_pos h, Option.bind_some, if_true, hm]
    rfl
  · rw [if_neg hm, Bool.eq_false_iff.mpr hm]
    simp only [Runs.exec, step, if_pos h, Option.bind_some, if_true, if_neg hm]
    rfl

/-! ## What the log file holds when the thread has ended -/

def pending (s : StorageThread) : List LogEntry :=
  match s.stage with
  | .check => s.logEntryBuffers
  | .lock => s.logEntryBuffers
  | _ => []

/-- No buffered entry is dropped: a round that cannot open the log file finds the buffers empty, and so does
the test that ends the thread. -/
def Keeps (s : StorageThread) : StorageEvent → Prop
  | .appendLogEntryToFile isOpen => (isOpen && s.logNamed) = false → s.logEntryBuffers = []
  | .checkCancelled => s.cancelled = true → s.logEntryBuffers = []
  | _ => True

structure Written (c : Codec) (initial : List LogEntry) (s : StorageThread) (written : List LogEntry) (lost : Nat) :
    Prop where
  file : s.logFile.getD [] = c.records (initial ++ written)
  order : List.Sublist (written ++ s.pending) s.stored
  count : (written ++ s.pending).length + lost = s.stored.length
  storable : ∀ e ∈ s.stored, c.Storable e
  ended : s.stage = .done → s.cancelled = true

section
variable {c : Codec} {initial : List LogEntry} {s s' : StorageThread} {e : StorageEvent}

theorem Written.congr {w : List LogEntry} {l : Nat} (h : Written c initial s w l)
    (hf : s'.logFile = s.logFile) (hp : s'.pending = s.pending) (hs : s'.stored = s.stored)
    (he : s'.stage = .done → s'.cancelled = true) :
    Written c initial s' w l where
  file := by rw [hf, h.file]
  order := by rw [hp, hs]; exact h.order
  count := by rw [hp, hs]; exact h.count
  storable := by rw [hs]; exact h.storable
  ended := he

theorem Written.drop {w : List LogEntry} {l : Nat} (h : Written c initial s w l) (hf : s'.logFile = s.logFile)
    (hp : s'.pending = []) (hs : s'.stored = s.stored) (he : s'.stage = .done → s'.cancelled = true) :
    Written c initial s' w (l + s.pending.length) where
  file := by rw [hf, h.file]
  order := by
    rw [hp, hs, List.append_nil]
    exact (List.sublist_append_left w s.pending).trans h.order
  count := by
    have hcount := h.count
    rw [hp, hs, List.append_nil]
    rw [List.length_append] at hcount
    omega
  storable := by rw [hs]; exact h.storable
  ended := he

theorem Written.step {w : List LogEntry} {l : Nat} (h : Written c initial s w l) (hs : s.step c e = some s') :
    ∃ w' l', Written c initial s' w' l' ∧ (l' = 0 ↔ l = 0 ∧ s.Keeps e) := by
  cases step_spec hs with
  | name hfiles hstage hstored hloads hc he =>
    have hkeeps : s.Keeps e := by rcases he with rfl | rfl | rfl <;> trivial
    refine ⟨w, l, h.congr (by rw [hfiles]) ?_ hstored ?_, by simp [hkeeps]⟩
    · simp only [pending, hstage, hfiles]
    · rw [hstage]
      exact fun hd => hc (h.ended hd)
  | @store entries start stop metadata halive hlock hr =>
    have hstage : s.stage = .check ∨ s.stage = .lock := by
      have hended := h.ended
      cases hst : s.stage with
      | check => exact Or.inl rfl
      | lock => exact Or.inr rfl
      | openMetadata => simp [locked, hst] at hlock
      | writeMetadata => simp [locked, hst] at hlock
      | done => simp [alive, hended hst] at halive
    have hpend : s.pending = s.logEntryBuffers := by rcases hstage with hst | hst <;> simp [pending, hst]
    refine ⟨w, l, ⟨h.file, ?_, ?_, ?_, h.ended⟩, by simp [Keeps]⟩
    · have horder := h.order.append (List.Sublist.refl (logRange entries start stop))
      rcases hstage with hst | hst <;>
        simpa [pending, hst, ClusterNodeStorage.storeLogEntriesAndMetadata] using horder
    · have hcount := h.count
      rcases hstage with hst | hst <;>
        simp [pending, hst, ClusterNodeStorage.storeLogEntriesAndMetadata] at hcount ⊢ <;> omega
    · intro x hx
      rcases List.mem_append.mp hx with hx | hx
      · exact h.storable x hx
      · exact hr.2 x hx
  | loadLog => exact ⟨w, l, h.congr rfl rfl rfl h.ended, by simp [Keeps]⟩
  | loadMetadata => exact ⟨w, l, h.congr rfl rfl rfl h.ended, by simp [Keeps]⟩
  | exit hstage hc =>
    refine ⟨w, _, h.drop rfl rfl rfl fun _ => hc, ?_⟩
    simp [Keeps, pending, hstage, hc]
  | enter hstage hc =>
    refine ⟨w, l, h.congr rfl ?_ rfl (by simp), by simp [Keeps, hc]⟩
    simp [pending, hstage]
  | append hstage ho =>
    have hpend : s.pending = s.logEntryBuffers := by simp [pending, hstage]
    refine ⟨w ++ s.logEntryBuffers, l, ⟨?_, ?_, ?_, h.storable, by simp⟩, by simp [Keeps, ho]⟩
    · rw [← List.append_assoc, records_append, ← h.file]
      rfl
    · have horder := h.order
      rw [hpend] at horder
      simpa [pending] using horder
    · have hcount := h.count
      rw [hpend] at hcount
      simpa [pending] using hcount
  | skip hstage ho =>
    refine ⟨w, _, h.drop rfl rfl rfl (by simp), ?_⟩
    simp [Keeps, pending, hstage, ho]
  | truncate hstage =>
    refine ⟨w, l, h.congr rfl ?_ rfl (by simp), by simp [Keeps]⟩
    simp [pending, hstage]
  | unlock hstage =>
    refine ⟨w, l, h.congr rfl ?_ rfl (by simp), by simp [Keeps]⟩
    simp [pending, hstage]
  | write hstage =>
    refine ⟨w, l, h.congr rfl ?_ rfl (by simp), by simp [Keeps]⟩
    simp [pending, hstage]

theorem written_run (r : Execution c) (h₀ : (r.states 0).logFile.getD [] = c.records initial) :
    ∀ k ≤ r.length, ∃ w l, Written c initial (r.states k) w l ∧
    (l = 0 ↔ ∀ j < k, (r.states j).Keeps (r.events j)) := by
  refine r.induct ?_ fun k hk ih => ?_
  · have hb := r.starts.buffers
    have hst := r.starts.stored
    have hstage := r.starts.stage
    refine ⟨[], 0, ⟨by simpa using h₀, ?_, ?_, ?_, ?_⟩, by simp⟩
    · simp [pending, hstage, hb]
    · simp [pending, hstage, hb, hst]
    · simp [hst]
    · simp [hstage]
  · obtain ⟨w, l, hw, hl⟩ := ih
    obtain ⟨w', l', hw', hl'⟩ := hw.step (r.steps k hk)
    refine ⟨w', l', hw', ?_⟩
    rw [hl', hl, Nat.forall_lt_succ_right]

end

/-- Once the destructor has returned, the log file holds what it held before and everything that was stored
exactly if no step dropped buffered entries. -/
theorem stored_iff {c : Codec} (r : Execution c) {initial : List LogEntry}
    (h₀ : (r.states 0).logFile.getD [] = c.records initial) (hs : ∀ e ∈ initial, c.Storable e)
    (hdone : (r.states r.length).stage = .done) :
    (LogEntryStorage.loadLogEntryFromFile c (r.states r.length).logFile []).map Prod.snd =
      some (initial ++ (r.states r.length).stored) ↔ r.Always Keeps := by
  obtain ⟨w, l, hw, hl⟩ := written_run r h₀ r.length le_rfl
  have horder := hw.order
  have hcount := hw.count
  simp only [pending, hdone, List.append_nil] at horder hcount
  have hstorable : ∀ e ∈ initial ++ w, c.Storable e := by
    intro e he
    rcases List.mem_append.mp he with he | he
    · exact hs e he
    · exact hw.storable e (horder.subset he)
  have hload := entries_of_records (r.states r.length).logFile hw.file hstorable []
  rw [hload, List.nil_append, Option.some.injEq, List.append_cancel_left_eq]
  have hall : l = 0 ↔ r.Always Keeps := hl
  rw [← hall]
  constructor
  · intro heq
    rw [heq] at hcount
    omega
  · intro h0
    exact horder.eq_of_length (by omega)

def opening (metadataBuffer : Int) (logFile metadataFile : Option Bytes) : StorageThread :=
  { logEntryBuffers := [], metadataBuffer := metadataBuffer, logFile := logFile, metadataFile := metadataFile
    logNamed := false, metadataNamed := false, cancelled := false, stage := .check, stored := [], loads := [] }

theorem starts_opening {metadataBuffer : Int} (h : -2 ^ 31 ≤ metadataBuffer ∧ metadataBuffer < 2 ^ 31)
    (logFile metadataFile : Option Bytes) : Starts (opening metadataBuffer logFile metadataFile) :=
  ⟨rfl, h, ⟨rfl, rfl⟩, rfl, rfl, rfl, rfl⟩

theorem starts_zero : Starts (opening 0 none none) := starts_opening (by decide) none none

def storeFirst : StorageEvent := .storeLogEntriesAndMetadata [LogEntry.dummy, LogEntryStorage.firstAdd] 1 2 1

def flushedStore : List StorageEvent :=
  [.assignLogName, .assignMetadataName, storeFirst, .checkCancelled, .appendLogEntryToFile true, .openMetadata true,
    .writeMetadata, .destroy, .checkCancelled]

theorem flushedStore_isSome : (Runs.exec (step .proto) (opening 0 none none) flushedStore).isSome := by
  decide +kernel

def flushedRun : Execution .proto :=
  .ofEvents (opening 0 none none) starts_zero flushedStore flushedStore_isSome

theorem stored_iff_flushed : (flushedRun.states flushedRun.length).stored = [LogEntryStorage.firstAdd] ∧
    ((LogEntryStorage.loadLogEntryFromFile .proto (flushedRun.states flushedRun.length).logFile []).map Prod.snd =
      some ([] ++ (flushedRun.states flushedRun.length).stored) ↔ flushedRun.Always Keeps) :=
  ⟨by decide +kernel, stored_iff flushedRun rfl (by simp) (by decide +kernel)⟩

def storeThenDestroy : List StorageEvent :=
  [.assignLogName, .assignMetadataName, .checkCancelled, .appendLogEntryToFile true, .openMetadata true,
    .writeMetadata, storeFirst, .destroy, .checkCancelled]

theorem storeThenDestroy_isSome :
    (Runs.exec (step .proto) (opening 0 none none) storeThenDestroy).isSome := by
  decide +kernel

theorem not_stored_storeThenDestroy : ∃ r : Execution .proto, (r.states 0).logFile = none ∧
    (r.states r.length).stage = .done ∧ (r.states r.length).stored = [LogEntryStorage.firstAdd] ∧
    (∀ k < r.length, ∀ isOpen, r.events k = .appendLogEntryToFile isOpen ∨ r.events k = .openMetadata isOpen →
      isOpen = true) ∧
    (LogEntryStorage.loadLogEntryFromFile .proto (r.states r.length).logFile []).map Prod.snd = some [] := by
  refine ⟨.ofEvents (opening 0 none none) starts_zero storeThenDestroy storeThenDestroy_isSome,
    rfl, by decide +kernel, by decide +kernel, fun k hk isOpen he => ?_, by decide +kernel⟩
  have hk' : k < 9 := hk
  interval_cases k <;> simp_all [Runs.Run.ofEvents, storeThenDestroy, storeFirst]

/-! ## Opening the storage -/

end StorageThread

def StorageEvent.isStore : StorageEvent → Bool
  | .storeLogEntriesAndMetadata .. => true
  | _ => false

def lastCommitted (file : Option Bytes) : Int := (MetadataStorage.loadMetadataFromFile file 0).2

def Load.Returns (c : Codec) (logFile metadataFile : Option Bytes) : Load → Prop
  | .logEntries entries result =>
    result.map Prod.snd = (LogEntryStorage.loadLogEntryFromFile c logFile entries).map Prod.snd
  | .metadata result => result.2 = lastCommitted metadataFile

theorem entries_congr (c : Codec) {file file' : Option Bytes} (h : file.getD [] = file'.getD [])
    (entries : List LogEntry) :
    (LogEntryStorage.loadLogEntryFromFile c file entries).map Prod.snd =
      (LogEntryStorage.loadLogEntryFromFile c file' entries).map Prod.snd := by
  have hempty : LogEntryStorage.loadLogEntryFromFile c (some []) entries = some (0, entries) := by
    simpa [Codec.records] using load_records (c := c) [] (by simp) entries
  cases file with
  | some data =>
    cases file' with
    | some data' => rw [show data = data' from h]
    | none =>
      rw [show data = [] from h, load_none, hempty]
      rfl
  | none =>
    cases file' with
    | some data' =>
      rw [← show [] = data' from h, load_none, hempty]
      rfl
    | none => rfl

namespace StorageThread

/-- All loads so far gave what the given files hold, and the files hold it still. A metadata file that is
being rewritten is looked at again when it is written. -/
structure Unchanged (c : Codec) (logFile metadataFile : Option Bytes) (s : StorageThread) : Prop where
  loads : ∀ l ∈ s.loads, l.Returns c logFile metadataFile
  log : ∀ entries, (LogEntryStorage.loadLogEntryFromFile c s.logFile entries).map Prod.snd =
    (LogEntryStorage.loadLogEntryFromFile c logFile entries).map Prod.snd
  metadata : s.stage ≠ .writeMetadata → lastCommitted s.metadataFile = lastCommitted metadataFile

/-- The thread writes the number that the file gave, and no load falls between emptying and writing the file,
unless that number is 0. -/
def KeepsMetadata (metadataFile : Option Bytes) (s : StorageThread) : StorageEvent → Prop
  | .loadMetadataFromFile => s.stage = .writeMetadata → lastCommitted metadataFile = 0
  | .writeMetadata => s.metadataBuffer = lastCommitted metadataFile
  | _ => True

structure Opened (c : Codec) (logFile metadataFile : Option Bytes) (s : StorageThread) : Prop where
  unchanged : s.Unchanged c logFile metadataFile
  file : s.logFile.getD [] = logFile.getD []
  buffers : s.logEntryBuffers = []
  range : -2 ^ 31 ≤ s.metadataBuffer ∧ s.metadataBuffer < 2 ^ 31
  truncated : s.stage = .writeMetadata → s.metadataFile = some []

theorem lastCommitted_empty : lastCommitted (some []) = 0 := by decide

theorem lastCommitted_written {v : Int} (hv : -2 ^ 31 ≤ v ∧ v < 2 ^ 31) :
    lastCommitted (some (decimalInt v ++ [32])) = v := by
  rw [lastCommitted, load_metadata v 0 hv]

section
variable {c : Codec} {logFile metadataFile : Option Bytes} {s s' : StorageThread} {e : StorageEvent}
  (h : s.Opened c logFile metadataFile)
include h

theorem Opened.load {l : Load} (hl : l.Returns c logFile metadataFile) :
    { s with loads := s.loads ++ [l] }.Opened c logFile metadataFile where
  unchanged := by
    refine ⟨fun l' hl' => ?_, h.unchanged.log, h.unchanged.metadata⟩
    rcases List.mem_append.mp hl' with hl' | hl'
    · exact h.unchanged.loads l' hl'
    · rw [List.mem_singleton.mp hl']
      exact hl
  file := h.file
  buffers := h.buffers
  range := h.range
  truncated := h.truncated

theorem Opened.returns_metadata (hk : s.stage = .writeMetadata → lastCommitted metadataFile = 0) :
    lastCommitted s.metadataFile = lastCommitted metadataFile := by
  by_cases hst : s.stage = .writeMetadata
  · rw [h.truncated hst, lastCommitted_empty, hk hst]
  · exact h.unchanged.metadata hst

theorem Opened.step (hs : s.step c e = some s') (hns : e.isStore = false)
    (hk : s.KeepsMetadata metadataFile e) :
    s'.Opened c logFile metadataFile := by
  have hmeta : s.stage ≠ .writeMetadata → lastCommitted s.metadataFile = lastCommitted metadataFile :=
    h.unchanged.metadata
  cases step_spec hs with
  | name hfiles hstage hstored hloads hc he =>
    refine ⟨⟨?_, ?_, ?_⟩, ?_, ?_, ?_, ?_⟩
    · rw [hloads]; exact h.unchanged.loads
    · rw [hfiles]; exact h.unchanged.log
    · rw [hfiles, hstage]; exact h.unchanged.metadata
    · rw [hfiles]; exact h.file
    · rw [hfiles]; exact h.buffers
    · rw [hfiles]; exact h.range
    · rw [hfiles, hstage]; exact h.truncated
  | store => cases hns
  | loadLog => exact h.load (h.unchanged.log _)
  | loadMetadata => exact h.load (h.returns_metadata hk)
  | exit hstage hc =>
    exact ⟨⟨h.unchanged.loads, h.unchanged.log, fun _ => hmeta (by simp [hstage])⟩, h.file, h.buffers,
      h.range, by simp⟩
  | enter hstage hc =>
    exact ⟨⟨h.unchanged.loads, h.unchanged.log, fun _ => hmeta (by simp [hstage])⟩, h.file, h.buffers,
      h.range, by simp⟩
  | append hstage ho =>
    -- the buffers are empty, so at most an empty file is created
    have hfile : (some (s.logFile.getD [] ++ c.records s.logEntryBuffers) : Option Bytes).getD [] =
        logFile.getD [] := by
      rw [h.buffers, ← h.file]
      simp [Codec.records]
    exact ⟨⟨h.unchanged.loads, entries_congr c hfile, fun _ => hmeta (by simp [hstage])⟩, hfile, h.buffers,
      h.range, by simp⟩
  | skip hstage ho =>
    exact ⟨⟨h.unchanged.loads, h.unchanged.log, fun _ => hmeta (by simp [hstage])⟩, h.file, h.buffers,
      h.range, by simp⟩
  | truncate hstage =>
    exact ⟨⟨h.unchanged.loads, h.unchanged.log, fun hst => absurd rfl hst⟩, h.file, h.buffers, h.range,
      fun _ => rfl⟩
  | unlock hstage =>
    exact ⟨⟨h.unchanged.loads, h.unchanged.log, fun _ => hmeta (by simp [hstage])⟩, h.file, rfl, h.range, by simp⟩
  | write hstage =>
    refine ⟨⟨h.unchanged.loads, h.unchanged.log, fun _ => ?_⟩, h.file, rfl, h.range, by simp⟩
    rw [lastCommitted_written h.range]
    exact hk

theorem Opened.keepsMetadata (hs : s.step c e = some s') (hu : s'.Unchanged c logFile metadataFile) :
    s.KeepsMetadata metadataFile e := by
  cases step_spec hs with
  | name hfiles hstage hstored hloads hc he => rcases he with rfl | rfl | rfl <;> trivial
  | loadMetadata =>
    intro hst
    have hret : lastCommitted s.metadataFile = lastCommitted metadataFile :=
      hu.loads (.metadata _) (List.mem_append_right _ List.mem_cons_self)
    rw [← hret, h.truncated hst, lastCommitted_empty]
  | write hstage =>
    have hwritten := hu.metadata (by simp)
    rwa [lastCommitted_written h.range] at hwritten
  | _ => trivial

end

theorem opened_starts {c : Codec} {s : StorageThread} (h : Starts s) :
    s.Opened c s.logFile s.metadataFile where
  unchanged := ⟨by simp [h.loads], fun _ => rfl, fun _ => rfl⟩
  file := rfl
  buffers := h.buffers
  range := h.metadata
  truncated := by simp [h.stage]

/-- As long as nothing is stored, the loads give what the files held before construction and the files stay so
exactly if the metadata is kept. -/
theorem unchanged_iff {c : Codec} (r : Execution c) (hns : r.Always fun _ e => e.isStore = false) :
    (∀ k ≤ r.length, (r.states k).Unchanged c (r.states 0).logFile (r.states 0).metadataFile) ↔
      r.Always (KeepsMetadata (r.states 0).metadataFile) := by
  refine r.iff_always (I := Opened c (r.states 0).logFile (r.states 0).metadataFile)
    (P := Unchanged c (r.states 0).logFile (r.states 0).metadataFile) (opened_starts r.starts) ?_ ?_ ?_
  · exact fun k _ hk => hk.unchanged
  · exact fun k hk h hok => h.step (r.steps k hk) (hns k hk) hok
  · exact fun k hk h hu => h.keepsMetadata (r.steps k hk) hu

def roundThenLoad : List StorageEvent :=
  [.assignLogName, .assignMetadataName, .checkCancelled, .appendLogEntryToFile true, .openMetadata true,
    .writeMetadata, .loadMetadataFromFile]

def committedFive (metadataBuffer : Int) : StorageThread :=
  opening metadataBuffer (some []) (some (toBytes "5 "))

theorem starts_committedFive {metadataBuffer : Int} (h : -2 ^ 31 ≤ metadataBuffer ∧ metadataBuffer < 2 ^ 31) :
    Starts (committedFive metadataBuffer) := starts_opening h _ _

theorem roundThenLoad_isSome :
    (Runs.exec (Runs.guarded (fun _ e => e.isStore = false) (step .proto)) (committedFive 5)
      roundThenLoad).isSome := by
  decide +kernel

theorem unchanged_iff_committedFive : ∃ r : Execution .proto, (r.Always fun _ e => e.isStore = false) ∧
    (r.states 0).metadataBuffer = 5 ∧
    ((∀ k ≤ r.length, (r.states k).Unchanged .proto (r.states 0).logFile (r.states 0).metadataFile) ↔
      r.Always (KeepsMetadata (r.states 0).metadataFile)) := by
  let r : Execution .proto := .ofEvents (committedFive 5) (starts_committedFive (by decide)) roundThenLoad
    (Runs.isSome_of_guarded roundThenLoad_isSome)
  have hns : r.Always fun _ e => e.isStore = false := Runs.Run.ofEvents_always roundThenLoad_isSome
  exact ⟨r, hns, rfl, unchanged_iff r hns⟩

theorem roundThenLoad_isSome_zero :
    (Runs.exec (Runs.guarded (fun _ e => e.isStore = false) (step .proto)) (committedFive 0)
      roundThenLoad).isSome := by
  decide +kernel

/-- With 0 in `metadata_buffer_`, one round before the load makes the node forget what it had committed. -/
theorem not_unchanged_round : ∃ r : Execution .proto, (r.Always fun _ e => e.isStore = false) ∧
    lastCommitted (r.states 0).metadataFile = 5 ∧ Load.metadata (0, 0) ∈ (r.states r.length).loads ∧
    ¬ (r.states r.length).Unchanged .proto (r.states 0).logFile (r.states 0).metadataFile := by
  let r : Execution .proto := .ofEvents (committedFive 0) (starts_committedFive (by decide)) roundThenLoad
    (Runs.isSome_of_guarded roundThenLoad_isSome_zero)
  have hheld : lastCommitted (r.states 0).metadataFile = 5 := by decide +kernel
  have hload : Load.metadata (0, 0) ∈ (r.states r.length).loads := by decide +kernel
  refine ⟨r, Runs.Run.ofEvents_always roundThenLoad_isSome_zero, hheld, hload, fun hu => ?_⟩
  have hret : (0 : Int) = lastCommitted (r.states 0).metadataFile := hu.loads _ hload
  rw [hheld] at hret
  cases hret

end StorageThread

end FlowMQ
