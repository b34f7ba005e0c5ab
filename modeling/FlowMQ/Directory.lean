import FlowMQ.StorageThread

/-!
# The files of several nodes

The nodes of a server, and servers that were started in the same place, keep
their files in one directory, under names that are made of the partition and the
node. Their threads write at any time, and a node may be started again over the
files it finds. Whatever the others do, a node that was not torn from the middle
of a record finds in its log file a part, in order, of what it has stored itself.
-/

namespace FlowMQ

open TextStream

abbrev StorageKey := Int × Int

def storageFileName (start : String) (key : StorageKey) : Bytes :=
  toBytes start ++ (decimalInt key.1 ++ 95 :: (decimalInt key.2 ++ 46 :: toBytes "data"))

def storageLogEntryFilename : StorageKey → Bytes := storageFileName "storage_log_entry_"

def storageMetadataFileName : StorageKey → Bytes := storageFileName "storage_metadata_"

theorem storageFileName_injective (start : String) : Function.Injective (storageFileName start) := by
  intro key key' h
  obtain ⟨hpartition, h⟩ :=
    IStream.decimalInt_append_inj (show isDigit 95 = false from rfl) (List.append_cancel_left h)
  obtain ⟨hnode, -⟩ := IStream.decimalInt_append_inj (show isDigit 46 = false from rfl) h
  exact Prod.ext hpartition hnode

theorem log_ne_metadata (key key' : StorageKey) :
    storageLogEntryFilename key ≠ storageMetadataFileName key' := by
  intro h
  have hat := congrArg (·[8]?) h
  simp only [storageLogEntryFilename, storageMetadataFileName, storageFileName] at hat
  rw [List.getElem?_append_left (by decide +kernel), List.getElem?_append_left (by decide +kernel)] at hat
  revert hat
  decide +kernel

/-- The object of a node has no files of its own: `files` has them. `past` is history, the entries that
earlier objects of the node were given or have found. -/
structure Directory where
  files : Bytes → Option Bytes
  threads : StorageKey → StorageThread
  past : StorageKey → List LogEntry

inductive DirectoryEvent where
  | storage (key : StorageKey) (e : StorageEvent)
  | restart (key : StorageKey) (written : Option Nat) (metadataBuffer : Int)

instance : Inhabited DirectoryEvent := ⟨.restart (0, 0) none 0⟩

/-- The log and the metadata file of a node whose server ends, maybe when `written` bytes of the write its
thread is at are in the file. -/
def StorageThread.left (c : Codec) (t : StorageThread) : Option Nat → Option Bytes × Option Bytes
  | none => (t.logFile, t.metadataFile)
  | some written =>
    match t.stage with
    | .lock =>
      (if t.logNamed then LogEntryStorage.tornAppend c written t.logEntryBuffers t.logFile else t.logFile,
        t.metadataFile)
    | .writeMetadata => (t.logFile, some ((decimalInt t.metadataBuffer ++ [32]).take written))
    | _ => (t.logFile, t.metadataFile)

namespace Directory

def thread (d : Directory) (key : StorageKey) : StorageThread :=
  { d.threads key with logFile := d.files (storageLogEntryFilename key),
                       metadataFile := d.files (storageMetadataFileName key) }

def put (d : Directory) (key : StorageKey) (t : StorageThread) : Directory :=
  { d with
    files := Function.update (Function.update d.files (storageLogEntryFilename key) t.logFile)
      (storageMetadataFileName key) t.metadataFile
    threads := Function.update d.threads key t }

def restart (d : Directory) (key : StorageKey) (files : Option Bytes × Option Bytes) (metadataBuffer : Int) :
    Directory :=
  { d.put key (.opening metadataBuffer files.1 files.2) with
    past := Function.update d.past key (d.past key ++ (d.thread key).stored) }

def step (c : Codec) (d : Directory) : DirectoryEvent → Option Directory
  | .storage key e => ((d.thread key).step c e).map (d.put key)
  | .restart key written metadataBuffer =>
    if -2 ^ 31 ≤ metadataBuffer ∧ metadataBuffer < 2 ^ 31 then
      some (d.restart key ((d.thread key).left c written) metadataBuffer)
    else none

structure Starts (c : Codec) (d : Directory) : Prop where
  threads : ∀ key, StorageThread.Starts (d.thread key)
  files : ∀ key, (d.files (storageLogEntryFilename key)).getD [] = c.records (d.past key)
  storable : ∀ key, ∀ e ∈ d.past key, c.Storable e

abbrev Execution (c : Codec) := Runs.Run (Starts c) (step c)

def Whole (c : Codec) (key : StorageKey) (d : Directory) : DirectoryEvent → Prop
  | .restart key' (some written) _ => key' = key → (d.thread key).stage = .lock →
    LogEntryStorage.BetweenRecords c (d.thread key).logEntryBuffers written
  | _ => True

instance (c : Codec) (key : StorageKey) (d : Directory) : (e : DirectoryEvent) → Decidable (Whole c key d e)
  | .restart _ (some _) _ => inferInstanceAs (Decidable (_ → _ → _))
  | .restart _ none _ => inferInstanceAs (Decidable True)
  | .storage _ _ => inferInstanceAs (Decidable True)

def handed (d : Directory) (key : StorageKey) : List LogEntry := d.past key ++ (d.thread key).stored

/-! ## A node does not see the others -/

section
variable {c : Codec} {d d' : Directory} {key key' : StorageKey}

theorem files_put_log (t : StorageThread) :
    (d.put key t).files (storageLogEntryFilename key') =
      if key' = key then t.logFile else d.files (storageLogEntryFilename key') := by
  simp only [put]
  rw [Function.update_of_ne (log_ne_metadata key' key), Function.update_apply]
  exact if_congr (storageFileName_injective _).eq_iff rfl rfl

theorem files_put_metadata (t : StorageThread) :
    (d.put key t).files (storageMetadataFileName key') =
      if key' = key then t.metadataFile else d.files (storageMetadataFileName key') := by
  simp only [put]
  rw [Function.update_apply, Function.update_of_ne (log_ne_metadata key key').symm]
  exact if_congr (storageFileName_injective _).eq_iff rfl rfl

theorem thread_put (t : StorageThread) :
    (d.put key t).thread key' = if key' = key then t else d.thread key' := by
  rw [thread, files_put_log, files_put_metadata]
  by_cases hkey : key' = key
  · subst hkey
    simp [put]
  · simp [hkey, put, thread]

/-! ## What a log file has -/

/-- The entries that the file had when the object was made are a part of the past, and those it has got since
of what the object was given. -/
structure Holds (c : Codec) (d : Directory) (key : StorageKey) : Prop where
  written : ∃ initial w l, (d.thread key).Written c initial w l ∧ List.Sublist initial (d.past key)
  storable : ∀ e ∈ d.past key, c.Storable e

theorem Holds.frame (h : d.Holds c key) (hthread : d'.thread key = d.thread key)
    (hpast : d'.past key = d.past key) :
    d'.Holds c key := by
  obtain ⟨⟨initial, w, l, hw, hsub⟩, hstorable⟩ := h
  exact ⟨⟨initial, w, l, hthread ▸ hw, hpast ▸ hsub⟩, hpast ▸ hstorable⟩

theorem Holds.storage (h : d.Holds c key) {e : StorageEvent} {t : StorageThread}
    (ht : (d.thread key).step c e = some t) :
    (d.put key t).Holds c key := by
  obtain ⟨⟨initial, w, l, hw, hsub⟩, hstorable⟩ := h
  obtain ⟨w', l', hw', -⟩ := hw.step ht
  exact ⟨⟨initial, w', l', by rwa [thread_put, if_pos rfl], hsub⟩, hstorable⟩

theorem Holds.left (h : d.Holds c key) {written : Option Nat} {metadataBuffer : Int}
    (hw : Whole c key d (.restart key written metadataBuffer)) :
    ∃ es, ((d.thread key).left c written).1.getD [] = c.records es ∧ List.Sublist es (d.handed key) := by
  obtain ⟨⟨initial, w, l, hwritten, hsub⟩, -⟩ := h
  have hfile : ∃ es, (d.thread key).logFile.getD [] = c.records es ∧ List.Sublist es (d.handed key) :=
    ⟨initial ++ w, hwritten.file, hsub.append ((List.sublist_append_left w _).trans hwritten.order)⟩
  cases written with
  | none => exact hfile
  | some written =>
    simp only [StorageThread.left]
    split
    · rename_i hstage
      split
      · obtain ⟨j, hj⟩ := (hw rfl hstage).tornAppend hwritten.file
        refine ⟨_, hj, ?_⟩
        have hpending : (d.thread key).pending = (d.thread key).logEntryBuffers := by
          simp [StorageThread.pending, hstage]
        rw [List.append_assoc]
        refine hsub.append (List.Sublist.trans ?_ hwritten.order)
        rw [hpending]
        exact (List.Sublist.refl w).append (List.take_sublist j _)
      · exact hfile
    · exact hfile
    · exact hfile

theorem Holds.storable_handed (h : d.Holds c key) : ∀ e ∈ d.handed key, c.Storable e := by
  obtain ⟨⟨initial, w, l, hw, -⟩, hstorable⟩ := h
  intro e he
  rcases List.mem_append.mp he with he | he
  · exact hstorable e he
  · exact hw.storable e he

theorem Holds.restart (h : d.Holds c key) {written : Option Nat} {metadataBuffer : Int}
    (hw : Whole c key d (.restart key written metadataBuffer)) :
    (d.restart key ((d.thread key).left c written) metadataBuffer).Holds c key := by
  obtain ⟨es, hfile, hsub⟩ := h.left hw
  have hstorable := h.storable_handed
  have hpast : (d.restart key ((d.thread key).left c written) metadataBuffer).past key = d.handed key :=
    Function.update_self ..
  refine ⟨⟨es, [], 0, ?_, hpast ▸ hsub⟩, hpast ▸ hstorable⟩
  rw [show (d.restart key ((d.thread key).left c written) metadataBuffer).thread key =
    _ from (thread_put _).trans (if_pos rfl)]
  exact ⟨by rw [List.append_nil]; exact hfile, List.Sublist.refl _, rfl, List.forall_mem_nil _, nofun⟩

theorem Holds.step (h : d.Holds c key) {e : DirectoryEvent} (hw : Whole c key d e)
    (hs : d.step c e = some d') :
    d'.Holds c key := by
  cases e with
  | storage key' e =>
    obtain ⟨t, ht, rfl⟩ := Option.map_eq_some_iff.mp hs
    by_cases hkey : key = key'
    · subst hkey
      exact h.storage ht
    · exact h.frame ((thread_put t).trans (if_neg hkey)) rfl
  | restart key' written metadataBuffer =>
    simp only [Directory.step] at hs
    split at hs
    · cases hs
      by_cases hkey : key = key'
      · subst hkey
        exact h.restart hw
      · exact h.frame ((thread_put _).trans (if_neg hkey)) (Function.update_of_ne hkey _ _)
    · cases hs

theorem holds_starts (h : Starts c d) (key : StorageKey) : d.Holds c key := by
  have ht := h.threads key
  refine ⟨⟨d.past key, [], 0, ⟨?_, ?_, ?_, ?_, ?_⟩, List.Sublist.refl _⟩, h.storable key⟩
  · rw [List.append_nil]
    exact h.files key
  · simp [StorageThread.pending, ht.stage, ht.buffers]
  · simp [StorageThread.pending, ht.stage, ht.buffers, ht.stored]
  · simp [ht.stored]
  · simp [ht.stage]

/-- Whenever a node loads its log, it gets entries that it has stored itself or that were there before, in
their order. -/
theorem loads_own_entries (r : Execution c) (key : StorageKey) (hr : r.Always (Whole c key)) {k : Nat}
    (hk : k ≤ r.length) :
    ∃ es, (LogEntryStorage.loadLogEntryFromFile c
        ((r.states k).files (storageLogEntryFilename key)) []).map Prod.snd = some es ∧
      List.Sublist es ((r.states k).handed key) := by
  have hholds : (r.states k).Holds c key :=
    r.induct (P := fun k => (r.states k).Holds c key) (holds_starts r.starts key)
    (fun k hk ih => ih.step (hr k hk) (r.steps k hk)) k hk
  have hwhole : Whole c key (r.states k) (.restart key none 0) := trivial
  obtain ⟨es, hfile, hsub⟩ := hholds.left hwhole
  exact ⟨es, entries_of_records _ hfile (fun e he => hholds.storable_handed e (hsub.subset he)) [], hsub⟩

end

def clean : Directory :=
  { files := fun _ => none, threads := fun _ => .opening 0 none none, past := fun _ => [] }

theorem starts_clean (c : Codec) : Starts c clean where
  threads := fun _ => StorageThread.starts_zero
  files := fun _ => rfl
  storable := fun _ => List.forall_mem_nil _

/-- Nodes of two partitions store at the same time, and their server ends inside the record of one of them. -/
def sideBySide : List DirectoryEvent :=
  (StorageThread.flushedStore.take 4).flatMap (fun e => [.storage (0, 0) e, .storage (1, 0) e]) ++
    [.restart (0, 0) (some 14) 0, .restart (1, 0) (some 5) 0]

theorem sideBySide_isSome :
    (Runs.exec (Runs.guarded (Whole .proto (0, 0)) (step .proto)) clean sideBySide).isSome := by
  decide +kernel

theorem loads_own_entries_sideBySide : ∃ r : Execution .proto, r.length = 10 ∧
    (r.states 10).files (storageLogEntryFilename (0, 0)) =
      some (Codec.proto.record LogEntryStorage.firstAdd) ∧
    (r.states 10).files (storageLogEntryFilename (1, 0)) =
      some ((Codec.proto.record LogEntryStorage.firstAdd).take 5) ∧
    ∃ es, (LogEntryStorage.loadLogEntryFromFile .proto
        ((r.states 10).files (storageLogEntryFilename (0, 0))) []).map Prod.snd = some es ∧
      List.Sublist es ((r.states 10).handed (0, 0)) := by
  let r : Execution .proto :=
    .ofEvents clean (starts_clean .proto) sideBySide (Runs.isSome_of_guarded sideBySide_isSome)
  exact ⟨r, rfl, by decide +kernel, by decide +kernel,
    loads_own_entries r (0, 0) (Runs.Run.ofEvents_always sideBySide_isSome) (show 10 ≤ 10 from le_rfl)⟩

end Directory

end FlowMQ
