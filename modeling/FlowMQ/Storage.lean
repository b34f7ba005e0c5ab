import FlowMQ.FlowMessage
import FlowMQ.Lib.Schema
import FlowMQ.Lib.TextStream

/-!
# Log and metadata files

`LogEntryStorage`, `MetadataStorage` and `ClusterNodeStorage`. A record of the
log file is the size of the serialised entry in decimal, a space, and the
serialised entry. `ClusterNodeStorage` collects what is to be stored in buffers,
and its thread appends them to the log file and rewrites the metadata file.
-/

namespace FlowMQ

open TextStream

def LogEntry.Fits (e : LogEntry) : Prop :=
  Wire.Fits32 e.index ∧ Wire.Fits32 e.term ∧ Wire.Fits64 e.messageId ∧ Wire.Fits32 e.operation ∧
    e.message.length < 2 ^ 31

instance (e : LogEntry) : Decidable e.Fits := inferInstanceAs (Decidable (_ ∧ _))

/-- `SerializeAsString` of a log entry, and the entry that `ParseFromString` leaves, whatever the text. -/
structure Codec where
  serialize : LogEntry → Bytes
  parse : Bytes → LogEntry
  parse_serialize : ∀ e, e.Fits → parse (serialize e) = e

namespace Codec

variable (c : Codec)

/-- The size of the serialised entry is written and read as an `int`. -/
def Storable (e : LogEntry) : Prop := e.Fits ∧ (c.serialize e).length < 2 ^ 31

instance (e : LogEntry) : Decidable (c.Storable e) := inferInstanceAs (Decidable (_ ∧ _))

def record (e : LogEntry) : Bytes := decimal (c.serialize e).length ++ 32 :: c.serialize e

def records (entries : List LogEntry) : Bytes := entries.flatMap c.record

end Codec

/-! ## Log entries in the wire format -/

namespace LogEntry

open Wire Wire.Slot Wire.Kind

def schema : Schema LogEntry where
  empty := ⟨0, 0, 0, 0, []⟩
  slots :=
    [.required 1 .int32 LogEntry.index fun e z => { e with index := z },
      .required 2 .int32 LogEntry.term fun e z => { e with term := z },
      .required 3 .int64 LogEntry.messageId fun e z => { e with messageId := z },
      .required 4 .int32 LogEntry.operation fun e z => { e with operation := z },
      .required 5 .string LogEntry.message fun e b => { e with message := b }]
  small := by decide
  distinct := by decide

theorem fields_eq (e : LogEntry) :
    schema.fields e = [(1, .varint (ofInt e.index)), (2, .varint (ofInt e.term)),
    (3, .varint (ofInt e.messageId)), (4, .varint (ofInt e.operation)), (5, .bytes e.message)] := rfl

theorem length_serialize_le (e : LogEntry) : (schema.serialize e).length ≤ 55 + e.message.length := by
  rw [Schema.serialize, fields_eq]
  refine (length_fields_le (by simp)).trans ?_
  simp only [List.map_cons, List.map_nil, List.sum_cons, List.sum_nil, Value.room]
  omega

theorem restores {e : LogEntry} (h : e.Fits) (hlen : (schema.serialize e).length < 2 ^ 64) :
    schema.Restores e := by
  rw [Schema.Restores, Schema.merge_serialize hlen]
  simp only [schema]
  rw [copyAll_required (reads_int32 h.1), copyAll_required (reads_int32 h.2.1),
    copyAll_required (reads_int64 h.2.2.1), copyAll_required (reads_int32 h.2.2.2.1),
    copyAll_required (reads_string e.message)] <;> rfl

end LogEntry

/-- The codec of the message type `LogEntry`: all five fields are required, so all are written. -/
def Codec.proto : Codec where
  serialize := LogEntry.schema.serialize
  parse := LogEntry.schema.parse
  parse_serialize e he := by
    have hlen := e.length_serialize_le
    have hmessage := he.2.2.2.2
    exact (LogEntry.restores he (by omega)).parse

/-! ## Files -/

def resize (n : Nat) (s : Bytes) : Bytes := s.take n ++ List.replicate (n - s.length) 0

namespace LogEntryStorage

variable (c : Codec)

def appendLogEntryToFile (isOpen : Bool) (entries : List LogEntry) (file : Option Bytes) :
    Int × Option Bytes :=
  if !isOpen then (1, file) else (0, some (file.getD [] ++ c.records entries))

/-- The loop of `load_log_entry_from_file`. `entrySize` and `temp` outlive a round.
`none` is the exception of `temp.resize` with a negative size. -/
def loadLoop : Nat → IStream → Int → Bytes → List LogEntry → Option (Int × List LogEntry)
  | 0, _, _, _, _ => none
  | fuel + 1, f, entrySize, temp, entries =>
    let (entrySize, f) := f.readInt entrySize
    if !f.fail && f.good then
      let (_, f) := f.read 1
      if entrySize < 0 then none
      else
        let temp := resize entrySize.toNat temp
        let (got, f) := f.read entrySize.toNat
        let temp := got ++ temp.drop got.length
        loadLoop fuel f entrySize temp (entries ++ [c.parse temp])
    else some (if f.eof then 0 else 1, entries)

/-- `load_log_entry_from_file`: the return value, and `entries` with what was loaded. Every round takes at
least one byte, so the length of the file bounds them. -/
def loadLogEntryFromFile (file : Option Bytes) (entries : List LogEntry) : Option (Int × List LogEntry) :=
  loadLoop c ((file.getD []).length + 1) (IStream.ofFile file) 0 [] entries

end LogEntryStorage

namespace MetadataStorage

def saveMetadataToFile (isOpen : Bool) (lastCommitted : Int) (file : Option Bytes) : Int × Option Bytes :=
  if !isOpen then (1, file) else (0, some (decimalInt lastCommitted ++ [32]))

/-- `load_metadata_from_file`: the return value, and what `last_committed` is afterwards. -/
def loadMetadataFromFile (file : Option Bytes) (lastCommitted : Int) : Int × Int :=
  (0, ((IStream.ofFile file).readInt lastCommitted).1)

end MetadataStorage

structure ClusterNodeStorage where
  logEntryBuffers : List LogEntry
  metadataBuffer : Int
  logFile : Option Bytes
  metadataFile : Option Bytes

/-- The range `[start, stop)` of a log. Outside the log it is undefined in the source. -/
def logRange (entries : List LogEntry) (start stop : Int) : List LogEntry :=
  (entries.drop start.toNat).take (stop - start).toNat

namespace ClusterNodeStorage

/-- Storage without files. The constructor leaves `metadata_buffer_` uninitialised. -/
def empty (metadataBuffer : Int) : ClusterNodeStorage :=
  { logEntryBuffers := [], metadataBuffer := metadataBuffer, logFile := none, metadataFile := none }

def storeLogEntriesAndMetadata (entries : List LogEntry) (start stop metadata : Int)
    (s : ClusterNodeStorage) :
    ClusterNodeStorage :=
  { s with logEntryBuffers := s.logEntryBuffers ++ logRange entries start stop, metadataBuffer := metadata }

def consumeAndStoreMessages (c : Codec) (logOpen metadataOpen : Bool) (s : ClusterNodeStorage) :
    ClusterNodeStorage :=
  { s with
    logEntryBuffers := []
    logFile := (LogEntryStorage.appendLogEntryToFile c logOpen s.logEntryBuffers s.logFile).2
    metadataFile := (MetadataStorage.saveMetadataToFile metadataOpen s.metadataBuffer s.metadataFile).2 }

end ClusterNodeStorage

/-! ## What is written is read back -/

section
variable {c : Codec}

theorem loadLoop_record (fuel : Nat) (e : LogEntry) (he : c.Storable e) (rest : Bytes)
    (entrySize : Int) (temp : Bytes) (entries : List LogEntry) :
    LogEntryStorage.loadLoop c (fuel + 1) ⟨c.record e ++ rest, false, false⟩ entrySize temp entries =
      LogEntryStorage.loadLoop c fuel ⟨rest, false, false⟩ (c.serialize e).length (c.serialize e)
      (entries ++ [e]) := by
  have hsize := IStream.readInt_decimal entrySize (by exact_mod_cast he.2) (show isDigit 32 = false from rfl)
    (c.serialize e ++ rest)
  have hspace := IStream.read_append [32] (c.serialize e ++ rest)
  have hbody := IStream.read_append (c.serialize e) rest
  rw [LogEntryStorage.loadLoop, Codec.record, List.append_assoc, List.cons_append, hsize]
  simp only [List.singleton_append, List.length_singleton] at hspace
  simp only [hspace, IStream.good, Int.toNat_natCast, hbody]
  rw [if_pos (by decide), if_neg (by omega)]
  have htemp : (resize (c.serialize e).length temp).drop (c.serialize e).length = [] := by
    refine List.drop_eq_nil_of_le ?_
    simp only [resize, List.length_append, List.length_take, List.length_replicate]
    omega
  rw [htemp, List.append_nil, c.parse_serialize e he.1]

theorem loadLoop_records (es : List LogEntry) (he : ∀ e ∈ es, c.Storable e) (fuel : Nat)
    (hf : es.length < fuel) (entrySize : Int) (temp : Bytes) (entries : List LogEntry) :
    LogEntryStorage.loadLoop c fuel ⟨c.records es, false, false⟩ entrySize temp entries =
      some (0, entries ++ es) := by
  induction es generalizing fuel entrySize temp entries with
  | nil =>
    obtain ⟨fuel, rfl⟩ : ∃ k, fuel = k + 1 := ⟨fuel - 1, by simp at hf; omega⟩
    simp [LogEntryStorage.loadLoop, Codec.records, IStream.readInt, IStream.good]
  | cons e es ih =>
    obtain ⟨fuel, rfl⟩ : ∃ k, fuel = k + 1 := ⟨fuel - 1, by simp at hf; omega⟩
    have hrec : c.records (e :: es) = c.record e ++ c.records es := rfl
    rw [hrec, loadLoop_record fuel e (he e (by simp)),
      ih (fun x hx => he x (by simp [hx])) fuel (by simpa using hf)]
    simp

theorem length_le_records (es : List LogEntry) : es.length ≤ (c.records es).length := by
  induction es with
  | nil => simp
  | cons e es ih =>
    have hrec : c.records (e :: es) = c.record e ++ c.records es := rfl
    rw [hrec, List.length_cons, List.length_append]
    have hpos : 0 < (c.record e).length := by simp [Codec.record]
    omega

theorem load_records (es : List LogEntry) (he : ∀ e ∈ es, c.Storable e) (entries : List LogEntry) :
    LogEntryStorage.loadLogEntryFromFile c (some (c.records es)) entries = some (0, entries ++ es) :=
  loadLoop_records es he _ (Nat.lt_succ_of_le (length_le_records es)) 0 [] entries

theorem load_metadata (v old : Int) (hv : -2 ^ 31 ≤ v ∧ v < 2 ^ 31) :
    MetadataStorage.loadMetadataFromFile (some (decimalInt v ++ [32])) old = (0, v) := by
  rw [MetadataStorage.loadMetadataFromFile, IStream.ofFile,
    IStream.readInt_decimalInt old v hv (show isDigit 32 = false from rfl) []]

end

/-! ## Runs of the storage -/

inductive StorageOp where
  | store (entries : List LogEntry) (start stop metadata : Int)
  | flush

namespace StorageOp

def isStore : StorageOp → Bool
  | .store .. => true
  | .flush => false

def perform (c : Codec) (s : ClusterNodeStorage) : StorageOp → ClusterNodeStorage
  | .store entries start stop metadata => s.storeLogEntriesAndMetadata entries start stop metadata
  | .flush => s.consumeAndStoreMessages c true true

def entries (ops : List StorageOp) : List LogEntry :=
  ops.flatMap fun
    | .store entries start stop _ => logRange entries start stop
    | .flush => []

def metadata (m : Int) (ops : List StorageOp) : Int :=
  ops.foldl (fun m op => match op with | .store _ _ _ m' => m' | .flush => m) m

end StorageOp

theorem records_append (c : Codec) (es es' : List LogEntry) :
    c.records (es ++ es') = c.records es ++ c.records es' :=
  List.flatMap_append ..

theorem storage_run (c : Codec) (ops : List StorageOp) (s : ClusterNodeStorage) :
    ((ops.foldl (StorageOp.perform c) s).logFile.getD [] ++
        c.records (ops.foldl (StorageOp.perform c) s).logEntryBuffers =
      s.logFile.getD [] ++ c.records s.logEntryBuffers ++ c.records (StorageOp.entries ops)) ∧
    (ops.foldl (StorageOp.perform c) s).metadataBuffer = StorageOp.metadata s.metadataBuffer ops := by
  induction ops generalizing s with
  | nil => simp [StorageOp.entries, StorageOp.metadata, Codec.records]
  | cons op ops ih =>
    obtain ⟨hlog, hmeta⟩ := ih (StorageOp.perform c s op)
    rw [List.foldl_cons, hlog, hmeta]
    cases op with
    | store entries start stop m =>
      have hops : StorageOp.entries (.store entries start stop m :: ops) =
        logRange entries start stop ++ StorageOp.entries ops := rfl
      refine ⟨?_, rfl⟩
      rw [hops, records_append]
      simp only [StorageOp.perform, ClusterNodeStorage.storeLogEntriesAndMetadata, records_append,
        List.append_assoc]
    | flush =>
      have hops : StorageOp.entries (.flush :: ops) = StorageOp.entries ops := rfl
      refine ⟨?_, rfl⟩
      rw [hops]
      simp [StorageOp.perform, ClusterNodeStorage.consumeAndStoreMessages,
        LogEntryStorage.appendLogEntryToFile, Codec.records]

theorem storage_flushed (c : Codec) (ops : List StorageOp) (m : Int) :
    ((ops.foldl (StorageOp.perform c) (.empty m)).consumeAndStoreMessages c true true).logFile =
        some (c.records (StorageOp.entries ops)) ∧
      ((ops.foldl (StorageOp.perform c) (.empty m)).consumeAndStoreMessages c true true).metadataFile =
        some (decimalInt (StorageOp.metadata m ops) ++ [32]) := by
  obtain ⟨hlog, hmeta⟩ := storage_run c ops (.empty m)
  simp only [ClusterNodeStorage.consumeAndStoreMessages, LogEntryStorage.appendLogEntryToFile,
    MetadataStorage.saveMetadataToFile]
  rw [if_neg (by decide), if_neg (by decide), hlog, hmeta]
  exact ⟨rfl, rfl⟩

end FlowMQ
