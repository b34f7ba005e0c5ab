import FlowMQ.Storage

/-!
# Whole and torn log files

A log file that was saved and then appended to is read back entry by entry. A
file that ends early is read back up to the last complete record, unless it ends
behind the size and the space of a record: `load_log_entry_from_file` does not
ask how many bytes of the payload arrived, and appends one entry more.
-/

namespace FlowMQ

open TextStream

namespace LogEntryStorage

variable (c : Codec)

def saveLogEntryToFile (isOpen : Bool) (entries : List LogEntry) (file : Option Bytes) : Int × Option Bytes :=
  if !isOpen then (1, file) else (0, some (c.records entries))

def savedFile (entries : List LogEntry) (appends : List (List LogEntry)) (file : Option Bytes) :
    Option Bytes :=
  appends.foldl (fun file es => (appendLogEntryToFile c true es file).2)
    (saveLogEntryToFile c true entries file).2

theorem foldl_append (appends : List (List LogEntry)) (es : List LogEntry) :
    appends.foldl (fun file es => (appendLogEntryToFile c true es file).2) (some (c.records es)) =
      some (c.records (es ++ appends.flatten)) := by
  induction appends generalizing es with
  | nil => simp
  | cons es' appends ih =>
    have hstep : (appendLogEntryToFile c true es' (some (c.records es))).2 =
        some (c.records (es ++ es')) := by
      rw [records_append]
      rfl
    rw [List.foldl_cons, hstep, ih, List.flatten_cons, List.append_assoc]

/-- What was saved and appended is loaded, behind what the caller's list held. -/
theorem load_savedFile (file : Option Bytes) (entries : List LogEntry) (appends : List (List LogEntry))
    (hs : ∀ e ∈ entries ++ appends.flatten, c.Storable e) (out : List LogEntry) :
    loadLogEntryFromFile c (savedFile c entries appends file) out =
      some (0, out ++ (entries ++ appends.flatten)) := by
  have hfile : savedFile c entries appends file = some (c.records (entries ++ appends.flatten)) :=
    foldl_append c appends entries
  rw [hfile]
  exact load_records _ hs out

def oddEntry (messageId : Int) (message : Bytes) : LogEntry :=
  { index := 1, term := 1, messageId := messageId, operation := LogEntry.ADD, message := message }

theorem load_savedFile_odd :
    loadLogEntryFromFile .proto
        (savedFile .proto [oddEntry (-1) (toBytes "12 3\n")] [[], [oddEntry 48 [0, 32, 0]]] none)
        [LogEntry.dummy] =
      some (0, [LogEntry.dummy, oddEntry (-1) (toBytes "12 3\n"), oddEntry 48 [0, 32, 0]]) :=
  load_savedFile .proto none [oddEntry (-1) (toBytes "12 3\n")] [[], [oddEntry 48 [0, 32, 0]]] (by decide +kernel)
    [LogEntry.dummy]

/-! ## Torn files -/

/-- The log file of a server that ends inside `append_log_entry_to_file`, with the first `written` bytes in
the file. -/
def tornAppend (written : Nat) (entries : List LogEntry) (file : Option Bytes) : Option Bytes :=
  some (file.getD [] ++ (c.records entries).take written)

def BetweenRecords (entries : List LogEntry) (written : Nat) : Prop :=
  ∃ j ≤ entries.length, (c.records entries).take written = c.records (entries.take j)

instance (entries : List LogEntry) (written : Nat) : Decidable (BetweenRecords c entries written) :=
  inferInstanceAs (Decidable (∃ j ≤ entries.length, _))

section
variable {c}

theorem BetweenRecords.tornAppend {entries es : List LogEntry} {written : Nat}
    (h : BetweenRecords c entries written) {file : Option Bytes} (hfile : file.getD [] = c.records es) :
    ∃ j, (tornAppend c written entries file).getD [] = c.records (es ++ entries.take j) := by
  obtain ⟨j, -, hj⟩ := h
  exact ⟨j, by rw [LogEntryStorage.tornAppend, Option.getD_some, hfile, hj, records_append]⟩

theorem records_cons (e : LogEntry) (es : List LogEntry) : c.records (e :: es) = c.record e ++ c.records es :=
  List.flatMap_cons

theorem loadLoop_eof (fuel : Nat) {f : IStream} {entrySize : Int} (hf : (f.readInt entrySize).2.eof = true)
    (temp : Bytes) (entries : List LogEntry) :
    loadLoop c (fuel + 1) f entrySize temp entries = some (0, entries) := by
  simp [loadLoop, IStream.good, hf]

theorem loadLoop_payload (fuel : Nat) (e : LogEntry) (he : c.Storable e) {part : Bytes}
    (hpart : part.length < (c.serialize e).length) (entrySize : Int) (temp : Bytes)
    (entries : List LogEntry) :
    ∃ e', loadLoop c (fuel + 2) ⟨decimal (c.serialize e).length ++ 32 :: part, false, false⟩
      entrySize temp entries = some (0, entries ++ [e']) := by
  have hsize :=
    IStream.readInt_decimal entrySize (by exact_mod_cast he.2) (show isDigit 32 = false from rfl) part
  have hspace := IStream.read_append [32] part
  rw [List.singleton_append, List.length_singleton] at hspace
  rw [loadLoop, hsize]
  simp only [hspace, IStream.good, Int.toNat_natCast, IStream.read_short hpart]
  rw [if_pos (by decide), if_neg (by omega)]
  exact ⟨_, loadLoop_eof fuel rfl _ _⟩

structure Cut (c : Codec) (es : List LogEntry) (n k : Nat) : Prop where
  complete : (c.records (es.take k)).length ≤ n
  next : ∀ e, es[k]? = some e → n < (c.records (es.take k)).length + (c.record e).length

/-- The file does not end behind the size and the space of a record that is not complete. -/
def EndsBeforePayload (c : Codec) (es : List LogEntry) (n k : Nat) : Prop :=
  ∀ e, es[k]? = some e → n ≤ (c.records (es.take k)).length + (decimal (c.serialize e).length).length

theorem Cut.cons {e : LogEntry} {es : List LogEntry} {n k : Nat} (h : Cut c es n k) :
    Cut c (e :: es) ((c.record e).length + n) (k + 1) where
  complete := by
    have := h.complete
    simp only [List.take_succ_cons, records_cons, List.length_append]
    omega
  next := fun e' he' => by
    have := h.next e' he'
    simp only [List.take_succ_cons, records_cons, List.length_append]
    omega

theorem endsBeforePayload_cons {e : LogEntry} {es : List LogEntry} {n k : Nat} :
    EndsBeforePayload c (e :: es) ((c.record e).length + n) (k + 1) ↔ EndsBeforePayload c es n k := by
  simp only [EndsBeforePayload, List.getElem?_cons_succ, List.take_succ_cons, records_cons, List.length_append,
    Nat.add_assoc, Nat.add_le_add_iff_left]

theorem take_record {e : LogEntry} {n : Nat} (hn : n < (c.record e).length) (rest : Bytes) :
    (n ≤ (decimal (c.serialize e).length).length ∧
        (c.record e ++ rest).take n = (decimal (c.serialize e).length).take n) ∨
      ∃ part, part.length < (c.serialize e).length ∧ (decimal (c.serialize e).length).length < n ∧
        (c.record e ++ rest).take n = decimal (c.serialize e).length ++ 32 :: part := by
  rw [List.take_append_of_le_length hn.le, Codec.record]
  rcases Nat.lt_or_ge (decimal (c.serialize e).length).length n with h | h
  · right
    obtain ⟨j, rfl⟩ := Nat.exists_eq_add_of_lt h
    refine ⟨(c.serialize e).take j, ?_, h, ?_⟩
    · simp only [Codec.record, List.length_append, List.length_cons] at hn
      rw [List.length_take]
      omega
    · rw [Nat.add_assoc, List.take_length_add_append, List.take_succ_cons]
  · exact Or.inl ⟨h, List.take_append_of_le_length h⟩

/-- The loop on a torn file, by induction on the records: it stops where the file ends, with one entry too
many behind the space of a size. -/
theorem loadLoop_torn (es : List LogEntry) (hs : ∀ e ∈ es, c.Storable e) (n fuel : Nat)
    (hf : ((c.records es).take n).length < fuel) (entrySize : Int) (temp : Bytes) (entries : List LogEntry) :
    ∃ k, Cut c es n k ∧
      (EndsBeforePayload c es n k →
        loadLoop c fuel ⟨(c.records es).take n, false, false⟩ entrySize temp entries =
          some (0, entries ++ es.take k)) ∧
      (¬ EndsBeforePayload c es n k → ∃ e',
        loadLoop c fuel ⟨(c.records es).take n, false, false⟩ entrySize temp entries =
          some (0, entries ++ es.take k ++ [e'])) := by
  induction es generalizing n fuel entrySize temp entries with
  | nil =>
    obtain ⟨fuel, rfl⟩ : ∃ m, fuel = m + 1 := ⟨fuel - 1, by omega⟩
    have hstop : loadLoop c (fuel + 1) ⟨(c.records []).take n, false, false⟩ entrySize temp entries =
        some (0, entries) := by
      refine loadLoop_eof fuel ?_ temp entries
      rw [Codec.records, List.flatMap_nil, List.take_nil]
      exact IStream.readInt_eof entrySize (by simp)
    refine ⟨0, ⟨by simp [Codec.records], by simp⟩, fun _ => by simpa using hstop, fun h => absurd ?_ h⟩
    simp [EndsBeforePayload]
  | cons e es ih =>
    have he := hs e List.mem_cons_self
    rw [records_cons] at hf ⊢
    rcases Nat.lt_or_ge n (c.record e).length with hn | hn
    · have hcut : Cut c (e :: es) n 0 := ⟨by simp [Codec.records], by simpa [Codec.records] using hn⟩
      have hends : EndsBeforePayload c (e :: es) n 0 ↔ n ≤ (decimal (c.serialize e).length).length := by
        simp [EndsBeforePayload, Codec.records]
      refine ⟨0, hcut, ?_⟩
      rcases take_record hn (c.records es) with ⟨hle, htake⟩ | ⟨part, hpart, hlt, htake⟩
      · rw [htake] at hf ⊢
        obtain ⟨fuel, rfl⟩ : ∃ m, fuel = m + 1 := ⟨fuel - 1, by omega⟩
        refine ⟨fun _ => ?_, fun h => absurd (hends.mpr hle) h⟩
        rw [List.take_zero, List.append_nil]
        refine loadLoop_eof fuel (IStream.readInt_eof entrySize fun b hb => ?_) temp entries
        exact isDigit_decimal _ b (List.mem_of_mem_take hb)
      · rw [htake] at hf ⊢
        obtain ⟨fuel, rfl⟩ : ∃ m, fuel = m + 2 := ⟨fuel - 2, by
          rw [List.length_append, List.length_cons] at hf
          omega⟩
        refine ⟨fun h => absurd (hends.mp h) (by omega), fun _ => ?_⟩
        rw [List.take_zero, List.append_nil]
        exact loadLoop_payload fuel e he hpart entrySize temp entries
    · obtain ⟨m, rfl⟩ := Nat.exists_eq_add_of_le hn
      rw [List.take_length_add_append] at hf ⊢
      obtain ⟨fuel, rfl⟩ : ∃ j, fuel = j + 1 := ⟨fuel - 1, by omega⟩
      have hpos : 0 < (c.record e).length := by simp [Codec.record]
      rw [List.length_append] at hf
      obtain ⟨k, hcut, hgood, hbad⟩ := ih (fun e' he' => hs e' (List.mem_cons_of_mem e he')) m fuel (by omega)
        (c.serialize e).length (c.serialize e) (entries ++ [e])
      refine ⟨k + 1, hcut.cons, ?_, ?_⟩
      · intro h
        rw [loadLoop_record fuel e he, hgood (endsBeforePayload_cons.mp h), List.take_succ_cons, List.append_assoc,
          List.singleton_append]
      · intro h
        obtain ⟨e', h'⟩ := hbad fun h' => h (endsBeforePayload_cons.mpr h')
        refine ⟨e', ?_⟩
        rw [loadLoop_record fuel e he, h', List.take_succ_cons]
        simp

end

/-- The first `n` bytes of a log file are loaded as the complete records exactly if they do not end inside a
payload, or right before one. -/
theorem load_torn_iff (es : List LogEntry) (hs : ∀ e ∈ es, c.Storable e) (n : Nat) (out : List LogEntry) :
    ∃ k, Cut c es n k ∧
      ((loadLogEntryFromFile c (some ((c.records es).take n)) out).map Prod.snd = some (out ++ es.take k) ↔
        EndsBeforePayload c es n k) := by
  obtain ⟨k, hcut, hgood, hbad⟩ :=
    loadLoop_torn es hs n (((c.records es).take n).length + 1) (Nat.lt_succ_self _) 0 [] out
  refine ⟨k, hcut, ?_⟩
  constructor
  · intro h
    by_contra hends
    obtain ⟨e', h'⟩ := hbad hends
    have hload : loadLogEntryFromFile c (some ((c.records es).take n)) out =
        some (0, out ++ es.take k ++ [e']) := h'
    rw [hload] at h
    simpa using congrArg List.length (Option.some.inj h)
  · intro hends
    have hload : loadLogEntryFromFile c (some ((c.records es).take n)) out = some (0, out ++ es.take k) :=
      hgood hends
    rw [hload]
    rfl

def firstAdd : LogEntry :=
  { index := 1, term := 1, messageId := 7, operation := LogEntry.ADD, message := toBytes "a" }

def secondAdd : LogEntry :=
  { index := 2, term := 1, messageId := 8, operation := LogEntry.ADD, message := toBytes "b" }

theorem load_torn_iff_secondAdd : ∃ k, Cut .proto [firstAdd, secondAdd] 20 k ∧
    ((loadLogEntryFromFile .proto (some ((Codec.proto.records [firstAdd, secondAdd]).take 20)) []).map Prod.snd =
        some ([] ++ [firstAdd, secondAdd].take k) ↔ EndsBeforePayload .proto [firstAdd, secondAdd] 20 k) :=
  load_torn_iff .proto [firstAdd, secondAdd] (by decide +kernel) 20 []

/-- The size and the space of the second record are there, nothing else: the first entry is loaded twice. -/
theorem not_load_torn : Cut .proto [firstAdd, secondAdd] 17 1 ∧
    loadLogEntryFromFile .proto (some ((Codec.proto.records [firstAdd, secondAdd]).take 17)) [] =
      some (0, [firstAdd, firstAdd]) ∧
    (loadLogEntryFromFile .proto (some ((Codec.proto.records [firstAdd, secondAdd]).take 17)) []).map Prod.snd ≠
      some ([firstAdd, secondAdd].take 1) := by
  refine ⟨⟨by decide +kernel, fun e he => ?_⟩, by decide +kernel, by decide +kernel⟩
  cases he
  decide +kernel

end LogEntryStorage

end FlowMQ
