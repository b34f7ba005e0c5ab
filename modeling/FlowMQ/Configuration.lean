import FlowMQ.ClusterNode
import FlowMQ.Lib.StdString

/-!
# Configuration files

`load_config` goes through a file line by line. A line with a `=` must have
something other than spaces on both sides of it: `strip` looks for the first and
the last character that is no space and cuts there, and where there is none the
cut starts at `npos` and throws. So the test for an empty key or value in
`get_key_value` is never true.
-/

namespace FlowMQ

open StdString TextStream

deriving instance DecidableEq, Repr for ServerNode

structure ServerConfiguration where
  currentNode : Int
  serverNodes : List ServerNode
  partitionsIds : List Int
  deriving DecidableEq, Repr

namespace ServerConfigurationLoader

/-- The length is computed as a `size_t`. -/
def strip (str : StdString) : Except StdException StdString :=
  let start := str.findFirstNotOf 32
  let stop := str.findLastNotOf 32
  str.substr start ((stop + 2 ^ 64 - start + 1) % 2 ^ 64)

/-- The result, and what `*key` and `*value` hold after the call. -/
def getKeyValue (line key value : StdString) : Except StdException (Bool × StdString × StdString) :=
  let del := line.findFirstOf 61
  if del = npos then .ok (false, key, value)
  else do
    let front ← line.substr 0 del
    let key ← strip front
    let back ← line.substr (del + 1) npos
    let value ← strip back
    .ok (!key.isEmpty && !value.isEmpty, key, value)

structure Loader where
  config : ServerConfiguration
  id : Bytes
  host : Bytes
  clusterPort : Bytes
  clientPort : Bytes
  deriving DecidableEq, Repr

namespace Loader

def assign (key value : Bytes) (s : Loader) : Except StdException Loader :=
  if key = toBytes "current_node" then
    (stoi value).map fun n => { s with config := { s.config with currentNode := n } }
  else if key = toBytes "id" then .ok { s with id := value }
  else if key = toBytes "host" then .ok { s with host := value }
  else if key = toBytes "cluster_port" then .ok { s with clusterPort := value }
  else if key = toBytes "client_port" then .ok { s with clientPort := value }
  else if key = toBytes "partition_id" then
    (stoll value).map fun n =>
      { s with config := { s.config with partitionsIds := s.config.partitionsIds ++ [n] } }
  else .error (.logicError (toBytes "Failured parsing Config file, unknown key name : " ++ key))

def Full (s : Loader) : Prop := s.id ≠ [] ∧ s.host ≠ [] ∧ s.clusterPort ≠ [] ∧ s.clientPort ≠ []

instance (s : Loader) : Decidable s.Full := inferInstanceAs (Decidable (_ ∧ _))

def pushNode (s : Loader) : Except StdException Loader :=
  if s.Full then
    (stoi s.id).map fun n =>
      { config := { s.config with
          serverNodes := s.config.serverNodes ++ [⟨n, s.host, s.clusterPort, s.clientPort⟩] }
        id := [], host := [], clusterPort := [], clientPort := [] }
  else .ok s

def line (line : StdString) (s : Loader) : Except StdException Loader :=
  if line.isEmpty || line.bytes.head? = some 35 then .ok s
  else do
    let (found, key, value) ← getKeyValue line .empty .empty
    if !found then .ok s
    else do
      let s ← s.assign key.bytes value.bytes
      s.pushNode

end Loader

/-- Every line that is read takes at least one byte, so the fuel does not run out. -/
def loadLoop : Nat → IStream → Loader → Except StdException Loader
  | 0, _, s => .ok s
  | fuel + 1, f, s =>
    match getline f with
    | none => .ok s
    | some (line, f) => do
      let s ← s.line line
      loadLoop fuel f s

/-- `currentNode` is what the member that is not initialised holds. -/
def loadConfig (currentNode : Int) (inStream : IStream) : Except StdException ServerConfiguration :=
  (loadLoop (inStream.data.length + 1) inStream
    { config := ⟨currentNode, [], []⟩, id := [], host := [], clusterPort := [], clientPort := [] }).map
      Loader.config

/-! ## Keys and values -/

theorem strip_trimmed {str : StdString} {core : Bytes} (h : Trimmed 32 str.bytes core) (hne : core ≠ []) :
    ∃ s, strip str = .ok s ∧ s.bytes = core := by
  obtain ⟨a, b, hstr⟩ := h.padded
  obtain ⟨x, rest, hx⟩ := List.exists_cons_of_ne_nil hne
  obtain ⟨init, y, hy⟩ : ∃ init y, core = init ++ [y] := ⟨_, _, (List.dropLast_append_getLast hne).symm⟩
  have hx' : x ≠ 32 := fun he => h.front (by simp [hx, he])
  have hy' : y ≠ 32 := fun he => h.back (by simp [hy, he])
  have hstart : str.findFirstNotOf 32 = a := by
    have hsplit : str.bytes = List.replicate a 32 ++ x :: (rest ++ List.replicate b 32) := by simp [hstr, hx]
    rw [findFirstNotOf, findFirst_append hsplit (by simp) (by simpa using hx'), List.length_replicate]
  have hstop : str.findLastNotOf 32 = a + init.length := by
    have hsplit : str.bytes = (List.replicate a 32 ++ init) ++ y :: List.replicate b 32 := by simp [hstr, hy]
    rw [findLastNotOf, findLast_append hsplit (by simp) (by simpa using hy'), List.length_append,
      List.length_replicate]
  have hlen : str.bytes.length = a + (core.length + b) := by simp [hstr]
  have hcore : core.length = init.length + 1 := by simp [hy]
  have hbound := str.bounded
  have hpos : a ≤ str.bytes.length := by omega
  obtain ⟨t, ht, hbytes⟩ := substr_ok hpos core.length
  have hcount : (a + init.length + 2 ^ 64 - a + 1) % 2 ^ 64 = core.length := by
    unfold npos at hbound
    omega
  refine ⟨t, ?_, ?_⟩
  · rw [strip, hstart, hstop, hcount, ht]
  · rw [hbytes, hstr, List.append_assoc, List.drop_left' (by simp), List.take_left]

theorem strip_spaces {str : StdString} (h : ∀ b ∈ str.bytes, b = 32) : strip str = .error .outOfRange := by
  have hstart : str.findFirstNotOf 32 = npos := findFirst_eq_npos (by simpa using h)
  rw [strip, hstart]
  exact substr_npos _ str

section
variable {line : StdString} (key value : StdString) {front back k v : Bytes}
  (hline : line.bytes = front ++ 61 :: back) (hfront : 61 ∉ front) (hk : Trimmed 32 front k)
  (hv : Trimmed 32 back v)
include hline hfront

theorem getKeyValue_eq : ∃ f b : StdString, f.bytes = front ∧ b.bytes = back ∧ getKeyValue line key value =
    (strip f).bind fun key => (strip b).bind fun value =>
    .ok (!key.isEmpty && !value.isEmpty, key, value) := by
  have hlen : line.bytes.length = front.length + back.length + 1 := by
    rw [hline, List.length_append, List.length_cons]
    omega
  have hbound := line.bounded
  have hdel : line.findFirstOf 61 = front.length :=
    findFirst_append hline (fun b hb => decide_eq_false fun he => hfront (he ▸ hb)) (by decide)
  have hpos : front.length + 1 ≤ line.bytes.length := by omega
  obtain ⟨f, hf, hfb⟩ := substr_ok (Nat.zero_le line.bytes.length) front.length
  obtain ⟨b, hb, hbb⟩ := substr_ok hpos npos
  refine ⟨f, b, ?_, ?_, ?_⟩
  · rw [hfb, hline, List.drop_zero, List.take_left]
  · have hdrop : (front ++ 61 :: back).drop (front.length + 1) = back := by simp
    rw [hbb, hline, hdrop, List.take_of_length_le (by omega)]
  · rw [getKeyValue, hdel, if_neg (by omega), hf, hb]
    rfl

include hk hv

theorem getKeyValue_ok (hkne : k ≠ []) (hvne : v ≠ []) :
    ∃ key' value', getKeyValue line key value = .ok (true, key', value') ∧
    key'.bytes = k ∧ value'.bytes = v := by
  obtain ⟨f, b, rfl, rfl, heq⟩ := getKeyValue_eq key value hline hfront
  obtain ⟨key', hkey, rfl⟩ := strip_trimmed hk hkne
  obtain ⟨value', hvalue, rfl⟩ := strip_trimmed hv hvne
  refine ⟨key', value', ?_, rfl, rfl⟩
  rw [heq, hkey, hvalue]
  simp [Except.bind, isEmpty, hkne, hvne]

/-- The test for an empty key or value is not reached. -/
theorem getKeyValue_error (h : k = [] ∨ v = []) : getKeyValue line key value = .error .outOfRange := by
  obtain ⟨f, b, rfl, rfl, heq⟩ := getKeyValue_eq key value hline hfront
  rw [heq]
  by_cases hkne : k = []
  · rw [strip_spaces (hk.eq_nil_iff.mp hkne)]
    rfl
  · obtain ⟨key', hkey, -⟩ := strip_trimmed hk hkne
    rw [hkey, strip_spaces (hv.eq_nil_iff.mp (h.resolve_left hkne))]
    rfl

end

theorem getKeyValue_none {line : StdString} (h : 61 ∉ line.bytes) (key value : StdString) :
    getKeyValue line key value = .ok (false, key, value) := by
  have hdel : line.findFirstOf 61 = npos :=
    findFirst_eq_npos fun b hb => decide_eq_false fun he => h (he ▸ hb)
  rw [getKeyValue, hdel, if_pos rfl]

def before (line : StdString) : Bytes := line.bytes.takeWhile (· ≠ 61)

def after (line : StdString) : Bytes := (line.bytes.dropWhile (· ≠ 61)).tail

def HasKeyValue (line : StdString) : Prop :=
  61 ∈ line.bytes ∧ (∃ b ∈ before line, b ≠ 32) ∧ ∃ b ∈ after line, b ≠ 32

instance (line : StdString) : Decidable (HasKeyValue line) := inferInstanceAs (Decidable (_ ∧ _ ∧ _))

/-- `get_key_value` returns, finds a key and a value where they are, and strips them of their spaces and of
nothing else. -/
def Promised (line key value : StdString) : Prop := ∃ found key' value',
  getKeyValue line key value = .ok (found, key', value') ∧ (found = true ↔ HasKeyValue line) ∧
    (found = true → Trimmed 32 (before line) key'.bytes ∧ Trimmed 32 (after line) value'.bytes)

theorem before_after {line : StdString} (h : 61 ∈ line.bytes) :
    line.bytes = before line ++ 61 :: after line := by
  have hsplit := List.takeWhile_append_dropWhile (p := (· ≠ 61)) (l := line.bytes)
  have hhead := List.head?_dropWhile_not (· ≠ 61) line.bytes
  unfold before after
  cases hdrop : line.bytes.dropWhile (· ≠ 61) with
  | nil => exact absurd (List.dropWhile_eq_nil_iff.mp hdrop 61 h) (by decide)
  | cons x rest =>
    rw [hdrop] at hsplit hhead
    obtain rfl : x = 61 := by simpa using hhead
    exact hsplit.symm

theorem exists_ne_iff {text core : Bytes} (h : Trimmed 32 text core) : (∃ b ∈ text, b ≠ 32) ↔ core ≠ [] := by
  rw [ne_eq, h.eq_nil_iff]
  push Not
  rfl

/-- The promise is kept for exactly the lines without a `=` and those with a key and a value. -/
theorem promised_iff (line key value : StdString) :
    Promised line key value ↔ (61 ∈ line.bytes → HasKeyValue line) := by
  by_cases hin : 61 ∈ line.bytes
  · have hline := before_after hin
    have hfront : 61 ∉ before line := fun h => by simpa using List.mem_takeWhile_imp h
    obtain ⟨k, hk⟩ := exists_trimmed 32 (before line)
    obtain ⟨v, hv⟩ := exists_trimmed 32 (after line)
    have hhas : HasKeyValue line ↔ k ≠ [] ∧ v ≠ [] := by
      rw [HasKeyValue, exists_ne_iff hk, exists_ne_iff hv, and_iff_right hin]
    by_cases hne : k ≠ [] ∧ v ≠ []
    · obtain ⟨key', value', hok, rfl, rfl⟩ := getKeyValue_ok key value hline hfront hk hv hne.1 hne.2
      refine iff_of_true ⟨true, key', value', hok, ?_, fun _ => ⟨hk, hv⟩⟩ fun _ => hhas.mpr hne
      exact iff_of_true rfl (hhas.mpr hne)
    · have herror := getKeyValue_error key value hline hfront hk hv (by tauto)
      refine iff_of_false ?_ fun h => hne (hhas.mp (h hin))
      rintro ⟨found, key', value', hok, -⟩
      rw [herror] at hok
      cases hok
  · have hnone := getKeyValue_none hin key value
    refine iff_of_true ⟨false, key, value, hnone, ?_, ?_⟩ fun h => absurd h hin
    · exact iff_of_false (by decide) fun h => hin h.1
    · exact fun h => by cases h

def noValue : StdString := ⟨toBytes "host =", by decide +kernel⟩

theorem not_promised_noValue : ¬ Promised noValue .empty .empty ∧
    loadConfig 0 ⟨noValue.bytes ++ [10], false, false⟩ = .error .outOfRange := by
  have herror : getKeyValue noValue .empty .empty = .error .outOfRange := by decide +kernel
  refine ⟨?_, by decide +kernel⟩
  rintro ⟨found, key', value', hok, -⟩
  rw [herror] at hok
  cases hok

end ServerConfigurationLoader

end FlowMQ
