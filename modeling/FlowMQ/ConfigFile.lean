import FlowMQ.Configuration

/-!
# Reading back a configuration

A file gives each node by four `key = value` lines in any order, the nodes one
after another, with any number of spaces. Everything else may stand anywhere:
empty lines, comments, lines without a `=`, and the lines for the partitions and
the current node. `load_config` keeps the fields of the node it is in; whatever
comes between them, they are complete when the fourth one has been read and not
before.
-/

namespace FlowMQ

open StdString TextStream

inductive NodeKey where
  | id
  | host
  | clusterPort
  | clientPort
  deriving DecidableEq, Repr

def NodeKey.name : NodeKey → Bytes
  | .id => toBytes "id"
  | .host => toBytes "host"
  | .clusterPort => toBytes "cluster_port"
  | .clientPort => toBytes "client_port"

def ServerNode.text (n : ServerNode) : NodeKey → Bytes
  | .id => decimalInt n.id
  | .host => n.host
  | .clusterPort => n.clusterPort
  | .clientPort => n.clientPort

def ServerNode.fields (n : ServerNode) : List (NodeKey × Bytes) :=
  [.id, .host, .clusterPort, .clientPort].map fun k => (k, n.text k)

structure Plain (text : Bytes) : Prop where
  ne_nil : text ≠ []
  front : text.head? ≠ some 32
  back : text.getLast? ≠ some 32

structure ServerNode.Writable (n : ServerNode) : Prop where
  id : -2 ^ 31 ≤ n.id ∧ n.id < 2 ^ 31
  plain : ∀ text ∈ [n.host, n.clusterPort, n.clientPort], Plain text ∧ 10 ∉ text

inductive Setting where
  | currentNode (n : Int)
  | partitionId (n : Int)
  | field (key : NodeKey) (value : Bytes)
  deriving DecidableEq, Repr

namespace Setting

def key : Setting → Bytes
  | .currentNode _ => toBytes "current_node"
  | .partitionId _ => toBytes "partition_id"
  | .field key _ => key.name

def value : Setting → Bytes
  | .currentNode n => decimalInt n
  | .partitionId n => decimalInt n
  | .field _ value => value

def current? : Setting → Option Int
  | .currentNode n => some n
  | _ => none

def partition? : Setting → Option Int
  | .partitionId n => some n
  | _ => none

def field? : Setting → Option (NodeKey × Bytes)
  | .field key value => some (key, value)
  | _ => none

end Setting

/-- A line with a setting, with any number of spaces around the key and the value, or a line to be skipped: an
empty one, a comment, or one without a `=`. -/
def Stands (line : StdString) : Option Setting → Prop
  | some x => ∃ a b c d, line.bytes = (List.replicate a 32 ++ x.key ++ List.replicate b 32) ++
      61 :: (List.replicate c 32 ++ x.value ++ List.replicate d 32)
  | none => line.bytes = [] ∨ line.bytes.head? = some 35 ∨ 61 ∉ line.bytes

structure Describes (config : ServerConfiguration) (settings : List Setting) : Prop where
  nodes : ∃ orders : List (List (NodeKey × Bytes)),
    List.Forall₂ (fun n order => order.Perm n.fields) config.serverNodes orders ∧
    settings.filterMap Setting.field? = orders.flatten
  partitions : settings.filterMap Setting.partition? = config.partitionsIds
  current : settings.filterMap Setting.current? = [config.currentNode]

theorem Plain.trimmed {text : Bytes} (h : Plain text) (a b : Nat) :
    Trimmed 32 (List.replicate a 32 ++ text ++ List.replicate b 32) text :=
  ⟨⟨a, b, rfl⟩, h.front, h.back⟩

theorem plain_of_ne {text : Bytes} (hne : text ≠ []) (h : 32 ∉ text) : Plain text :=
  ⟨hne, fun hf => h (List.mem_of_mem_head? hf), fun hb => h (List.mem_of_getLast? hb)⟩

theorem plain_decimalInt (z : Int) : Plain (decimalInt z) := by
  have hdigits : 32 ∉ decimal z.natAbs := fun h => absurd (isDigit_decimal _ _ h) (by decide)
  apply plain_of_ne
  · unfold decimalInt
    split <;> simp [decimal_ne_nil]
  · unfold decimalInt
    split <;> simp [hdigits]

theorem Setting.key_word (x : Setting) : x.key ≠ [] ∧ ∀ b ∈ [32, 35, 61], b ∉ x.key := by
  have hall : ∀ key ∈ ["current_node", "partition_id", "id", "host", "cluster_port", "client_port"].map toBytes,
      key ≠ [] ∧ ∀ b ∈ [32, 35, 61], b ∉ key := by decide +kernel
  apply hall
  cases x with
  | currentNode n => simp [key]
  | partitionId n => simp [key]
  | field k v => cases k <;> simp [key, NodeKey.name]

theorem ServerNode.Writable.plain_text {n : ServerNode} (h : n.Writable) (k : NodeKey) :
    Plain (n.text k) := by
  cases k with
  | id => exact plain_decimalInt n.id
  | host => exact (h.plain n.host (by simp)).1
  | clusterPort => exact (h.plain n.clusterPort (by simp)).1
  | clientPort => exact (h.plain n.clientPort (by simp)).1

theorem ServerNode.mem_fields {n : ServerNode} {k : NodeKey} {v : Bytes} :
    (k, v) ∈ n.fields ↔ v = n.text k := by
  cases k <;> simp [fields]

theorem ServerNode.nodup_fields (n : ServerNode) : (n.fields.map Prod.fst).Nodup := by
  simp [fields]

namespace ServerConfigurationLoader

/-! ## The lines of a file -/

theorem loadLoop_lines {lines : List StdString} {text : Bytes} (h : LinesOf lines text) {fuel : Nat}
    (hfuel : text.length < fuel) (s : Loader) :
    loadLoop fuel ⟨text, false, false⟩ s = lines.foldlM (fun s line => s.line line) s := by
  obtain ⟨fuel, rfl⟩ := Nat.exists_eq_succ_of_ne_zero (Nat.ne_zero_of_lt hfuel)
  induction h generalizing fuel s with
  | nil => rfl
  | @last line h =>
    rw [List.foldlM_cons]
    by_cases hne : line.bytes = []
    · have hskip : s.line line = .ok s := by simp [Loader.line, isEmpty, hne]
      rw [hne, hskip]
      rfl
    · rw [loadLoop, getline_last h hne]
      cases hs : s.line line with
      | error e => simp only [hs]; rfl
      | ok s' => cases fuel <;> simp only [hs] <;> rfl
  | @cons line lines text h _ ih =>
    have hlen : text.length < fuel := by
      simp only [List.length_append, List.length_cons] at hfuel
      omega
    obtain ⟨fuel, rfl⟩ := Nat.exists_eq_succ_of_ne_zero (Nat.ne_zero_of_lt hlen)
    rw [loadLoop, getline_append h, List.foldlM_cons]
    cases hs : s.line line with
    | error e => simp only [hs]; rfl
    | ok s' =>
      simp only [hs]
      exact ih s' fuel hlen

section
variable {line : StdString} (s : Loader)

theorem line_skipped (h : Stands line none) : s.line line = .ok s := by
  unfold Loader.line
  split
  · rfl
  · rename_i hne
    rw [Bool.or_eq_true, not_or] at hne
    have hnone : 61 ∉ line.bytes := by
      rcases h with h | h | h
      · exact absurd (by simp [isEmpty, h]) hne.1
      · exact absurd (decide_eq_true h) hne.2
      · exact h
    rw [getKeyValue_none hnone]
    rfl

theorem line_setting {x : Setting} (h : Stands line (some x)) (hx : Plain x.value) :
    s.line line = (s.assign x.key x.value).bind Loader.pushNode := by
  obtain ⟨a, b, c, d, hline⟩ := h
  obtain ⟨hne, hword⟩ := x.key_word
  have hkey : Plain x.key := plain_of_ne hne (hword 32 (by simp))
  have hfront : ∀ y ∈ [35, 61], y ∉ List.replicate a 32 ++ x.key ++ List.replicate b 32 := by
    intro y hy
    have hy' : y ≠ 32 := by
      rintro rfl
      exact absurd hy (by decide)
    simp [hy', hword y (List.mem_cons_of_mem _ hy)]
  obtain ⟨key', value', hok, hkey', hvalue'⟩ := getKeyValue_ok .empty .empty hline
    (hfront 61 (by simp)) (hkey.trimmed a b) (hx.trimmed c d) hkey.ne_nil hx.ne_nil
  have hhead : line.bytes.head? ≠ some 35 := by
    intro h
    rw [hline, List.head?_append] at h
    cases hf : (List.replicate a 32 ++ x.key ++ List.replicate b 32).head? with
    | none =>
      rw [hf] at h
      simp at h
    | some y =>
      rw [hf] at h
      obtain rfl : y = 35 := by simpa using h
      exact hfront 35 (by simp) (List.mem_of_mem_head? hf)
  have hempty : line.isEmpty = false := by simp [isEmpty, hline]
  rw [Loader.line, if_neg (by simp [hempty, hhead]), hok]
  show (s.assign key'.bytes value'.bytes).bind Loader.pushNode = _
  rw [hkey', hvalue']

end

/-! ## The fields of a node -/

namespace Loader

def get (s : Loader) : NodeKey → Bytes
  | .id => s.id
  | .host => s.host
  | .clusterPort => s.clusterPort
  | .clientPort => s.clientPort

def set (k : NodeKey) (v : Bytes) (s : Loader) : Loader :=
  match k with
  | .id => { s with id := v }
  | .host => { s with host := v }
  | .clusterPort => { s with clusterPort := v }
  | .clientPort => { s with clientPort := v }

theorem get_set (s : Loader) (k k' : NodeKey) (v : Bytes) :
    (s.set k v).get k' = if k = k' then v else s.get k' := by
  cases k <;> cases k' <;> rfl

theorem config_set (s : Loader) (k : NodeKey) (v : Bytes) : (s.set k v).config = s.config := by
  cases k <;> rfl

theorem full_iff (s : Loader) : s.Full ↔ ∀ k, s.get k ≠ [] := by
  constructor
  · rintro ⟨h₁, h₂, h₃, h₄⟩ k
    cases k <;> assumption
  · exact fun h => ⟨h .id, h .host, h .clusterPort, h .clientPort⟩

theorem pushNode_of_get {s : Loader} {k : NodeKey} (h : s.get k = []) : s.pushNode = .ok s := by
  rw [pushNode, if_neg fun hfull => (full_iff s).mp hfull k h]

theorem assign_field (s : Loader) (k : NodeKey) (v : Bytes) : s.assign k.name v = .ok (s.set k v) := by
  cases k with
  | id => rw [NodeKey.name, assign, if_neg (by decide +kernel), if_pos rfl]; rfl
  | host => rw [NodeKey.name, assign, if_neg (by decide +kernel), if_neg (by decide +kernel), if_pos rfl]; rfl
  | clusterPort =>
    rw [NodeKey.name, assign, if_neg (by decide +kernel), if_neg (by decide +kernel),
      if_neg (by decide +kernel), if_pos rfl]
    rfl
  | clientPort =>
    rw [NodeKey.name, assign, if_neg (by decide +kernel), if_neg (by decide +kernel),
      if_neg (by decide +kernel), if_neg (by decide +kernel), if_pos rfl]
    rfl

theorem assign_current (s : Loader) {n : Int} (hn : -2 ^ 31 ≤ n ∧ n < 2 ^ 31) :
    s.assign (toBytes "current_node") (decimalInt n) =
      .ok { s with config := { s.config with currentNode := n } } := by
  rw [assign, if_pos rfl, stoi, toNumber_decimalInt hn]
  rfl

theorem assign_partition (s : Loader) {n : Int} (hn : -2 ^ 63 ≤ n ∧ n < 2 ^ 63) :
    s.assign (toBytes "partition_id") (decimalInt n) =
      .ok { s with config := { s.config with partitionsIds := s.config.partitionsIds ++ [n] } } := by
  rw [assign, if_neg (by decide +kernel), if_neg (by decide +kernel), if_neg (by decide +kernel),
    if_neg (by decide +kernel), if_neg (by decide +kernel), if_pos rfl, stoll, toNumber_decimalInt hn]
  rfl

structure Holds (s : Loader) (done : List (NodeKey × Bytes)) : Prop where
  mem : ∀ k v, (k, v) ∈ done → s.get k = v
  rest : ∀ k, k ∉ done.map Prod.fst → s.get k = []

theorem Holds.set {s : Loader} {done : List (NodeKey × Bytes)} (h : s.Holds done) {k : NodeKey}
    (hk : k ∉ done.map Prod.fst) (v : Bytes) : (s.set k v).Holds (done ++ [(k, v)]) where
  mem := by
    intro k' v' hmem
    rw [get_set]
    rcases List.mem_append.mp hmem with hmem | hmem
    · have hne : k ≠ k' := fun he => hk (he ▸ List.mem_map_of_mem hmem)
      rw [if_neg hne, h.mem k' v' hmem]
    · obtain ⟨rfl, rfl⟩ := Prod.mk.inj (List.mem_singleton.mp hmem)
      rw [if_pos rfl]
  rest := by
    intro k' hk'
    rw [List.map_append, List.mem_append, not_or] at hk'
    rw [get_set, if_neg fun he => hk'.2 (by simp [he]), h.rest k' hk'.1]

theorem pushNode_of_holds {s : Loader} {n : ServerNode} (hn : n.Writable) (h : ∀ k, s.get k = n.text k) :
    s.pushNode = .ok { config := { s.config with serverNodes := s.config.serverNodes ++ [n] }
                       id := [], host := [], clusterPort := [], clientPort := [] } := by
  have hfull : s.Full := (full_iff s).mpr fun k => by rw [h k]; exact (hn.plain_text k).ne_nil
  have hid : s.id = decimalInt n.id := h .id
  have hhost : s.host = n.host := h .host
  have hcluster : s.clusterPort = n.clusterPort := h .clusterPort
  have hclient : s.clientPort = n.clientPort := h .clientPort
  rw [pushNode, if_pos hfull, hid, stoi, toNumber_decimalInt hn.id, hhost, hcluster, hclient]
  rfl

end Loader

/-- The fields that are still to come for the given nodes: the rest of those of the first one, in some order,
and those of the others. -/
inductive Pending (s : Loader) : List (NodeKey × Bytes) → List ServerNode → Prop
  | idle (h : s.Holds []) : Pending s [] []
  | node {done todo : List (NodeKey × Bytes)} {n : ServerNode} {nodes : List ServerNode}
      {orders : List (List (NodeKey × Bytes))}
    (hn : (done ++ todo).Perm n.fields) (ht : todo ≠ []) (h : s.Holds done)
    (ho : List.Forall₂ (fun n order => order.Perm n.fields) nodes orders) :
    Pending s (todo ++ orders.flatten) (n :: nodes)

theorem pending_start {s : Loader} (hs : s.Holds []) {nodes : List ServerNode}
    {orders : List (List (NodeKey × Bytes))}
    (ho : List.Forall₂ (fun n order => order.Perm n.fields) nodes orders) :
    Pending s orders.flatten nodes := by
  cases ho with
  | nil => exact .idle hs
  | @cons n order nodes orders h ho =>
    have hperm : ([] ++ order).Perm n.fields := h
    refine .node hperm ?_ hs ho
    rintro rfl
    exact absurd h.length_eq (by simp [ServerNode.fields])

theorem key_not_mem_done {k : NodeKey} {v : Bytes} {done todo : List (NodeKey × Bytes)} {n : ServerNode}
    (hn : (done ++ (k, v) :: todo).Perm n.fields) : k ∉ done.map Prod.fst := by
  intro hk
  have hnodup := (hn.map Prod.fst).nodup_iff.mpr n.nodup_fields
  rw [List.map_append, List.nodup_append] at hnodup
  exact hnodup.2.2 k hk k (by simp) rfl

theorem Pending.missing {s : Loader} {fields : List (NodeKey × Bytes)} {nodes : List ServerNode}
    (h : Pending s fields nodes) :
    ∃ k, s.get k = [] := by
  cases h with
  | idle h => exact ⟨.id, h.rest .id (by simp)⟩
  | @node done todo n nodes orders hn ht h ho =>
    obtain ⟨⟨k, v⟩, rest, rfl⟩ := List.exists_cons_of_ne_nil ht
    exact ⟨k, h.rest k (key_not_mem_done hn)⟩

theorem Pending.setConfig {s : Loader} {fields : List (NodeKey × Bytes)} {nodes : List ServerNode}
    (h : Pending s fields nodes) (config : ServerConfiguration) :
    Pending { s with config := config } fields nodes := by
  cases h with
  | idle h => exact .idle ⟨h.mem, h.rest⟩
  | node hn ht h ho => exact .node hn ht ⟨h.mem, h.rest⟩ ho

theorem Pending.nil {s : Loader} {nodes : List ServerNode} (h : Pending s [] nodes) : nodes = [] := by
  generalize hf : [] = fields at h
  cases h with
  | idle h => rfl
  | node hn ht h ho => exact absurd (List.append_eq_nil_iff.mp hf.symm).1 ht

theorem Pending.field {s : Loader} {k : NodeKey} {v : Bytes} {fields : List (NodeKey × Bytes)}
    {nodes : List ServerNode} (h : Pending s ((k, v) :: fields) nodes) (hw : ∀ n ∈ nodes, n.Writable) :
    Plain v ∧ ∃ s' complete nodes', (s.set k v).pushNode = .ok s' ∧ nodes = complete ++ nodes' ∧
    Pending s' fields nodes' ∧
      s'.config = { s.config with serverNodes := s.config.serverNodes ++ complete } := by
  generalize hf : (k, v) :: fields = fields' at h
  cases h with
  | idle h => cases hf
  | @node done todo n nodes orders hn ht h ho =>
    obtain ⟨x, todo, rfl⟩ := List.exists_cons_of_ne_nil ht
    rw [List.cons_append] at hf
    obtain ⟨rfl, rfl⟩ := List.cons.inj hf
    have hwn := hw n List.mem_cons_self
    have hv : v = n.text k := ServerNode.mem_fields.mp (hn.mem_iff.mp (by simp))
    have hset := h.set (key_not_mem_done hn) v
    have hperm : ((done ++ [(k, v)]) ++ todo).Perm n.fields := by simpa using hn
    refine ⟨hv ▸ hwn.plain_text k, ?_⟩
    by_cases hlast : todo = []
    · -- the last field of the node
      subst hlast
      rw [List.append_nil] at hperm
      have hall : ∀ k', (s.set k v).get k' = n.text k' := by
        intro k'
        apply hset.mem
        exact hperm.mem_iff.mpr (ServerNode.mem_fields.mpr rfl)
      refine ⟨_, [n], nodes, Loader.pushNode_of_holds hwn hall, rfl, ?_, by rw [Loader.config_set]⟩
      exact pending_start ⟨by simp, fun k' _ => by cases k' <;> rfl⟩ ho
    · have hpending : Pending (s.set k v) (todo ++ orders.flatten) (n :: nodes) := .node hperm hlast hset ho
      obtain ⟨k', hk'⟩ := hpending.missing
      exact ⟨_, [], n :: nodes, Loader.pushNode_of_get hk', rfl,
        hpending, by rw [Loader.config_set, List.append_nil]⟩

/-! ## The whole file -/

theorem foldlM_settings {lines : List StdString} {kinds : List (Option Setting)}
    (h : List.Forall₂ Stands lines kinds) {s : Loader} {nodes : List ServerNode}
    (hp : Pending s (kinds.reduceOption.filterMap Setting.field?) nodes) (hw : ∀ n ∈ nodes, n.Writable)
    (hparts : ∀ n ∈ kinds.reduceOption.filterMap Setting.partition?, -2 ^ 63 ≤ n ∧ n < 2 ^ 63)
    (hcur : ∀ n ∈ kinds.reduceOption.filterMap Setting.current?, -2 ^ 31 ≤ n ∧ n < 2 ^ 31) :
    ∃ s', lines.foldlM (fun s line => s.line line) s = .ok s' ∧ s'.config =
      { currentNode := (kinds.reduceOption.filterMap Setting.current?).getLastD s.config.currentNode
        serverNodes := s.config.serverNodes ++ nodes
        partitionsIds := s.config.partitionsIds ++ kinds.reduceOption.filterMap Setting.partition? } := by
  induction h generalizing s nodes with
  | nil =>
    obtain rfl := hp.nil
    exact ⟨s, rfl, by simp⟩
  | @cons line kind lines kinds hline _ ih =>
    have hstep : ∀ {s₁ : Loader}, s.line line = .ok s₁ →
        (line :: lines).foldlM (fun s line => s.line line) s =
          lines.foldlM (fun s line => s.line line) s₁ := by
      intro s₁ hs₁
      rw [List.foldlM_cons, hs₁]
      rfl
    cases kind with
    | none =>
      rw [hstep (line_skipped s hline)]
      exact ih hp hw hparts hcur
    | some x =>
      rw [List.reduceOption_cons_of_some] at hp hparts hcur ⊢
      cases x with
      | currentNode n =>
        simp only [List.filterMap_cons, Setting.field?, Setting.partition?, Setting.current?, List.forall_mem_cons,
          List.getLastD_cons] at hp hparts hcur ⊢
        have hp' := hp.setConfig { s.config with currentNode := n }
        obtain ⟨k, hk⟩ := hp'.missing
        rw [hstep ((line_setting s hline (plain_decimalInt n)).trans ?_)]
        · exact ih hp' hw hparts hcur.2
        · rw [Setting.key, Setting.value, Loader.assign_current s hcur.1]
          exact Loader.pushNode_of_get hk
      | partitionId n =>
        simp only [List.filterMap_cons, Setting.field?, Setting.partition?, Setting.current?, List.forall_mem_cons]
          at hp hparts hcur ⊢
        have hp' := hp.setConfig { s.config with partitionsIds := s.config.partitionsIds ++ [n] }
        obtain ⟨k, hk⟩ := hp'.missing
        rw [hstep ((line_setting s hline (plain_decimalInt n)).trans ?_)]
        · simpa using ih hp' hw hparts.2 hcur
        · rw [Setting.key, Setting.value, Loader.assign_partition s hparts.1]
          exact Loader.pushNode_of_get hk
      | field k v =>
        simp only [List.filterMap_cons, Setting.field?, Setting.partition?, Setting.current?] at hp hparts hcur ⊢
        obtain ⟨hv, s₁, complete, nodes', hpush, rfl, hp', hconfig⟩ := hp.field hw
        rw [hstep ((line_setting s hline hv).trans ?_)]
        · have hrest := ih hp' (fun n hn => hw n (List.mem_append_right _ hn)) hparts hcur
          simpa [hconfig] using hrest
        · rw [Setting.key, Setting.value, Loader.assign_field]
          exact hpush

/-- A file with the settings of a configuration is read back as this configuration. -/
theorem load_written {config : ServerConfiguration} (hnodes : ∀ n ∈ config.serverNodes, n.Writable)
    (hparts : ∀ n ∈ config.partitionsIds, -2 ^ 63 ≤ n ∧ n < 2 ^ 63)
    (hcur : -2 ^ 31 ≤ config.currentNode ∧ config.currentNode < 2 ^ 31)
    {lines : List StdString} {kinds : List (Option Setting)} {text : Bytes}
    (hlines : List.Forall₂ Stands lines kinds) (hdesc : Describes config kinds.reduceOption)
    (htext : LinesOf lines text) (garbage : Int) :
    loadConfig garbage ⟨text, false, false⟩ = .ok config := by
  obtain ⟨orders, horders, hfields⟩ := hdesc.nodes
  have hp :=
    pending_start (s := { config := ⟨garbage, [], []⟩, id := [], host := [], clusterPort := [],
                          clientPort := [] })
    ⟨by simp, fun k _ => by cases k <;> rfl⟩ horders
  rw [← hfields] at hp
  obtain ⟨s', hfold, hconfig⟩ := foldlM_settings hlines hp hnodes (by rwa [hdesc.partitions])
    (by rw [hdesc.current]; simpa using hcur)
  rw [hdesc.partitions, hdesc.current] at hconfig
  rw [loadConfig, loadLoop_lines htext (Nat.lt_succ_self _), hfold]
  exact congrArg Except.ok hconfig

def twoNodes : ServerConfiguration :=
  ⟨2, [⟨-3, toBytes "a=b c", toBytes "12", toBytes "#"⟩, ⟨2, toBytes "h", toBytes "7", toBytes "8"⟩], [-5, 0]⟩

def twoNodesKinds : List (Option Setting) :=
  [some (.field .host (toBytes "a=b c")), none, some (.partitionId (-5)),
    some (.field .clientPort (toBytes "#")), some (.field .id (decimalInt (-3))), none, some (.currentNode 2),
    some (.field .clusterPort (toBytes "12")),
    some (.field .id (decimalInt 2)), some (.field .clusterPort (toBytes "7")),
    some (.field .host (toBytes "h")),
    some (.partitionId 0), some (.field .clientPort (toBytes "8"))]

def twoNodesLines : List StdString :=
  [⟨toBytes "host=a=b c ", by decide +kernel⟩, ⟨toBytes "# x = y", by decide +kernel⟩,
    ⟨toBytes " partition_id  =-5", by decide +kernel⟩, ⟨toBytes "client_port = #", by decide +kernel⟩,
    ⟨toBytes "id = -3", by decide +kernel⟩, .empty, ⟨toBytes "current_node=2", by decide +kernel⟩,
    ⟨toBytes "cluster_port = 12  ", by decide +kernel⟩, ⟨toBytes "id=2", by decide +kernel⟩,
    ⟨toBytes "cluster_port=7", by decide +kernel⟩, ⟨toBytes "host=h", by decide +kernel⟩,
    ⟨toBytes "partition_id=0", by decide +kernel⟩, ⟨toBytes "client_port=8", by decide +kernel⟩]

theorem load_written_twoNodes :
    loadConfig 0 ⟨twoNodesLines.flatMap fun line => line.bytes ++ [10], false, false⟩ = .ok twoNodes := by
  have hplain : ∀ n ∈ twoNodes.serverNodes, n.Writable := by
    have hall : ∀ n ∈ twoNodes.serverNodes, (-2 ^ 31 ≤ n.id ∧ n.id < 2 ^ 31) ∧
        ∀ text ∈ [n.host, n.clusterPort, n.clientPort],
        (text ≠ [] ∧ text.head? ≠ some 32 ∧ text.getLast? ≠ some 32) ∧ 10 ∉ text := by decide +kernel
    exact fun n hn =>
      ⟨(hall n hn).1, fun text ht => ⟨⟨((hall n hn).2 text ht).1.1, ((hall n hn).2 text ht).1.2.1,
      ((hall n hn).2 text ht).1.2.2⟩, ((hall n hn).2 text ht).2⟩⟩
  have hlines : List.Forall₂ Stands twoNodesLines twoNodesKinds :=
    .cons ⟨0, 0, 0, 1, by decide +kernel⟩
      (.cons (Or.inr (Or.inl (by decide +kernel))) (.cons ⟨1, 2, 0, 0, by decide +kernel⟩
      (.cons ⟨0, 1, 1, 0, by decide +kernel⟩ (.cons ⟨0, 1, 1, 0, by decide +kernel⟩ (.cons (Or.inl rfl)
        (.cons ⟨0, 0, 0, 0, by decide +kernel⟩
          (.cons ⟨0, 1, 1, 2, by decide +kernel⟩ (.cons ⟨0, 0, 0, 0, by decide +kernel⟩
          (.cons ⟨0, 0, 0, 0, by decide +kernel⟩
            (.cons ⟨0, 0, 0, 0, by decide +kernel⟩ (.cons ⟨0, 0, 0, 0, by decide +kernel⟩
            (.cons ⟨0, 0, 0, 0, by decide +kernel⟩ .nil))))))))))))
  have hdesc : Describes twoNodes twoNodesKinds.reduceOption :=
    ⟨⟨[[(.host, toBytes "a=b c"), (.clientPort, toBytes "#"), (.id, decimalInt (-3)),
      (.clusterPort, toBytes "12")],
        [(.id, decimalInt 2), (.clusterPort, toBytes "7"), (.host, toBytes "h"), (.clientPort, toBytes "8")]],
      .cons (by decide +kernel) (.cons (by decide +kernel) .nil), rfl⟩, rfl, rfl⟩
  exact load_written hplain (by decide) (by decide) hlines hdesc (linesOf_flatMap (by decide +kernel)) 0

end ServerConfigurationLoader

end FlowMQ
