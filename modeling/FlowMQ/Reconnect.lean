import FlowMQ.ClusterManager

/-!
# Reconnecting

`ClusterManager` together with the sessions it has made. A session that was
replaced in `outgoing_sessions_` lives on while a read or a write of it is going
on, and may still fail. For each endpoint there is at all times exactly one of a
connection attempt, a timer for the next one, and a session that is connected.
-/

namespace FlowMQ

open Std (ExtTreeMap)

structure MadeSession where
  endpointId : Int
  address : ResolverResults
  state : SessionState

/-- `sessions` are all sessions in the order they were made in, and `outgoing` has the places in it of those
in `outgoing_sessions_`. -/
structure Connector where
  endpointIdMap : ExtTreeMap Int ResolverResults compare
  sessions : List MadeSession
  outgoing : ExtTreeMap Int Nat compare
  connecting : List (Int × ResolverResults)
  timers : List Int
  written : List (Int × ResolverResults × Message)

inductive ConnectorEvent where
  | connected (endpointId : Int) (results : ResolverResults)
  | endpointDown (endpointId : Int) (results : ResolverResults)
  | timer (endpointId : Int)
  | session (k : Nat) (e : SessionChange)
  | writeMessage (endpointId : Int) (msg : Message)
  | broadCast (msg : Message)

instance : Inhabited ConnectorEvent := ⟨.timer 0⟩

instance : Inhabited ManagerEvent := ⟨.timer 0⟩

-- for the tests whether an attempt is among those under way
instance : LawfulBEq (Int × ResolverResults) := inferInstance

/-- The manager never closes a session, so what happens to one is that its reads and writes end. -/
def SessionChange.isEnd : SessionChange → Bool
  | .readCompletes | .readFails | .writeCompletes | .writeFails => true
  | .startRead | .writeMessage | .close => false

def MadeSession.shown (s : MadeSession) : OutgoingSession := ⟨s.state.status, s.address⟩

def MadeSession.isLive (id : Int) (s : MadeSession) : Bool := s.endpointId = id ∧ s.state.status = .connected

namespace Connector

def shown (c : Connector) (k : Nat) : OutgoingSession :=
  match c.sessions[k]? with
  | some s => s.shown
  | none => ⟨.disconnected, ⟨[], []⟩⟩

def asyncConnect (endpointId : Int) (c : Connector) : Connector :=
  { c with
    endpointIdMap := c.endpointIdMap.insertIfNew endpointId ⟨[], []⟩
    connecting := c.connecting ++ [(endpointId, c.endpointIdMap.getD endpointId ⟨[], []⟩)] }

def connect (endpointId : Int) (c : Connector) : Connector :=
  match c.outgoing[endpointId]? with
  | some k => if (c.shown k).status = .connected then c else c.asyncConnect endpointId
  | none => c.asyncConnect endpointId

def start (endpoints : List (Int × ResolverResults)) : Connector :=
  endpoints.foldl (fun c p => c.connect p.1)
    { endpointIdMap := ClusterManager.idMap endpoints, sessions := [], outgoing := ∅, connecting := [],
      timers := [], written := [] }

/-- `Session::write_message`, whatever the status of the session. -/
def write (k : Nat) (c : Connector) : Connector :=
  match c.sessions[k]? with
  | some s =>
    { c with
      sessions := c.sessions.set k { s with state := { s.state with writing := s.state.writing + 1 } } }
  | none => c

def step (c : Connector) : ConnectorEvent → Option Connector
  | .connected endpointId results =>
    if (endpointId, results) ∈ c.connecting then
      some { c with
        connecting := c.connecting.erase (endpointId, results)
        -- `start_read` is called before the session is put into the map
        sessions :=
          c.sessions ++ [⟨endpointId, results, { SessionState.opened with reading := some .header }⟩]
        outgoing := c.outgoing.insert endpointId c.sessions.length }
    else none
  | .endpointDown endpointId results =>
    if (endpointId, results) ∈ c.connecting then
      some { c with connecting := c.connecting.erase (endpointId, results),
                    timers := c.timers ++ [endpointId] }
    else none
  | .timer endpointId =>
    if endpointId ∈ c.timers then some ({ c with timers := c.timers.erase endpointId }.connect endpointId) else none
  | .session k e =>
    match c.sessions[k]? with
    | none => none
    | some s =>
      if e.isEnd then
        (s.state.step e).map fun state =>
          { c with
            sessions := c.sessions.set k { s with state := state }
            -- `disconnected_handler_` starts the timer
            timers := if s.state.disconnects < state.disconnects then c.timers ++ [s.endpointId] else c.timers }
      else none
  | .writeMessage endpointId msg =>
    match c.outgoing[endpointId]? with
    | some k => some { c.write k with written := c.written ++ [(endpointId, (c.shown k).address, msg)] }
    | none => some c
  | .broadCast msg =>
    some { c.outgoing.toList.foldl (fun c p => c.write p.2) c with
      written := c.written ++ c.outgoing.toList.map fun p => (p.1, (c.shown p.2).address, msg) }

abbrev Execution (endpoints : List (Int × ResolverResults)) : Type := Runs.Run (· = start endpoints) step

/-! ## Exactly one -/

def total (c : Connector) (id : Int) : Nat :=
  c.connecting.countP (fun p => p.1 = id) + c.timers.count id + c.sessions.countP (MadeSession.isLive id)

structure Inv (endpoints : List (Int × ResolverResults)) (c : Connector) : Prop where
  total : ∀ id, c.total id = (endpoints.map Prod.fst).count id
  owner : ∀ (id : Int) (k : Nat), c.outgoing[id]? = some k → ∃ s : MadeSession, c.sessions[k]? = some s ∧
    s.endpointId = id
  current : ∀ (k : Nat) (s : MadeSession), c.sessions[k]? = some s → s.state.status = .connected →
    c.outgoing[s.endpointId]? = some k
  notClosed : ∀ (k : Nat) (s : MadeSession), c.sessions[k]? = some s → s.state.status ≠ .closed

theorem countP_set_add {α : Type} {P : α → Bool} {l : List α} {k : Nat} {a : α} (h : l[k]? = some a) (b : α) :
    (l.set k b).countP P + (if P a then 1 else 0) = l.countP P + if P b then 1 else 0 := by
  obtain ⟨hk, rfl⟩ := List.getElem?_eq_some_iff.mp h
  have hpos : P l[k] = true → 0 < l.countP P := fun hP => List.countP_pos_iff.mpr ⟨_, List.getElem_mem hk, hP⟩
  rw [List.countP_set hk]
  split
  · have := hpos ‹_›
    omega
  · omega

theorem count_append_one (id id' : Int) (l : List Int) :
    (l ++ [id']).count id = l.count id + if id' = id then 1 else 0 := by
  rw [List.count_append, List.count_singleton]
  simp

section
variable {endpoints : List (Int × ResolverResults)} {c c' : Connector}

theorem total_asyncConnect (id id' : Int) :
    (c.asyncConnect id').total id = c.total id + if id' = id then 1 else 0 := by
  simp only [total, asyncConnect, List.countP_append, List.countP_singleton]
  simp only [decide_eq_true_eq]
  omega

theorem live_zero {id : Int} (h : c.sessions.countP (MadeSession.isLive id) = 0) {k : Nat} {s : MadeSession}
    (hs : c.sessions[k]? = some s) (hid : s.endpointId = id) : s.state.status ≠ .connected := by
  intro hst
  refine List.countP_eq_zero.mp h s (List.mem_of_getElem? hs) ?_
  simp [MadeSession.isLive, hid, hst]

theorem getElem?_set_cases {α : Type} {l : List α} {k j : Nat} {a b : α} (h : (l.set k a)[j]? = some b) :
    k = j ∧ b = a ∨ l[j]? = some b := by
  rw [List.getElem?_set] at h
  split at h
  · rename_i hj
    split at h
    · exact Or.inl ⟨hj, (Option.some.inj h).symm⟩
    · cases h
  · exact Or.inr h

theorem Inv.owner_set (h : Inv endpoints c) {k : Nat} {s : MadeSession} (hs : c.sessions[k]? = some s)
    (state : SessionState) {id : Int} {j : Nat} (hj : c.outgoing[id]? = some j) :
    ∃ t : MadeSession, (c.sessions.set k { s with state := state })[j]? = some t ∧ t.endpointId = id := by
  obtain ⟨t, ht, hid⟩ := h.owner id j hj
  by_cases hjk : k = j
  · subst hjk
    obtain rfl := Option.some.inj (ht.symm.trans hs)
    exact ⟨{ t with state := state }, List.getElem?_set_self (List.getElem?_eq_some_iff.mp hs).1, hid⟩
  · exact ⟨t, by rw [List.getElem?_set_ne hjk, ht], hid⟩

theorem Inv.set_quiet (h : Inv endpoints c) {k : Nat} {s : MadeSession} (hs : c.sessions[k]? = some s)
    {state : SessionState} (hst : state.status = s.state.status) :
    Inv endpoints { c with sessions := c.sessions.set k { s with state := state } } := by
  refine ⟨fun id => ?_, fun id j hj => h.owner_set hs state hj, fun j t ht hlive => ?_, fun j t ht => ?_⟩
  · rw [← h.total id]
    have hcount := countP_set_add (P := MadeSession.isLive id) hs { s with state := state }
    have hsame : MadeSession.isLive id { s with state := state } = MadeSession.isLive id s := by
      simp only [MadeSession.isLive, hst]
    rw [hsame] at hcount
    simp only [Connector.total]
    omega
  · rcases getElem?_set_cases ht with ⟨rfl, rfl⟩ | ht
    · exact h.current k s hs (hst.symm.trans hlive)
    · exact h.current j t ht hlive
  · rcases getElem?_set_cases ht with ⟨rfl, rfl⟩ | ht
    · exact fun hc => h.notClosed k s hs (hst.symm.trans hc)
    · exact h.notClosed j t ht

theorem Inv.set_disconnected (h : Inv endpoints c) {k : Nat} {s : MadeSession} (hs : c.sessions[k]? = some s)
    (hlive : s.state.status = .connected) {state : SessionState} (hst : state.status = .disconnected) :
    Inv endpoints
      { c with sessions := c.sessions.set k { s with state := state },
               timers := c.timers ++ [s.endpointId] } := by
  refine ⟨fun id => ?_, fun id j hj => h.owner_set hs state hj, fun j t ht hlive => ?_, fun j t ht => ?_⟩
  · rw [← h.total id]
    have hcount := countP_set_add (P := MadeSession.isLive id) hs { s with state := state }
    have hold : MadeSession.isLive id s = decide (s.endpointId = id) := by simp [MadeSession.isLive, hlive]
    have hnew : MadeSession.isLive id { s with state := state } = false := by simp [MadeSession.isLive, hst]
    rw [hold, hnew] at hcount
    simp only [decide_eq_true_eq, Bool.false_eq_true, if_false] at hcount
    simp only [Connector.total, count_append_one]
    omega
  · rcases getElem?_set_cases ht with ⟨rfl, rfl⟩ | ht
    · rw [hst] at hlive
      cases hlive
    · exact h.current j t ht hlive
  · rcases getElem?_set_cases ht with ⟨rfl, rfl⟩ | ht
    · simp [hst]
    · exact h.notClosed j t ht

theorem Inv.connected_of_not_disconnected (h : Inv endpoints c) {k : Nat} {s : MadeSession}
    (hs : c.sessions[k]? = some s) (hst : s.state.status ≠ .disconnected) : s.state.status = .connected := by
  cases hstatus : s.state.status with
  | connected => rfl
  | disconnected => exact absurd hstatus hst
  | closed => exact absurd hstatus (h.notClosed k s hs)

theorem Inv.write (h : Inv endpoints c) (k : Nat) : Inv endpoints (c.write k) := by
  unfold Connector.write
  split
  · exact h.set_quiet ‹_› rfl
  · exact h

theorem Inv.foldl_write (h : Inv endpoints c) (l : List (Int × Nat)) :
    Inv endpoints (l.foldl (fun c p => c.write p.2) c) :=
  List.foldlRecOn l _ h fun _ h p _ => h.write p.2

theorem Inv.setWritten (h : Inv endpoints c) (written : List (Int × ResolverResults × Message)) :
    Inv endpoints { c with written := written } := ⟨h.total, h.owner, h.current, h.notClosed⟩

section
variable (hids : (endpoints.map Prod.fst).Nodup) (h : Inv endpoints c)
include hids h

theorem Inv.total_le (id : Int) : c.total id ≤ 1 := by
  rw [h.total]
  exact List.nodup_iff_count_le_one.mp hids id

theorem Inv.connected {id : Int} {results : ResolverResults} (hs : c.step (.connected id results) = some c') :
    Inv endpoints c' := by
  simp only [step] at hs
  split at hs
  · rename_i hmem
    cases hs
    have hattempt : 0 < c.connecting.countP (fun p => p.1 = id) := List.countP_pos_iff.mpr ⟨_, hmem, by simp⟩
    have hone := h.total_le hids id
    have hlive : c.sessions.countP (MadeSession.isLive id) = 0 := by
      unfold Connector.total at hone
      omega
    refine ⟨fun id' => ?_, fun id' j hj => ?_, fun j t ht hst => ?_, fun j t ht => ?_⟩
    · rw [← h.total id']
      simp only [Connector.total, List.countP_append, List.countP_singleton, List.countP_erase, hmem,
        true_and, MadeSession.isLive, SessionState.opened, and_true, decide_eq_true_eq]
      by_cases hid : id = id'
      · subst hid
        simp only [if_true]
        omega
      · simp only [hid, if_false]
        omega
    · rw [ExtTreeMap.getElem?_insert] at hj
      split at hj
      · rename_i hid
        cases hj
        exact ⟨⟨id, results, _⟩, List.getElem?_concat_length, compare_eq_iff_eq.mp hid⟩
      · obtain ⟨t, ht, hid⟩ := h.owner id' j hj
        exact ⟨t, by rw [List.getElem?_append_left (List.getElem?_eq_some_iff.mp ht).1, ht], hid⟩
    · rw [ExtTreeMap.getElem?_insert]
      rcases Nat.lt_or_ge j c.sessions.length with hj | hj
      · rw [List.getElem?_append_left hj] at ht
        have hne : id ≠ t.endpointId := fun hid => live_zero hlive ht hid.symm hst
        rw [if_neg fun he => hne (compare_eq_iff_eq.mp he)]
        exact h.current j t ht hst
      · rw [List.getElem?_append_right hj, List.getElem?_singleton] at ht
        split at ht
        · cases ht
          rw [if_pos (compare_eq_iff_eq.mpr rfl)]
          exact congrArg some (by omega)
        · cases ht
    · rcases Nat.lt_or_ge j c.sessions.length with hj | hj
      · rw [List.getElem?_append_left hj] at ht
        exact h.notClosed j t ht
      · rw [List.getElem?_append_right hj, List.getElem?_singleton] at ht
        split at ht
        · cases ht
          exact nofun
        · cases ht
  · cases hs

theorem Inv.timer {id : Int} (hs : c.step (.timer id) = some c') : Inv endpoints c' := by
  simp only [step] at hs
  split at hs
  · rename_i hmem
    cases hs
    have hpos := List.count_pos_iff.mpr hmem
    have hone := h.total_le hids id
    have hlive : c.sessions.countP (MadeSession.isLive id) = 0 := by
      unfold Connector.total at hone
      omega
    -- the session of the endpoint is not connected, or there would be two
    have hconnect : { c with timers := c.timers.erase id }.connect id =
      { c with timers := c.timers.erase id }.asyncConnect id := by
      unfold connect
      split
      · rename_i k hk
        obtain ⟨s, hs, hid⟩ := h.owner id k hk
        refine if_neg ?_
        simp only [shown, hs, MadeSession.shown]
        exact live_zero hlive hs hid
      · rfl
    rw [hconnect]
    refine ⟨fun id' => ?_, h.owner, h.current, h.notClosed⟩
    rw [total_asyncConnect, ← h.total id']
    simp only [Connector.total, List.count_erase]
    by_cases hid : id = id'
    · subst hid
      simp only [beq_self_eq_true, if_true]
      omega
    · simp only [beq_iff_eq, hid, if_false]
      omega
  · cases hs

end

theorem Inv.endpointDown (h : Inv endpoints c) {id : Int} {results : ResolverResults}
    (hs : c.step (.endpointDown id results) = some c') : Inv endpoints c' := by
  simp only [step] at hs
  split at hs
  · rename_i hmem
    cases hs
    refine ⟨fun id' => ?_, h.owner, h.current, h.notClosed⟩
    have hattempt : 0 < c.connecting.countP (fun p => p.1 = id) := List.countP_pos_iff.mpr ⟨_, hmem, by simp⟩
    rw [← h.total id']
    simp only [Connector.total, List.countP_erase, hmem, true_and, count_append_one, decide_eq_true_eq]
    by_cases hid : id = id'
    · subst hid
      simp only [if_true]
      omega
    · simp only [hid, if_false]
      omega
  · cases hs

theorem Inv.session (h : Inv endpoints c) {k : Nat} {e : SessionChange}
    (hs : c.step (.session k e) = some c') :
    Inv endpoints c' := by
  simp only [step] at hs
  split at hs
  · cases hs
  · rename_i s hk
    split at hs
    · rename_i hend
      obtain ⟨state, hstate, rfl⟩ := Option.map_eq_some_iff.mp hs
      cases SessionState.moves_step hstate with
      | quiet he hc hst hd =>
        rw [if_neg (by omega)]
        exact h.set_quiet hk hst
      | close he => rw [he] at hend; cases hend
      | again he hst hst' hd =>
        rw [if_neg (by omega)]
        exact h.set_quiet hk (hst'.trans hst.symm)
      | handler he hst hst' hd =>
        rw [if_pos (by omega)]
        exact h.set_disconnected hk (h.connected_of_not_disconnected hk hst) hst'
    · cases hs

theorem Inv.step (hids : (endpoints.map Prod.fst).Nodup) (h : Inv endpoints c) {e : ConnectorEvent}
    (hs : c.step e = some c') :
    Inv endpoints c' := by
  cases e with
  | connected id results => exact h.connected hids hs
  | endpointDown id results => exact h.endpointDown hs
  | timer id => exact h.timer hids hs
  | session k e => exact h.session hs
  | writeMessage id msg =>
    simp only [Connector.step] at hs
    split at hs <;> cases hs
    · exact (h.write _).setWritten _
    · exact h
  | broadCast msg =>
    cases hs
    exact (h.foldl_write _).setWritten _

theorem inv_start (endpoints : List (Int × ResolverResults)) : Inv endpoints (start endpoints) := by
  have hfold : ∀ (l : List (Int × ResolverResults)) (c : Connector), c.outgoing = ∅ → c.sessions = [] →
      (l.foldl (fun c p => c.connect p.1) c).outgoing = ∅ ∧ (l.foldl (fun c p => c.connect p.1) c).sessions = [] ∧
        ∀ id, (l.foldl (fun c p => c.connect p.1) c).total id = c.total id + (l.map Prod.fst).count id := by
    intro l
    induction l with
    | nil => exact fun c ho hs => ⟨ho, hs, fun id => rfl⟩
    | cons p l ih =>
      intro c ho hs
      have hconnect : c.connect p.1 = c.asyncConnect p.1 := by
        rw [connect, ho, ExtTreeMap.getElem?_empty]
      obtain ⟨h₁, h₂, h₃⟩ := ih (c.asyncConnect p.1) ho hs
      rw [List.foldl_cons, hconnect]
      refine ⟨h₁, h₂, fun id => ?_⟩
      rw [h₃, total_asyncConnect, List.map_cons, List.count_cons]
      simp only [beq_iff_eq]
      omega
  obtain ⟨ho, hs, htotal⟩ := hfold endpoints
    { endpointIdMap := ClusterManager.idMap endpoints, sessions := [], outgoing := ∅, connecting := [],
      timers := [], written := [] } rfl rfl
  refine ⟨fun id => (htotal id).trans (Nat.zero_add _), fun id k hk => ?_, fun k s hk => ?_, fun k s hk => ?_⟩
  · rw [start, ho, ExtTreeMap.getElem?_empty] at hk
    cases hk
  · rw [start, hs] at hk
    cases hk
  · rw [start, hs] at hk
    cases hk

theorem inv_run (hids : (endpoints.map Prod.fst).Nodup) (r : Execution endpoints) :
    ∀ k ≤ r.length, Inv endpoints (r.states k) := by
  apply r.induct (P := fun k => Inv endpoints (r.states k))
  · rw [r.starts]
    exact inv_start endpoints
  · exact fun k hk ih => ih.step hids (r.steps k hk)

/-! ## The manager of the sessions in the map -/

def manager (c : Connector) : ClusterManager :=
  { endpointIdMap := c.endpointIdMap, outgoingSessions := c.outgoing.map fun _ k => c.shown k
    connecting := c.connecting, timers := c.timers, written := c.written }

theorem manager_connect (id : Int) (c : Connector) : (c.connect id).manager = c.manager.connect id := by
  have hget : c.manager.outgoingSessions[id]? = c.outgoing[id]?.map c.shown := ExtTreeMap.getElem?_map
  rw [ClusterManager.connect, hget, connect]
  cases c.outgoing[id]? with
  | none => rfl
  | some k =>
    simp only [Option.map_some]
    split <;> rfl

theorem manager_foldl_connect (l : List (Int × ResolverResults)) (c : Connector) :
    (l.foldl (fun c p => c.connect p.1) c).manager = l.foldl (fun m p => m.connect p.1) c.manager := by
  induction l generalizing c with
  | nil => rfl
  | cons p l ih => rw [List.foldl_cons, ih, manager_connect, List.foldl_cons]

theorem manager_start (endpoints : List (Int × ResolverResults)) :
    (start endpoints).manager = ClusterManager.start endpoints := by
  rw [start, manager_foldl_connect]
  rfl

theorem shown_set {k : Nat} {s : MadeSession} (hs : c.sessions[k]? = some s)
    (state : SessionState) (j : Nat) :
    { c with sessions := c.sessions.set k { s with state := state } }.shown j =
      if k = j then ⟨state.status, s.address⟩ else c.shown j := by
  simp only [shown, List.getElem?_set, (List.getElem?_eq_some_iff.mp hs).1, if_true]
  by_cases hj : k = j
  · simp [hj, MadeSession.shown]
  · simp [hj]

theorem shown_eq {k : Nat} {s : MadeSession} (hs : c.sessions[k]? = some s) : c.shown k = s.shown := by
  rw [shown, hs]

theorem manager_set_quiet {k : Nat} {s : MadeSession} (hs : c.sessions[k]? = some s) {state : SessionState}
    (hst : state.status = s.state.status) :
    { c with sessions := c.sessions.set k { s with state := state } }.manager = c.manager := by
  have hshown : { c with sessions := c.sessions.set k { s with state := state } }.shown = c.shown := by
    funext j
    rw [shown_set hs]
    split
    · rename_i hj
      rw [← hj, shown_eq hs, MadeSession.shown, hst]
    · rfl
  simp only [manager, hshown]

theorem manager_write (k : Nat) (c : Connector) : (c.write k).manager = c.manager := by
  unfold write
  split
  · exact manager_set_quiet ‹_› rfl
  · rfl

theorem manager_foldl_write (l : List (Int × Nat)) (c : Connector) :
    (l.foldl (fun c p => c.write p.2) c).manager = c.manager := by
  induction l generalizing c with
  | nil => rfl
  | cons p l ih => rw [List.foldl_cons, ih, manager_write]

/-- What the manager notices of an event. Of what happens to the sessions this is the loss of one that
is connected. -/
def noticed (c : Connector) : ConnectorEvent → Option ManagerEvent
  | .connected endpointId results => some (.connected endpointId results)
  | .endpointDown endpointId results => some (.endpointDown endpointId results)
  | .timer endpointId => some (.timer endpointId)
  | .session k e =>
    match c.sessions[k]? with
    | some s =>
      if SessionState.Fails e ∧ s.state.status = .connected then some (.disconnected s.endpointId) else none
    | none => none
  | .writeMessage endpointId msg => some (.writeMessage endpointId msg)
  | .broadCast msg => some (.broadCast msg)

theorem noticed_session {k : Nat} {s : MadeSession} (hs : c.sessions[k]? = some s) (e : SessionChange) :
    c.noticed (.session k e) =
      if SessionState.Fails e ∧ s.state.status = .connected then some (.disconnected s.endpointId) else none := by
  simp only [noticed, hs]

theorem getElem?_manager (c : Connector) (id : Int) :
    c.manager.outgoingSessions[id]? = c.outgoing[id]?.map c.shown :=
  ExtTreeMap.getElem?_map

theorem Inv.noticed_replaced (h : Inv endpoints c) {k : Nat} (hk : ∀ id : Int, c.outgoing[id]? ≠ some k)
    (e : SessionChange) :
    c.noticed (.session k e) = none := by
  cases hs : c.sessions[k]? with
  | none => simp only [noticed, hs]
  | some s =>
    rw [noticed_session hs]
    exact if_neg fun hlive => hk s.endpointId (h.current k s hs hlive.2)

theorem Inv.manager_connected (h : Inv endpoints c) {id : Int} {results : ResolverResults}
    (hs : c.step (.connected id results) = some c') :
    c.manager.step (.connected id results) = some c'.manager := by
  simp only [Connector.step] at hs
  split at hs
  · rename_i hmem
    cases hs
    refine (if_pos hmem).trans (congrArg some ?_)
    simp only [manager, ClusterManager.mk.injEq, true_and, and_true]
    refine ExtTreeMap.ext_getElem? fun id' => ?_
    rw [ExtTreeMap.getElem?_insert, ExtTreeMap.getElem?_map, ExtTreeMap.getElem?_map,
      ExtTreeMap.getElem?_insert]
    split
    · simp [shown, MadeSession.shown, SessionState.opened]
    · cases hk : c.outgoing[id']? with
      | none => rfl
      | some k =>
        obtain ⟨s, hs, -⟩ := h.owner id' k hk
        simp only [Option.map_some, shown, List.getElem?_append_left (List.getElem?_eq_some_iff.mp hs).1]
  · cases hs

theorem Inv.manager_disconnected (h : Inv endpoints c) {k : Nat} {s : MadeSession}
    (hk : c.sessions[k]? = some s) (hlive : s.state.status = .connected) {state : SessionState}
    (hst : state.status = .disconnected) :
    c.manager.step (.disconnected s.endpointId) =
      some { c with sessions := c.sessions.set k { s with state := state },
                    timers := c.timers ++ [s.endpointId] }.manager := by
  have hcur := h.current k s hk hlive
  simp only [ClusterManager.step, getElem?_manager, hcur, Option.map_some, shown_eq hk, MadeSession.shown,
    hlive, if_true]
  refine congrArg some ?_
  simp only [manager, ClusterManager.mk.injEq, true_and, and_true]
  refine ExtTreeMap.ext_getElem? fun id' => ?_
  have hshown : ∀ j, Connector.shown { c with
      sessions := c.sessions.set k { s with state := state }, timers := c.timers ++ [s.endpointId] } j =
        if k = j then ⟨state.status, s.address⟩ else c.shown j := shown_set hk state
  rw [ExtTreeMap.getElem?_insert, ExtTreeMap.getElem?_map, ExtTreeMap.getElem?_map]
  split
  · rename_i hid
    rw [← compare_eq_iff_eq.mp hid, hcur, Option.map_some, hshown, if_pos rfl, hst]
  · rename_i hid
    cases hj : c.outgoing[id']? with
    | none => rfl
    | some j =>
      have hne : k ≠ j := by
        rintro rfl
        obtain ⟨t, ht, hid'⟩ := h.owner id' k hj
        obtain rfl := Option.some.inj (ht.symm.trans hk)
        exact hid (compare_eq_iff_eq.mpr hid')
      rw [Option.map_some, Option.map_some, hshown, if_neg hne]

theorem Inv.manager_session (h : Inv endpoints c) {k : Nat} {e : SessionChange}
    (hs : c.step (.session k e) = some c') :
    Runs.Shown ClusterManager.step c.manager c'.manager (c.noticed (.session k e)) := by
  simp only [Connector.step] at hs
  split at hs
  · cases hs
  · rename_i s hk
    split at hs
    · rename_i hend
      obtain ⟨state, hstate, rfl⟩ := Option.map_eq_some_iff.mp hs
      rw [noticed_session hk]
      cases SessionState.moves_step hstate with
      | quiet he hc hst hd =>
        rw [if_neg (by omega), if_neg fun hf => he hf.1]
        exact manager_set_quiet hk hst
      | close he => rw [he] at hend; cases hend
      | again he hst hst' hd =>
        rw [if_neg (by omega), if_neg fun hf => absurd (hst.symm.trans hf.2) (by decide)]
        exact manager_set_quiet hk (hst'.trans hst.symm)
      | handler he hst hst' hd =>
        have hlive := h.connected_of_not_disconnected hk hst
        rw [if_pos (by omega), if_pos ⟨he, hlive⟩]
        exact h.manager_disconnected hk hlive hst'
    · cases hs

theorem Inv.manager_step (h : Inv endpoints c) {e : ConnectorEvent} (hs : c.step e = some c') :
    Runs.Shown ClusterManager.step c.manager c'.manager (c.noticed e) := by
  cases e with
  | connected id results => exact h.manager_connected hs
  | endpointDown id results =>
    simp only [Connector.step] at hs
    split at hs
    · rename_i hmem
      cases hs
      exact if_pos hmem
    · cases hs
  | timer id =>
    simp only [Connector.step] at hs
    split at hs
    · rename_i hmem
      cases hs
      refine (if_pos hmem).trans (congrArg some ?_)
      rw [manager_connect]
      rfl
    · cases hs
  | session k e => exact h.manager_session hs
  | writeMessage id msg =>
    simp only [Connector.step] at hs
    simp only [noticed, Runs.Shown, ClusterManager.step, getElem?_manager]
    split at hs
    · rename_i k hk
      cases hs
      rw [hk, Option.map_some]
      exact congrArg
        (fun m : ClusterManager => some { m with written := c.written ++ [(id, (c.shown k).address, msg)] })
        (manager_write k c).symm
    · rename_i hk
      cases hs
      rw [hk, Option.map_none]
  | broadCast msg =>
    cases hs
    have hlist : c.manager.outgoingSessions.toList.map (fun p => (p.1, p.2.address, msg)) =
        c.outgoing.toList.map fun p => (p.1, (c.shown p.2).address, msg) := by
      rw [manager, ExtTreeMap.toList_map, List.map_map]
      rfl
    rw [noticed, Runs.Shown, ClusterManager.step, hlist]
    exact congrArg (fun m : ClusterManager => some { m with
        written :=
          c.written ++ c.outgoing.toList.map fun p : Int × Nat => (p.1, (c.shown p.2).address, msg) })
      (manager_foldl_write c.outgoing.toList c).symm

/-- What shows of a run of the sessions is a run of the manager, in which a late failure does not show. -/
theorem manager_run (hids : (endpoints.map Prod.fst).Nodup) (r : Execution endpoints) :
    (∃ r' : ClusterManager.Execution endpoints,
      (List.range r'.length).map r'.events = r.shows noticed r.length ∧
      ∀ k ≤ r.length, r'.states (r.shows noticed k).length = (r.states k).manager) ∧
    ∀ k < r.length, ∀ j e, r.events k = .session j e → (∀ id : Int, (r.states k).outgoing[id]? ≠ some j) →
      r.shows noticed (k + 1) = r.shows noticed k := by
  constructor
  · refine r.exists_view ?_ fun k hk => (inv_run hids r k hk.le).manager_step (r.steps k hk)
    rw [r.starts, manager_start]
  · intro k hk j e he hj
    rw [r.shows_succ, he, (inv_run hids r k hk.le).noticed_replaced hj, Option.toList_none, List.append_nil]

/-- For each endpoint there is exactly one of a connection attempt, a timer and a connected session at
any time. -/
theorem total_eq_one (hids : (endpoints.map Prod.fst).Nodup) (r : Execution endpoints) {k : Nat}
    (hk : k ≤ r.length) {id : Int} (hid : id ∈ endpoints.map Prod.fst) :
    (r.states k).connecting.countP (fun p => p.1 = id) + (r.states k).timers.count id +
      (r.states k).sessions.countP (MadeSession.isLive id) = 1 :=
  ((inv_run hids r k hk).total id).trans (List.count_eq_one_of_mem hids hid)

end

/-- The session is lost while a write is going on, which fails only after the next session was made. -/
def lostSession : List ConnectorEvent :=
  [.connected 1 ⟨[97], [49]⟩, .endpointDown 2 ⟨[98], [50]⟩, .writeMessage 1 .empty,
    .session 0 .readFails, .timer 1, .connected 1 ⟨[97], [49]⟩, .session 0 .writeFails]

theorem lostSession_isSome :
    (Runs.exec step (start [(1, ⟨[97], [49]⟩), (2, ⟨[98], [50]⟩)]) lostSession).isSome := by decide +kernel

def lostSessionRun : Execution [(1, ⟨[97], [49]⟩), (2, ⟨[98], [50]⟩)] :=
  .ofEvents _ rfl lostSession lostSession_isSome

theorem total_eq_one_lostSession : (lostSessionRun.states 7).sessions.length = 2 ∧
    (lostSessionRun.states 7).connecting.countP (fun p => p.1 = 1) +
      (lostSessionRun.states 7).timers.count 1 +
      (lostSessionRun.states 7).sessions.countP (MadeSession.isLive 1) = 1 :=
  ⟨by decide +kernel, total_eq_one (by decide) lostSessionRun (show 7 ≤ 7 from le_rfl) (by decide)⟩

theorem manager_run_lostSession : ∃ r' : ClusterManager.Execution [(1, ⟨[97], [49]⟩), (2, ⟨[98], [50]⟩)],
    r'.length = 6 ∧ r'.states 6 = (lostSessionRun.states 7).manager ∧
      lostSessionRun.shows noticed 7 = lostSessionRun.shows noticed 6 := by
  obtain ⟨⟨r', hevents, hstates⟩, hlate⟩ := manager_run (by decide) lostSessionRun
  have hlength : (lostSessionRun.shows noticed 7).length = 6 := by decide +kernel
  refine ⟨r', ?_, hlength ▸ hstates 7 le_rfl, hlate 6 (show 6 < 7 by decide) 0 .writeFails rfl fun id hid => ?_⟩
  · rw [← hlength, show lostSessionRun.shows noticed 7 = _ from hevents.symm, List.length_map, List.length_range]
  · have hmap : (lostSessionRun.states 6).outgoing.toList = [(1, 1)] := by decide +kernel
    have hmem := ExtTreeMap.mem_toList_iff_getElem?_eq_some.mpr hid
    rw [hmap] at hmem
    simp at hmem

end Connector

end FlowMQ
