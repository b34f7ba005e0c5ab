import FlowMQ.Disconnect
import FlowMQ.Message
import FlowMQ.Lib.Maps

/-!
# Connections to the other nodes

`ClusterManager` connects to every endpoint it is given, tries again when that
fails or when the session ends, and writes a message for an id to the session
under this id. Whatever happens in between, that session is one to the endpoint
the id was given with.
-/

namespace FlowMQ

open Std (ExtTreeMap)

structure ResolverResults where
  host : Bytes
  service : Bytes
  deriving DecidableEq, Repr

structure OutgoingSession where
  status : SessionStatus
  address : ResolverResults
  deriving DecidableEq, Repr

/-- `connecting` are the calls of `async_connect` that are going on, `timers` the ids to be tried again, and
`written` the messages with the id they were written for and the address of the session. -/
structure ClusterManager where
  endpointIdMap : ExtTreeMap Int ResolverResults compare
  outgoingSessions : ExtTreeMap Int OutgoingSession compare
  connecting : List (Int × ResolverResults)
  timers : List Int
  written : List (Int × ResolverResults × Message)

inductive ManagerEvent where
  | connected (endpointId : Int) (results : ResolverResults)
  | endpointDown (endpointId : Int) (results : ResolverResults)
  | disconnected (endpointId : Int)
  | timer (endpointId : Int)
  | writeMessage (endpointId : Int) (msg : Message)
  | broadCast (msg : Message)

namespace ClusterManager

/-- `endpoint_id_map_[endpoint_id]` adds an empty entry where there is none. -/
def asyncConnect (endpointId : Int) (m : ClusterManager) : ClusterManager :=
  { m with
    endpointIdMap := m.endpointIdMap.insertIfNew endpointId ⟨[], []⟩
    connecting := m.connecting ++ [(endpointId, m.endpointIdMap.getD endpointId ⟨[], []⟩)] }

def connect (endpointId : Int) (m : ClusterManager) : ClusterManager :=
  match m.outgoingSessions[endpointId]? with
  | some session => if session.status = .connected then m else m.asyncConnect endpointId
  | none => m.asyncConnect endpointId

def idMap (endpoints : List (Int × ResolverResults)) : ExtTreeMap Int ResolverResults compare :=
  endpoints.foldl (fun map p => map.insert p.1 p.2) ∅

def start (endpoints : List (Int × ResolverResults)) : ClusterManager :=
  endpoints.foldl (fun m p => m.connect p.1)
    { endpointIdMap := idMap endpoints, outgoingSessions := ∅, connecting := [], timers := [], written := [] }

def step (m : ClusterManager) : ManagerEvent → Option ClusterManager
  | .connected endpointId results =>
    if (endpointId, results) ∈ m.connecting then
      some { m with
        connecting := m.connecting.erase (endpointId, results)
        outgoingSessions := m.outgoingSessions.insert endpointId ⟨.connected, results⟩ }
    else none
  | .endpointDown endpointId results =>
    if (endpointId, results) ∈ m.connecting then
      some { m with connecting := m.connecting.erase (endpointId, results),
                    timers := m.timers ++ [endpointId] }
    else none
  | .disconnected endpointId =>
    match m.outgoingSessions[endpointId]? with
    | some session =>
      if session.status = .connected then
        some { m with
          outgoingSessions := m.outgoingSessions.insert endpointId { session with status := .disconnected }
          timers := m.timers ++ [endpointId] }
      else none
    | none => none
  | .timer endpointId =>
    if endpointId ∈ m.timers then some ({ m with timers := m.timers.erase endpointId }.connect endpointId) else none
  | .writeMessage endpointId msg =>
    match m.outgoingSessions[endpointId]? with
    | some session => some { m with written := m.written ++ [(endpointId, session.address, msg)] }
    | none => some m
  | .broadCast msg =>
    some { m with written := m.written ++ m.outgoingSessions.toList.map fun p => (p.1, p.2.address, msg) }

abbrev Execution (endpoints : List (Int × ResolverResults)) : Type := Runs.Run (· = start endpoints) step

/-! ## The map of ids -/

theorem getElem?_idMap {endpoints : List (Int × ResolverResults)} (h : (endpoints.map Prod.fst).Nodup) {id : Int}
    {a : ResolverResults} : (idMap endpoints)[id]? = some a ↔ (id, a) ∈ endpoints := by
  rw [idMap, Maps.getElem?_foldl_insert h]
  simp

/-! ## Where messages go -/

structure Sound (map : ExtTreeMap Int ResolverResults compare) (m : ClusterManager) : Prop where
  ids : m.endpointIdMap = map
  connecting : ∀ p ∈ m.connecting, map[p.1]? = some p.2
  timers : ∀ id ∈ m.timers, id ∈ map
  sessions : ∀ (id : Int) (session : OutgoingSession), m.outgoingSessions[id]? = some session →
    map[id]? = some session.address
  written : ∀ p ∈ m.written, map[p.1]? = some p.2.1

section
variable {map : ExtTreeMap Int ResolverResults compare} {m m' : ClusterManager}

section
variable (h : Sound map m)
include h

theorem Sound.asyncConnect {id : Int} (hid : id ∈ map) : Sound map (m.asyncConnect id) where
  ids := by
    rw [ClusterManager.asyncConnect, h.ids]
    exact Maps.insertIfNew_of_mem hid
  connecting := by
    intro p hp
    rcases List.mem_append.mp hp with hp | hp
    · exact h.connecting p hp
    · rw [List.mem_singleton.mp hp, h.ids, ExtTreeMap.getD_eq_getD_getElem?,
        ExtTreeMap.getElem?_eq_some_getElem hid, Option.getD_some]
  timers := h.timers
  sessions := h.sessions
  written := h.written

theorem Sound.connect {id : Int} (hid : id ∈ map) : Sound map (m.connect id) := by
  unfold ClusterManager.connect
  split
  · split
    · exact h
    · exact h.asyncConnect hid
  · exact h.asyncConnect hid

theorem Sound.insertSession {id : Int} {session : OutgoingSession} (hid : map[id]? = some session.address) :
    Sound map { m with outgoingSessions := m.outgoingSessions.insert id session } where
  ids := h.ids
  connecting := h.connecting
  timers := h.timers
  sessions := by
    intro id' session' hget
    rw [ExtTreeMap.getElem?_insert] at hget
    split at hget
    · rename_i heq
      cases hget
      rwa [← compare_eq_iff_eq.mp heq]
    · exact h.sessions id' session' hget
  written := h.written

theorem Sound.erase (p : Int × ResolverResults) : Sound map { m with connecting := m.connecting.erase p } :=
  ⟨h.ids, fun q hq => h.connecting q (List.mem_of_mem_erase hq), h.timers, h.sessions, h.written⟩

theorem Sound.addTimer {id : Int} (hid : id ∈ map) : Sound map { m with timers := m.timers ++ [id] } := by
  refine ⟨h.ids, h.connecting, ?_, h.sessions, h.written⟩
  intro id' hmem
  rcases List.mem_append.mp hmem with hmem | hmem
  · exact h.timers id' hmem
  · rwa [List.mem_singleton.mp hmem]

theorem Sound.write {new : List (Int × ResolverResults × Message)}
    (hnew : ∀ p ∈ new, map[p.1]? = some p.2.1) :
    Sound map { m with written := m.written ++ new } := by
  refine ⟨h.ids, h.connecting, h.timers, h.sessions, ?_⟩
  intro p hp
  rcases List.mem_append.mp hp with hp | hp
  · exact h.written p hp
  · exact hnew p hp

theorem Sound.step {e : ManagerEvent} (hs : m.step e = some m') : Sound map m' := by
  cases e with
  | connected id results =>
    simp only [ClusterManager.step] at hs
    split at hs
    · rename_i hmem
      cases hs
      exact (h.erase _).insertSession (h.connecting _ hmem)
    · cases hs
  | endpointDown id results =>
    simp only [ClusterManager.step] at hs
    split at hs
    · rename_i hmem
      cases hs
      exact (h.erase _).addTimer (Maps.mem_of_getElem? (h.connecting _ hmem))
    · cases hs
  | disconnected id =>
    simp only [ClusterManager.step] at hs
    split at hs
    · rename_i session hget
      have hid := h.sessions id session hget
      split at hs
      · cases hs
        have hended : map[id]? = some ({ session with status := .disconnected } : OutgoingSession).address := hid
        exact (h.insertSession hended).addTimer (Maps.mem_of_getElem? hid)
      · cases hs
    · cases hs
  | timer id =>
    simp only [ClusterManager.step] at hs
    split at hs
    · rename_i hmem
      cases hs
      have herase : Sound map { m with timers := m.timers.erase id } :=
        ⟨h.ids, h.connecting, fun id' hid' => h.timers id' (List.mem_of_mem_erase hid'), h.sessions, h.written⟩
      exact herase.connect (h.timers id hmem)
    · cases hs
  | writeMessage id msg =>
    simp only [ClusterManager.step] at hs
    split at hs
    · rename_i session hget
      cases hs
      exact h.write (by simpa using h.sessions id session hget)
    · cases hs
      exact h
  | broadCast msg =>
    cases hs
    apply h.write
    intro p hp
    obtain ⟨⟨id, session⟩, hmem, rfl⟩ := List.mem_map.mp hp
    exact h.sessions id session (ExtTreeMap.mem_toList_iff_getElem?_eq_some.mp hmem)

end

theorem Sound.foldl_connect (h : Sound map m) {endpoints : List (Int × ResolverResults)}
    (he : ∀ p ∈ endpoints, p.1 ∈ map) :
    Sound map (endpoints.foldl (fun m p => m.connect p.1) m) := by
  induction endpoints generalizing m with
  | nil => exact h
  | cons p endpoints ih =>
    rw [List.forall_mem_cons] at he
    exact ih (h.connect he.1) he.2

theorem sound_start (endpoints : List (Int × ResolverResults)) :
    Sound (idMap endpoints) (start endpoints) := by
  apply Sound.foldl_connect
  · exact ⟨rfl, by simp, by simp, by simp, by simp⟩
  · intro p hp
    rw [idMap, Maps.mem_foldl_insert]
    exact Or.inr ⟨p, hp, rfl⟩

theorem sound_run {endpoints : List (Int × ResolverResults)} (r : Execution endpoints) :
    ∀ k ≤ r.length, Sound (idMap endpoints) (r.states k) := by
  apply r.induct (P := fun k => Sound (idMap endpoints) (r.states k))
  · rw [r.starts]
    exact sound_start endpoints
  · exact fun k hk ih => ih.step (r.steps k hk)

end

end ClusterManager

end FlowMQ
