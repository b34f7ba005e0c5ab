import FlowMQ.ClientManager
import FlowMQ.Lib.Runs
import FlowMQ.Lib.Maps

/-!
# Sessions and consumer lists

Connections come with fresh ids, a client may ask to open a queue at any time
after that and as often as it likes, and the disconnect handler of a session
runs once. The consumer lists point to live sessions as long as no request is
handled after its session is gone and no client is listed twice when it leaves.
-/

namespace FlowMQ

open Std (ExtTreeMap)

namespace ClientManager

def consumers (m : ClientManager) (partitionId : Int) : List Int :=
  m.consumerClientIdArray.getD partitionId []

def Connected (m : ClientManager) (c : Int) : Prop := m.clientSessions[c]? = some true

instance (m : ClientManager) (c : Int) : Decidable (m.Connected c) := inferInstanceAs (Decidable (_ = _))

def Live (m : ClientManager) : Prop := ∀ p, ∀ c ∈ m.consumers p, m.Connected c

theorem consumers_congr {m m' : ClientManager} (h : m'.consumerClientIdArray = m.consumerClientIdArray) (p : Int) :
    m'.consumers p = m.consumers p := by
  rw [consumers, h, consumers]

theorem hasConsumers_congr {m m' : ClientManager} (h : m'.consumerClientIdArray = m.consumerClientIdArray) :
    m'.hasConsumers = m.hasConsumers := by
  rw [hasConsumers, h, hasConsumers]

section
variable (m : ClientManager) (p p' c c' : Int)

theorem consumers_of_some {ids : List Int} (h : m.consumerClientIdArray[p]? = some ids) :
    m.consumers p = ids := by
  rw [consumers, ExtTreeMap.getD_eq_getD_getElem?, h, Option.getD_some]

theorem consumers_register :
    (m.registerConsumer p c).consumers p' = if p = p' then m.consumers p' ++ [c] else m.consumers p' := by
  simp only [consumers, registerConsumer, ExtTreeMap.getD_insert, compare_eq_iff_eq]
  split
  · rename_i h
    rw [h]
  · rfl

theorem consumers_remove : (m.removeSession c).consumers p = (m.consumers p).erase c := by
  simp only [consumers, removeSession, ExtTreeMap.getD_eq_getD_getElem?, ExtTreeMap.getElem?_map]
  cases m.consumerClientIdArray[p]? <;> simp

theorem connected_accept : (m.acceptNewConnection c).Connected c' ↔ c = c' ∨ m.Connected c' := by
  simp only [Connected, acceptNewConnection, ExtTreeMap.getElem?_insert, compare_eq_iff_eq]
  by_cases h : c = c' <;> simp [h]

theorem connected_remove : (m.removeSession c).Connected c' ↔ c ≠ c' ∧ m.Connected c' := by
  simp only [Connected, removeSession, ExtTreeMap.getElem?_erase, compare_eq_iff_eq]
  by_cases h : c = c' <;> simp [h]

end

/-! ## Delivery -/

inductive Picks (m : ClientManager) (partitionId : Int) : Delivery → Prop
  | missing (h : m.consumerClientIdArray[partitionId]? = none) :
    Picks m partitionId { result := 1, manager := m, written := none }
  | empty (h : m.consumerClientIdArray[partitionId]? = some []) :
    Picks m partitionId { result := -1, manager := m, written := none }
  | write {ids c count} (h : m.consumerClientIdArray[partitionId]? = some ids) (hc : c ∈ ids) :
    Picks m partitionId
      { result := c
        manager := { m with clientSessions := m.clientSessions.insertIfNew c false, deliverCount := count }
        written := some (c, m.clientSessions.getD c false) }

theorem deliverOneMessageRoundRobin_spec (m : ClientManager) (partitionId : Int) :
    Picks m partitionId (m.deliverOneMessageRoundRobin partitionId) := by
  unfold deliverOneMessageRoundRobin
  split
  · rename_i h
    exact .missing h
  · rename_i h
    exact .empty h
  · rename_i ids hne h
    refine .write h ?_
    -- the remainder is inside the list, which is not empty
    have hpos : 0 < ids.length := List.length_pos_iff.mpr hne
    have hlt := Int.emod_lt_of_pos (m.deliverCount.getD partitionId 0 % 2 ^ 64) (Int.ofNat_lt.mpr hpos)
    have hidx : ((m.deliverCount.getD partitionId 0 % 2 ^ 64) % (ids.length : Int)).toNat < ids.length := by
      omega
    rw [List.getD_eq_getElem _ _ hidx]
    exact List.getElem_mem hidx

theorem deliver_keeps {m : ClientManager} {p : Int} {d : Delivery} (h : Picks m p d) :
    d.manager.consumerClientIdArray = m.consumerClientIdArray ∧ ∀ c, d.manager.Connected c ↔ m.Connected c := by
  cases h with
  | missing h => exact ⟨rfl, fun c => Iff.rfl⟩
  | empty h => exact ⟨rfl, fun c => Iff.rfl⟩
  | write h hc => exact ⟨rfl, fun c => Maps.getElem?_insertIfNew_of_ne (by decide)⟩

theorem Live.written {m : ClientManager} (hm : m.Live) {p c : Int} {session : Bool}
    (h : (m.deliverOneMessageRoundRobin p).written = some (c, session)) : session = true := by
  have hd := deliverOneMessageRoundRobin_spec m p
  generalize m.deliverOneMessageRoundRobin p = d at hd h
  cases hd with
  | missing _ => cases h
  | empty _ => cases h
  | write hl hc =>
    cases h
    have hcon : m.Connected c := hm p c (by rwa [consumers_of_some m p hl])
    rw [ExtTreeMap.getD_eq_getD_getElem?, hcon, Option.getD_some]

end ClientManager

/-! ## The session events -/

/-- `accepted` lists the ids of all connections so far, `ended` those whose disconnect handler has run. -/
structure Sessions where
  manager : ClientManager
  accepted : List Int
  ended : List Int

inductive SessionEvent where
  | acceptNewConnection (id : Int)
  | openQueue (clientId partitionId : Int)
  | disconnected (clientId : Int)
  | deliver (partitionId : Int)
  deriving Inhabited

namespace Sessions

def step (s : Sessions) : SessionEvent → Option Sessions
  | .acceptNewConnection id =>
    if id ∈ s.accepted then none
    else some { s with manager := s.manager.acceptNewConnection id, accepted := id :: s.accepted }
  | .openQueue clientId partitionId =>
    -- a message that was already being read is handled even when the session is gone
    if clientId ∈ s.accepted then some { s with manager := s.manager.registerConsumer partitionId clientId }
      else none
  | .disconnected clientId =>
    if clientId ∈ s.accepted ∧ clientId ∉ s.ended then
      some { s with manager := s.manager.removeSession clientId, ended := clientId :: s.ended }
    else none
  | .deliver partitionId =>
    some { s with manager := (s.manager.deliverOneMessageRoundRobin partitionId).manager }

def Starts (s : Sessions) : Prop := s = { manager := .empty, accepted := [], ended := [] }

abbrev Execution := Runs.Run Starts step

end Sessions

/-- A queue is opened by a connected client, and a client that leaves is at most once in each list. -/
def ClientManager.Orderly (m : ClientManager) : SessionEvent → Prop
  | .openQueue clientId _ => m.Connected clientId
  | .disconnected clientId => ∀ x ∈ m.consumerClientIdArray.toList, x.2.count clientId ≤ 1
  | _ => True

instance (m : ClientManager) : (e : SessionEvent) → Decidable (m.Orderly e)
  | .acceptNewConnection _ => inferInstanceAs (Decidable True)
  | .openQueue clientId _ => inferInstanceAs (Decidable (m.Connected clientId))
  | .disconnected clientId =>
    inferInstanceAs (Decidable (∀ x ∈ m.consumerClientIdArray.toList, x.2.count clientId ≤ 1))
  | .deliver _ => inferInstanceAs (Decidable True)

namespace ClientManager

theorem count_le_iff (m : ClientManager) (c : Int) :
    (∀ x ∈ m.consumerClientIdArray.toList, x.2.count c ≤ 1) ↔ ∀ p, (m.consumers p).count c ≤ 1 := by
  constructor
  · intro h p
    cases hp : m.consumerClientIdArray[p]? with
    | none => simp [consumers, ExtTreeMap.getD_eq_getD_getElem?, hp]
    | some ids =>
      rw [consumers_of_some m p hp]
      exact h (p, ids) (ExtTreeMap.mem_toList_iff_getElem?_eq_some.mpr hp)
  · rintro h ⟨p, ids⟩ hx
    have hp := ExtTreeMap.mem_toList_iff_getElem?_eq_some.mp hx
    rw [← consumers_of_some m p hp]
    exact h p

section
variable {m : ClientManager} (hm : m.Live)
include hm

theorem live_accept (id : Int) : (m.acceptNewConnection id).Live := fun p c hc =>
  (connected_accept m id c).mpr (Or.inr (hm p c hc))

theorem live_register_iff (p c : Int) : (m.registerConsumer p c).Live ↔ m.Connected c := by
  constructor
  · intro h
    refine h p c ?_
    rw [consumers_register, if_pos rfl]
    simp
  · intro hcon p' c' hc'
    rw [consumers_register] at hc'
    split at hc'
    · rcases List.mem_append.mp hc' with hc' | hc'
      · exact hm p' c' hc'
      · rw [List.mem_singleton.mp hc']
        exact hcon
    · exact hm p' c' hc'

theorem live_remove_iff (c : Int) : (m.removeSession c).Live ↔ ∀ p, (m.consumers p).count c ≤ 1 := by
  constructor
  · intro h p
    by_contra hlt
    have hmem : c ∈ (m.consumers p).erase c := by
      rw [← List.count_pos_iff, List.count_erase_self]
      omega
    have hcon := h p c (by rwa [consumers_remove])
    exact ((connected_remove m c c).mp hcon).1 rfl
  · intro h p c' hc'
    rw [consumers_remove] at hc'
    refine (connected_remove m c c').mpr ⟨fun hcc => ?_, hm p c' (List.mem_of_mem_erase hc')⟩
    subst hcc
    have hpos := List.count_pos_iff.mpr hc'
    rw [List.count_erase_self] at hpos
    have := h p
    omega

theorem live_deliver (p : Int) : (m.deliverOneMessageRoundRobin p).manager.Live := by
  obtain ⟨hl, hc⟩ := deliver_keeps (deliverOneMessageRoundRobin_spec m p)
  intro p' c hmem
  rw [consumers_congr hl] at hmem
  exact (hc c).mpr (hm p' c hmem)

end

end ClientManager

namespace Sessions

inductive Step (s : Sessions) : SessionEvent → Sessions → Prop
  | acceptNewConnection {id} (h : id ∉ s.accepted) : Step s (.acceptNewConnection id)
      { s with manager := s.manager.acceptNewConnection id, accepted := id :: s.accepted }
  | openQueue {c p} (h : c ∈ s.accepted) : Step s (.openQueue c p)
      { s with manager := s.manager.registerConsumer p c }
  | disconnected {c} (h : c ∈ s.accepted ∧ c ∉ s.ended) : Step s (.disconnected c)
      { s with manager := s.manager.removeSession c, ended := c :: s.ended }
  | deliver {p} : Step s (.deliver p) { s with manager := (s.manager.deliverOneMessageRoundRobin p).manager }

theorem step_cases {s s' : Sessions} {e : SessionEvent} (h : s.step e = some s') : Step s e s' := by
  cases e with
  | acceptNewConnection id =>
    obtain ⟨hid, h⟩ := Option.ite_none_left_eq_some.mp h
    cases h
    exact .acceptNewConnection hid
  | openQueue c p =>
    obtain ⟨hc, h⟩ := Option.ite_none_right_eq_some.mp h
    cases h
    exact .openQueue hc
  | disconnected c =>
    obtain ⟨hc, h⟩ := Option.ite_none_right_eq_some.mp h
    cases h
    exact .disconnected hc
  | deliver p =>
    cases h
    exact .deliver

theorem live_step_iff {s s' : Sessions} {e : SessionEvent} (h : s.step e = some s') (hs : s.manager.Live) :
    s'.manager.Live ↔ s.manager.Orderly e := by
  cases step_cases h with
  | acceptNewConnection => exact iff_of_true (ClientManager.live_accept hs _) trivial
  | openQueue => exact ClientManager.live_register_iff hs _ _
  | disconnected =>
    exact (ClientManager.live_remove_iff hs _).trans (ClientManager.count_le_iff s.manager _).symm
  | deliver => exact iff_of_true (ClientManager.live_deliver hs _) trivial

theorem live_empty : ClientManager.empty.Live := fun p c hc => by
  simp [ClientManager.consumers, ClientManager.empty] at hc

/-- The lists stay live in exactly the runs whose steps are all orderly, and then no delivery meets a
null pointer. -/
theorem live_iff (r : Execution) :
    ((∀ k ≤ r.length, (r.states k).manager.Live) ↔ r.Always fun s e => s.manager.Orderly e) ∧
      ∀ k, (r.states k).manager.Live → ∀ p c session,
        ((r.states k).manager.deliverOneMessageRoundRobin p).written = some (c, session) → session = true := by
  have hstart : (r.states 0).manager.Live := by
    rw [show r.states 0 = _ from r.starts]
    exact live_empty
  refine ⟨?_, fun k hk p c session => hk.written⟩
  apply r.iff_always (I := fun s => s.manager.Live) (P := fun s => s.manager.Live) hstart fun _ _ h => h
  · exact fun k hk ih => (live_step_iff (r.steps k hk) ih).mpr
  · exact fun k hk ih => (live_step_iff (r.steps k hk) ih).mp

/-- A client that opens a queue twice is still listed after it left, and the next delivery goes through a
null pointer. -/
theorem not_live_openTwice : ∃ r : Execution, ¬ (∀ k ≤ r.length, (r.states k).manager.Live) ∧
    ((r.states r.length).manager.deliverOneMessageRoundRobin 0).written = some (5, false) := by
  let r : Execution :=
    .ofEvents _ rfl [.acceptNewConnection 5, .openQueue 5 0, .openQueue 5 0, .disconnected 5] rfl
  have hnull : ((r.states r.length).manager.deliverOneMessageRoundRobin 0).written = some (5, false) := by
    decide +kernel
  refine ⟨r, fun h => ?_, hnull⟩
  exact absurd ((h r.length le_rfl).written hnull) (by decide)

end Sessions

end FlowMQ
