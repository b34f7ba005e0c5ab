import FlowMQ.ClientSessions

/-!
# Round-robin delivery

While the list of consumers of a partition does not change, its messages go
round the list: the counter of the partition moves on by one with each of its
deliveries, and nothing else moves it.
-/

namespace FlowMQ

open Std (ExtTreeMap)

deriving instance DecidableEq for SessionEvent

/-! ## Residues of a running counter -/

theorem ceilDiv_eq {m : Nat} (hm : 0 < m) (n : Nat) : n ⌈/⌉ m = n / m + if n % m = 0 then 0 else 1 := by
  have hlt := Nat.mod_lt n hm
  rw [Nat.ceilDiv_eq_add_pred_div, Nat.add_sub_assoc hm, Nat.add_div hm,
    Nat.div_eq_of_lt (Nat.sub_lt hm Nat.one_pos), Nat.mod_eq_of_lt (Nat.sub_lt hm Nat.one_pos)]
  split_ifs <;> omega

theorem count_mod_eq {m i : Nat} (hi : i < m) (b : Nat) :
    Nat.count (fun t => t % m = i) b = b / m + if i < b % m then 1 else 0 := by
  have h := Nat.count_modEq_card b (Nat.zero_lt_of_lt hi) i
  simp only [Nat.ModEq, Nat.mod_eq_of_lt hi] at h
  exact h

theorem count_residue {m i : Nat} (hi : i < m) (a n : Nat) :
    Nat.count (fun t => (a + t) % m = i) n = n / m ∨ Nat.count (fun t => (a + t) % m = i) n = n ⌈/⌉ m := by
  have hm : 0 < m := Nat.zero_lt_of_lt hi
  have ha := Nat.mod_lt a hm
  have hn := Nat.mod_lt n hm
  have hsplit := Nat.count_add (fun t => t % m = i) a n
  rw [count_mod_eq hi, count_mod_eq hi, Nat.add_div hm, Nat.add_mod_eq_ite] at hsplit
  rw [ceilDiv_eq hm]
  split_ifs at hsplit ⊢ <;> omega

namespace ClientManager

def count (m : ClientManager) (partitionId : Int) : Int := m.deliverCount.getD partitionId 0

theorem deliver_eq {m : ClientManager} {p : Int} {ids : List Int} (h : m.consumerClientIdArray[p]? = some ids)
    {n : Nat} (hcount : m.count p = n) (hn : n < 2 ^ 31) {c : Int} (hc : ids[n % ids.length]? = some c)
    (hcon : m.Connected c) :
    (m.deliverOneMessageRoundRobin p).result = c ∧ (m.deliverOneMessageRoundRobin p).written = some (c, true) ∧
      (m.deliverOneMessageRoundRobin p).manager.count p = n + 1 := by
  have hindex : (((n : Int) % 2 ^ 64) % (ids.length : Int)).toNat = n % ids.length := by
    rw [Int.emod_eq_of_lt (a := (n : Int)) (b := 2 ^ 64) (by omega) (by omega), ← Int.natCast_emod,
      Int.toNat_natCast]
  have hsession : m.clientSessions.getD c false = true := by
    rw [ExtTreeMap.getD_eq_getD_getElem?, hcon, Option.getD_some]
  have hcount' : m.deliverCount.getD p 0 = n := hcount
  unfold deliverOneMessageRoundRobin
  split
  · rename_i hnone
    rw [h] at hnone
    cases hnone
  · rename_i hnil
    rw [h] at hnil
    cases hnil
    cases hc
  · rename_i ids' _ hsome
    rw [h] at hsome
    cases hsome
    simp only [hcount', hindex, List.getD_eq_getElem?_getD, hc, Option.getD_some, hsession]
    refine ⟨trivial, trivial, ?_⟩
    rw [count, ExtTreeMap.getD_insert_self]

theorem count_deliver_of_ne (m : ClientManager) {p q : Int} (h : q ≠ p) :
    (m.deliverOneMessageRoundRobin q).manager.count p = m.count p := by
  unfold deliverOneMessageRoundRobin
  split
  · rfl
  · rfl
  · simp only [count, ExtTreeMap.getD_insert, compare_eq_iff_eq, h, if_false]

end ClientManager

namespace Sessions

abbrev Window := Runs.Run (fun _ => True) step

variable (r : Window) (p : Int)

def calls (k : Nat) : Nat := Nat.count (fun j => r.events j = .deliver p) k

def DeliversTo (c : Int) (j : Nat) : Prop :=
  r.events j = .deliver p ∧ ((r.states j).manager.deliverOneMessageRoundRobin p).written = some (c, true)

instance (c : Int) : DecidablePred (DeliversTo r p c) := fun _ => inferInstanceAs (Decidable (_ ∧ _))

structure Serves (ids : List Int) : Prop where
  list : ∀ k ≤ r.length, (r.states k).manager.consumerClientIdArray[p]? = some ids
  connected : ∀ k ≤ r.length, ∀ c ∈ ids, (r.states k).manager.Connected c

variable {r p}

theorem count_step {s s' : Sessions} {e : SessionEvent} (h : s.step e = some s') (he : e ≠ .deliver p) :
    s'.manager.count p = s.manager.count p := by
  cases step_cases h with
  | acceptNewConnection => rfl
  | openQueue => rfl
  | disconnected => rfl
  | deliver => exact ClientManager.count_deliver_of_ne _ fun hq => he (congrArg _ hq)

theorem calls_succ (k : Nat) : calls r p (k + 1) = calls r p k + if r.events k = .deliver p then 1 else 0 :=
  Nat.count_succ _ k

section
variable {ids : List Int} (hs : Serves r p ids) (hne : ids ≠ []) {a : Nat}
  (hint : a + calls r p r.length < 2 ^ 31)
include hs hne hint

theorem deliver_run {k : Nat} (hk : k < r.length) (he : r.events k = .deliver p)
    (hcount : (r.states k).manager.count p = (a + calls r p k : Nat)) :
    ∃ c ∈ ids, ids[(a + calls r p k) % ids.length]? = some c ∧
      ((r.states k).manager.deliverOneMessageRoundRobin p).result = c ∧
      ((r.states k).manager.deliverOneMessageRoundRobin p).written = some (c, true) ∧
      (r.states (k + 1)).manager.count p = (a + calls r p (k + 1) : Nat) := by
  have hle : calls r p k ≤ calls r p r.length := Nat.count_monotone _ hk.le
  have hlt : (a + calls r p k) % ids.length < ids.length := Nat.mod_lt _ (List.length_pos_iff.mpr hne)
  have hget := List.getElem?_eq_getElem hlt
  have hmem := List.getElem_mem hlt
  obtain ⟨hresult, hwritten, hnext⟩ :=
    ClientManager.deliver_eq (hs.list k hk.le) hcount (by omega) hget (hs.connected k hk.le _ hmem)
  refine ⟨_, hmem, hget, hresult, hwritten, ?_⟩
  have hstep := r.steps k hk
  rw [he] at hstep
  rw [← Option.some.inj hstep, hnext, calls_succ, if_pos he]
  rfl

variable (ha : (r.states 0).manager.count p = a)
include ha

theorem count_run : ∀ k ≤ r.length, (r.states k).manager.count p = (a + calls r p k : Nat) := by
  apply r.induct (P := fun k => (r.states k).manager.count p = (a + calls r p k : Nat))
  · exact ha
  · intro k hk ih
    by_cases he : r.events k = .deliver p
    · obtain ⟨c, -, -, -, -, hnext⟩ := deliver_run hs hne hint hk he ih
      exact hnext
    · rw [count_step (r.steps k hk) he, ih, calls_succ, if_neg he, Nat.add_zero]

theorem count_deliversTo (c : Int) : ∀ k ≤ r.length, Nat.count (DeliversTo r p c) k =
    Nat.count (fun t => ids[(a + t) % ids.length]? = some c) (calls r p k) := by
  apply r.induct (P := fun k => Nat.count (DeliversTo r p c) k =
    Nat.count (fun t => ids[(a + t) % ids.length]? = some c) (calls r p k))
  · rfl
  · intro k hk ih
    rw [Nat.count_succ, ih, calls_succ]
    by_cases he : r.events k = .deliver p
    · obtain ⟨c', -, hget, -, hwritten, -⟩ := deliver_run hs hne hint hk he (count_run hs hne hint ha k hk.le)
      rw [if_pos he, Nat.count_succ, hget]
      simp [DeliversTo, he, hwritten]
    · rw [if_neg he, Nat.add_zero, if_neg fun hd => he hd.1, Nat.add_zero]

end

/-- Among the deliveries of a partition every consumer gets its share, rounded down or up, and each delivery
returns the client it wrote to. -/
theorem round_robin_fair {ids : List Int} (hs : Serves r p ids) (hne : ids ≠ []) (hnodup : ids.Nodup)
    (hpos : 0 ≤ (r.states 0).manager.count p)
    (hint : (r.states 0).manager.count p + calls r p r.length < 2 ^ 31) :
    (∀ c ∈ ids, Nat.count (DeliversTo r p c) r.length = calls r p r.length / ids.length ∨
      Nat.count (DeliversTo r p c) r.length = calls r p r.length ⌈/⌉ ids.length) ∧
    ∀ k < r.length, r.events k = .deliver p → ∃ c ∈ ids,
      ((r.states k).manager.deliverOneMessageRoundRobin p).result = c ∧
        ((r.states k).manager.deliverOneMessageRoundRobin p).written = some (c, true) := by
  obtain ⟨a, ha⟩ := Int.eq_ofNat_of_zero_le hpos
  have hint' : a + calls r p r.length < 2 ^ 31 := by omega
  constructor
  · intro c hc
    obtain ⟨i, hi, rfl⟩ := List.getElem_of_mem hc
    have hplace : ∀ t, ids[(a + t) % ids.length]? = some ids[i] ↔ (a + t) % ids.length = i := by
      intro t
      rw [← List.getElem?_eq_getElem hi]
      exact ⟨fun h => ((List.getElem?_inj hi hnodup).mp h.symm).symm, fun h => by rw [h]⟩
    rw [count_deliversTo hs hne hint' ha _ r.length le_rfl]
    simp only [hplace]
    exact count_residue hi a _
  · intro k hk he
    obtain ⟨c, hc, -, hresult, hwritten, -⟩ :=
      deliver_run hs hne hint' hk he (count_run hs hne hint' ha k hk.le)
    exact ⟨c, hc, hresult, hwritten⟩

def threeConsumers : Sessions :=
  { manager :=
      { clientSessions := (((∅ : ExtTreeMap Int Bool compare).insert 4 true).insert 5 true).insert 6 true
        consumerClientIdArray := ((∅ : ExtTreeMap Int (List Int) compare).insert 0 [4, 5, 6]).insert 1 [5]
        deliverCount := (∅ : ExtTreeMap Int Int compare).insert 0 7 }
    accepted := [4, 5, 6], ended := [] }

def fourDeliveries : List SessionEvent :=
  [.deliver 0, .deliver 1, .deliver 0, .acceptNewConnection 9, .deliver 0, .deliver 0]

theorem fourDeliveries_isSome : (Runs.exec step threeConsumers fourDeliveries).isSome := by decide +kernel

def fourDeliveriesRun : Window := .ofEvents threeConsumers trivial fourDeliveries fourDeliveries_isSome

theorem round_robin_fair_fourDeliveries : calls fourDeliveriesRun 0 6 = 4 ∧
    ∀ c ∈ [4, 5, 6], Nat.count (DeliversTo fourDeliveriesRun 0 c) 6 = 1 ∨
    Nat.count (DeliversTo fourDeliveriesRun 0 c) 6 = 2 := by
  have hcalls : calls fourDeliveriesRun 0 6 = 4 := by decide +kernel
  have hserves : Serves fourDeliveriesRun 0 [4, 5, 6] := ⟨by decide +kernel, by decide +kernel⟩
  obtain ⟨hshare, -⟩ :=
    round_robin_fair hserves (by decide) (by decide) (by decide +kernel) (by decide +kernel)
  refine ⟨hcalls, fun c hc => ?_⟩
  have hc' := hshare c hc
  rw [show fourDeliveriesRun.length = 6 from rfl, hcalls] at hc'
  exact hc'

end Sessions

end FlowMQ
