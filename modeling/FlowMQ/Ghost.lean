import FlowMQ.ClusterStep
import FlowMQ.Lib.TermLog

/-!
# History variables

What the arguments about whole runs remember: the vote and the last log of every
node in every term, who asked for votes and whose votes were counted, and for
every term its winner and the log it won with. They are computed along a run
from the states and events alone.
-/

namespace FlowMQ

/-- `lastLog i t` is the log of `i` when it was last seen in term `t`, and `[]`
when it never was; `voted` likewise, with `-1` for no vote. -/
structure Ghost (n : Nat) where
  voted : Fin n → Int → Int
  asked : Fin n → Int → Prop
  counted : Fin n → Finset (Fin n)
  won : Int → Option (Fin n)
  electLog : Int → List LogEntry
  lastLog : Fin n → Int → List LogEntry

def Wins (r r' : RaftState) : Prop := r.state = .candidate ∧ r'.state = .leader

instance (r r' : RaftState) : Decidable (Wins r r') := inferInstanceAs (Decidable (_ ∧ _))

def Counts (r r' : RaftState) : Prop := r'.curTerm = r.curTerm ∧ r'.votesCollected = r.votesCollected + 1

instance (r r' : RaftState) : Decidable (Counts r r') := inferInstanceAs (Decidable (_ ∧ _))

namespace Ghost

variable {n : Nat}

def start (n : Nat) : Ghost n :=
  { voted := fun _ _ => -1, asked := fun _ _ => False, counted := fun _ => ∅, won := fun _ => none
    electLog := fun _ => [], lastLog := fun _ t => if t = 0 then [LogEntry.dummy] else [] }

def record (g : Ghost n) (i who : Fin n) (r r' : RaftState) : Ghost n :=
  { voted := fun j t => if j = i ∧ t = r'.curTerm then r'.votedFor else g.voted j t
    asked := fun j t => g.asked j t ∨ (Counts r r' ∧ who = i ∧ j = i ∧ t = r'.curTerm)
    counted := fun j =>
      if j = i then
        if Counts r r' then insert who (g.counted i) else if r'.curTerm = r.curTerm then g.counted i else ∅
      else g.counted j
    won := fun t => if Wins r r' ∧ t = r'.curTerm then some i else g.won t
    electLog := fun t => if Wins r r' ∧ t = r'.curTerm then r'.logEntries else g.electLog t
    lastLog := fun j t => if j = i ∧ t = r'.curTerm then r'.logEntries else g.lastLog j t }

/-- The log of a term: that of its winner, as far as the winner took it in the term. -/
def log (g : Ghost n) (t : Int) : List LogEntry :=
  match g.won t with
  | some w => g.lastLog w t
  | none => [LogEntry.dummy]

section
variable (g : Ghost n) (i who : Fin n) (r r' : RaftState)

@[simp] theorem record_voted_self : (g.record i who r r').voted i r'.curTerm = r'.votedFor := by simp [record]

@[simp] theorem record_lastLog_self : (g.record i who r r').lastLog i r'.curTerm = r'.logEntries := by
  simp [record]

variable {g i who r r'}

theorem record_voted_of_ne {j : Fin n} {t : Int} (h : ¬ (j = i ∧ t = r'.curTerm)) :
    (g.record i who r r').voted j t = g.voted j t := if_neg h

theorem record_lastLog_of_ne {j : Fin n} {t : Int} (h : ¬ (j = i ∧ t = r'.curTerm)) :
    (g.record i who r r').lastLog j t = g.lastLog j t := if_neg h

theorem record_counted_of_ne {j : Fin n} (h : j ≠ i) : (g.record i who r r').counted j = g.counted j :=
  if_neg h

theorem record_counted_counts (h : Counts r r') :
    (g.record i who r r').counted i = insert who (g.counted i) := by simp [record, h]

theorem record_counted_keeps (h : ¬ Counts r r') (ht : r'.curTerm = r.curTerm) :
    (g.record i who r r').counted i = g.counted i := by simp [record, h, ht]

theorem record_counted_leaves (ht : r'.curTerm ≠ r.curTerm) : (g.record i who r r').counted i = ∅ := by
  have h : ¬ Counts r r' := fun h => ht h.1
  simp [record, h, ht]

theorem record_won_wins (h : Wins r r') : (g.record i who r r').won r'.curTerm = some i := if_pos ⟨h, rfl⟩

theorem record_electLog_wins (h : Wins r r') : (g.record i who r r').electLog r'.curTerm = r'.logEntries :=
  if_pos ⟨h, rfl⟩

theorem record_won_of_not {t : Int} (h : ¬ (Wins r r' ∧ t = r'.curTerm)) :
    (g.record i who r r').won t = g.won t := if_neg h

theorem record_electLog_of_not {t : Int} (h : ¬ (Wins r r' ∧ t = r'.curTerm)) :
    (g.record i who r r').electLog t = g.electLog t := if_neg h

theorem record_asked {j : Fin n} {t : Int} (h : g.asked j t) : (g.record i who r r').asked j t := Or.inl h

theorem asked_of_record {j : Fin n} {t : Int} (h : (g.record i who r r').asked j t)
    (hc : ¬ (Counts r r' ∧ who = i ∧ j = i)) : g.asked j t := by
  rcases h with h | ⟨h₁, h₂, h₃, -⟩
  · exact h
  · exact absurd ⟨h₁, h₂, h₃⟩ hc

end

end Ghost

namespace Cluster

variable {n : Nat}

def actor (s : Cluster n) : Event n → Option (Fin n × Fin n)
  | .input i _ => some (i, i)
  | .deliver k _ => s.net[k]?.map fun pk => (pk.dst, pk.src)
  | .redeliver k _ => s.net[k]?.map fun pk => (pk.dst, pk.src)
  | .lose _ => none

def observe (s : Cluster n) (e : Event n) (s' : Cluster n) (g : Ghost n) : Ghost n :=
  match s.actor e with
  | some (i, who) => g.record i who (s.raft i) (s'.raft i)
  | none => g

inductive Handles (c : Channel) (s : Cluster n) (e : Event n) :
    Fin n → Fin n → Option RaftMessage → List (Packet n) → Prop
  | input {i} : Handles c s e i i none s.net
  | message {pk net} (hl : Left c s pk net) (hg : ∀ g, onMessage g s e → g (s.raft pk.dst) pk.msg) :
    Handles c s e pk.dst pk.src (some pk.msg) net

inductive Moves (c : Channel) (s : Cluster n) (g : Ghost n) (e : Event n) (s' : Cluster n) : Ghost n → Prop
  | lose {pk l₁ l₂} (hn : s.net = l₁ ++ pk :: l₂) (hn' : s'.net = l₁ ++ l₂) (hr : ∀ i, s'.raft i = s.raft i)
    (ha : s'.history = s.history) : Moves c s g e s' g
  | act {i who msg net l} (hm : Handles c s e i who msg net) (ht : Trans (s.raft i) msg (s'.raft i) l)
    (ho : ∀ j, j ≠ i → s'.raft j = s.raft j) (hn : s'.net = net ++ l.flatMap (packets i))
    (ha : ∃ out, l = sends out ∧ s'.history = (s.history ++ out.map fun e => (i, e)) ∧
      out.filter Effect.isRecord = (s.raft i).records msg) :
    Moves c s g e s' (g.record i who (s.raft i) (s'.raft i))

theorem moves_of_step {c : Channel} {s s' : Cluster n} {e : Event n} (h : s.step c e = some s') (g : Ghost n) :
    Moves c s g e s' (observe s e s' g) := by
  cases step_spec h with
  | lose hn => exact .lose hn rfl (fun _ => rfl) rfl
  | input ha =>
    exact .act .input ha.trans ha.others ha.net ⟨_, rfl, ha.history, ha.records⟩
  | @message _ k now pk net he hk hl ha =>
    have hobs : observe s e (s.act pk.dst (·.localMessageHandler now 0 pk.msg) net) g = g.record pk.dst pk.src
        (s.raft pk.dst) ((s.act pk.dst (·.localMessageHandler now 0 pk.msg) net).raft pk.dst) := by
      rcases he with rfl | rfl <;> simp [observe, actor, hk]
    rw [hobs]
    refine .act (.message hl fun p hp => ?_) ha.trans ha.others ha.net ⟨_, rfl, ha.history, ha.records⟩
    rcases he with rfl | rfl <;> exact hp pk hk

def past {c : Channel} (r : Execution n c) (k : Nat) : Ghost n := r.observe (Ghost.start n) observe k

theorem moves {c : Channel} (r : Execution n c) {k : Nat} (hk : k < r.length) :
    Moves c (r.states k) (past r k) (r.events k) (r.states (k + 1)) (past r (k + 1)) :=
  moves_of_step (r.steps k hk) (past r k)

theorem Moves.of_wins {c : Channel} {s s' : Cluster n} {g g' : Ghost n} {e : Event n}
    (hm : Moves c s g e s' g') {i : Fin n} (hw : Wins (s.raft i) (s'.raft i)) :
    ∃ who msg net l, Handles c s e i who msg net ∧ Trans (s.raft i) msg (s'.raft i) l ∧
      g' = g.record i who (s.raft i) (s'.raft i) := by
  have hne : s'.raft i ≠ s.raft i := fun heq => by
    rw [heq] at hw
    exact State.noConfusion (hw.1.symm.trans hw.2)
  cases hm with
  | lose hn hn' hr => exact absurd (hr i) hne
  | @act j who msg net l hh ht ho hn =>
    obtain rfl : i = j := by_contra fun hi => hne (ho i hi)
    exact ⟨who, msg, net, l, hh, ht, rfl⟩

theorem Left.split {c : Channel} {s : Cluster n} {pk : Packet n} {net : List (Packet n)} (h : Left c s pk net)
    (hc : c ≠ .duplicating) : ∃ l₁ l₂, s.net = l₁ ++ pk :: l₂ ∧ net = l₁ ++ l₂ := by
  rcases h with h | ⟨h, -⟩
  · exact h
  · exact absurd h hc

theorem Handles.subset {c : Channel} {s : Cluster n} {e : Event n} {i who : Fin n} {msg : Option RaftMessage}
    {net : List (Packet n)} (h : Handles c s e i who msg net) : ∀ pk ∈ net, pk ∈ s.net := by
  cases h with
  | input => exact fun pk hpk => hpk
  | message hl hg => exact hl.subset.2

theorem Handles.message_inv {c : Channel} {s : Cluster n} {e : Event n} {i who : Fin n} {m : RaftMessage}
    {net : List (Packet n)} (h : Handles c s e i who (some m) net) :
    ∃ pk, pk.dst = i ∧ pk.src = who ∧ pk.msg = m ∧ Left c s pk net ∧ ∀ g, onMessage g s e → g (s.raft i) m := by
  generalize hm : some m = msg at h
  cases h with
  | input => cases hm
  | message hl hg =>
    cases hm
    exact ⟨_, rfl, rfl, rfl, hl, hg⟩

theorem Handles.who_of_none {c : Channel} {s : Cluster n} {e : Event n} {i who : Fin n} {net : List (Packet n)}
    (h : Handles c s e i who none net) : who = i ∧ net = s.net := by
  generalize hm : none = msg at h
  cases h with
  | input => exact ⟨rfl, rfl⟩
  | message => cases hm

theorem mem_of_lose {s s' : Cluster n} {pk : Packet n} {l₁ l₂ : List (Packet n)} (hn : s.net = l₁ ++ pk :: l₂)
    (hn' : s'.net = l₁ ++ l₂) : ∀ q ∈ s'.net, q ∈ s.net := by
  rw [hn']
  exact mem_of_split hn

inductive InFlight (c : Channel) (s : Cluster n) (g : Ghost n) (e : Event n) (s' : Cluster n)
    (pk : Packet n) : Ghost n → Prop
  | old {g'} (hpk : pk ∈ s.net) : InFlight c s g e s' pk g'
  | sent {i who msg net l} (hm : Handles c s e i who msg net) (ht : Trans (s.raft i) msg (s'.raft i) l)
    (ho : ∀ j, j ≠ i → s'.raft j = s.raft j) (hpk : pk ∈ l.flatMap (packets i)) :
    InFlight c s g e s' pk (g.record i who (s.raft i) (s'.raft i))

theorem Moves.inFlight {c : Channel} {s s' : Cluster n} {g g' : Ghost n} {e : Event n}
    (hm : Moves c s g e s' g') {pk : Packet n} (hpk : pk ∈ s'.net) : InFlight c s g e s' pk g' := by
  cases hm with
  | lose hn hn' hr => exact .old (mem_of_lose hn hn' pk hpk)
  | act hh ht ho hn =>
    rw [hn] at hpk
    rcases List.mem_append.mp hpk with hpk | hpk
    · exact .old (hh.subset pk hpk)
    · exact .sent hh ht ho hpk

end Cluster

end FlowMQ
