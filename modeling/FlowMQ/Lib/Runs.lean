import Mathlib

/-!
# Finite runs of a transition system

A system is a partial step function on states. A run keeps the states and
events of one execution, so that a property of several moments of it is stated
by their positions. An observer adds history variables to a run without taking
part in it.
-/

namespace Runs

variable {S E O : Type}

structure Run (start : S → Prop) (next : S → E → Option S) where
  states : Nat → S
  events : Nat → E
  length : Nat
  starts : start (states 0)
  steps : ∀ k < length, next (states k) (events k) = some (states (k + 1))

namespace Run

variable {start : S → Prop} {next : S → E → Option S}

def Always (r : Run start next) (ok : S → E → Prop) : Prop := ∀ k < r.length, ok (r.states k) (r.events k)

theorem Always.mono {r : Run start next} {ok ok' : S → E → Prop} (h : r.Always ok)
    (hok : ∀ s e, ok s e → ok' s e) :
    r.Always ok' :=
  fun k hk => hok _ _ (h k hk)

theorem induct (r : Run start next) {P : Nat → Prop} (h₀ : P 0) (hs : ∀ k < r.length, P k → P (k + 1)) :
    ∀ k ≤ r.length, P k := by
  intro k
  induction k with
  | zero => exact fun _ => h₀
  | succ k ih => exact fun hk => hs k hk (ih (Nat.le_of_succ_le hk))

theorem stable (r : Run start next) {P : Nat → Prop} (hs : ∀ k < r.length, P k → P (k + 1)) {j k : Nat}
    (hjk : j ≤ k) (hk : k ≤ r.length) (hj : P j) : P k := by
  induction k, hjk using Nat.le_induction with
  | base => exact hj
  | succ k _ ih => exact hs k hk (ih (Nat.le_of_succ_le hk))

/-- A property that, from states with the invariant `I`, one step keeps exactly when it meets `ok`. -/
theorem iff_always (r : Run start next) {I P : S → Prop} {ok : S → E → Prop} (h₀ : I (r.states 0))
    (hI : ∀ k ≤ r.length, I (r.states k) → P (r.states k))
    (hkeep : ∀ k < r.length, I (r.states k) → ok (r.states k) (r.events k) → I (r.states (k + 1)))
    (hbreak : ∀ k < r.length, I (r.states k) → P (r.states (k + 1)) → ok (r.states k) (r.events k)) :
    (∀ k ≤ r.length, P (r.states k)) ↔ r.Always ok := by
  constructor
  · intro h
    have hinv : ∀ k ≤ r.length, I (r.states k) :=
      r.induct h₀ fun k hk ih => hkeep k hk ih (hbreak k hk ih (h (k + 1) hk))
    exact fun k hk => hbreak k hk (hinv k hk.le) (h (k + 1) hk)
  · intro h
    have hinv : ∀ k ≤ r.length, I (r.states k) := r.induct h₀ fun k hk ih => hkeep k hk ih (h k hk)
    exact fun k hk => hI k hk (hinv k hk)

/-- A history variable: it starts as `o` and `obs` updates it along the run. -/
def observe (r : Run start next) (o : O) (obs : S → E → S → O → O) : Nat → O
  | 0 => o
  | k + 1 => obs (r.states k) (r.events k) (r.states (k + 1)) (r.observe o obs k)

def single (s : S) (e : E) (hs : start s) : Run start next :=
  { states := fun _ => s, events := fun _ => e, length := 0, starts := hs, steps := fun k hk => by omega }

def snoc (r : Run start next) (e : E) (s : S) (h : next (r.states r.length) e = some s) : Run start next :=
  { states := fun k => if k ≤ r.length then r.states k else s
    events := fun k => if k < r.length then r.events k else e
    length := r.length + 1
    starts := by simpa using r.starts
    steps := fun k hk => by
      rcases Nat.lt_succ_iff_lt_or_eq.mp hk with hk | rfl
      · simpa [hk, hk.le, Nat.succ_le_of_lt hk] using r.steps k hk
      · simpa using h }

theorem snoc_always (r : Run start next) {e : E} {s : S} (h : next (r.states r.length) e = some s)
    {ok : S → E → Prop} (hr : r.Always ok) (he : ok (r.states r.length) e) : (r.snoc e s h).Always ok := by
  intro k hk
  rcases Nat.lt_succ_iff_lt_or_eq.mp hk with hk | rfl
  · simpa [snoc, hk, hk.le] using hr k hk
  · simpa [snoc] using he

end Run

def Next (next : S → E → Option S) (ok : S → E → Prop) (s s' : S) : Prop := ∃ e, ok s e ∧ next s e = some s'

theorem Run.exists_extension {start : S → Prop} {next : S → E → Option S} {ok : S → E → Prop} (r : Run start next)
    (hr : r.Always ok) {s : S} (h : Relation.ReflTransGen (Next next ok) (r.states r.length) s) :
    ∃ r' : Run start next, r'.Always ok ∧ r.length ≤ r'.length ∧ (∀ k ≤ r.length, r'.states k = r.states k) ∧
      r'.states r'.length = s := by
  induction h with
  | refl => exact ⟨r, hr, le_rfl, fun _ _ => rfl, rfl⟩
  | tail _ hn ih =>
    obtain ⟨r', hr', hlength, hsame, rfl⟩ := ih
    obtain ⟨e, he, hs⟩ := hn
    refine ⟨r'.snoc e _ hs, r'.snoc_always hs hr' he, Nat.le_succ_of_le hlength, fun k hk => ?_, ?_⟩
    · simp [Run.snoc, hk.trans hlength, hsame k hk]
    · simp [Run.snoc]

theorem exists_run [Nonempty E] {start : S → Prop} {next : S → E → Option S} {ok : S → E → Prop} {s₀ s : S}
    (h₀ : start s₀) (h : Relation.ReflTransGen (Next next ok) s₀ s) :
    ∃ r : Run start next, r.Always ok ∧ r.states r.length = s := by
  obtain ⟨e⟩ := ‹Nonempty E›
  obtain ⟨r, hr, -, -, hs⟩ := (Run.single s₀ e h₀ : Run start next).exists_extension
    (fun k hk => absurd hk (Nat.not_lt_zero k)) h
  exact ⟨r, hr, hs⟩

theorem Run.reaches {start : S → Prop} {next : S → E → Option S} {ok : S → E → Prop} (r : Run start next)
    (hr : r.Always ok) {j k : Nat} (hjk : j ≤ k) (hk : k ≤ r.length) :
    Relation.ReflTransGen (Next next ok) (r.states j) (r.states k) := by
  induction k, hjk using Nat.le_induction with
  | base => exact .refl
  | succ k _ ih => exact (ih (Nat.le_of_succ_le hk)).tail ⟨_, hr k hk, r.steps k hk⟩

/-! ## Running a list of events -/

def exec (next : S → E → Option S) : S → List E → Option S
  | s, [] => some s
  | s, e :: es => (next s e).bind fun s' => exec next s' es

def guarded (ok : S → E → Prop) [∀ s e, Decidable (ok s e)] (next : S → E → Option S) (s : S) (e : E) :
    Option S :=
  if ok s e then next s e else none

theorem reaches_of_exec {next : S → E → Option S} {ok : S → E → Prop} [∀ s e, Decidable (ok s e)] :
    ∀ {es : List E} {s s' : S}, exec (guarded ok next) s es = some s' →
      Relation.ReflTransGen (Next next ok) s s'
  | [], s, s', h => by cases h; exact .refl
  | e :: es, s, s', h => by
    obtain ⟨s₁, h₁, h₂⟩ := Option.bind_eq_some_iff.mp h
    unfold guarded at h₁
    split at h₁
    · rename_i hok
      exact .head ⟨e, hok, h₁⟩ (reaches_of_exec h₂)
    · cases h₁

theorem exec_append (next : S → E → Option S) : ∀ (es es' : List E) (s : S),
    exec next s (es ++ es') = (exec next s es).bind fun s' => exec next s' es'
  | [], es', s => by simp [exec]
  | d :: es, es', s => by
    simp only [List.cons_append, exec]
    cases next s d with
    | none => rfl
    | some s' => exact exec_append next es es' s'

theorem exec_concat (next : S → E → Option S) (es : List E) (e : E) (s : S) :
    exec next s (es ++ [e]) = (exec next s es).bind fun s' => next s' e := by
  rw [exec_append]
  congr 1
  funext s'
  simp [exec]

theorem Run.exec_events {start : S → Prop} {next : S → E → Option S} (r : Run start next) :
    ∀ k ≤ r.length, exec next (r.states 0) ((List.range k).map r.events) = some (r.states k) := by
  apply r.induct (P := fun k => exec next (r.states 0) ((List.range k).map r.events) = some (r.states k))
  · rfl
  · intro k hk ih
    rw [List.range_succ, List.map_append, List.map_singleton, exec_concat, ih]
    exact r.steps k hk

theorem exec_take_isSome {next : S → E → Option S} {s : S} {es : List E} (h : (exec next s es).isSome) (k : Nat) :
    (exec next s (es.take k)).isSome := by
  induction es generalizing s k with
  | nil => simpa using h
  | cons e es ih =>
    cases k with
    | zero => rfl
    | succ k =>
      simp only [exec, List.take_succ_cons] at h ⊢
      cases hn : next s e with
      | none => rw [hn] at h; exact h
      | some s' => rw [hn] at h; exact ih h k

def Run.ofEvents [Inhabited E] {start : S → Prop} {next : S → E → Option S} (s : S) (hs : start s) (es : List E)
    (h : (exec next s es).isSome) : Run start next :=
  { states := fun k => (exec next s (es.take k)).getD s
    events := fun k => es.getD k default
    length := es.length
    starts := hs
    steps := fun k hk => by
      obtain ⟨a, ha⟩ := Option.isSome_iff_exists.mp (exec_take_isSome h k)
      obtain ⟨b, hb⟩ := Option.isSome_iff_exists.mp (exec_take_isSome h (k + 1))
      rw [ha, hb, Option.getD_some, Option.getD_some]
      rw [List.take_succ_eq_append_getElem hk, exec_concat, ha] at hb
      simpa [hk] using hb }

theorem Run.events_ofEvents [Inhabited E] {start : S → Prop} {next : S → E → Option S} {s : S} {hs : start s}
    {es : List E} {h : (exec next s es).isSome} :
    (List.range es.length).map (Run.ofEvents s hs es h : Run start next).events = es := by
  apply List.ext_getElem
  · simp
  · intro k hk hk'
    simp [Run.ofEvents, hk']

theorem exec_of_guarded {ok : S → E → Prop} [∀ s e, Decidable (ok s e)] {next : S → E → Option S} {s s' : S}
    {es : List E} (h : exec (guarded ok next) s es = some s') : exec next s es = some s' := by
  induction es generalizing s with
  | nil => exact h
  | cons e es ih =>
    obtain ⟨s₁, h₁, h₂⟩ := Option.bind_eq_some_iff.mp h
    unfold guarded at h₁
    split at h₁
    · exact Option.bind_eq_some_iff.mpr ⟨s₁, h₁, ih h₂⟩
    · cases h₁

theorem isSome_of_guarded {ok : S → E → Prop} [∀ s e, Decidable (ok s e)] {next : S → E → Option S} {s : S}
    {es : List E} (h : (exec (guarded ok next) s es).isSome) : (exec next s es).isSome := by
  obtain ⟨s', hs⟩ := Option.isSome_iff_exists.mp h
  rw [exec_of_guarded hs]
  rfl

theorem Run.ofEvents_always [Inhabited E] {start : S → Prop} {next : S → E → Option S} {ok : S → E → Prop}
    [∀ s e, Decidable (ok s e)] {s : S} {hs : start s} {es : List E}
    (h : (exec (guarded ok next) s es).isSome) :
    (Run.ofEvents s hs es (isSome_of_guarded h) : Run start next).Always ok := by
  intro k hk
  have hk' : k < es.length := hk
  obtain ⟨a, ha⟩ := Option.isSome_iff_exists.mp (exec_take_isSome h k)
  obtain ⟨b, hb⟩ := Option.isSome_iff_exists.mp (exec_take_isSome h (k + 1))
  rw [List.take_succ_eq_append_getElem hk', exec_concat, ha] at hb
  have hok : ok a es[k] := by
    simp only [Option.bind_some, guarded] at hb
    split at hb
    · assumption
    · cases hb
  simpa [Run.ofEvents, exec_of_guarded ha, hk'] using hok

/-! ## What shows of a run

Another system sees `view` of the states, and of each event what `label` makes of it: an event of
its own, or nothing. -/

section
variable {T F : Type} {start : S → Prop} {next : S → E → Option S} (r : Run start next)
  (label : S → E → Option F)

def Run.shows (k : Nat) : List F := (List.range k).filterMap fun j => label (r.states j) (r.events j)

theorem Run.shows_succ (k : Nat) :
    r.shows label (k + 1) = r.shows label k ++ (label (r.states k) (r.events k)).toList := by
  rw [Run.shows, List.range_succ, List.filterMap_append]
  cases h : label (r.states k) (r.events k) with
  | none => simp [Run.shows, h]
  | some f => simp [Run.shows, h]

theorem Run.shows_isPrefix {k : Nat} (hk : k ≤ r.length) : r.shows label k <+: r.shows label r.length :=
  r.stable (P := fun j => r.shows label k <+: r.shows label j)
    (fun j _ ih => ih.trans (r.shows_succ label j ▸ List.prefix_append _ _)) hk le_rfl (List.prefix_refl _)

/-- A step that has a label shows as a step with it, and one that has none leaves the view as it is. -/
def Shown (next' : T → F → Option T) (t t' : T) : Option F → Prop
  | some f => next' t f = some t'
  | none => t' = t

variable {start' : T → Prop} {next' : T → F → Option T} {view : S → T} {label}

theorem Run.exists_view [Inhabited F] (hstart : start' (view (r.states 0)))
    (hstep : ∀ k < r.length, Shown next' (view (r.states k)) (view (r.states (k + 1)))
      (label (r.states k) (r.events k))) :
    ∃ r' : Run start' next', (List.range r'.length).map r'.events = r.shows label r.length ∧
      ∀ k ≤ r.length, r'.states (r.shows label k).length = view (r.states k) := by
  have hexec : ∀ k ≤ r.length,
      exec next' (view (r.states 0)) (r.shows label k) = some (view (r.states k)) := by
    apply r.induct (P := fun k => exec next' (view (r.states 0)) (r.shows label k) = some (view (r.states k)))
    · rfl
    · intro k hk ih
      have hshown := hstep k hk
      rw [r.shows_succ]
      generalize label (r.states k) (r.events k) = l at hshown
      cases l with
      | none => rw [Option.toList_none, List.append_nil, ih, show view (r.states (k + 1)) = _ from hshown]
      | some f =>
        rw [Option.toList_some, exec_concat, ih]
        exact hshown
  refine ⟨.ofEvents _ hstart (r.shows label r.length) (by rw [hexec r.length le_rfl]; rfl),
    Run.events_ofEvents, ?_⟩
  intro k hk
  simp only [Run.ofEvents]
  rw [← List.prefix_iff_eq_take.mp (r.shows_isPrefix label hk), hexec k hk, Option.getD_some]

end

/-! ## Forward simulation -/

/-- Each step of the run can be followed by some steps of another system, which then has a run that keeps up
with it. The relation may change with time. -/
theorem Run.exists_simulation {T F : Type} [Nonempty F] {start : S → Prop} {next : S → E → Option S}
    (r : Run start next) {start' : T → Prop} (next' : T → F → Option T) (ok : T → F → Prop)
    {R : Nat → T → Prop} {t₀ : T} (h₀ : start' t₀) (hR : R 0 t₀)
    (hstep : ∀ k < r.length, ∀ t, R k t → ∃ t', Relation.ReflTransGen (Next next' ok) t t' ∧ R (k + 1) t') :
    ∃ (r' : Run start' next') (at' : Nat → Nat), r'.Always ok ∧
    (∀ j k, j ≤ k → k ≤ r.length → at' j ≤ at' k) ∧
      ∀ k ≤ r.length, at' k ≤ r'.length ∧ R k (r'.states (at' k)) := by
  have hprefix : ∀ m ≤ r.length, ∃ (r' : Run start' next') (at' : Nat → Nat), r'.Always ok ∧
      (∀ j k, j ≤ k → k ≤ m → at' j ≤ at' k) ∧ (∀ k ≤ m, R k (r'.states (at' k))) ∧ at' m = r'.length := by
    refine r.induct (P := fun m => ∃ (r' : Run start' next') (at' : Nat → Nat), r'.Always ok ∧
      (∀ j k, j ≤ k → k ≤ m → at' j ≤ at' k) ∧ (∀ k ≤ m, R k (r'.states (at' k))) ∧ at' m = r'.length) ?_
      fun m hm ih => ?_
    · obtain ⟨f⟩ := ‹Nonempty F›
      refine ⟨.single t₀ f h₀, fun _ => 0, fun k hk => absurd hk (Nat.not_lt_zero k),
        fun _ _ _ _ => le_rfl, ?_, rfl⟩
      intro k hk
      rwa [Nat.le_zero.mp hk]
    · obtain ⟨r₁, at₁, hr₁, hmono, hrel, hlast⟩ := ih
      obtain ⟨t', hsteps, ht'⟩ := hstep m hm _ (hrel m le_rfl)
      rw [hlast] at hsteps
      obtain ⟨r₂, hr₂, hlength, hsame, rfl⟩ := r₁.exists_extension hr₁ hsteps
      have hle : ∀ j ≤ m, at₁ j ≤ r₁.length := fun j hj => hlast ▸ hmono j m hj le_rfl
      refine ⟨r₂, fun k => if k ≤ m then at₁ k else r₂.length, hr₂, fun j k hjk _ => ?_,
        fun k hk => ?_, by simp⟩
      · by_cases hkm : k ≤ m
        · simpa [hkm, hjk.trans hkm] using hmono j k hjk hkm
        · by_cases hjm : j ≤ m
          · simpa [hkm, hjm] using (hle j hjm).trans hlength
          · simp [hkm, hjm]
      · by_cases hkm : k ≤ m
        · simpa [hkm, hsame _ (hle k hkm)] using hrel k hkm
        · obtain rfl : k = m + 1 := by omega
          simpa using ht'
  obtain ⟨r', at', hr', hmono, hrel, hlast⟩ := hprefix r.length le_rfl
  exact ⟨r', at', hr', hmono, fun k hk => ⟨hlast ▸ hmono k r.length hk le_rfl, hrel k hk⟩⟩

end Runs
