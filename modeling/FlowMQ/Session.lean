import FlowMQ.Message
import FlowMQ.Lib.Runs
import FlowMQ.Lib.Writers

/-!
# Writing to a session

`Session::write_message` starts an `async_write` for each message, whether or
not an earlier one is still going on. An `async_write` is a loop of
`async_write_some` steps, and the steps of several of them may interleave.
-/

namespace FlowMQ

open Writers (Stream)

structure Session where
  messages : List Message
  socket : Stream UInt8

inductive SessionWrite where
  | writeMessage (msg : Message)
  | asyncWriteSome (k m : Nat)

instance : Inhabited SessionWrite := ⟨.asyncWriteSome 0 0⟩

namespace Session

def connected : Session := ⟨[], .empty⟩

/-- A message whose body does not lie inside its buffer must not be written. -/
def step (s : Session) : SessionWrite → Option Session
  | .writeMessage msg =>
    if msg.Fits then some { messages := s.messages ++ [msg], socket := s.socket.start msg.frame } else none
  | .asyncWriteSome k m => (s.socket.transfer k m).map fun socket => { s with socket := socket }

abbrev Execution : Type := Runs.Run (· = connected) step

def bytes (s : Session) : Bytes := s.socket.out.map Prod.snd

def Idle (s : Session) : Prop := ∀ w ∈ s.socket.writes, w.rest = []

instance (s : Session) : Decidable s.Idle := inferInstanceAs (Decidable (∀ w ∈ s.socket.writes, w.rest = []))

def Undisturbed (s : Session) : SessionWrite → Prop
  | .asyncWriteSome k _ => ∀ j < s.socket.writes.length, j ≠ k → ¬ s.socket.InProgress j
  | .writeMessage _ => True

def Waits (s : Session) : SessionWrite → Prop
  | .writeMessage _ => s.Idle
  | .asyncWriteSome _ _ => True

instance (s : Session) : (e : SessionWrite) → Decidable (s.Undisturbed e)
  | .asyncWriteSome k _ =>
    inferInstanceAs (Decidable (∀ j < s.socket.writes.length, j ≠ k → ¬ s.socket.InProgress j))
  | .writeMessage _ => inferInstanceAs (Decidable True)

instance (s : Session) : (e : SessionWrite) → Decidable (s.Waits e)
  | .writeMessage _ => inferInstanceAs (Decidable s.Idle)
  | .asyncWriteSome _ _ => inferInstanceAs (Decidable True)

section
variable {s s' : Session} {e : SessionWrite} (hs : s.step e = some s')
include hs

theorem whole_step_iff (h : s.socket.Whole) : s'.socket.Whole ↔ s.Undisturbed e := by
  cases e with
  | writeMessage msg =>
    simp only [step] at hs
    split at hs
    · cases hs
      exact iff_of_true (h.start msg.frame_ne_nil) trivial
    · cases hs
  | asyncWriteSome k m =>
    obtain ⟨socket, ht, rfl⟩ := Option.map_eq_some_iff.mp hs
    rw [Stream.whole_transfer_iff h ht]
    constructor
    · intro hno j _ hj
      exact hno j hj
    · intro hno j hj hp
      exact hno j hp.lt hj hp

theorem frames_step (h : s.socket.writes.map Writers.Write.data = s.messages.map Message.frame) :
    s'.socket.writes.map Writers.Write.data = s'.messages.map Message.frame := by
  cases e with
  | writeMessage msg =>
    simp only [step] at hs
    split at hs
    · cases hs
      rw [Stream.data_start, h, List.map_append]
      rfl
    · cases hs
  | asyncWriteSome k m =>
    obtain ⟨socket, ht, rfl⟩ := Option.map_eq_some_iff.mp hs
    obtain ⟨w, ht⟩ := Stream.transfers_of_transfer ht
    exact ht.data.trans h

variable (h : ∀ j, j + 1 < s.socket.writes.length → s.socket.Finished j)
include h

theorem finished_step (hw : s.Waits e) : ∀ j, j + 1 < s'.socket.writes.length → s'.socket.Finished j := by
  cases e with
  | writeMessage msg =>
    simp only [step] at hs
    split at hs
    · cases hs
      intro j hj
      have hlt : j < s.socket.writes.length := by
        simp only [Stream.start, List.length_append, List.length_singleton] at hj
        omega
      apply (Stream.finished_start msg.frame_ne_nil j).mpr
      exact ⟨_, List.getElem?_eq_getElem hlt, hw _ (List.getElem_mem hlt)⟩
    · cases hs
  | asyncWriteSome k m =>
    obtain ⟨socket, ht, rfl⟩ := Option.map_eq_some_iff.mp hs
    obtain ⟨w, ht⟩ := Stream.transfers_of_transfer ht
    intro j hj
    rw [ht.length] at hj
    have hfin := h j hj
    apply (ht.finished_of_ne _).mpr hfin
    rintro rfl
    exact ht.not_finished hfin

theorem undisturbed_of_finished : s.Undisturbed e := by
  cases e with
  | writeMessage msg => trivial
  | asyncWriteSome k m =>
    obtain ⟨socket, ht, rfl⟩ := Option.map_eq_some_iff.mp hs
    obtain ⟨w, ht⟩ := Stream.transfers_of_transfer ht
    intro j hj hne hp
    -- the write that transfers is the last one
    have hk : ¬ k + 1 < s.socket.writes.length := fun hlt => ht.not_finished (h k hlt)
    have hlt : k < s.socket.writes.length := (List.getElem?_eq_some_iff.mp ht.get).1
    exact hp.not_finished (h j (by omega))

end

theorem frames_run (r : Execution) :
    ∀ k ≤ r.length,
      (r.states k).socket.writes.map Writers.Write.data = (r.states k).messages.map Message.frame := by
  apply r.induct (P := fun k =>
    (r.states k).socket.writes.map Writers.Write.data = (r.states k).messages.map Message.frame)
  · rw [show r.states 0 = _ from r.starts]
    rfl
  · exact fun k hk => frames_step (r.steps k hk)

theorem undisturbed_of_waits (r : Execution) (hw : r.Always Waits) : r.Always Undisturbed := by
  have hfin : ∀ k ≤ r.length, ∀ j, j + 1 < (r.states k).socket.writes.length →
      (r.states k).socket.Finished j := by
    apply r.induct (P := fun k => ∀ j, j + 1 < (r.states k).socket.writes.length →
      (r.states k).socket.Finished j)
    · rw [show r.states 0 = _ from r.starts]
      exact fun j hj => absurd hj (Nat.not_lt_zero _)
    · exact fun k hk ih => finished_step (r.steps k hk) ih (hw k hk)
  exact fun k hk => undisturbed_of_finished (r.steps k hk) (hfin k hk.le)

theorem data_of_idle {s : Session} (h : s.Idle) :
    s.socket.writes.map Writers.Write.done = s.socket.writes.map Writers.Write.data := by
  refine List.map_congr_left fun w hw => ?_
  rw [Writers.Write.data, h w hw, List.append_nil]

/-- The frames on the socket are whole exactly as long as no two of them are being written at once, which
holds if every call of `write_message` waits for the earlier ones; and once all are written, the bytes are the
frames in some order. -/
theorem frames_whole_iff (r : Execution) :
    ((∀ k ≤ r.length, (r.states k).socket.Whole) ↔ r.Always Undisturbed) ∧
    (r.Always Waits → r.Always Undisturbed) ∧
    (∀ k ≤ r.length, (r.states k).socket.Whole → (r.states k).Idle → ∃ frames : List Bytes,
      frames.Perm ((r.states k).messages.map fun msg => msg.header ++ msg.body) ∧
        (r.states k).bytes = frames.flatten) := by
  refine ⟨?_, undisturbed_of_waits r, fun k hk hwhole hidle => ?_⟩
  · have hstart : (r.states 0).socket.Whole := by
      rw [show r.states 0 = _ from r.starts]
      exact Stream.whole_empty
    apply r.iff_always (I := fun s => s.socket.Whole) (P := fun s => s.socket.Whole) hstart fun _ _ h => h
    · exact fun k hk ih => (whole_step_iff (r.steps k hk) ih).mpr
    · exact fun k hk ih => (whole_step_iff (r.steps k hk) ih).mp
  · obtain ⟨frames, hperm, hout⟩ := hwhole.perm hidle
    refine ⟨frames, ?_, hout⟩
    rw [data_of_idle hidle, frames_run r k hk] at hperm
    have hframe : Message.frame = fun msg => msg.header ++ msg.body := funext Message.frame_eq
    rwa [hframe] at hperm

/-! ## Two writes at once -/

def zeros (length : Int) : Message := (Message.empty.setBodyLength length).getD .empty

def mixedWrites : List SessionWrite :=
  [.writeMessage (zeros 0), .writeMessage (zeros 1), .asyncWriteSome 0 10, .asyncWriteSome 1 21,
    .asyncWriteSome 0 10]

theorem mixedWrites_isSome : (Runs.exec step connected mixedWrites).isSome := by decide +kernel

theorem not_whole_mixedWrites : ∃ r : Execution, (r.states r.length).Idle ∧
    ¬ ∃ frames : List Bytes,
    frames.Perm ((r.states r.length).messages.map fun msg => msg.header ++ msg.body) ∧
      (r.states r.length).bytes = frames.flatten := by
  let r : Execution := .ofEvents connected rfl mixedWrites mixedWrites_isSome
  refine ⟨r, by decide +kernel, ?_⟩
  rintro ⟨frames, hperm, hbytes⟩
  have hnone : ∀ fs ∈ ((r.states r.length).messages.map fun msg => msg.header ++ msg.body).permutations',
      (r.states r.length).bytes ≠ fs.flatten := by decide +kernel
  exact hnone frames (List.mem_permutations'.mpr hperm) hbytes

end Session

end FlowMQ
