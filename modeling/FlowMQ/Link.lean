import FlowMQ.FlowProto
import FlowMQ.Session

/-!
# Messages over one connection

One end of a connection serialises messages and hands their frames to
`write_message`; the bytes that its writes transfer arrive in order at the other
end, whose read loop takes the frames apart and reads the messages. As long as
no two writes are under way at once the connection neither invents, changes nor
repeats a message and the read loop is never stuck. The order of the messages is
kept where `write_message` waits for the writes before it.
-/

namespace FlowMQ

namespace SessionReader

/-! ## The read loop on a part of a stream -/

theorem follows {es es' : List ReadEvent} {s t t' : SessionReader} (h : Runs.exec step s es = some t)
    (h' : Runs.exec step s es' = some t')
    (hbytes : es.filterMap ReadEvent.byte <+: es'.filterMap ReadEvent.byte) (ht' : t'.Waits) :
    ∃ rest, es' = es ++ rest ∧ Runs.exec step t rest = some t' := by
  induction es generalizing s es' with
  | nil =>
    cases h
    exact ⟨es', rfl, h'⟩
  | cons e es ih =>
    obtain ⟨s₁, hs₁, hrest⟩ := Option.bind_eq_some_iff.mp h
    cases es' with
    | nil =>
      cases h'
      cases e with
      | arrive b => simp [ReadEvent.byte] at hbytes
      | complete => exact absurd ht' (not_waits_of_complete hs₁)
    | cons e' es' =>
      obtain ⟨s₁', hs₁', hrest'⟩ := Option.bind_eq_some_iff.mp h'
      have hsame : e = e' ∧ es.filterMap ReadEvent.byte <+: es'.filterMap ReadEvent.byte := by
        cases e with
        | arrive b =>
          cases e' with
          | arrive b' =>
            simp only [ReadEvent.byte, List.filterMap_cons, List.cons_prefix_cons] at hbytes
            exact ⟨congrArg _ hbytes.1, hbytes.2⟩
          | complete => exact absurd (waits_of_arrive hs₁) (not_waits_of_complete hs₁')
        | complete =>
          cases e' with
          | arrive b' => exact absurd (waits_of_arrive hs₁') (not_waits_of_complete hs₁)
          | complete => exact ⟨rfl, hbytes⟩
      obtain ⟨rfl, hbytes'⟩ := hsame
      rw [hs₁] at hs₁'
      cases hs₁'
      obtain ⟨rest, rfl, hex⟩ := ih hrest hrest' hbytes'
      exact ⟨rest, rfl, hex⟩

theorem eq_of_no_bytes {es : List ReadEvent} {s t : SessionReader} (h : Runs.exec step s es = some t) (hs : s.Waits)
    (hbytes : es.filterMap ReadEvent.byte = []) : t = s := by
  cases es with
  | nil =>
    cases h
    rfl
  | cons e es =>
    obtain ⟨s₁, hs₁, -⟩ := Option.bind_eq_some_iff.mp h
    cases e with
    | arrive b => simp [ReadEvent.byte] at hbytes
    | complete => exact absurd hs (not_waits_of_complete hs₁)

theorem handled_step {s s' : SessionReader} {e : ReadEvent} (h : s.step e = some s') :
    s.handled <+: s'.handled := by
  cases e with
  | arrive b =>
    rw [step] at h
    split at h
    · obtain ⟨msg, -, rfl⟩ := Option.map_eq_some_iff.mp h
      exact List.prefix_rfl
    · cases h
  | complete =>
    rw [step] at h
    split at h
    · split at h
      · obtain ⟨msg, -, rfl⟩ := Option.map_eq_some_iff.mp h
        exact List.prefix_rfl
      · cases h
        exact List.prefix_append _ _
    · cases h

theorem handled_exec {es : List ReadEvent} {s t : SessionReader} (h : Runs.exec step s es = some t) :
    s.handled <+: t.handled := by
  induction es generalizing s with
  | nil =>
    cases h
    exact List.prefix_rfl
  | cons e es ih =>
    obtain ⟨s₁, hs₁, hrest⟩ := Option.bind_eq_some_iff.mp h
    exact (handled_step hs₁).trans (ih hrest)

end SessionReader

/-! ## The two ends of a connection -/

/-- `sent` lists the messages handed to `write_message`, and `taken` counts the bytes that have arrived. -/
structure Link where
  sent : List FlowProto
  session : Session
  reader : SessionReader
  taken : Nat

inductive LinkEvent where
  | send (m : FlowProto)
  | asyncWriteSome (k size : Nat)
  | arrive
  | complete

instance : Inhabited LinkEvent := ⟨.arrive⟩

namespace Link

open Message (Made headerText MAX_BODY_LENGTH)

def connected : Link := ⟨[], .connected, .connected, 0⟩

def step (s : Link) : LinkEvent → Option Link
  | .send m =>
    (m.serializeToMessage .empty).bind fun msg =>
      (s.session.step (.writeMessage msg)).map fun session =>
        { s with sent := s.sent ++ [m], session := session }
  | .asyncWriteSome k size =>
    (s.session.step (.asyncWriteSome k size)).map fun session => { s with session := session }
  | .arrive =>
    s.session.bytes[s.taken]?.bind fun b =>
      (s.reader.step (.arrive b)).map fun reader => { s with reader := reader, taken := s.taken + 1 }
  | .complete => (s.reader.step .complete).map fun reader => { s with reader := reader }

abbrev Execution : Type := Runs.Run (· = connected) step

def delivered (s : Link) : List FlowProto := s.reader.handled.map FlowProto.deserialize

def Drained (s : Link) : Prop := s.session.Idle ∧ s.taken = s.session.bytes.length ∧ s.reader.Waits

def Fitting (_ : Link) : LinkEvent → Prop
  | .send m => m.Fits
  | _ => True

def Undisturbed (s : Link) : LinkEvent → Prop
  | .asyncWriteSome k size => s.session.Undisturbed (.asyncWriteSome k size)
  | _ => True

def Waits (s : Link) : LinkEvent → Prop
  | .send _ => s.session.Idle
  | _ => True

instance (s : Link) : (e : LinkEvent) → Decidable (s.Fitting e)
  | .send m => inferInstanceAs (Decidable m.Fits)
  | .asyncWriteSome .. | .arrive | .complete => inferInstanceAs (Decidable True)

instance (s : Link) : (e : LinkEvent) → Decidable (s.Undisturbed e)
  | .asyncWriteSome k size => inferInstanceAs (Decidable (s.session.Undisturbed (.asyncWriteSome k size)))
  | .send _ | .arrive | .complete => inferInstanceAs (Decidable True)

structure Ready (s : Link) : Prop where
  arrive : s.reader.Waits → s.taken < s.session.bytes.length → (s.step .arrive).isSome
  complete : ¬ s.reader.Waits → (s.step .complete).isSome

def frameOf (m : FlowProto) : Bytes := headerText m.serialize.length ++ m.serialize

structure Sound (s : Link) : Prop where
  made : List.Forall₂ (fun m msg => Made m.serialize msg) s.sent s.session.messages
  fits : ∀ m ∈ s.sent, m.Fits
  frames : s.session.socket.writes.map Writers.Write.data = s.session.messages.map Message.frame
  taken : s.taken ≤ s.session.bytes.length
  reads : ∃ es, Runs.exec SessionReader.step .connected es = some s.reader ∧
    es.filterMap ReadEvent.byte = s.session.bytes.take s.taken

theorem sound_connected : Sound connected where
  made := .nil
  fits := List.forall_mem_nil _
  frames := rfl
  taken := Nat.le_refl 0
  reads := ⟨[], rfl, rfl⟩

theorem Sound.read {s : Link} (h : Sound s) {e : ReadEvent} {reader : SessionReader}
    (hs : s.reader.step e = some reader) {taken : Nat} (ht : taken ≤ s.session.bytes.length)
    (hb : s.session.bytes.take taken = s.session.bytes.take s.taken ++ e.byte.toList) :
    Sound { s with reader := reader, taken := taken } := by
  obtain ⟨es, hes, hbytes⟩ := h.reads
  refine { h with taken := ht, reads := ⟨es ++ [e], ?_, ?_⟩ }
  · rw [Runs.exec_concat, hes]
    exact hs
  · rw [List.filterMap_append, hbytes, hb]
    cases e <;> rfl

theorem bytes_write {s s' : Session} {e : SessionWrite} (h : s.step e = some s') : s.bytes <+: s'.bytes := by
  cases e with
  | writeMessage msg =>
    simp only [Session.step] at h
    split at h
    · cases h
      exact List.prefix_rfl
    · cases h
  | asyncWriteSome k size =>
    obtain ⟨socket, ht, rfl⟩ := Option.map_eq_some_iff.mp h
    obtain ⟨w, ht⟩ := Writers.Stream.transfers_of_transfer ht
    refine ⟨w.rest.take size, ?_⟩
    simp [Session.bytes, ht.out]

theorem Sound.write {s : Link} (h : Sound s) {e : SessionWrite} {session : Session}
    (hs : s.session.step e = some session) {sent : List FlowProto}
    (hmade : List.Forall₂ (fun m msg => Made m.serialize msg) sent session.messages)
    (hfits : ∀ m ∈ sent, m.Fits) : Sound { s with sent := sent, session := session } := by
  obtain ⟨new, hnew⟩ := bytes_write hs
  have htaken := h.taken
  obtain ⟨es, hes, hbytes⟩ := h.reads
  refine ⟨hmade, hfits, Session.frames_step hs h.frames, ?_, es, hes, ?_⟩
  · rw [← hnew, List.length_append]
    exact htaken.trans (Nat.le_add_right _ _)
  · rw [hbytes, ← hnew, List.take_append_of_le_length htaken]

theorem Sound.step {s s' : Link} {e : LinkEvent} (h : Sound s) (hs : s.step e = some s') (hf : s.Fitting e) :
    Sound s' := by
  cases e with
  | send m =>
    obtain ⟨msg, hmsg, hs⟩ := Option.bind_eq_some_iff.mp hs
    obtain ⟨session, hsession, rfl⟩ := Option.map_eq_some_iff.mp hs
    have hmessages : session.messages = s.session.messages ++ [msg] := by
      simp only [Session.step] at hsession
      split at hsession
      · cases hsession
        rfl
      · cases hsession
    refine h.write hsession ?_ ?_
    · rw [hmessages]
      exact List.rel_append h.made (.cons (FlowProto.made_of_serializeToMessage hmsg) .nil)
    · exact List.forall_mem_append.mpr ⟨h.fits, List.forall_mem_singleton.mpr hf⟩
  | asyncWriteSome k size =>
    obtain ⟨session, hsession, rfl⟩ := Option.map_eq_some_iff.mp hs
    obtain ⟨socket, -, rfl⟩ := Option.map_eq_some_iff.mp hsession
    exact h.write hsession h.made h.fits
  | arrive =>
    obtain ⟨b, hb, hs⟩ := Option.bind_eq_some_iff.mp hs
    obtain ⟨reader, hreader, rfl⟩ := Option.map_eq_some_iff.mp hs
    obtain ⟨hlt, rfl⟩ := List.getElem?_eq_some_iff.mp hb
    refine h.read hreader hlt ?_
    rw [List.take_succ_eq_append_getElem hlt]
    rfl
  | complete =>
    obtain ⟨reader, hreader, rfl⟩ := Option.map_eq_some_iff.mp hs
    exact h.read hreader h.taken (List.append_nil _).symm

/-! ## What the reader makes of a stream of frames -/

theorem Sound.length {s : Link} (h : Sound s) : ∀ m ∈ s.sent, m.serialize.length ≤ MAX_BODY_LENGTH :=
  fun _ hm =>
  SessionReader.length_of_made (List.forall₂_map_left_iff.mpr h.made) _ (List.mem_map_of_mem hm)

theorem Sound.data {s : Link} (h : Sound s) :
    s.session.socket.writes.map Writers.Write.data = s.sent.map frameOf := by
  rw [h.frames, SessionReader.frames_of_made (List.forall₂_map_left_iff.mpr h.made), List.map_map]
  rfl

section
variable {s : Link} {ms : List FlowProto} (h : Sound s) (hfits : ∀ m ∈ ms, m.Fits)
  (hlen : ∀ m ∈ ms, m.serialize.length ≤ MAX_BODY_LENGTH)
  (hbytes : s.session.bytes <+: (ms.map frameOf).flatten)
include h hlen hbytes

theorem Sound.goes_on : ∃ rest t, Runs.exec SessionReader.step s.reader rest = some t ∧ t.Waits ∧
    t.handled = ms.map FlowProto.serialize ∧
    s.session.bytes.take s.taken ++ rest.filterMap ReadEvent.byte = (ms.map frameOf).flatten := by
  obtain ⟨es, hes, htaken⟩ := h.reads
  obtain ⟨msg, hall⟩ := SessionReader.exec_frames (ms.map FlowProto.serialize)
    (fun body hb => by obtain ⟨m, hm, rfl⟩ := List.mem_map.mp hb; exact hlen m hm) (s := .connected) rfl rfl
  have hstream := SessionReader.filterMap_frameEvents (ms.map FlowProto.serialize)
  rw [List.map_map] at hstream
  have hpre : es.filterMap ReadEvent.byte <+:
      ((ms.map FlowProto.serialize).flatMap SessionReader.frameEvents).filterMap ReadEvent.byte := by
    rw [htaken, hstream]
    exact (List.take_prefix _ _).trans hbytes
  obtain ⟨rest, hrest, hexec⟩ := SessionReader.follows hes hall hpre (SessionReader.waits_header rfl rfl)
  refine ⟨rest, _, hexec, SessionReader.waits_header rfl rfl, rfl, ?_⟩
  rw [← htaken, ← List.filterMap_append, ← hrest, hstream]
  rfl

theorem Sound.ready : s.Ready := by
  obtain ⟨rest, t, hexec, hwaits, -, hstream⟩ := h.goes_on hlen hbytes
  constructor
  · intro hw hlt
    -- the byte that comes next is the next one of the stream
    have hnext : (rest.filterMap ReadEvent.byte)[0]? = s.session.bytes[s.taken]? := by
      have htake : (s.session.bytes.take s.taken).length = s.taken := List.length_take_of_le h.taken
      have hget := congrArg (·[s.taken]?) hstream
      simp only [List.getElem?_append_right htake.le, htake, Nat.sub_self] at hget
      rw [hget, List.prefix_iff_getElem?.mp hbytes _ hlt, List.getElem?_eq_getElem hlt]
    cases rest with
    | nil => exact absurd hnext.symm (by simp [hlt])
    | cons e rest =>
      obtain ⟨s₁, hs₁, -⟩ := Option.bind_eq_some_iff.mp hexec
      cases e with
      | complete => exact absurd hw (SessionReader.not_waits_of_complete hs₁)
      | arrive b =>
        have hb : s.session.bytes[s.taken]? = some b := hnext.symm
        simp [Link.step, hb, hs₁]
  · intro hw
    cases rest with
    | nil =>
      cases hexec
      exact absurd hwaits hw
    | cons e rest =>
      obtain ⟨s₁, hs₁, -⟩ := Option.bind_eq_some_iff.mp hexec
      cases e with
      | arrive b => exact absurd (SessionReader.waits_of_arrive hs₁) hw
      | complete => simp [Link.step, hs₁]

include hfits

omit h hbytes in
theorem map_deserialize : (ms.map FlowProto.serialize).map FlowProto.deserialize = ms := by
  rw [List.map_map]
  refine (List.map_congr_left fun m hm => ?_).trans (List.map_id ms)
  exact FlowProto.deserialize_serialize (hfits m hm) (hlen m hm)

theorem Sound.delivered_prefix : s.delivered <+: ms := by
  obtain ⟨rest, t, hexec, -, hhandled, -⟩ := h.goes_on hlen hbytes
  have hpre := (SessionReader.handled_exec hexec).map FlowProto.deserialize
  rwa [hhandled, map_deserialize hfits hlen] at hpre

theorem Sound.delivered_eq (hd : s.Drained) (hall : s.session.bytes = (ms.map frameOf).flatten) :
    s.delivered = ms := by
  obtain ⟨rest, t, hexec, -, hhandled, hstream⟩ := h.goes_on hlen hbytes
  rw [hd.2.1, List.take_length, hall, List.append_right_eq_self] at hstream
  rw [SessionReader.eq_of_no_bytes hexec hd.2.2 hstream] at hhandled
  rw [delivered, hhandled, map_deserialize hfits hlen]

end

/-! ## What the writer makes of the messages -/

theorem Sound.write_eq {s : Link} (h : Sound s) {j : Nat} {w : Writers.Write UInt8}
    (hw : s.session.socket.writes[j]? = some w) :
    j < s.sent.length ∧ w.data = frameOf (s.sent.getD j .empty) := by
  have hdata := congrArg (·[j]?) h.data
  simp only [List.getElem?_map, hw, Option.map_some] at hdata
  obtain ⟨m, hm, hframe⟩ := Option.map_eq_some_iff.mp hdata.symm
  refine ⟨(List.getElem?_eq_some_iff.mp hm).1, ?_⟩
  rw [List.getD_eq_getElem?_getD, hm, Option.getD_some, hframe]

theorem map_getD_range (l : List FlowProto) : (List.range l.length).map (fun j => l.getD j .empty) = l := by
  apply List.ext_getElem
  · simp
  · intro j h₁ h₂
    simp [h₂]

theorem Sound.order {s : Link} (h : Sound s) (hw : s.session.socket.Whole) :
    ∃ ms : List FlowProto, ms.Subperm s.sent ∧
    s.session.bytes <+: (ms.map frameOf).flatten ∧
    (s.session.Idle → ms.Perm s.sent ∧ s.session.bytes = (ms.map frameOf).flatten) := by
  obtain ⟨order, current, hlay⟩ := hw
  have hdone : ∀ j ∈ order, j < s.sent.length ∧
      ((s.session.socket.writes[j]?.map Writers.Write.done).getD []) = frameOf (s.sent.getD j .empty) := by
    intro j hj
    obtain ⟨w, hw, hrest⟩ := (hlay.finished j).mp hj
    obtain ⟨hlt, hdata⟩ := h.write_eq hw
    rw [Option.mem_def.mp hw]
    exact ⟨hlt, by simpa [Writers.Write.data, hrest] using hdata⟩
  have hbytes : s.session.bytes = (order.map fun j => frameOf (s.sent.getD j .empty)).flatten ++
      (current.toList.map fun j => (s.session.socket.writes[j]?.map Writers.Write.done).getD []).flatten := by
    rw [Session.bytes, hlay.out, List.map_append, Writers.Stream.map_snd_flatMap_sent,
      Writers.Stream.map_snd_flatMap_sent, List.map_congr_left fun j hj => (hdone j hj).2]
  have hcurrent : ∀ j ∈ current, ∃ w, s.session.socket.writes[j]? = some w ∧ w.rest ≠ [] := by
    intro j hj
    obtain ⟨w, hw, -, hrest⟩ := (hlay.inProgress j).mp hj
    exact ⟨w, hw, hrest⟩
  refine ⟨(order ++ current.toList).map fun j => s.sent.getD j .empty, ?_, ?_, ?_⟩
  · have hnodup : (order ++ current.toList).Nodup := by
      refine List.nodup_append.mpr ⟨hlay.nodup, by cases current <;> simp, fun j hj i hi hji => ?_⟩
      subst hji
      exact ((hlay.inProgress j).mp (Option.mem_toList.mp hi)).not_finished ((hlay.finished j).mp hj)
    have hrange : order ++ current.toList ⊆ List.range s.sent.length := by
      intro j hj
      rw [List.mem_range]
      rcases List.mem_append.mp hj with hj | hj
      · exact (hdone j hj).1
      · obtain ⟨w, hw, -⟩ := hcurrent j (Option.mem_toList.mp hj)
        exact (h.write_eq hw).1
    obtain ⟨l, hperm, hsub⟩ := hnodup.subperm hrange
    have hmap := hsub.map fun j => s.sent.getD j .empty
    rw [map_getD_range] at hmap
    exact ⟨_, hperm.map _, hmap⟩
  · rw [hbytes, List.map_map, List.map_append, List.flatten_append]
    refine (List.prefix_append_right_inj _).mpr ?_
    cases hc : current with
    | none => exact List.prefix_rfl
    | some j =>
      obtain ⟨w, hw, -⟩ := hcurrent j hc
      have hdata := (h.write_eq hw).2
      simp only [Option.toList_some, List.map_cons, List.map_nil, List.flatten_cons, List.flatten_nil,
        List.append_nil, hw, Option.map_some, Option.getD_some, Function.comp_apply, ← hdata]
      exact List.prefix_append _ _
  · intro hidle
    have hnone : current = none := by
      cases hc : current with
      | none => rfl
      | some j =>
        obtain ⟨w, hw, hrest⟩ := hcurrent j hc
        exact absurd (hidle w (List.mem_of_getElem? hw)) hrest
    have hlength : s.session.socket.writes.length = s.sent.length := by
      simpa using congrArg List.length h.data
    have hperm : order.Perm (List.range s.sent.length) := by
      refine (List.perm_ext_iff_of_nodup hlay.nodup List.nodup_range).mpr fun j => ?_
      rw [List.mem_range]
      refine ⟨fun hj => (hdone j hj).1, fun hj => (hlay.finished j).mpr ?_⟩
      have hlt : j < s.session.socket.writes.length := hlength ▸ hj
      exact ⟨_, List.getElem?_eq_getElem hlt, hidle _ (List.getElem_mem hlt)⟩
    subst hnone
    rw [Option.toList_none, List.append_nil]
    constructor
    · have hmap := hperm.map fun j => s.sent.getD j .empty
      rwa [map_getD_range] at hmap
    · rw [hbytes, List.map_map]
      exact List.append_nil _

structure InOrder (s : Session) : Prop where
  finished : ∀ j, j + 1 < s.socket.writes.length → s.socket.Finished j
  bytes : s.bytes = (s.socket.writes.map Writers.Write.done).flatten

theorem InOrder.step {s s' : Session} {e : SessionWrite} (h : InOrder s) (hs : s.step e = some s')
    (hw : s.Waits e) :
    InOrder s' where
  finished := Session.finished_step hs h.finished hw
  bytes := by
    cases e with
    | writeMessage msg =>
      simp only [Session.step] at hs
      split at hs
      · cases hs
        have hbytes := h.bytes
        simpa [Session.bytes, Writers.Stream.start] using hbytes
      · cases hs
    | asyncWriteSome k size =>
      obtain ⟨socket, ht, rfl⟩ := Option.map_eq_some_iff.mp hs
      obtain ⟨w, ht⟩ := Writers.Stream.transfers_of_transfer ht
      have hlt : k < s.socket.writes.length := (List.getElem?_eq_some_iff.mp ht.get).1
      have hlast : ¬ k + 1 < s.socket.writes.length := fun hk => ht.not_finished (h.finished k hk)
      exact ht.inOrder (by omega) h.bytes

theorem Sound.bytes_inOrder {s : Link} (h : Sound s) (ho : InOrder s.session) :
    s.session.bytes <+: (s.sent.map frameOf).flatten ∧
    (s.session.Idle → s.session.bytes = (s.sent.map frameOf).flatten) := by
  rw [← h.data, ho.bytes]
  constructor
  · exact Writers.Stream.flatten_done_prefix ho.finished
  · intro hidle
    rw [Session.data_of_idle hidle]

/-! ## Runs -/

theorem sound_run (r : Execution) (hf : r.Always Fitting) : ∀ k ≤ r.length, Sound (r.states k) := by
  apply r.induct (P := fun k => Sound (r.states k))
  · rw [show r.states 0 = _ from r.starts]
    exact sound_connected
  · exact fun k hk ih => ih.step (r.steps k hk) (hf k hk)

section
variable {s s' : Link} {e : LinkEvent} (hs : s.step e = some s')
include hs

theorem session_step : s'.session = s.session ∨ ∃ w, s.session.step w = some s'.session ∧
    (s.Undisturbed e → s.session.Undisturbed w) ∧ (s.Waits e → s.session.Waits w) := by
  cases e with
  | send m =>
    obtain ⟨msg, -, hs⟩ := Option.bind_eq_some_iff.mp hs
    obtain ⟨session, hsession, rfl⟩ := Option.map_eq_some_iff.mp hs
    exact Or.inr ⟨_, hsession, fun _ => trivial, fun h => h⟩
  | asyncWriteSome k size =>
    obtain ⟨session, hsession, rfl⟩ := Option.map_eq_some_iff.mp hs
    exact Or.inr ⟨_, hsession, fun h => h, fun _ => trivial⟩
  | arrive =>
    obtain ⟨b, -, hs⟩ := Option.bind_eq_some_iff.mp hs
    obtain ⟨reader, -, rfl⟩ := Option.map_eq_some_iff.mp hs
    exact Or.inl rfl
  | complete =>
    obtain ⟨reader, -, rfl⟩ := Option.map_eq_some_iff.mp hs
    exact Or.inl rfl

theorem whole_step (h : s.session.socket.Whole) (hu : s.Undisturbed e) : s'.session.socket.Whole := by
  rcases session_step hs with heq | ⟨w, hw, hw', -⟩
  · rwa [heq]
  · exact (Session.whole_step_iff hw h).mpr (hw' hu)

theorem inOrder_step (h : InOrder s.session) (hw : s.Waits e) : InOrder s'.session := by
  rcases session_step hs with heq | ⟨w, hstep, -, hw'⟩
  · rwa [heq]
  · exact h.step hstep (hw' hw)

end

/-- While no two writes are under way at once, the other end is handed messages that were sent, each at most
once, its read loop can always go on, and once all bytes have arrived it has been handed all of them. While
`write_message` waits, it is handed them in order. -/
theorem delivered_run (r : Execution) (hf : r.Always Fitting) {k : Nat} (hk : k ≤ r.length) :
    (r.Always Undisturbed → (r.states k).Ready ∧ (r.states k).delivered.Subperm (r.states k).sent ∧
      ((r.states k).Drained → (r.states k).delivered.Perm (r.states k).sent)) ∧
    (r.Always Waits → (r.states k).Ready ∧ (r.states k).delivered <+: (r.states k).sent ∧
      ((r.states k).Drained → (r.states k).delivered = (r.states k).sent)) := by
  have hsound := sound_run r hf k hk
  constructor
  · intro hu
    have hwhole : ∀ k ≤ r.length, (r.states k).session.socket.Whole := by
      apply r.induct (P := fun k => (r.states k).session.socket.Whole)
      · rw [show r.states 0 = _ from r.starts]
        exact Writers.Stream.whole_empty
      · exact fun k hk ih => whole_step (r.steps k hk) ih (hu k hk)
    obtain ⟨ms, hsub, hbytes, hidle⟩ := hsound.order (hwhole k hk)
    have hfits : ∀ m ∈ ms, m.Fits := fun m hm => hsound.fits m (hsub.subset hm)
    have hlen : ∀ m ∈ ms, m.serialize.length ≤ MAX_BODY_LENGTH := fun m hm => hsound.length m (hsub.subset hm)
    refine ⟨hsound.ready hlen hbytes, ?_, fun hd => ?_⟩
    · exact (hsound.delivered_prefix hfits hlen hbytes).sublist.subperm.trans hsub
    · obtain ⟨hperm, hall⟩ := hidle hd.1
      rwa [hsound.delivered_eq hfits hlen hbytes hd hall]
  · intro hw
    have horder : ∀ k ≤ r.length, InOrder (r.states k).session := by
      apply r.induct (P := fun k => InOrder (r.states k).session)
      · rw [show r.states 0 = _ from r.starts]
        exact ⟨fun j hj => absurd hj (Nat.not_lt_zero _), rfl⟩
      · exact fun k hk ih => inOrder_step (r.steps k hk) ih (hw k hk)
    obtain ⟨hbytes, hidle⟩ := hsound.bytes_inOrder (horder k hk)
    refine ⟨hsound.ready hsound.length hbytes, hsound.delivered_prefix hsound.fits hsound.length hbytes,
      fun hd => ?_⟩
    exact hsound.delivered_eq hsound.fits hsound.length hbytes hd (hidle hd.1)

def vote : FlowProto := (FlowProto.empty.loadVoteResult ⟨1, 1⟩).setPartitionId 0

def overtaking : List LinkEvent :=
  [.send vote, .send .empty, .asyncWriteSome 1 20, .asyncWriteSome 0 20] ++ List.replicate 20 .arrive ++
    [.complete, .complete]

theorem overtaking_isSome :
    (Runs.exec (Runs.guarded (fun s e => s.Fitting e ∧ s.Undisturbed e) step) connected
    overtaking).isSome := by decide +kernel

theorem delivered_overtaking :
    ∃ r : Execution, (r.states r.length).delivered = [.empty] ∧ (r.states r.length).sent = [vote, .empty] ∧
    (r.states r.length).delivered.Subperm (r.states r.length).sent := by
  let r : Execution := .ofEvents connected rfl overtaking (Runs.isSome_of_guarded overtaking_isSome)
  have hr : r.Always fun s e => s.Fitting e ∧ s.Undisturbed e := Runs.Run.ofEvents_always overtaking_isSome
  refine ⟨r, by decide +kernel, by decide +kernel, ?_⟩
  exact ((delivered_run r (hr.mono fun _ _ h => h.1) le_rfl).1 (hr.mono fun _ _ h => h.2)).2.1

end Link

end FlowMQ
