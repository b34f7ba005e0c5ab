import FlowMQ.Lib.Wire

/-!
# Message types of the wire format

A message type is a list of slots, one for each line of its declaration. What
is written goes slot by slot; what is read goes field by field to the slot of
its number, where a later number or string replaces an earlier one, a later
submessage is merged into the earlier one, and a repeated field grows. Fields
that no slot knows, or whose value is of the wrong kind, are skipped. Where a
submessage is not read to its end, the message around it ends as well.
-/

namespace Wire

def Value.FitsVarint : Value → Prop
  | .varint n => n < 2 ^ 64
  | .bytes _ => True

def Fits32 (z : Int) : Prop := -2 ^ 31 ≤ z ∧ z < 2 ^ 31

def Fits64 (z : Int) : Prop := -2 ^ 63 ≤ z ∧ z < 2 ^ 63

instance (z : Int) : Decidable (Fits32 z) := inferInstanceAs (Decidable (_ ∧ _))

instance (z : Int) : Decidable (Fits64 z) := inferInstanceAs (Decidable (_ ∧ _))

theorem fits64_toInt (n : Nat) : Fits64 (toInt 64 n) := by
  unfold toInt
  split <;> constructor <;> omega

def foldUntil {α β : Type} (f : α → β → α × Bool) : α → List β → α × Bool
  | a, [] => (a, true)
  | a, b :: l => if (f a b).2 then foldUntil f (f a b).1 l else f a b

section
variable {α β γ : Type} {f : α → β → α × Bool}

theorem foldUntil_cons {a a' : α} {b : β} (h : f a b = (a', true)) (l : List β) :
    foldUntil f a (b :: l) = foldUntil f a' l := by
  rw [foldUntil, h]
  rfl

theorem foldUntil_append (a : α) (l l' : List β) :
    foldUntil f a (l ++ l') = if (foldUntil f a l).2 then foldUntil f (foldUntil f a l).1 l'
    else foldUntil f a l := by
  induction l generalizing a with
  | nil => rfl
  | cons b l ih =>
    rw [List.cons_append, foldUntil, foldUntil]
    by_cases hb : (f a b).2 = true
    · rw [if_pos hb, if_pos hb, ih]
    · rw [if_neg hb, if_neg hb, if_neg hb]

theorem foldUntil_map (g : γ → β) (a : α) (l : List γ) :
    foldUntil f a (l.map g) = foldUntil (fun a c => f a (g c)) a l := by
  induction l generalizing a with
  | nil => rfl
  | cons c l ih => rw [List.map_cons, foldUntil, foldUntil, ih]

theorem foldUntil_flatMap (g : γ → List β) (a : α) (l : List γ) :
    foldUntil f a (l.flatMap g) = foldUntil (fun a c => foldUntil f a (g c)) a l := by
  induction l generalizing a with
  | nil => rfl
  | cons c l ih => rw [List.flatMap_cons, foldUntil_append, foldUntil, ih]

theorem foldUntil_congr {g : α → β → α × Bool} {l : List β} (h : ∀ b ∈ l, ∀ a, f a b = g a b) (a : α) :
    foldUntil f a l = foldUntil g a l := by
  induction l generalizing a with
  | nil => rfl
  | cons b l ih =>
    rw [foldUntil, foldUntil, h b List.mem_cons_self, ih fun b' hb' => h b' (List.mem_cons_of_mem b hb')]

theorem foldUntil_induct {P : α → Prop} {l : List β} {a : α} (ha : P a)
    (h : ∀ b ∈ l, ∀ a, P a → P (f a b).1) :
    P (foldUntil f a l).1 := by
  induction l generalizing a with
  | nil => exact ha
  | cons b l ih =>
    have hb := h b List.mem_cons_self a ha
    rw [foldUntil]
    split
    · exact ih hb fun b' hb' => h b' (List.mem_cons_of_mem b hb')
    · exact hb

end

def skip {α : Type} (a : α) : Item → α × Bool
  | .value _ => (a, true)
  | .cut _ => (a, false)

/-- A field of a message type: the values that are written for it, and what an item that is read does, and
whether reading goes on behind it. -/
structure Slot (α : Type) where
  number : Nat
  write : α → List Value
  read : α → Item → α × Bool
  fits : ∀ a, ∀ v ∈ write a, v.FitsVarint

def Slot.copy {α : Type} (a b : α) (s : Slot α) : α × Bool :=
  foldUntil (fun b v => s.read b (.value v)) b (s.write a)

def copyAll {α : Type} (a b : α) (slots : List (Slot α)) : α × Bool := foldUntil (Slot.copy a) b slots

structure Schema (α : Type) where
  empty : α
  slots : List (Slot α)
  small : ∀ s ∈ slots, 0 < s.number ∧ s.number < 2 ^ 29
  distinct : (slots.map Slot.number).Nodup

namespace Schema

variable {α : Type} (S : Schema α)

def fields (a : α) : List (Nat × Value) := S.slots.flatMap fun s => (s.write a).map fun v => (s.number, v)

def setField (a : α) (f : Nat × Item) : α × Bool :=
  match S.slots.find? fun s => s.number = f.1 with
  | some s => s.read a f.2
  | none => skip a f.2

def serialize (a : α) : List UInt8 := (S.fields a).flatMap field

/-- `MergePartialFromCodedStream`, and whether the text was read to its end. -/
def merge (a : α) (text : List UInt8) : α × Bool :=
  let r := foldUntil S.setField a (readFields text).1
  (r.1, r.2 && (readFields text).2)

/-- What `ParseFromArray` leaves, whatever it returns. -/
def parse (text : List UInt8) : α := (S.merge S.empty text).1

def Restores (a : α) : Prop := S.merge S.empty (S.serialize a) = (a, true)

variable {S}

theorem Restores.parse {a : α} (h : S.Restores a) : S.parse (S.serialize a) = a := congrArg Prod.fst h

theorem length_le {a : α} {s : Slot α} (hs : s ∈ S.slots) {b : List UInt8} (hb : .bytes b ∈ s.write a) :
    b.length ≤ (S.serialize a).length := by
  have hf : (s.number, Value.bytes b) ∈ S.fields a :=
    List.mem_flatMap.mpr ⟨s, hs, List.mem_map.mpr ⟨_, hb, rfl⟩⟩
  calc b.length ≤ (field (s.number, .bytes b)).length := by
        simp only [field, List.length_append]
        omega
    _ ≤ (S.serialize a).length := by
        rw [serialize, List.length_flatMap]
        exact List.le_sum_of_mem (List.mem_map.mpr ⟨_, hf, rfl⟩)

theorem readFields_serialize {a : α} (h : (S.serialize a).length < 2 ^ 64) :
    readFields (S.serialize a) = ((S.fields a).map fun f => (f.1, .value f.2), true) := by
  refine readFields_fields _ fun f hf => ?_
  obtain ⟨s, hs, hf⟩ := List.mem_flatMap.mp hf
  obtain ⟨v, hv, rfl⟩ := List.mem_map.mp hf
  refine ⟨S.small s hs, ?_⟩
  cases v with
  | varint n => exact s.fits a _ hv
  | bytes b => exact lt_of_le_of_lt (length_le hs hv) h

theorem setField_of_mem {s : Slot α} (hs : s ∈ S.slots) (b : α) (i : Item) :
    S.setField b (s.number, i) = s.read b i := by
  have hfind : S.slots.find? (fun t => t.number = s.number) = some s := by
    have hinj := List.inj_on_of_nodup_map S.distinct
    cases hfind : S.slots.find? fun t => t.number = s.number with
    | none => exact absurd (decide_eq_true rfl) (List.find?_eq_none.mp hfind s hs)
    | some t =>
      have ht : t.number = s.number := by simpa using List.find?_some hfind
      rw [hinj (List.mem_of_find?_eq_some hfind) hs ht]
  rw [setField, hfind]

theorem merge_serialize {a : α} (h : (S.serialize a).length < 2 ^ 64) :
    S.merge S.empty (S.serialize a) = copyAll a S.empty S.slots := by
  have hcopy : ∀ s ∈ S.slots, ∀ b,
      foldUntil (fun b f => S.setField b (f.1, .value f.2)) b ((s.write a).map fun v => (s.number, v)) =
        s.copy a b := by
    intro s hs b
    rw [foldUntil_map]
    exact foldUntil_congr (fun v _ b => setField_of_mem hs b (.value v)) b
  rw [merge, readFields_serialize h]
  simp only [Bool.and_true]
  rw [foldUntil_map, fields, foldUntil_flatMap]
  exact foldUntil_congr hcopy S.empty

theorem merge_induct {P : α → Prop} {a : α} {text : List UInt8} (ha : P a)
    (hread : ∀ s ∈ S.slots, ∀ a i, P a → i.size ≤ text.length → P (s.read a i).1) : P (S.merge a text).1 := by
  refine foldUntil_induct ha fun f hf a ha => ?_
  rw [setField]
  split
  · rename_i s hs
    exact hread s (List.mem_of_find?_eq_some hs) a f.2 ha (size_of_mem_readFields hf)
  · cases f.2 <;> exact ha

end Schema

/-! ## Kinds of values -/

/-- A type of values: how one is written, and what an item that is read makes of an earlier one, and whether
reading goes on behind it, or `none` where it is skipped. -/
structure Kind (β : Type) where
  empty : β
  encode : β → Value
  merge : β → Item → Option (β × Bool)
  fits : ∀ b, (encode b).FitsVarint

namespace Kind

variable {β : Type}

def int32 : Kind Int where
  empty := 0
  encode z := .varint (ofInt z)
  merge _
    | .value (.varint n) => some (toInt 32 n, true)
    | _ => none
  fits z := ofInt_lt z

def int64 : Kind Int where
  empty := 0
  encode z := .varint (ofInt z)
  merge _
    | .value (.varint n) => some (toInt 64 n, true)
    | _ => none
  fits z := ofInt_lt z

/-- Of a string that is cut off there is what has come. -/
def string : Kind (List UInt8) where
  empty := []
  encode b := .bytes b
  merge _
    | .value (.bytes b) => some (b, true)
    | .cut b => some (b, false)
    | .value (.varint _) => none
  fits _ := trivial

/-- A number that is not one of the enumeration is an unknown field. -/
def enumeration (empty : β) (code : β → Nat) (valid : Int → Option β) (hcode : ∀ b, code b < 2 ^ 64) :
    Kind β where
  empty := empty
  encode b := .varint (code b)
  merge _
    | .value (.varint n) => (valid (toInt 32 n)).map fun b => (b, true)
    | _ => none
  fits b := hcode b

/-- A message that is cut off ends with what it is in, and is read like a whole one. -/
def message (S : Schema β) : Kind β where
  empty := S.empty
  encode b := .bytes (S.serialize b)
  merge b
    | .value (.bytes text) => some (S.merge b text)
    | .cut text => some (S.merge b text)
    | .value (.varint _) => none
  fits _ := trivial

def Reads (k : Kind β) (b : β) : Prop := k.merge k.empty (.value (k.encode b)) = some (b, true)

theorem reads_int32 {z : Int} (h : Fits32 z) : int32.Reads z :=
  congrArg (fun z => some (z, true)) (toInt_ofInt_32 h)

theorem reads_int64 {z : Int} (h : Fits64 z) : int64.Reads z :=
  congrArg (fun z => some (z, true)) (toInt_ofInt_64 h)

theorem reads_string (b : List UInt8) : string.Reads b := rfl

theorem reads_enumeration {empty b : β} {code : β → Nat} {valid : Int → Option β}
    {hcode : ∀ b, code b < 2 ^ 64} (h : valid (toInt 32 (code b)) = some b) :
    (enumeration empty code valid hcode).Reads b :=
  congrArg (Option.map fun b => (b, true)) h

theorem reads_message {S : Schema β} {b : β} (h : S.Restores b) : (message S).Reads b := congrArg some h

end Kind

/-! ## Kinds of slots -/

namespace Slot

variable {α β : Type}

def take (k : Kind β) (old : β) (set : β → α) (a : α) (i : Item) : α × Bool :=
  match k.merge old i with
  | some (b, ok) => (set b, ok)
  | none => skip a i

def required (number : Nat) (k : Kind β) (get : α → β) (set : α → β → α) : Slot α where
  number := number
  write a := [k.encode (get a)]
  read a i := take k (get a) (set a) a i
  fits a v hv := by
    rw [List.mem_singleton.mp hv]
    exact k.fits _

def optional (number : Nat) (k : Kind β) (get : α → Option β) (set : α → Option β → α) : Slot α where
  number := number
  write a := (get a).toList.map k.encode
  read a i := take k ((get a).getD k.empty) (fun b => set a (some b)) a i
  fits a v hv := by
    obtain ⟨b, -, rfl⟩ := List.mem_map.mp hv
    exact k.fits b

def repeated (number : Nat) (k : Kind β) (get : α → List β) (set : α → List β → α) : Slot α where
  number := number
  write a := (get a).map k.encode
  read a i := take k k.empty (fun b => set a (get a ++ [b])) a i
  fits a v hv := by
    obtain ⟨b, -, rfl⟩ := List.mem_map.mp hv
    exact k.fits b

section
variable {number : Nat} {k : Kind β} {a b : α} {slots : List (Slot α)}

theorem length_optional {S : Schema α} {T : Schema β} {get : α → Option β} {set : α → Option β → α}
    (hs : optional number (.message T) get set ∈ S.slots) {x : β} (hx : x ∈ get a) :
    (T.serialize x).length ≤ (S.serialize a).length :=
  Schema.length_le hs (List.mem_map.mpr ⟨x, Option.mem_toList.mpr hx, rfl⟩)

theorem length_repeated {S : Schema α} {T : Schema β} {get : α → List β} {set : α → List β → α}
    (hs : repeated number (.message T) get set ∈ S.slots) {x : β} (hx : x ∈ get a) :
    (T.serialize x).length ≤ (S.serialize a).length :=
  Schema.length_le hs (List.mem_map.mpr ⟨x, hx, rfl⟩)

theorem take_induct {P : α → Prop} {old : β} {set : β → α} {i : Item} (ha : P a)
    (h : ∀ x ok, k.merge old i = some (x, ok) → P (set x)) : P (take k old set a i).1 := by
  unfold take
  cases hmerge : k.merge old i with
  | none => cases i <;> exact ha
  | some x => exact h x.1 x.2 hmerge

theorem read_required {P : α → Prop} {get : α → β} {set : α → β → α} {i : Item} (ha : P a)
    (h : ∀ x ok, k.merge (get a) i = some (x, ok) → P (set a x)) :
    P ((required number k get set).read a i).1 :=
  take_induct ha h

theorem read_optional {P : α → Prop} {get : α → Option β} {set : α → Option β → α} {i : Item} (ha : P a)
    (h : ∀ x ok, k.merge ((get a).getD k.empty) i = some (x, ok) → P (set a (some x))) :
    P ((optional number k get set).read a i).1 :=
  take_induct ha h

theorem take_encode {old x : β} {set : β → α} (h : k.merge old (.value (k.encode x)) = some (x, true)) :
    take k old set a (.value (k.encode x)) = (set x, true) := by
  rw [take, h]

theorem copyAll_required {get : α → β} {set : α → β → α} (h : k.Reads (get a)) (hb : get b = k.empty) :
    copyAll a b (required number k get set :: slots) = copyAll a (set b (get a)) slots := by
  refine foldUntil_cons ?_ slots
  simp only [copy, required]
  refine foldUntil_cons ?_ []
  simp only [hb]
  exact take_encode h

theorem copyAll_optional {get : α → Option β} {set : α → Option β → α} (h : ∀ x ∈ get a, k.Reads x)
    (hb : get b = none) (hset : set b none = b) :
    copyAll a b (optional number k get set :: slots) = copyAll a (set b (get a)) slots := by
  refine foldUntil_cons ?_ slots
  simp only [copy, optional]
  cases hget : get a with
  | none => exact congrArg (·, true) hset.symm
  | some x =>
    simp only [Option.toList_some, List.map_cons, List.map_nil]
    refine foldUntil_cons ?_ []
    simp only [hb, Option.getD_none]
    exact take_encode (h x hget)

theorem copyAll_repeated {get : α → List β} {set : α → List β → α} (h : ∀ x ∈ get a, k.Reads x)
    (hget : ∀ l, get (set b l) = l) (hset : ∀ l l', set (set b l) l' = set b l') (hb : set b [] = b) :
    copyAll a b (repeated number k get set :: slots) = copyAll a (set b (get a)) slots := by
  refine foldUntil_cons ?_ slots
  simp only [copy, repeated]
  rw [foldUntil_map]
  let f := fun (c : α) (x : β) => take k k.empty (fun y => set c (get c ++ [y])) c (.value (k.encode x))
  have hstep : ∀ done x, k.Reads x → f (set b done) x = (set b (done ++ [x]), true) := by
    intro done x hx
    rw [show f (set b done) x = _ from take_encode hx, hget, hset]
  -- the elements read so far are those in front of the ones that are left
  have hloop : ∀ (l done : List β), (∀ x ∈ l, k.Reads x) →
      foldUntil f (set b done) l = (set b (done ++ l), true) := by
    intro l
    induction l with
    | nil => exact fun done _ => by rw [List.append_nil]; rfl
    | cons x l ih =>
      intro done hl
      rw [foldUntil_cons (hstep done x (hl x List.mem_cons_self)),
        ih _ fun y hy => hl y (List.mem_cons_of_mem x hy), List.append_assoc, List.singleton_append]
  have hall := hloop (get a) [] h
  rwa [hb, List.nil_append] at hall

end

end Slot

end Wire
