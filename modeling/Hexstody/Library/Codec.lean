import Hexstody.Library.AssocMap
import Mathlib.Data.UInt

/-!
# JSON encodings of data types

A type that derives its encoding is written as a JSON value and read back from it. Writing fails at a map with a key that is
no string, and nowhere else; what is written is read back as it was (`Codec.lossless`). A record is described field by field
(`Record`), an enumeration by its variants, the name of the variant around its content (`Enum`) or as one more member of it
(`Tagged`). Which values have an encoding follows from the description: every value of a `Total` type has one, a map if its
keys are strings and its values have one (`encodes_map_iff`), a record if its fields have one (`Record.encodes_iff`).

An encoding is read in the form it is written in, and other forms are refused. The members of an object are in some order that
means nothing: a map is read by entering its members one after the other.
-/

/-- A JSON value. -/
inductive Json where
  | null
  | bool (b : Bool)
  | num (n : Int)
  | str (s : String)
  | arr (items : List Json)
  | obj (members : List (String × Json))

/-- How the values of a type are written as JSON and read. -/
class Codec (α : Type) where
  encode : α → Except String Json
  decode : Json → Except String α
  /-- The value of a field that is missing. -/
  absent : Option α
  lossless : ∀ {a j}, encode a = .ok j → decode j = .ok a

namespace Codec

variable {α β ε κ σ τ : Type}

/-- The value has an encoding. -/
def Encodes [Codec α] (a : α) : Prop := ∃ j, encode a = .ok j

/-- The value can be the key of a map: it is encoded as a string. -/
def IsKey [Codec κ] (k : κ) : Prop := ∃ s, encode k = .ok (.str s)

/-- Every value has an encoding. -/
class Total (α : Type) [Codec α] : Prop where
  encodes (a : α) : Encodes a

/-- Every value can be the key of a map. -/
class Keyed (κ : Type) [Codec κ] : Prop where
  isKey (k : κ) : IsKey k

/-- No value is encoded as `null`. -/
class NeverNull (α : Type) [Codec α] : Prop where
  ne_null (a : α) : encode a ≠ .ok .null

theorem encodes [Codec α] [Total α] (a : α) : Encodes a := Total.encodes a

theorem bind_eq_ok {x : Except String α} {f : α → Except String β} {b : β} (h : (x >>= f) = .ok b) :
    ∃ a, x = .ok a ∧ f a = .ok b := by
  cases x with
  | error e => cases h
  | ok a => exact ⟨a, rfl, h⟩

theorem map_decode [Codec α] {a : α} {j : Json} {f : α → β} (h : encode a = .ok j) :
    f <$> (decode j : Except String α) = .ok (f a) := by
  rw [lossless h]
  rfl

theorem map_eq_ok {f : α → β} {x : Except String α} {b : β} (h : f <$> x = .ok b) : ∃ a, x = .ok a ∧ f a = b := by
  cases x with
  | error e => cases h
  | ok a => exact ⟨a, rfl, Except.ok.inj h⟩

/-! ## Scalars -/

/-- A text form that is read back. -/
structure Text (α : Type) where
  toText : α → String
  ofText : String → Except String α
  lossless : ∀ a, ofText (toText a) = .ok a

namespace Text

@[reducible] def codec (t : Text α) : Codec α where
  encode a := .ok (.str (t.toText a))
  decode
    | .str s => t.ofText s
    | _ => .error "expected a string"
  absent := none
  lossless h := by
    cases h
    exact t.lossless _

theorem total (t : Text α) : @Total α t.codec := @Total.mk α t.codec fun _ => ⟨_, rfl⟩

theorem keyed (t : Text α) : @Keyed α t.codec := @Keyed.mk α t.codec fun _ => ⟨_, rfl⟩

theorem neverNull (t : Text α) : @NeverNull α t.codec := @NeverNull.mk α t.codec fun _ h => by cases h

/-- A string is its own text. -/
def string : Text String := ⟨id, .ok, fun _ => rfl⟩

end Text

/-- A machine integer, as a number; a number that is none of its values is refused. -/
structure Number (α : Type) where
  toInt : α → Int
  ofInt : Int → α
  ofInt_toInt : ∀ a, ofInt (toInt a) = a

namespace Number

@[reducible] def codec (n : Number α) : Codec α where
  encode a := .ok (.num (n.toInt a))
  decode
    | .num i => if n.toInt (n.ofInt i) = i then .ok (n.ofInt i) else .error "number out of range"
    | _ => .error "expected a number"
  absent := none
  lossless h := by
    cases h
    simp only [n.ofInt_toInt, if_true]

theorem total (n : Number α) : @Total α n.codec := @Total.mk α n.codec fun _ => ⟨_, rfl⟩

theorem neverNull (n : Number α) : @NeverNull α n.codec := @NeverNull.mk α n.codec fun _ h => by cases h

def u64 : Number UInt64 := ⟨fun n => n.toNat, fun i => .ofNat i.toNat, fun n => by simp⟩

def u32 : Number UInt32 := ⟨fun n => n.toNat, fun i => .ofNat i.toNat, fun n => by simp⟩

def i64 : Number Int64 := ⟨Int64.toInt, .ofInt, fun n => by simp⟩

def i16 : Number Int16 := ⟨Int16.toInt, .ofInt, fun n => by simp⟩

end Number

instance : Codec String := Text.string.codec
instance : Total String := Text.string.total
instance : Keyed String := Text.string.keyed
instance : NeverNull String := Text.string.neverNull

instance : Codec UInt64 := Number.u64.codec
instance : Total UInt64 := Number.u64.total
instance : NeverNull UInt64 := Number.u64.neverNull

instance : Codec UInt32 := Number.u32.codec
instance : Total UInt32 := Number.u32.total

instance : Codec Int64 := Number.i64.codec
instance : Total Int64 := Number.i64.total

instance : Codec Int16 := Number.i16.codec
instance : Total Int16 := Number.i16.total

instance : Codec Unit where
  encode _ := .ok .null
  decode
    | .null => .ok ()
    | _ => .error "expected null"
  absent := none
  lossless h := by
    cases h
    rfl

instance : Total Unit := ⟨fun _ => ⟨.null, rfl⟩⟩

/-! ## Options, lists and sets -/

/-- `null` is the absent value. -/
instance [Codec α] [NeverNull α] : Codec (Option α) where
  encode
    | none => .ok .null
    | some a => encode a
  decode
    | .null => .ok none
    | j => some <$> decode j
  absent := some none
  lossless {o j} h := by
    cases o with
    | none =>
      cases h
      rfl
    | some a =>
      have ha : decode j = .ok a := lossless h
      cases j with
      | null => exact absurd h (NeverNull.ne_null a)
      | bool | num | str | arr | obj => simp only [ha]; rfl

theorem mapM_cons_eq_ok {f : α → Except String β} {a : α} {l : List α} {l' : List β} (h : (a :: l).mapM f = .ok l') :
    ∃ b bs, f a = .ok b ∧ l.mapM f = .ok bs ∧ l' = b :: bs := by
  rw [List.mapM_cons] at h
  obtain ⟨b, hb, h⟩ := bind_eq_ok h
  obtain ⟨bs, hbs, h⟩ := bind_eq_ok h
  exact ⟨b, bs, hb, hbs, (Except.ok.inj h).symm⟩

theorem mapM_cons_of_ok {f : α → Except String β} {a : α} {l : List α} {b : β} {bs : List β} (h : f a = .ok b)
    (hl : l.mapM f = .ok bs) : (a :: l).mapM f = .ok (b :: bs) := by
  rw [List.mapM_cons, h, hl]
  rfl

/-- Elements that are read back one by one are read back as a list. -/
theorem mapM_lossless {f : α → Except String β} {g : β → Except String α} (hg : ∀ {a b}, f a = .ok b → g b = .ok a)
    {l : List α} {l' : List β} (h : l.mapM f = .ok l') : l'.mapM g = .ok l := by
  induction l generalizing l' with
  | nil =>
    cases h
    rfl
  | cons a l ih =>
    obtain ⟨b, bs, hb, hbs, rfl⟩ := mapM_cons_eq_ok h
    exact mapM_cons_of_ok (hg hb) (ih hbs)

/-- A computation over a list succeeds when it does at every element. -/
theorem exists_mapM_iff {f : α → Except String β} {l : List α} :
    (∃ l', l.mapM f = .ok l') ↔ ∀ a ∈ l, ∃ b, f a = .ok b := by
  induction l with
  | nil => exact ⟨fun _ a ha => absurd ha List.not_mem_nil, fun _ => ⟨[], rfl⟩⟩
  | cons a l ih =>
    rw [List.forall_mem_cons, ← ih]
    constructor
    · rintro ⟨l', h⟩
      obtain ⟨b, bs, hb, hbs, -⟩ := mapM_cons_eq_ok h
      exact ⟨⟨b, hb⟩, bs, hbs⟩
    · rintro ⟨⟨b, hb⟩, bs, hbs⟩
      exact ⟨b :: bs, mapM_cons_of_ok hb hbs⟩

instance [Codec α] [NeverNull α] [Total α] : Total (Option α) where
  encodes o := by
    cases o with
    | none => exact ⟨.null, rfl⟩
    | some a => exact encodes a

instance [Codec α] : Codec (List α) where
  encode l := .arr <$> l.mapM encode
  decode
    | .arr l => l.mapM decode
    | _ => .error "expected an array"
  absent := none
  lossless h := by
    obtain ⟨l', hl, rfl⟩ := map_eq_ok h
    exact mapM_lossless lossless hl

instance [Codec α] [Total α] : Total (List α) where
  encodes l := by
    obtain ⟨l', hl⟩ := exists_mapM_iff.mpr fun a (_ : a ∈ l) => encodes a
    exact ⟨.arr l', by simp only [encode, hl]; rfl⟩

/-- A set is an array of its elements. -/
instance [DecidableEq α] [Codec α] : Codec (AssocSet α) where
  encode s := encode s.1
  decode j := AssocSet.ofList <$> decode j
  absent := none
  lossless {s j} h := by
    have hl : decode j = .ok s.1 := lossless h
    simp only [hl, Functor.map, Except.map, AssocSet.ofList_val]

instance [DecidableEq α] [Codec α] [Total α] : Total (AssocSet α) := ⟨fun s => encodes s.1⟩

/-! ## Maps -/

/-- A key, as the text it is encoded as. -/
def keyText [Codec κ] (k : κ) : Except String String := do
  match ← encode k with
  | .str s => return s
  | _ => .error "key must be a string"

theorem keyText_eq_ok_iff [Codec κ] {k : κ} {s : String} : keyText k = .ok s ↔ encode k = .ok (.str s) := by
  constructor
  · intro h
    obtain ⟨j, hj, h⟩ := bind_eq_ok h
    cases j with
    | str t =>
      cases h
      exact hj
    | null | bool | num | arr | obj => cases h
  · intro h
    rw [keyText, h]
    rfl

/-- An entry of a map, as a member of an object. -/
def writeEntry [Codec κ] [Codec α] (e : κ × α) : Except String (String × Json) := do
  let s ← keyText e.1
  let j ← encode e.2
  return (s, j)

def readEntry [Codec κ] [Codec α] (m : String × Json) : Except String (κ × α) := do
  let k ← decode (.str m.1)
  let a ← decode m.2
  return (k, a)

theorem writeEntry_eq_ok [Codec κ] [Codec α] {e : κ × α} {m : String × Json} (h : writeEntry e = .ok m) :
    encode e.1 = .ok (.str m.1) ∧ encode e.2 = .ok m.2 := by
  obtain ⟨s, hs, h⟩ := bind_eq_ok h
  obtain ⟨j, hj, h⟩ := bind_eq_ok h
  cases h
  exact ⟨keyText_eq_ok_iff.mp hs, hj⟩

theorem readEntry_writeEntry [Codec κ] [Codec α] {e : κ × α} {m : String × Json} (h : writeEntry e = .ok m) :
    readEntry m = .ok e := by
  obtain ⟨hk, ha⟩ := writeEntry_eq_ok h
  rw [readEntry, lossless hk, lossless ha]
  rfl

/-- A map is an object; what is read enters the map one entry after the other. -/
instance [DecidableEq κ] [Codec κ] [Codec α] : Codec (AssocMap κ α) where
  encode m := .obj <$> m.toList.reverse.mapM writeEntry
  decode
    | .obj l => AssocMap.ofList <$> l.mapM readEntry
    | _ => .error "expected an object"
  absent := none
  lossless {m j} h := by
    obtain ⟨l, hl, rfl⟩ := map_eq_ok h
    have hr : l.mapM readEntry = .ok m.toList.reverse := mapM_lossless readEntry_writeEntry hl
    simp only [hr, Functor.map, Except.map, AssocMap.ofList_reverse_toList]

theorem encode_map [DecidableEq κ] [Codec κ] [Codec α] (m : AssocMap κ α) :
    encode m = .obj <$> m.toList.reverse.mapM writeEntry := rfl

/-- A map has an encoding when its keys are strings and its values have one. -/
theorem encodes_map_iff [DecidableEq κ] [Codec κ] [Codec α] {m : AssocMap κ α} :
    Encodes m ↔ ∀ k a, m.get? k = some a → IsKey k ∧ Encodes a := by
  have hmap : Encodes m ↔ ∃ l, m.toList.reverse.mapM writeEntry = .ok l := by
    constructor
    · rintro ⟨j, hj⟩
      obtain ⟨l, hl, -⟩ := map_eq_ok hj
      exact ⟨l, hl⟩
    · rintro ⟨l, hl⟩
      exact ⟨.obj l, by rw [encode_map, hl]; rfl⟩
  rw [hmap, exists_mapM_iff]
  constructor
  · intro h k a hk
    obtain ⟨x, hx⟩ := h (k, a) (List.mem_reverse.mpr ((AssocMap.mem_toList_iff m k a).mpr hk))
    exact ⟨⟨x.1, (writeEntry_eq_ok hx).1⟩, x.2, (writeEntry_eq_ok hx).2⟩
  · rintro h ⟨k, a⟩ he
    obtain ⟨⟨s, hs⟩, j, hj⟩ := h k a ((AssocMap.mem_toList_iff m k a).mp (List.mem_reverse.mp he))
    refine ⟨(s, j), ?_⟩
    rw [writeEntry, keyText_eq_ok_iff.mpr hs, hj]
    rfl

instance [DecidableEq κ] [Codec κ] [Keyed κ] [Codec α] [Total α] : Total (AssocMap κ α) where
  encodes _ := encodes_map_iff.mpr fun k a _ => ⟨Keyed.isKey k, encodes a⟩

/-! ## Records -/

/-- A field of an object. -/
def readField [Codec α] (name : String) (o : List (String × Json)) : Except String α :=
  match o.lookup name with
  | some j => decode j
  | none =>
    match (absent : Option α) with
    | some a => .ok a
    | none => .error ("missing field " ++ name)

theorem isSome_lookup_iff {o : List (String × Json)} {n : String} : (o.lookup n).isSome ↔ n ∈ o.map (·.1) := by
  rw [List.lookup_isSome_iff, List.mem_map]
  simp only [beq_iff_eq, eq_comm (a := n)]

/-- Fields of a record of type `σ`: how they are written, how they are read, and what is put together from them. -/
structure Fields (σ α : Type) where
  names : List String
  write : σ → Except String (List (String × Json))
  read : List (String × Json) → Except String α
  value : σ → α
  names_write : ∀ {s o}, write s = .ok o → o.map (·.1) = names
  read_write : names.Nodup → ∀ {s o o'}, write s = .ok o → (∀ n ∈ names, o'.lookup n = o.lookup n) → read o' = .ok (value s)

namespace Fields

/-- No field yet: a function that waits for them. -/
def build (f : α) : Fields σ α where
  names := []
  write _ := .ok []
  read _ := .ok f
  value _ := f
  names_write h := by
    cases h
    rfl
  read_write _ _ _ _ _ _ := rfl

/-- One more field, the last. -/
def field [Codec β] (p : Fields σ (β → α)) (name : String) (get : σ → β) : Fields σ α where
  names := p.names ++ [name]
  write s := do
    let o ← p.write s
    let j ← encode (get s)
    return o ++ [(name, j)]
  read o := do
    let f ← p.read o
    let b ← readField name o
    return f b
  value s := p.value s (get s)
  names_write h := by
    obtain ⟨o, ho, h⟩ := bind_eq_ok h
    obtain ⟨j, -, h⟩ := bind_eq_ok h
    cases h
    simp [p.names_write ho]
  read_write hn s o o' h hl := by
    obtain ⟨o₁, ho, h⟩ := bind_eq_ok h
    obtain ⟨j, hj, h⟩ := bind_eq_ok h
    cases h
    obtain ⟨hp, -, hd⟩ := List.nodup_append.mp hn
    have hnot : name ∉ o₁.map (·.1) := by
      rw [p.names_write ho]
      exact fun hm => hd name hm name (List.mem_singleton.mpr rfl) rfl
    have hread : p.read o' = .ok (p.value s) := by
      refine p.read_write hp ho fun n hm => ?_
      have hsome : (o₁.lookup n).isSome := isSome_lookup_iff.mpr (by rwa [p.names_write ho])
      rw [hl n (List.mem_append_left _ hm), List.lookup_append, Option.or_of_isSome hsome]
    have hfield : o'.lookup name = some j := by
      have hnone : o₁.lookup name = none := Option.not_isSome_iff_eq_none.mp (mt isSome_lookup_iff.mp hnot)
      rw [hl name (by simp), List.lookup_append, hnone, Option.none_or, List.lookup_cons_self]
    simp only [hread, readField, hfield, lossless hj]
    rfl

@[simp] theorem names_build (f : α) : (build f : Fields σ α).names = [] := rfl

@[simp] theorem names_field [Codec β] (p : Fields σ (β → α)) (name : String) (get : σ → β) :
    (p.field name get).names = p.names ++ [name] := rfl

/-- The fields of a value all have an encoding. -/
def Encodes (p : Fields σ α) (s : σ) : Prop := ∃ o, p.write s = .ok o

@[simp] theorem build_encodes (f : α) (s : σ) : (build f : Fields σ α).Encodes s := ⟨[], rfl⟩

@[simp] theorem field_encodes_iff [Codec β] (p : Fields σ (β → α)) (name : String) (get : σ → β) (s : σ) :
    (p.field name get).Encodes s ↔ p.Encodes s ∧ Codec.Encodes (get s) := by
  constructor
  · rintro ⟨o, h⟩
    obtain ⟨o₁, ho, h⟩ := bind_eq_ok h
    obtain ⟨j, hj, h⟩ := bind_eq_ok h
    exact ⟨⟨o₁, ho⟩, j, hj⟩
  · rintro ⟨⟨o, ho⟩, j, hj⟩
    refine ⟨o ++ [(name, j)], ?_⟩
    simp only [field, ho, hj]
    rfl

/-- Fields all of which have an encoding in every record. -/
class Total (p : Fields σ α) : Prop where
  encodes (s : σ) : p.Encodes s

instance (f : α) : (build f : Fields σ α).Total := ⟨build_encodes f⟩

instance [Codec β] [Codec.Total β] (p : Fields σ (β → α)) [p.Total] (name : String) (get : σ → β) :
    (p.field name get).Total :=
  ⟨fun s => (field_encodes_iff p name get s).mpr ⟨Total.encodes s, Codec.encodes _⟩⟩

end Fields

/-- The fields of a record: of them it is put together again, and no two have one name. -/
structure Record (σ : Type) where
  fields : Fields σ σ
  value_eq : ∀ s, fields.value s = s
  nodup : fields.names.Nodup

namespace Record

theorem read_write (r : Record σ) {s : σ} {o o' : List (String × Json)} (h : r.fields.write s = .ok o)
    (hl : ∀ n ∈ r.fields.names, o'.lookup n = o.lookup n) : r.fields.read o' = .ok s := by
  rw [r.fields.read_write r.nodup h hl, r.value_eq]

theorem writes (r : Record σ) [r.fields.Total] (s : σ) : ∃ o, r.fields.write s = .ok o := Fields.Total.encodes s

/-- A record is an object with a member for each field. -/
@[reducible] def codec (r : Record σ) : Codec σ where
  encode s := .obj <$> r.fields.write s
  decode
    | .obj o => r.fields.read o
    | _ => .error "expected an object"
  absent := none
  lossless h := by
    obtain ⟨o, ho, rfl⟩ := map_eq_ok h
    exact r.read_write ho fun _ _ => rfl

/-- A record has an encoding when its fields have one. -/
theorem encodes_iff (r : Record σ) (s : σ) : @Encodes σ r.codec s ↔ r.fields.Encodes s := by
  constructor
  · rintro ⟨j, hj⟩
    obtain ⟨o, ho, -⟩ := map_eq_ok hj
    exact ⟨o, ho⟩
  · rintro ⟨o, ho⟩
    exact ⟨.obj o, by simp only [encode, ho]; rfl⟩

theorem total (r : Record σ) [r.fields.Total] : @Total σ r.codec :=
  @Total.mk σ r.codec fun s => (r.encodes_iff s).mpr (Fields.Total.encodes s)

theorem neverNull (r : Record σ) : @NeverNull σ r.codec :=
  @NeverNull.mk σ r.codec fun _ h => by
    obtain ⟨_, _, hj⟩ := map_eq_ok h
    cases hj

theorem not_isKey (r : Record σ) (s : σ) : ¬@IsKey σ r.codec s := by
  rintro ⟨t, h⟩
  obtain ⟨_, _, hj⟩ := map_eq_ok h
  cases hj

end Record

/-! ## Enumerations -/

/-- An enumeration, each value written as the name of its variant, with the content if the variant has one. -/
structure Enum (σ : Type) where
  name : σ → String
  write : σ → Except String (Option Json)
  read : String → Option Json → Except String σ
  read_write : ∀ {s c}, write s = .ok c → read (name s) c = .ok s

namespace Enum

/-- A variant without content. -/
def unit (s : σ) : Option Json → Except String σ
  | none => .ok s
  | some .null => .ok s
  | some _ => .error "expected no content"

/-- A variant with one value as its content. -/
def newtype [Codec α] (mk : α → σ) : Option Json → Except String σ
  | some j => mk <$> decode j
  | none => .error "expected content"

theorem unit_lossless {s : σ} {c : Option Json} (h : Except.ok (ε := String) none = .ok c) : unit s c = .ok s := by
  cases h
  rfl

theorem newtype_lossless [Codec α] {a : α} {mk : α → σ} {c : Option Json} (h : some <$> encode a = .ok c) :
    newtype mk c = .ok (mk a) := by
  obtain ⟨j, hj, rfl⟩ := map_eq_ok h
  exact map_decode hj

theorem newtype_total [Codec α] [Total α] (a : α) : ∃ c, some <$> encode a = .ok c := by
  obtain ⟨j, hj⟩ := encodes a
  exact ⟨some j, by rw [hj]; rfl⟩

/-- The name alone, or an object with the content under the name. -/
@[reducible] def codec (e : Enum σ) : Codec σ where
  encode s := do
    match ← e.write s with
    | none => return .str (e.name s)
    | some j => return .obj [(e.name s, j)]
  decode
    | .str n => e.read n none
    | .obj [(n, j)] => e.read n (some j)
    | _ => .error "expected a variant"
  absent := none
  lossless h := by
    obtain ⟨c, hc, h⟩ := bind_eq_ok h
    cases c with
    | none =>
      cases h
      exact e.read_write hc
    | some j =>
      cases h
      exact e.read_write hc

theorem total (e : Enum σ) (h : ∀ s, ∃ c, e.write s = .ok c) : @Total σ e.codec :=
  @Total.mk σ e.codec fun s => by
    obtain ⟨c, hc⟩ := h s
    cases c with
    | none => exact ⟨.str (e.name s), by simp only [encode, hc]; rfl⟩
    | some j => exact ⟨.obj [(e.name s, j)], by simp only [encode, hc]; rfl⟩

theorem neverNull (e : Enum σ) : @NeverNull σ e.codec :=
  @NeverNull.mk σ e.codec fun _ h => by
    obtain ⟨c, -, h⟩ := bind_eq_ok h
    cases c with
    | none => cases h
    | some j => cases h

/-- The keys of an enumeration are its values without content. -/
theorem isKey_iff (e : Enum σ) (s : σ) : @IsKey σ e.codec s ↔ e.write s = .ok none := by
  constructor
  · rintro ⟨t, h⟩
    obtain ⟨c, hc, h⟩ := bind_eq_ok h
    cases c with
    | none => exact hc
    | some j => cases h
  · intro h
    exact ⟨e.name s, by simp only [encode, h]; rfl⟩

end Enum

/-- An enumeration of names, all of them listed. -/
structure Names (α : Type) where
  name : α → String
  all : List α
  find : ∀ a, all.find? (fun b => name b == name a) = some a

namespace Names

/-- Every variant is without content. -/
def variants (e : Names α) : Enum α where
  name := e.name
  write _ := .ok none
  read n c :=
    match e.all.find? (fun b => e.name b == n) with
    | some a => Enum.unit a c
    | none => .error ("unknown variant " ++ n)
  read_write h := by
    simp only [e.find]
    exact Enum.unit_lossless h

@[reducible] def codec (e : Names α) : Codec α := e.variants.codec

theorem total (e : Names α) : @Total α e.codec := e.variants.total fun _ => ⟨none, rfl⟩

end Names

/-- What a computation answers: `Ok` around its value or `Err` around its error. -/
def result [Codec ε] [Codec α] : Enum (Except ε α) where
  name
    | .ok _ => "Ok"
    | .error _ => "Err"
  write
    | .ok a => some <$> encode a
    | .error e => some <$> encode e
  read
    | "Ok" => Enum.newtype .ok
    | "Err" => Enum.newtype .error
    | n => fun _ => .error ("unknown variant " ++ n)
  read_write {s c} h := by
    cases s with
    | ok a => exact Enum.newtype_lossless h
    | error e => exact Enum.newtype_lossless h

instance [Codec ε] [Codec α] : Codec (Except ε α) := result.codec

instance [Codec ε] [Codec α] [Total ε] [Total α] : Total (Except ε α) :=
  result.total fun s => by
    cases s with
    | ok a => exact Enum.newtype_total a
    | error e => exact Enum.newtype_total e

instance [Codec ε] [Codec α] : NeverNull (Except ε α) := result.neverNull

/-- An enumeration of records, each written as an object with the name of the variant as one more member, `tag`. -/
structure Tagged (tag : String) (σ : Type) where
  name : σ → String
  write : σ → Except String (List (String × Json))
  read : String → List (String × Json) → Except String σ
  read_write : ∀ {s o j}, write s = .ok o → read (name s) ((tag, j) :: o) = .ok s

namespace Tagged

variable {tag : String}

/-- A variant that is a record. -/
def record (r : Record τ) (mk : τ → σ) (o : List (String × Json)) : Except String σ := mk <$> r.fields.read o

theorem record_lossless {r : Record τ} {mk : τ → σ} {t : τ} {o : List (String × Json)} {j : Json}
    (htag : tag ∉ r.fields.names) (h : r.fields.write t = .ok o) : record r mk ((tag, j) :: o) = .ok (mk t) := by
  have hr : r.fields.read ((tag, j) :: o) = .ok t := by
    refine r.read_write h fun n hn => ?_
    have hne : n ≠ tag := fun e => htag (e ▸ hn)
    rw [List.lookup_cons, beq_eq_false_iff_ne.mpr hne]
  simp only [record, hr]
  rfl

@[reducible] def codec (e : Tagged tag σ) : Codec σ where
  encode s := do
    let o ← e.write s
    return .obj ((tag, .str (e.name s)) :: o)
  decode
    | .obj o =>
      match o.lookup tag with
      | some (.str n) => e.read n o
      | _ => .error ("missing field " ++ tag)
    | _ => .error "expected an object"
  absent := none
  lossless h := by
    obtain ⟨o, ho, h⟩ := bind_eq_ok h
    cases h
    simp only [List.lookup_cons_self]
    exact e.read_write ho

theorem total (e : Tagged tag σ) (h : ∀ s, ∃ o, e.write s = .ok o) : @Total σ e.codec :=
  @Total.mk σ e.codec fun s => by
    obtain ⟨o, ho⟩ := h s
    exact ⟨.obj ((tag, .str (e.name s)) :: o), by simp only [encode, ho]; rfl⟩

end Tagged

end Codec
