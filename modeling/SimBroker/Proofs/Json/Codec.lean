import SimBroker.Json.Codec
import SimBroker.Proofs.Decimal.Text
import SimBroker.Proofs.Instant.Text
import SimBroker.Proofs.Uuid

/-!
# Reading values back

A codec is lawful if it reads at every place what it writes.  Two things stand between a value and
the one that is read back: a zero loses its sign, so values are compared by the values of their
decimals, and counters have a fixed width, which every counter of a value must fit.

The fields of a record are found by name in an object, so a reader of fields is opened one field
after the other, with simplification doing the search for the names.

## Main definitions

* `Json.Parts`: the decimals and the counters of a value
* `Json.SameValues`: equal by the values of decimals
* `Json.LawfulCodec`: what is written is read back
* `Json.Atom`: a codec of values without decimals and counters, read back as they are

## Main results

* `Json.LawfulCodec.roundTrips`: the value that is read back has the same values
* `Json.Fields.run?_fieldBy`, `Json.Fields.run?_fieldByD`, `Json.Fields.run?_optional`: a reader
  opened at its first field
-/

namespace SimBroker

namespace Json

variable {α β : Type} {place : Place} {members : List (String × Json)} {name : String}

/-! ## Values up to the forms of their decimals -/

/-- The decimals and the counters of the values of a type. -/
class Parts (α : Type) where
  /-- The value with every decimal replaced. -/
  mapDecimals : (Decimal → Decimal) → α → α
  /-- Whether every counter fits the width of its type. -/
  Fits : α → Prop := fun _ => True

export Parts (mapDecimals Fits)

/-- Equal, where decimals are compared by value. -/
def SameValues [Parts α] (a b : α) : Prop :=
  mapDecimals Decimal.reduced a = mapDecimals Decimal.reduced b

/-- A codec that reads what it writes; a zero loses its sign. -/
class LawfulCodec (α : Type) [Codec α] [Parts α] : Prop where
  mapDecimals_comp (f g : Decimal → Decimal) (a : α) :
    mapDecimals f (mapDecimals g a) = mapDecimals (f ∘ g) a
  read?_encode (place : Place) {a : α} : Fits a →
    read? place (encode a) = some (mapDecimals Decimal.plain a)

/-- A codec that never writes `null`. -/
class NotNull (α : Type) [Codec α] : Prop where
  encode_ne_null (a : α) : encode a ≠ null

/-- A type without counters. -/
class Uncounted (α : Type) [Parts α] : Prop where
  fits (a : α) : Fits a

export LawfulCodec (mapDecimals_comp read?_encode)
export NotNull (encode_ne_null)

attribute [simp] mapDecimals_comp read?_encode encode_ne_null Uncounted.fits

/-- What is written has no two members of one name, and what is read back has the same values. -/
def RoundTrips (α : Type) [Codec α] [Parts α] : Prop :=
  ∀ a : α, Fits a → ∃ b, decode? (encode a) = some b ∧ SameValues b a

/-- The sign of a zero makes no difference. -/
theorem sameValues_plain [Codec α] [Parts α] [LawfulCodec α] (a : α) :
    SameValues (mapDecimals Decimal.plain a) a := by
  have hplain : Decimal.reduced ∘ Decimal.plain = Decimal.reduced :=
    funext Decimal.reduced_plain
  rw [SameValues, mapDecimals_comp, hplain]

theorem LawfulCodec.roundTrips [Codec α] [Parts α] [LawfulCodec α] : RoundTrips α :=
  fun a hfits => ⟨_, read?_encode .document hfits, sameValues_plain a⟩

/-! ## Basic values -/

/-- A codec of values without decimals and counters, which reads what it writes. -/
class Atom (α : Type) [Codec α] : Prop where
  read?_encode_atom (place : Place) (a : α) : read? place (encode a) = some a
  encode_atom_ne_null (a : α) : encode a ≠ null

instance instPartsOfAtom [Codec α] [Atom α] : Parts α where
  mapDecimals _ a := a

section Atom

variable [Codec α] [Atom α]

@[simp] theorem mapDecimals_atom (f : Decimal → Decimal) : (mapDecimals f : α → α) = id := rfl

instance : LawfulCodec α where
  mapDecimals_comp _ _ _ := rfl
  read?_encode place a _ := Atom.read?_encode_atom place a

instance : NotNull α := ⟨Atom.encode_atom_ne_null⟩

instance : Uncounted α := ⟨fun _ => trivial⟩

theorem sameValues_atom {a b : α} : SameValues a b ↔ a = b := Iff.rfl

end Atom

theorem str_ne_null (s : String) : str s ≠ null := nofun

theorem obj_ne_null (members : List (String × Json)) : obj members ≠ null := nofun

instance : Atom Bool := ⟨fun _ _ => rfl, nofun⟩

instance : Atom String := ⟨fun _ _ => rfl, str_ne_null⟩

@[simp] theorem read?_bool (b : Bool) : read? place (.bool b) = some b := rfl

@[simp] theorem read?_str (s : String) : read? place (.str s) = some s := rfl

instance : Atom Instant := ⟨fun _ => Instant.ofText?_toText, fun t => str_ne_null t.toText⟩

instance : Atom Uuid := ⟨fun _ => Uuid.ofText?_toText, fun u => str_ne_null u.toText⟩

instance : Parts Decimal where
  mapDecimals f := f

@[simp] theorem mapDecimals_decimal (f : Decimal → Decimal) :
    (mapDecimals f : Decimal → Decimal) = f := rfl

instance : LawfulCodec Decimal where
  mapDecimals_comp _ _ _ := rfl
  read?_encode _ a _ := Decimal.ofText?_toText a

instance : NotNull Decimal := ⟨fun a => str_ne_null a.toText⟩

instance : Uncounted Decimal := ⟨fun _ => trivial⟩

theorem sameValues_decimal {a b : Decimal} : SameValues a b ↔ a.SameValue b :=
  Decimal.reduced_eq_iff

instance : Parts Nat where
  mapDecimals _ n := n
  Fits n := n < UInt64.size

@[simp] theorem mapDecimals_nat (f : Decimal → Decimal) : (mapDecimals f : Nat → Nat) = id := rfl

theorem natBelow?_int {n bound : Nat} (h : n < bound) : natBelow? bound place (.int n) = some n :=
  if_pos h

instance : LawfulCodec Nat where
  mapDecimals_comp _ _ _ := rfl
  read?_encode _ _ h := natBelow?_int h

instance : NotNull Nat := ⟨nofun⟩

/-! ## Optional values and lists -/

section Composite

variable [Parts α]

instance : Parts (Option α) where
  mapDecimals f := Option.map (mapDecimals f)
  Fits a := ∀ x ∈ a, Fits x

@[simp] theorem mapDecimals_option (f : Decimal → Decimal) :
    (mapDecimals f : Option α → Option α) = Option.map (mapDecimals f) := rfl

instance [Uncounted α] : Uncounted (Option α) := ⟨fun _ x _ => Uncounted.fits x⟩

omit [Parts α] in
theorem read?_option [Codec α] {j : Json} (h : j ≠ null) :
    read? (α := Option α) place j = (read? place j).map some := by
  cases j with
  | null => exact absurd rfl h
  | _ => rfl

instance [Codec α] [LawfulCodec α] [NotNull α] : LawfulCodec (Option α) where
  mapDecimals_comp f g a := by simp [Function.comp_def]
  read?_encode place a h := by
    cases a with
    | none => rfl
    | some x =>
      show read? (α := Option α) place (encode x) = _
      rw [read?_option (encode_ne_null x), read?_encode place (h x rfl)]
      rfl

instance : Parts (List α) where
  mapDecimals f := List.map (mapDecimals f)
  Fits xs := ∀ x ∈ xs, Fits x

@[simp] theorem mapDecimals_list (f : Decimal → Decimal) :
    (mapDecimals f : List α → List α) = List.map (mapDecimals f) := rfl

instance [Uncounted α] : Uncounted (List α) := ⟨fun _ x _ => Uncounted.fits x⟩

instance [Codec α] [LawfulCodec α] : LawfulCodec (List α) where
  mapDecimals_comp f g xs := by simp [Function.comp_def]
  read?_encode place xs h := by
    show (xs.map encode).mapM (read? place) = some (xs.map (mapDecimals Decimal.plain))
    induction xs with
    | nil => rfl
    | cons x xs ih =>
      obtain ⟨hx, hxs⟩ := List.forall_mem_cons.mp h
      simp [ih hxs, hx]

instance [Codec α] : NotNull (List α) := ⟨nofun⟩

end Composite

/-! ## Fields by name -/

@[simp] theorem valuesOf_nil : valuesOf name [] = [] := rfl

@[simp] theorem valuesOf_cons {key : String} {j : Json} :
    valuesOf name ((key, j) :: members) =
      if key = name then j :: valuesOf name members else valuesOf name members := by
  rw [valuesOf, List.filterMap_cons]
  split <;> simp_all [valuesOf]

namespace Fields

/-- The value of a member that must be there once. -/
@[simp] def one? (readValue : Place → Json → Option α) (place : Place) (name : String)
    (members : List (String × Json)) : Option α :=
  match valuesOf name members with
  | [j] => readValue place j
  | _ => none

/-- The value of a member that may be there once, and else is `default`. -/
@[simp] def oneD? (readValue : Place → Json → Option α) (default : α) (place : Place)
    (name : String) (members : List (String × Json)) : Option α :=
  match valuesOf name members with
  | [] => some default
  | [j] => readValue place j
  | _ => none

variable {readValue : Place → Json → Option α} {default : α} {reader : Reader α} {x : Option α}

/-! A reader of one field leaves the members for the fields after it. -/

theorem fieldBy_named : fieldBy readValue name place (named members) =
    (one? readValue place name members).map fun a => (a, named members) := by
  simp only [fieldBy, next?, one?, bind, ReaderT.bind, StateT.bind]
  rcases valuesOf name members with _ | ⟨j, _ | ⟨k, js⟩⟩
  · rfl
  · show (readValue place j).bind _ = (readValue place j).map _
    cases readValue place j <;> rfl
  · rfl

theorem fieldByD_named : fieldByD readValue name default place (named members) =
    (oneD? readValue default place name members).map fun a => (a, named members) := by
  simp only [fieldByD, next?, oneD?, bind, ReaderT.bind, StateT.bind]
  rcases valuesOf name members with _ | ⟨j, _ | ⟨k, js⟩⟩
  · rfl
  · show (readValue place j).bind _ = (readValue place j).map _
    cases readValue place j <;> rfl
  · rfl

theorem optional_named [Codec α] : Fields.optional (α := α) name place (named members) =
    (oneD? read? none place name members).map fun a => (a, named members) := by
  have hget : (get : Reader Fields) place (named members) =
      some (named members, named members) := rfl
  simp only [Fields.optional, next?, oneD?, bind, ReaderT.bind, StateT.bind, hget, Option.bind_some]
  rcases valuesOf name members with _ | ⟨j, _ | ⟨k, js⟩⟩
  · rfl
  · show (read? (α := Option α) place j).bind _ = (read? (α := Option α) place j).map _
    cases read? (α := Option α) place j <;> rfl
  · rfl

theorem flattened_named {tag : String} {cases : List (String × Reader α)} :
    flattened tag cases place (named members) =
      (tagged tag cases .union (.obj members)).map fun a => (a, named members) := by
  show (tagged tag cases .union (.obj members)).bind _ = _
  cases tagged tag cases .union (.obj members) <;> rfl

/-! A reader of a record is opened at its first field. -/

@[simp] theorem run?_pure (b : β) : (named members).run? (pure b) place = some b := rfl

@[simp] theorem run?_get_bind {fields : Fields} {f : Fields → Reader β} :
    fields.run? (get >>= f) place = fields.run? (f fields) place := rfl

@[simp] theorem run?_map {fields : Fields} {g : α → β} :
    fields.run? (g <$> reader) place = (fields.run? reader place).map g := by
  have hmap : (g <$> reader) place fields = (reader place fields).map (Prod.map g id) := by
    show (reader place fields).bind _ = _
    cases reader place fields <;> rfl
  simp only [run?, hmap]
  rcases reader place fields with _ | ⟨a, _ | _ | ⟨j, items⟩⟩
  · rfl
  · rfl
  · rfl
  · show (if _ then _ else _) = Option.map g (if _ then _ else _)
    rw [apply_ite (Option.map g)]
    rfl

theorem run?_named (h : reader place (named members) = x.map fun a => (a, named members)) :
    (named members).run? reader place = x := by
  simp only [run?, h]
  cases x <;> rfl

theorem run?_bind {f : α → Reader β}
    (h : reader place (named members) = x.map fun a => (a, named members)) :
    (named members).run? (reader >>= f) place =
      x.bind fun a => (named members).run? (f a) place := by
  simp only [run?, bind, ReaderT.bind, StateT.bind, h]
  cases x <;> rfl

@[simp] theorem run?_fieldBy : (named members).run? (fieldBy readValue name) place =
    one? readValue place name members :=
  run?_named fieldBy_named

@[simp] theorem run?_fieldBy_bind {f : α → Reader β} :
    (named members).run? (fieldBy readValue name >>= f) place =
      (one? readValue place name members).bind fun a => (named members).run? (f a) place :=
  run?_bind fieldBy_named

@[simp] theorem run?_fieldByD : (named members).run? (fieldByD readValue name default) place =
    oneD? readValue default place name members :=
  run?_named fieldByD_named

@[simp] theorem run?_fieldByD_bind {f : α → Reader β} :
    (named members).run? (fieldByD readValue name default >>= f) place =
      (oneD? readValue default place name members).bind fun a =>
        (named members).run? (f a) place :=
  run?_bind fieldByD_named

@[simp] theorem run?_optional [Codec α] :
    (named members).run? (Fields.optional (α := α) name) place =
      oneD? read? none place name members :=
  run?_named optional_named

@[simp] theorem run?_optional_bind [Codec α] {f : Option α → Reader β} :
    (named members).run? (Fields.optional name >>= f) place =
      (oneD? read? none place name members).bind fun a => (named members).run? (f a) place :=
  run?_bind optional_named

@[simp] theorem run?_flattened_bind {tag : String} {cases : List (String × Reader α)}
    {f : α → Reader β} :
    (named members).run? (flattened tag cases >>= f) place =
      (tagged tag cases .union (.obj members)).bind fun a => (named members).run? (f a) place :=
  run?_bind flattened_named

attribute [simp] field fieldD

end Fields

/-! ## Unions -/

variable {tag value : String}

/-- The case of a union in an object, and its fields without the tag. -/
theorem tagged_obj {cases : List (String × Fields.Reader α)} {reader : Fields.Reader α}
    (name : String) (htag : valuesOf tag members = [.str name])
    (hcase : lookup? cases name = some reader) :
    tagged tag cases place (.obj members) =
      (Fields.named (members.filter (·.1 ≠ tag))).run? reader .union := by
  simp [tagged, htag, tag?, hcase]

/-- The tag of a union before its fields, none of which has the name of the tag. -/
theorem tagged_cons {cases : List (String × Fields.Reader α)} {reader : Fields.Reader α}
    (hfields : valuesOf tag members = []) (hcase : lookup? cases name = some reader) :
    tagged tag cases place (.obj ((tag, .str name) :: members)) =
      (Fields.named members).run? reader .union := by
  have hne : ∀ m ∈ members, m.1 ≠ tag := by simpa [valuesOf] using hfields
  rw [tagged_obj name (by simp [hfields]) hcase, List.filter_cons_of_neg (by simp),
    List.filter_eq_self.mpr (by simpa using hne)]

/-- A case with the fields of another record. -/
theorem tagged_cons_map {cases : List (String × Fields.Reader β)} {reader : Fields.Reader α}
    {f : α → β} {a : α} (hfields : valuesOf tag members = [])
    (hcase : lookup? cases name = some (f <$> reader))
    (hread : (Fields.named members).run? reader .union = some a) :
    tagged tag cases place (.obj ((tag, .str name) :: members)) = some (f a) := by
  rw [tagged_cons hfields hcase, Fields.run?_map, hread]
  rfl

/-- The name of a case and, beside it, its content. -/
theorem content_pair {cases : List (String × (Place → Json → Option β))}
    {readContent : Place → Json → Option α} {f : α → β} {a : α} {j : Json} (hne : tag ≠ value)
    (hcase : lookup? cases name = some fun place j => (readContent place j).map f)
    (hread : readContent place j = some a) :
    content tag value cases place (.obj [(tag, .str name), (value, j)]) = some (f a) := by
  simp [content, record, name?, hne, hne.symm, hcase, hread]

end Json

end SimBroker
