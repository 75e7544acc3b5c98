import GrokBuild.Scheduler.Types
import GrokBuild.Workflow.Journal

/-!
# The scheduler: JSON values

How serde reads the scheduler's data from a JSON value and writes it. The
text forms of dates and UUIDs belong to other crates: a `TextForm` is such a
form, with the promise that what is written is read again.
-/

namespace GrokBuild.Scheduler

open TextLines Str List
open Workflow (Json)

/-- A text form that is read back. -/
structure TextForm (α : Type) where
  format : α → Text
  parse : Text → Option α
  parse_format : ∀ a, parse (format a) = some a

/-- The text forms the scheduler's data rests on. -/
structure Forms where
  date : TextForm DateTime
  uuid : TextForm Uuid

/-! ## Values -/

/-- How a type is written and read. -/
structure Codec (α : Type) where
  encode : α → Json
  decode : Json → Option α
  decode_encode : ∀ a, decode (encode a) = some a

def Codec.bool : Codec Bool where
  encode := .bool
  decode
    | .bool b => some b
    | _ => none
  decode_encode _ := rfl

def Codec.string : Codec Text where
  encode := .string
  decode
    | .string s => some s
    | _ => none
  decode_encode _ := rfl

/-- A type that is written in a text form. -/
def Codec.text {α : Type} (form : TextForm α) : Codec α where
  encode a := .string (form.format a)
  decode
    | .string s => form.parse s
    | _ => none
  decode_encode := form.parse_format

def Codec.u64 : Codec UInt64 where
  encode n := .number (decimal n.toNat)
  decode
    | .number repr => (parseUsize repr).map UInt64.ofNat
    | _ => none
  decode_encode n := by
    have hn : n.toNat ≤ usizeMax := by
      have := n.toNat_lt
      unfold usizeMax
      omega
    simp [parseUsize_decimal hn]

def Codec.u32 : Codec UInt32 where
  encode n := .number (decimal n.toNat)
  decode
    | .number repr => (parseUsize repr).bind fun n =>
        if n < 2 ^ 32 then some (UInt32.ofNat n) else none
    | _ => none
  decode_encode n := by
    have hlt := n.toNat_lt
    have hn : n.toNat ≤ usizeMax := by
      unfold usizeMax
      omega
    simp [parseUsize_decimal hn, hlt]

/-- `Option`: `null` for `None`. The type itself never reads a `null`. -/
def Codec.option {α : Type} (c : Codec α) (hnull : c.decode .null = none) : Codec (Option α) where
  encode
    | none => .null
    | some a => c.encode a
  decode
    | .null => some none
    | j => (c.decode j).map some
  decode_encode
    | none => rfl
    | some a => by
      have h := c.decode_encode a
      cases hj : c.encode a with
      | null =>
        rw [hj, hnull] at h
        cases h
      | bool | number | string | array | object =>
        rw [hj] at h
        simp [hj, h]

/-! ## Structures -/

/-- A field of a structure as `Deserialize` meets it: with a value, missing
in an object, or missing at the end of an array. -/
inductive Member where
  | value (j : Json)
  | absent
  | ended

/-- The fields of a derived `Deserialize`, by the keys of an object or by the
positions of an array that is not too long. -/
def members (keys : List Text) : Json → Option (List Member)
  | .object fields => some (keys.map fun key =>
      match (Json.object fields).get key with
      | some j => .value j
      | none => .absent)
  | .array items =>
    if items.length ≤ keys.length then
      some (items.map .value ++ List.replicate (keys.length - items.length) .ended)
    else none
  | _ => none

/-- A field without a default. -/
def Member.required {α : Type} (c : Codec α) : Member → Option α
  | .value j => c.decode j
  | _ => none

/-- `#[serde(default)]`. -/
def Member.orDefault {α : Type} (c : Codec α) (default : α) : Member → Option α
  | .value j => c.decode j
  | _ => some default

/-- An `Option` without `#[serde(default)]`. -/
def Member.optional {α : Type} (c : Codec (Option α)) : Member → Option (Option α)
  | .value j => c.decode j
  | .absent => some none
  | .ended => none

/-- `Serialize` of a structure. -/
def object (keys : List Text) (values : List Json) : Json := .object (keys.zip values)

theorem get_object {keys : List Text} (hkeys : keys.Nodup) {values : List Json} {i : Nat}
    {key : Text} {j : Json} (hkey : keys[i]? = some key) (hj : values[i]? = some j) :
    (object keys values).get key = some j := by
  induction keys generalizing values i with
  | nil => cases hkey
  | cons k keys ih =>
    rw [nodup_cons] at hkeys
    cases values with
    | nil => cases hj
    | cons v values =>
      cases i with
      | zero =>
        cases hkey
        cases hj
        simp [object, Json.get]
      | succ i =>
        have hmem : key ∈ keys := mem_of_getElem? hkey
        have hne : (k == key) = false :=
          beq_eq_false_iff_ne.mpr fun h => hkeys.1 (h ▸ hmem)
        have := ih hkeys.2 hkey hj
        simpa [object, Json.get, hne] using this

theorem members_object {keys : List Text} (hkeys : keys.Nodup) {values : List Json}
    (hlen : keys.length = values.length) :
    members keys (object keys values) = some (values.map .value) := by
  rw [object, members]
  congr 1
  apply ext_getElem?
  intro i
  rw [getElem?_map, getElem?_map]
  cases hkey : keys[i]? with
  | none =>
    have hi : values[i]? = none := by
      rw [List.getElem?_eq_none_iff] at hkey ⊢
      omega
    rw [hi]
    rfl
  | some key =>
    have hi : i < values.length := hlen ▸ (List.getElem?_eq_some_iff.mp hkey).1
    have hj := getElem?_eq_getElem hi
    have hget := get_object hkeys hkey hj
    rw [object] at hget
    rw [hj]
    simp [hget]

end GrokBuild.Scheduler
