import ShadowVpn.Lib.Text

/-! JSON values as a typed decoder reads them. A number without a fractional part is an integer;
unreadable data counts as null. -/

namespace ShadowVpn.Lib.Json
open ShadowVpn.Lib.Text

inductive Value where
  | null
  | bool (value : Bool)
  | number (value : Int)
  | decimal (mantissa : Int) (places : Nat)
  | string (text : Chars)
  | array (items : List Value)
  | object (fields : List (String × Value))

abbrev Fields := List (String × Value)

def asFields : Value → Option Fields
  | .object fields => some fields
  | _ => none

def asArray : Value → Option (List Value)
  | .array items => some items
  | _ => none

def asString : Value → Option Chars
  | .string text => some text
  | _ => none

/-- The integer of a number that a machine word of the given range holds. -/
def asInteger (low high : Int) : Value → Option Int
  | .number value => if low ≤ value ∧ value ≤ high then some value else none
  | _ => none

/-- An absent or null field is missing; any other has to be of its type. -/
def decodeIfPresent {α : Type} (decode : Value → Option α) (fields : Fields) (key : String) : Option (Option α) :=
  match fields.lookup key with
  | none | some .null => some none
  | some value => (decode value).map some

/-- A field that has to be there. -/
def decodeField {α : Type} (decode : Value → Option α) (fields : Fields) (key : String) : Option α :=
  (fields.lookup key).bind decode

/-- An absent field is the default; any other has to be of its type. -/
def decodeOr {α : Type} (default : α) (decode : Value → Option α) (fields : Fields) (key : String) : Option α :=
  match fields.lookup key with
  | none => some default
  | some value => decode value

/-- A case without data: its name, or an object of just that name. -/
def asVariant {α : Type} (named : Chars → Option α) : Value → Option α
  | .string text => named text
  | .object [(key, .null)] => named key.toList
  | _ => none

/-- Setting a field replaces what it held. -/
def put (fields : Fields) (key : String) (value : Value) : Fields :=
  (key, value) :: fields.filter fun entry => entry.1 != key

/-- The decoder takes the field, if there is one. -/
def Typed {α : Type} (decode : Value → Option α) (fields : Fields) (key : String) : Prop :=
  ∀ value, fields.lookup key = some value → value = .null ∨ (decode value).isSome = true

@[simp] theorem lookup_put (fields : Fields) (key : String) (value : Value) :
    (put fields key value).lookup key = some value := List.lookup_cons_self

theorem lookup_filter (fields : Fields) {key other : String} (differ : (other == key) = false) :
    (fields.filter fun entry => entry.1 != key).lookup other = fields.lookup other := by
  induction fields with
  | nil => rfl
  | cons entry rest ih =>
    obtain ⟨name, held⟩ := entry
    by_cases same : name = key
    · subst same
      rw [List.filter_cons_of_neg (by simp), List.lookup_cons, differ]
      exact ih
    · rw [List.filter_cons_of_pos (by simpa using same), List.lookup_cons, List.lookup_cons, ih]

@[simp] theorem lookup_put_other (fields : Fields) {key other : String} (value : Value)
    (differ : (other == key) = false) : (put fields key value).lookup other = fields.lookup other := by
  rw [put, List.lookup_cons, differ]
  exact lookup_filter fields differ

theorem put_distinct {fields : Fields} (distinct : (fields.map Prod.fst).Nodup) (key : String) (value : Value) :
    ((put fields key value).map Prod.fst).Nodup := by
  rw [put, List.map_cons, List.nodup_cons]
  constructor
  · intro member
    obtain ⟨entry, kept, same⟩ := List.mem_map.mp member
    have other := (List.mem_filter.mp kept).2
    rw [same] at other
    exact absurd other (by simp)
  · exact distinct.sublist (List.filter_sublist.map _)

theorem decodeIfPresent_isSome {α : Type} (decode : Value → Option α) (fields : Fields) (key : String) :
    (decodeIfPresent decode fields key).isSome = true ↔ Typed decode fields key := by
  unfold decodeIfPresent Typed
  cases found : fields.lookup key with
  | none => simp
  | some value => cases value <;> simp

theorem decodeIfPresent_some {α : Type} {decode : Value → Option α} {fields : Fields} {key : String}
    {value : Value} (found : fields.lookup key = some value) (there : value ≠ .null) :
    decodeIfPresent decode fields key = (decode value).map some := by
  unfold decodeIfPresent
  rw [found]
  cases value with
  | null => exact absurd rfl there
  | _ => rfl

theorem decodeField_some {α : Type} {decode : Value → Option α} {fields : Fields} {key : String}
    {value : Value} (found : fields.lookup key = some value) : decodeField decode fields key = decode value := by
  rw [decodeField, found, Option.bind_some]

theorem decodeOr_some {α : Type} {default : α} {decode : Value → Option α} {fields : Fields} {key : String}
    {value : Value} (found : fields.lookup key = some value) :
    decodeOr default decode fields key = decode value := by
  rw [decodeOr, found]

end ShadowVpn.Lib.Json
