import MemoryHierarchy.Json.Number

/-!
# Documents

Configurations are trees of JSON values. A mapping keeps its keys in the order in which they were
first written, so a `Document` is a list of pairs. `Document.Distinct` says that no key occurs
twice, and `Json.wellKeyed` that this holds of every mapping inside a value, as it does of every
value that is read.

The laws of the three operations on one key (`get?_set`, `get?_erase`, `keys_set`) stand at the end.
-/

namespace MemoryHierarchy

/-- A JSON value; the fields of an object are ordered. -/
inductive Json where
  | null
  | bool (b : Bool)
  | number (n : Number)
  | string (s : String)
  | array (items : List Json)
  | object (fields : List (String × Json))
deriving Inhabited

/-- An ordered mapping from keys to values. -/
abbrev Document := List (String × Json)

namespace Json

mutual

/-- Equality of values is decided by comparing them part by part. -/
def decideEq : (a b : Json) → Decidable (a = b)
  | .null, b => by
    cases b with
    | null => exact .isTrue rfl
    | _ => exact .isFalse (by simp)
  | .bool x, b => by
    cases b with
    | bool y => exact decidable_of_iff (x = y) (by simp)
    | _ => exact .isFalse (by simp)
  | .number x, b => by
    cases b with
    | number y => exact decidable_of_iff (x = y) (by simp)
    | _ => exact .isFalse (by simp)
  | .string x, b => by
    cases b with
    | string y => exact decidable_of_iff (x = y) (by simp)
    | _ => exact .isFalse (by simp)
  | .array x, b => by
    cases b with
    | array y => exact @decidable_of_iff _ (x = y) (by simp) (decideItemsEq x y)
    | _ => exact .isFalse (by simp)
  | .object x, b => by
    cases b with
    | object y => exact @decidable_of_iff _ (x = y) (by simp) (decideFieldsEq x y)
    | _ => exact .isFalse (by simp)

/-- Equality of lists of values. -/
def decideItemsEq : (a b : List Json) → Decidable (a = b)
  | [], [] => .isTrue rfl
  | [], _ :: _ => .isFalse (by simp)
  | _ :: _, [] => .isFalse (by simp)
  | x :: xs, y :: ys =>
    let _ := decideEq x y
    let _ := decideItemsEq xs ys
    decidable_of_iff (x = y ∧ xs = ys) (by simp)

/-- Equality of lists of fields. -/
def decideFieldsEq : (a b : List (String × Json)) → Decidable (a = b)
  | [], [] => .isTrue rfl
  | [], _ :: _ => .isFalse (by simp)
  | _ :: _, [] => .isFalse (by simp)
  | (k, x) :: xs, (l, y) :: ys =>
    let _ := decideEq x y
    let _ := decideFieldsEq xs ys
    decidable_of_iff (k = l ∧ x = y ∧ xs = ys) (by simp [and_assoc])

end

instance : DecidableEq Json := decideEq

/-- A natural number as a value. -/
def ofNat (n : Nat) : Json := .number (.integer n)

/-- A double as a value; what is not finite has no number and becomes null. -/
def ofFloat (x : Float) : Json :=
  if x.isFinite then .number (.float x) else .null

/-- A list of strings as a value. -/
def ofStrings (names : List String) : Json := .array (names.map .string)

/-- The string that a value is. -/
def string? : Json → Option String
  | .string s => some s
  | _ => none

/-- The truth value that a value is. -/
def bool? : Json → Option Bool
  | .bool b => some b
  | _ => none

/-- The fields of a mapping. -/
def object? : Json → Option Document
  | .object fields => some fields
  | _ => none

/-- The integer from 0 to `2 ^ 64 - 1` that a value is. -/
def natural? : Json → Option Nat
  | .number n => n.natural?
  | _ => none

/-- The signed 64-bit integer that a value is. -/
def signed? : Json → Option Int
  | .number n => n.signed?
  | _ => none

/-- The number that a value is, as a double. -/
def float? : Json → Option Float
  | .number n => some n.toFloat
  | _ => none

/-- The shape of a value, as diagnostics name it. -/
def kindName : Json → String
  | .null => "null"
  | .bool _ => "a boolean"
  | .number _ => "a number"
  | .string _ => "a string"
  | .array _ => "a list"
  | .object _ => "a mapping"

/--
The names that a module slot holds: a string stands for a list of one, and what is not a string is
passed over.
-/
def names : Json → List String
  | .string s => [s]
  | .array items => items.filterMap string?
  | _ => []

end Json

namespace Document

/-- The value under a key. -/
def get? (d : Document) (key : String) : Option Json := d.lookup key

/-- Is there a value under the key? -/
def contains (d : Document) (key : String) : Bool := (d.get? key).isSome

/-- The keys in order. -/
def keys (d : Document) : List String := d.map Prod.fst

/-- No key occurs twice. -/
def Distinct (d : Document) : Prop := d.keys.Nodup

instance (d : Document) : Decidable d.Distinct := inferInstanceAs (Decidable d.keys.Nodup)

end Document

namespace Json

mutual

/-- Is there no mapping inside a value in which a key occurs twice? -/
def wellKeyed : Json → Bool
  | .array items => itemsWellKeyed items
  | .object fields => decide (Document.Distinct fields) && fieldsWellKeyed fields
  | _ => true

/-- Is every item of a list well keyed? -/
def itemsWellKeyed : List Json → Bool
  | [] => true
  | item :: rest => item.wellKeyed && itemsWellKeyed rest

/-- Is every value of a mapping well keyed? -/
def fieldsWellKeyed : List (String × Json) → Bool
  | [] => true
  | (_, value) :: rest => value.wellKeyed && fieldsWellKeyed rest

end

end Json

namespace Document

/-- Is there no mapping inside a document, nor the document itself, in which a key occurs twice? -/
def wellKeyed (d : Document) : Bool := (Json.object d).wellKeyed

/-- Puts a value under a key: a key that is there keeps its place, a new one goes to the end. -/
def set : Document → String → Json → Document
  | [], key, value => [(key, value)]
  | field :: rest, key, value =>
    if field.1 = key then (key, value) :: rest else field :: set rest key value

/-- Puts a value under a key only where there is none. -/
def setIfAbsent (d : Document) (key : String) (value : Json) : Document :=
  if d.contains key then d else d.set key value

/-- Takes a key away; the rest keeps its order. -/
def erase (d : Document) (key : String) : Document := d.filter (·.1 ≠ key)

/-- Builds a document field by field, so that a repeated key keeps its first place and takes the
last value. -/
def ofFields (fields : List (String × Json)) : Document :=
  fields.foldl (fun d field => d.set field.1 field.2) []

/-- The string under a key. -/
def string? (d : Document) (key : String) : Option String := (d.get? key).bind Json.string?

/-- The name of a record. -/
def name? (d : Document) : Option String := d.string? "name"

/-- The number under a key, as a double. -/
def float? (d : Document) (key : String) : Option Float := (d.get? key).bind Json.float?

/-- The natural number under a key. -/
def natural? (d : Document) (key : String) : Option Nat := (d.get? key).bind Json.natural?

/-- The signed integer under a key. -/
def signed? (d : Document) (key : String) : Option Int := (d.get? key).bind Json.signed?

/-- The names under a key. -/
def names (d : Document) (key : String) : List String :=
  match d.get? key with
  | some value => value.names
  | none => []

/-- The document that holds nothing but a name. -/
def named (name : String) : Document := [("name", .string name)]

/-- Follows keys through nested mappings. -/
def descend (value : Json) : List String → Option Json
  | [] => some value
  | key :: path => do
    let fields ← value.object?
    let inner ← get? fields key
    descend inner path

/-- The value at a path such as `DIB.sets`; the keys of a path are separated by dots. -/
def at? (d : Document) (path : String) : Option Json :=
  descend (.object d) ((path.toList.splitOn '.').map String.ofList)

/-! ### What the operations do to one key -/

@[simp]
theorem get?_nil (key : String) : get? [] key = none := rfl

theorem get?_cons (field : String × Json) (d : Document) (key : String) :
    get? (field :: d) key = if field.1 = key then some field.2 else get? d key := by
  obtain ⟨k, v⟩ := field
  by_cases h : k = key
  · simp [get?, h]
  · have : (key == k) = false := by simpa using fun e => h e.symm
    simp [get?, List.lookup_cons, h, this]

@[simp]
theorem get?_set (d : Document) (key key' : String) (value : Json) :
    (d.set key value).get? key' = if key = key' then some value else d.get? key' := by
  induction d with
  | nil => simp [set, get?_cons]
  | cons field d ih =>
    by_cases h : field.1 = key
    · subst h
      by_cases h' : field.1 = key' <;> simp [set, get?_cons, h']
    · by_cases h' : field.1 = key'
      · subst h'
        simp [set, get?_cons, h, Ne.symm h]
      · simp [set, get?_cons, h, h', ih]

theorem keys_set (d : Document) (key : String) (value : Json) :
    (d.set key value).keys = if key ∈ d.keys then d.keys else d.keys ++ [key] := by
  induction d with
  | nil => simp [set, keys]
  | cons field d ih =>
    by_cases h : field.1 = key
    · simp [set, keys, h]
    · have h' : key ≠ field.1 := fun e => h e.symm
      simp only [keys] at ih
      by_cases hd : key ∈ List.map Prod.fst d <;> simp_all [set, keys]

theorem distinct_set {d : Document} (h : d.Distinct) (key : String) (value : Json) :
    (d.set key value).Distinct := by
  rw [Distinct, keys_set]
  split
  · exact h
  · next hk => exact List.nodup_append.2 ⟨h, by simp, fun a ha b hb => by
      rw [List.mem_singleton.1 hb]
      exact fun e => hk (e ▸ ha)⟩

theorem fieldsWellKeyed_set {d : Document} (h : Json.fieldsWellKeyed d = true) (key : String)
    {value : Json} (hv : value.wellKeyed = true) :
    Json.fieldsWellKeyed (d.set key value) = true := by
  induction d with
  | nil => simp [set, Json.fieldsWellKeyed, hv]
  | cons field d ih =>
    obtain ⟨k, v⟩ := field
    simp only [Json.fieldsWellKeyed, Bool.and_eq_true] at h
    by_cases hk : k = key
    · simp [set, hk, Json.fieldsWellKeyed, hv, h.2]
    · simp [set, hk, Json.fieldsWellKeyed, h.1, ih h.2]

theorem distinct_ofFields (fields : List (String × Json)) :
    (ofFields fields).Distinct := by
  suffices ∀ d : Document, d.Distinct →
      Distinct (fields.foldl (fun d field => d.set field.1 field.2) d) from
    this [] (by simp [Distinct, keys])
  induction fields with
  | nil => exact fun d hd => hd
  | cons field fields ih => exact fun d hd => ih _ (distinct_set hd _ _)

theorem fieldsWellKeyed_ofFields {fields : List (String × Json)}
    (h : Json.fieldsWellKeyed fields = true) : Json.fieldsWellKeyed (ofFields fields) = true := by
  suffices ∀ d : Document, Json.fieldsWellKeyed d = true →
      Json.fieldsWellKeyed
        (fields.foldl (fun (d : Document) field => d.set field.1 field.2) d) = true from
    this [] (by simp [Json.fieldsWellKeyed])
  induction fields with
  | nil => exact fun d hd => hd
  | cons field fields ih =>
    obtain ⟨key, value⟩ := field
    simp only [Json.fieldsWellKeyed, Bool.and_eq_true] at h
    exact fun d hd => ih h.2 _ (fieldsWellKeyed_set hd _ h.1)

theorem get?_erase (d : Document) (key key' : String) :
    (d.erase key).get? key' = if key = key' then none else d.get? key' := by
  induction d with
  | nil => simp [erase]
  | cons field d ih =>
    simp only [erase, ne_eq, decide_not] at ih
    by_cases h : field.1 = key
    · subst h
      by_cases h' : field.1 = key' <;> simp_all [erase, get?_cons]
    · by_cases h' : field.1 = key'
      · subst h'
        simp [erase, get?_cons, h, Ne.symm h]
      · simp [erase, get?_cons, h, h', ih]

end Document

end MemoryHierarchy
