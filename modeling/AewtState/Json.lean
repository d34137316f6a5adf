import Mathlib.Algebra.Group.Nat.Defs
import Mathlib.Data.List.Basic

/-!
# JSON values, their accessors and the text round trip

Reference model of the part of `boost::json` the nodes use.

* `Value` — one constructor per kind; the three number kinds stay apart because
  `as_int64` accepts only one of them.  A double is its 64-bit pattern.
* `Object.atKey`, `Value.asString`, … — the accessors, which raise (`Raise`).
* `Value.wire` — what a peer parses from the text that `serialize` produced.  The only
  change is to the number kind: a `uint64` below 2^63 comes back as an `int64`.
-/

set_option autoImplicit false

namespace Aewt

/-- A JSON value (`boost::json::value`). -/
inductive Value where
  | null
  | bool (b : Bool)
  | int64 (n : Int64)
  | uint64 (n : UInt64)
  | double (bits : UInt64)
  | string (s : String)
  | array (vs : List Value)
  | object (members : List (String × Value))

/-- A JSON object: its members in order, each key once. -/
abbrev Object := List (String × Value)

/-- The exceptions of the libraries that the handlers let through. -/
inductive Raise where
  | outOfRange (key : String)
  | notString
  | notObject
  | notInt64
  | notBool
  | badLexicalCast
  | hostNotFound
  deriving DecidableEq, Repr

/-! ## Accessors -/

def Object.find? : Object → String → Option Value
  | [], _ => none
  | (k, v) :: o, key => if k = key then some v else Object.find? o key

/-- `object::contains`. -/
def Object.contains (o : Object) (key : String) : Bool := (o.find? key).isSome

/-- `object::at`. -/
def Object.atKey (o : Object) (key : String) : Except Raise Value :=
  match o.find? key with
  | some v => .ok v
  | none => .error (.outOfRange key)

/-- The object without the members with these keys. -/
def Object.without (o : Object) (keys : List String) : Object := o.filter fun m => m.1 ∉ keys

def Value.isString : Value → Bool
  | .string _ => true
  | _ => false

def Value.isObject : Value → Bool
  | .object _ => true
  | _ => false

/-- `value::is_number` holds of all three number kinds. -/
def Value.isNumber : Value → Bool
  | .int64 _ | .uint64 _ | .double _ => true
  | _ => false

def Value.isBool : Value → Bool
  | .bool _ => true
  | _ => false

def Value.asString : Value → Except Raise String
  | .string s => .ok s
  | _ => .error .notString

def Value.asObject : Value → Except Raise Object
  | .object o => .ok o
  | _ => .error .notObject

/-- `value::as_int64` raises on the other two number kinds. -/
def Value.asInt64 : Value → Except Raise Int64
  | .int64 n => .ok n
  | _ => .error .notInt64

def Value.asBool : Value → Except Raise Bool
  | .bool b => .ok b
  | _ => .error .notBool

@[simp] theorem Object.find?_nil (key : String) : Object.find? [] key = none := rfl

@[simp] theorem Object.find?_cons (k : String) (v : Value) (o : Object) (key : String) :
    Object.find? ((k, v) :: o) key = if k = key then some v else Object.find? o key := rfl

theorem Object.atKey_of_find? {o : Object} {key : String} {v : Value}
    (h : o.find? key = some v) : o.atKey key = .ok v := by
  simp [Object.atKey, h]

theorem Value.asString_ok {v : Value} (h : v.isString = true) : ∃ s, v = .string s := by
  cases v <;> simp [Value.isString] at h ⊢

theorem Value.asObject_ok {v : Value} (h : v.isObject = true) : ∃ o, v = .object o := by
  cases v <;> simp [Value.isObject] at h ⊢

theorem Value.asBool_ok {v : Value} (h : v.isBool = true) : ∃ b, v = .bool b := by
  cases v <;> simp [Value.isBool] at h ⊢

/-! ## The text round trip -/

mutual
/-- `parse (serialize v)`. -/
def Value.wire : Value → Value
  | .uint64 n => if n.toNat < 2 ^ 63 then .int64 n.toInt64 else .uint64 n
  | .array vs => .array (wireElems vs)
  | .object o => .object (wireMembers o)
  | v => v
def wireElems : List Value → List Value
  | [] => []
  | v :: vs => v.wire :: wireElems vs
def wireMembers : List (String × Value) → List (String × Value)
  | [] => []
  | (k, v) :: o => (k, v.wire) :: wireMembers o
end

/-- The object a peer parses from the text of `o`. -/
def Object.wire (o : Object) : Object := wireMembers o

@[simp] theorem Object.wire_nil : Object.wire [] = [] := rfl

@[simp] theorem Object.wire_cons (k : String) (v : Value) (o : Object) :
    Object.wire ((k, v) :: o) = (k, v.wire) :: Object.wire o := rfl

@[simp] theorem Value.wire_null : Value.wire .null = .null := by simp [Value.wire]

@[simp] theorem Value.wire_bool (b : Bool) : (Value.bool b).wire = .bool b := by
  simp [Value.wire]

@[simp] theorem Value.wire_int64 (n : Int64) : (Value.int64 n).wire = .int64 n := by
  simp [Value.wire]

@[simp] theorem Value.wire_string (s : String) : (Value.string s).wire = .string s := by
  simp [Value.wire]

@[simp] theorem Value.wire_object (o : Object) :
    (Value.object o).wire = .object (Object.wire o) := by
  simp [Value.wire, Object.wire]

theorem Object.find?_wire (o : Object) (key : String) :
    o.wire.find? key = (o.find? key).map Value.wire := by
  induction o with
  | nil => rfl
  | cons m o ih =>
    obtain ⟨k, v⟩ := m
    simp only [Object.wire_cons, Object.find?_cons, ih]
    split <;> rfl

mutual
theorem Value.wire_wire : ∀ v : Value, v.wire.wire = v.wire
  | .null => by simp
  | .bool _ => by simp
  | .int64 _ => by simp
  | .uint64 n => by
    by_cases h : n.toNat < 2 ^ 63
    · have hw : (Value.uint64 n).wire = .int64 n.toInt64 := by rw [Value.wire, if_pos h]
      rw [hw, Value.wire_int64]
    · have hw : (Value.uint64 n).wire = .uint64 n := by rw [Value.wire, if_neg h]
      rw [hw, hw]
  | .double _ => by simp [Value.wire]
  | .string _ => by simp
  | .array vs => by simp only [Value.wire, wireElems_wireElems vs]
  | .object o => by simp only [Value.wire, wireMembers_wireMembers o]
theorem wireElems_wireElems : ∀ vs : List Value, wireElems (wireElems vs) = wireElems vs
  | [] => rfl
  | v :: vs => by simp only [wireElems, Value.wire_wire v, wireElems_wireElems vs]
theorem wireMembers_wireMembers : ∀ o : List (String × Value),
    wireMembers (wireMembers o) = wireMembers o
  | [] => rfl
  | (k, v) :: o => by simp only [wireMembers, Value.wire_wire v, wireMembers_wireMembers o]
end

/-- Parsing the text again changes nothing more. -/
@[simp] theorem Object.wire_wire (o : Object) : o.wire.wire = o.wire :=
  wireMembers_wireMembers o

end Aewt
