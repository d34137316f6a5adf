import Mathlib.Data.List.TakeWhile

/-!
# UUIDs and their text forms

Reference model of the three Boost.Uuid functions the nodes call.

* `Uuid.toString` — the canonical form: 32 lower-case hex digits, hyphens after the bytes
  4, 6, 8 and 10.
* `stringGenerator` — reads a NUL-terminated string: 32 hex digits with hyphens at all four
  places or at none, optionally in braces.  `validator::is_uuid` is built on it.
* `lexicalCast` — reads the hyphenated form only and must consume the whole string.  The
  handlers decode ids with it.

Principal results: `lexicalCast_toString`, `isUuid_toString` — both readers accept what
`toString` writes, so an id that a node sends is the id its peer decodes.
-/

set_option autoImplicit false

namespace Aewt

/-- `boost::uuids::uuid`: sixteen bytes. -/
structure Uuid where
  bytes : List UInt8
  size : bytes.length = 16
  deriving DecidableEq

namespace Uuid

/-- The value-initialised `uuid{}`. -/
def nil : Uuid := ⟨List.replicate 16 0, rfl⟩

def isNil (u : Uuid) : Bool := u == nil

/-- A byte list as a UUID, when it has sixteen bytes. -/
def ofBytes? (bs : List UInt8) : Option Uuid :=
  if h : bs.length = 16 then some ⟨bs, h⟩ else none

theorem ofBytes?_bytes (u : Uuid) : ofBytes? u.bytes = some u := by
  simp [ofBytes?, u.size]

end Uuid

/-! ## Hex digits -/

def hexDigit (d : Nat) : Char := if d < 10 then Char.ofNat (48 + d) else Char.ofNat (87 + d)

/-- Both readers accept either case. -/
def hexVal (c : Char) : Option Nat :=
  if '0' ≤ c ∧ c ≤ '9' then some (c.toNat - 48)
  else if 'a' ≤ c ∧ c ≤ 'f' then some (c.toNat - 87)
  else if 'A' ≤ c ∧ c ≤ 'F' then some (c.toNat - 55)
  else none

theorem hexVal_hexDigit : ∀ d, d < 16 → hexVal (hexDigit d) = some d := by decide

theorem hexDigit_plain : ∀ d, d < 16 →
    hexDigit d ≠ '-' ∧ hexDigit d ≠ '{' ∧ hexDigit d ≠ '\x00' := by decide

/-! ## The two layouts -/

/-- A hyphen follows the bytes 4, 6, 8 and 10, that is, stands where 12, 10, 8 and 6 bytes
are left. -/
def hyphenAt (left : Nat) : Bool := left == 12 || left == 10 || left == 8 || left == 6

def byteChars (b : UInt8) : List Char := [hexDigit (b.toNat / 16), hexDigit (b.toNat % 16)]

def uuidChars : List UInt8 → List Char
  | [] => []
  | b :: bs => byteChars b ++ ((if hyphenAt bs.length then ['-'] else []) ++ uuidChars bs)

/-- `to_string`. -/
def Uuid.toString (u : Uuid) : String := String.ofList (uuidChars u.bytes)

def readByte : List Char → Option (UInt8 × List Char)
  | a :: b :: cs =>
    match hexVal a, hexVal b with
    | some x, some y => some (UInt8.ofNat (16 * x + y), cs)
    | _, _ => none
  | _ => none

def readHyphen : List Char → Option (List Char)
  | '-' :: cs => some cs
  | _ => none

/-- Reads `left` bytes, with the hyphens of the canonical form when `hyphens` is set. -/
def readBytes (hyphens : Bool) : Nat → List Char → Option (List UInt8 × List Char)
  | 0, cs => some ([], cs)
  | left + 1, cs =>
    match readByte cs with
    | none => none
    | some (b, cs) =>
      match if hyphens && hyphenAt left then readHyphen cs else some cs with
      | none => none
      | some cs => (readBytes hyphens left cs).map fun r => (b :: r.1, r.2)

/-- The characters before the terminating NUL (`c_str`). -/
def cStr (s : String) : List Char := s.toList.takeWhile (· ≠ '\x00')

/-- Sixteen bytes and then exactly `close`.  The character after the fourth byte decides
whether hyphens are expected. -/
def generate (close cs : List Char) : Option Uuid :=
  match readBytes (cs[8]? == some '-') 16 cs with
  | some (bs, rest) => if rest = close then Uuid.ofBytes? bs else none
  | none => none

/-- `string_generator::operator()(char const *)`. -/
def stringGenerator (s : String) : Option Uuid :=
  match cStr s with
  | '{' :: cs => generate ['}'] cs
  | cs => generate [] cs

/-- `validator::is_uuid`, called on `s.c_str()`. -/
def isUuid (s : String) : Bool := (stringGenerator s).isSome

/-- `boost::lexical_cast<boost::uuids::uuid>`; `none` is `bad_lexical_cast`. -/
def lexicalCast (s : String) : Option Uuid :=
  match readBytes true 16 s.toList with
  | some (bs, []) => Uuid.ofBytes? bs
  | _ => none

/-! ## Reading what `toString` wrote -/

theorem readByte_byteChars (b : UInt8) (r : List Char) :
    readByte (byteChars b ++ r) = some (b, r) := by
  have hb := b.toNat_lt
  have h1 := hexVal_hexDigit (b.toNat / 16) (by omega)
  have h2 := hexVal_hexDigit (b.toNat % 16) (by omega)
  simp only [byteChars, List.cons_append, List.nil_append, readByte, h1, h2]
  rw [show 16 * (b.toNat / 16) + b.toNat % 16 = b.toNat by omega]
  simp

theorem readBytes_uuidChars (r : List Char) : ∀ bs : List UInt8,
    readBytes true bs.length (uuidChars bs ++ r) = some (bs, r)
  | [] => rfl
  | b :: bs => by
    have ih := readBytes_uuidChars r bs
    simp only [List.length_cons, uuidChars, List.append_assoc, readBytes, readByte_byteChars,
      Bool.true_and]
    by_cases h : hyphenAt bs.length
    · simp [h, readHyphen, ih]
    · simp [h, ih]

/-- The decoder inverts `to_string`. -/
@[simp] theorem lexicalCast_toString (u : Uuid) : lexicalCast u.toString = some u := by
  have h := readBytes_uuidChars [] u.bytes
  rw [u.size, List.append_nil] at h
  simp [lexicalCast, Uuid.toString, h, Uuid.ofBytes?_bytes]

theorem uuidChars_plain : ∀ (bs : List UInt8), ∀ c ∈ uuidChars bs, c ≠ '{' ∧ c ≠ '\x00'
  | [], c, hc => by cases hc
  | b :: bs, c, hc => by
    have hb := b.toNat_lt
    have h1 := hexDigit_plain (b.toNat / 16) (by omega)
    have h2 := hexDigit_plain (b.toNat % 16) (by omega)
    simp only [uuidChars, byteChars, List.cons_append, List.nil_append, List.mem_cons,
      List.mem_append] at hc
    rcases hc with rfl | rfl | hc | hc
    · exact h1.2
    · exact h2.2
    · split at hc
      · simp only [List.mem_singleton] at hc
        subst hc; decide
      · cases hc
    · exact uuidChars_plain bs c hc

theorem cStr_toString (u : Uuid) : cStr u.toString = uuidChars u.bytes := by
  rw [cStr, Uuid.toString, String.toList_ofList, List.takeWhile_eq_self_iff]
  intro c hc
  simpa using (uuidChars_plain u.bytes c hc).2

/-- In the canonical form the ninth character is a hyphen. -/
theorem uuidChars_ninth {bs : List UInt8} (h : bs.length = 16) :
    (uuidChars bs)[8]? = some '-' := by
  match bs, h with
  | b₀ :: b₁ :: b₂ :: b₃ :: bs, h =>
    have hl : bs.length = 12 := by simpa using h
    simp [uuidChars, byteChars, hl, hyphenAt]

theorem stringGenerator_toString (u : Uuid) : stringGenerator u.toString = some u := by
  have hbrace : ∀ cs, uuidChars u.bytes ≠ '{' :: cs := by
    intro cs h
    exact (uuidChars_plain u.bytes '{' (by simp [h])).1 rfl
  have hread := readBytes_uuidChars [] u.bytes
  rw [u.size, List.append_nil] at hread
  have hgen : generate [] (uuidChars u.bytes) = some u := by
    simp [generate, uuidChars_ninth u.size, hread, Uuid.ofBytes?_bytes]
  unfold stringGenerator
  rw [cStr_toString]
  split
  · rename_i cs h
    exact absurd h (hbrace cs)
  · exact hgen

@[simp] theorem isUuid_toString (u : Uuid) : isUuid u.toString = true := by
  simp [isUuid, stringGenerator_toString]

/-- The two readers differ on the form without hyphens. -/
example : isUuid "12345678123412341234123456789012" = true ∧
    lexicalCast "12345678123412341234123456789012" = none := by decide

end Aewt
