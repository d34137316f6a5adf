import AewtState.Messages
import Mathlib.Data.List.Forall2

/-!
# The strings that spell a UUID

An id parameter is checked by `is_uuid` and decoded by `get_param_as_id`; the check reads the
string up to its first NUL with `string_generator`, the decoder reads all of it with
`lexical_cast`.

* `Form` — with or without hyphens, with or without braces; `Form.canonical` is the one that
  `to_string` writes.
* `Spells` — the characters are the digits of a UUID in a form.
* `Agree` — the check and the decoder agree on a string.

Principal results: `stringGenerator_eq_some`, `lexicalCast_eq_some` — the check accepts every
form, the decoder the canonical one; `agree_iff`.
-/

set_option autoImplicit false

namespace Aewt

/-! ## Digits -/

/-- The value of two hex digits. -/
def digitsByte (d : Char × Char) : Option UInt8 :=
  match hexVal d.1, hexVal d.2 with
  | some x, some y => some (UInt8.ofNat (16 * x + y))
  | _, _ => none

def IsByte (d : Char × Char) (b : UInt8) : Prop := digitsByte d = some b

/-- Pairs of digits one after the other, with the four hyphens or without. -/
def spelled (hyphens : Bool) : List (Char × Char) → List Char
  | [] => []
  | d :: ds =>
    d.1 :: d.2 :: ((if hyphens && hyphenAt ds.length then ['-'] else []) ++ spelled hyphens ds)

theorem readByte_cons (a b : Char) (cs : List Char) :
    readByte (a :: b :: cs) = (digitsByte (a, b)).map fun x => (x, cs) := by
  simp only [readByte, digitsByte]
  cases hexVal a <;> cases hexVal b <;> rfl

theorem readByte_eq_some {cs rest : List Char} {b : UInt8} :
    readByte cs = some (b, rest) ↔ ∃ d, IsByte d b ∧ cs = d.1 :: d.2 :: rest := by
  constructor
  · intro h
    match cs, h with
    | a :: a' :: cs, h =>
      rw [readByte_cons, Option.map_eq_some_iff] at h
      obtain ⟨x, hx, hxr⟩ := h
      cases hxr
      exact ⟨(a, a'), hx, rfl⟩
  · rintro ⟨d, hd, rfl⟩
    rw [readByte_cons, show digitsByte (d.1, d.2) = some b from hd]
    rfl

theorem readHyphen_eq_some {cs rest : List Char} :
    readHyphen cs = some rest ↔ cs = '-' :: rest := by
  constructor
  · intro h
    unfold readHyphen at h
    split at h
    · cases h
      rfl
    · cases h
  · rintro rfl
    rfl

theorem readHyphen_append (hyphen : Bool) (cs : List Char) :
    (if hyphen then readHyphen ((if hyphen then ['-'] else []) ++ cs)
      else some ((if hyphen then ['-'] else []) ++ cs)) = some cs := by
  cases hyphen <;> rfl

/-- **The reader accepts the spelled bytes and nothing else.** -/
theorem readBytes_eq_some {hyphens : Bool} {n : Nat} {cs rest : List Char} {bs : List UInt8} :
    readBytes hyphens n cs = some (bs, rest) ↔
      bs.length = n ∧ ∃ ds, List.Forall₂ IsByte ds bs ∧ cs = spelled hyphens ds ++ rest := by
  induction n generalizing cs bs with
  | zero =>
    constructor
    · intro h
      cases h
      exact ⟨rfl, [], .nil, rfl⟩
    · rintro ⟨hlen, ds, hds, rfl⟩
      cases List.eq_nil_of_length_eq_zero hlen
      cases hds
      rfl
  | succ n ih =>
    constructor
    · intro h
      unfold readBytes at h
      split at h
      · cases h
      · rename_i b cs' hb
        obtain ⟨d, hd, rfl⟩ := readByte_eq_some.mp hb
        split at h
        · cases h
        · rename_i cs'' hhyphen
          obtain ⟨⟨bs', rest'⟩, hrest, hbs⟩ := Option.map_eq_some_iff.mp h
          cases hbs
          obtain ⟨hlen, ds, hds, rfl⟩ := ih.mp hrest
          refine ⟨by rw [List.length_cons, hlen], d :: ds, .cons hd hds, ?_⟩
          have hds' : ds.length = n := hds.length_eq.trans hlen
          simp only [spelled, List.cons_append, List.cons.injEq, true_and, hds', List.append_assoc]
          split at hhyphen
          · rename_i hh
            rw [readHyphen_eq_some.mp hhyphen, if_pos hh]
            rfl
          · rename_i hh
            cases hhyphen
            rw [if_neg hh]
            rfl
    · rintro ⟨hlen, ds, hds, rfl⟩
      cases hds with
      | nil => cases hlen
      | @cons d b ds bs hd hds =>
        have hn : bs.length = n := Nat.succ.inj hlen
        have hrest : readBytes hyphens n (spelled hyphens ds ++ rest) = some (bs, rest) :=
          ih.mpr ⟨hn, ds, hds, rfl⟩
        unfold readBytes
        simp only [spelled, List.cons_append, readByte_eq_some.mpr ⟨d, hd, rfl⟩,
          hds.length_eq.trans hn, List.append_assoc, readHyphen_append, hrest, Option.map_some]

/-! ## Forms -/

structure Form where
  hyphens : Bool
  braces : Bool
  deriving DecidableEq

/-- What `to_string` writes. -/
def Form.canonical : Form := ⟨true, false⟩

def Form.text (f : Form) (ds : List (Char × Char)) : List Char :=
  if f.braces then '{' :: (spelled f.hyphens ds ++ ['}']) else spelled f.hyphens ds

/-- The characters are the digits of `u` in the form `f`. -/
def Spells (f : Form) (u : Uuid) (cs : List Char) : Prop :=
  ∃ ds, List.Forall₂ IsByte ds u.bytes ∧ cs = f.text ds

/-! ### Digits are no punctuation -/

theorem hexVal_plain {c : Char} {x : Nat} (h : hexVal c = some x) :
    c ≠ '-' ∧ c ≠ '{' ∧ c ≠ '\x00' := by
  refine ⟨?_, ?_, ?_⟩ <;> rintro rfl <;> revert h <;> decide +revert

theorem isByte_digits {d : Char × Char} {b : UInt8} (h : IsByte d b) :
    (∃ x, hexVal d.1 = some x) ∧ ∃ y, hexVal d.2 = some y := by
  unfold IsByte digitsByte at h
  split at h
  · rename_i x y hx hy
    exact ⟨⟨x, hx⟩, ⟨y, hy⟩⟩
  · cases h

theorem spelled_plain {hyphens : Bool} {ds : List (Char × Char)} {bs : List UInt8}
    (h : List.Forall₂ IsByte ds bs) : ∀ c ∈ spelled hyphens ds, c ≠ '{' ∧ c ≠ '\x00' := by
  induction h with
  | nil =>
    intro c hc
    cases hc
  | cons hd _ ih =>
    intro c hc
    obtain ⟨⟨x, hx⟩, ⟨y, hy⟩⟩ := isByte_digits hd
    simp only [spelled, List.mem_cons, List.mem_append] at hc
    rcases hc with rfl | rfl | hc | hc
    · exact (hexVal_plain hx).2
    · exact (hexVal_plain hy).2
    · split at hc
      · cases List.mem_singleton.mp hc
        decide
      · cases hc
    · exact ih c hc

/-- The ninth character tells whether there are hyphens. -/
theorem spelled_ninth (hyphens : Bool) {ds : List (Char × Char)} {bs : List UInt8}
    (h : List.Forall₂ IsByte ds bs) (hlen : bs.length = 16) (rest : List Char) :
    ((spelled hyphens ds ++ rest)[8]? == some '-') = hyphens := by
  rcases h with _ | ⟨-, _ | ⟨-, _ | ⟨-, _ | ⟨-, _ | ⟨he, hl⟩⟩⟩⟩⟩
  case cons.cons.cons.cons.cons =>
    obtain ⟨⟨x, hx⟩, -⟩ := isByte_digits he
    simp only [List.length_cons] at hlen
    have hleft : _ = 11 := hl.length_eq.trans (by omega)
    cases hyphens
    · simpa [spelled] using (hexVal_plain hx).1
    · -- the hyphen stands before the twelve bytes that are left
      simp [spelled, hleft, hyphenAt]
  all_goals cases hlen

/-! ## The two readers -/

theorem ofBytes?_eq_some {bs : List UInt8} {u : Uuid} :
    Uuid.ofBytes? bs = some u ↔ u.bytes = bs := by
  constructor
  · intro h
    unfold Uuid.ofBytes? at h
    split at h
    · cases h
      rfl
    · cases h
  · rintro rfl
    exact Uuid.ofBytes?_bytes u

theorem generate_eq_some {close cs : List Char} {u : Uuid} :
    generate close cs = some u ↔
      ∃ hyphens ds, List.Forall₂ IsByte ds u.bytes ∧ cs = spelled hyphens ds ++ close := by
  constructor
  · intro h
    unfold generate at h
    split at h
    · rename_i bs rest hread
      split at h
      · rename_i hrest
        subst hrest
        cases ofBytes?_eq_some.mp h
        obtain ⟨-, ds, hds, hcs⟩ := readBytes_eq_some.mp hread
        exact ⟨_, ds, hds, hcs⟩
      · cases h
    · cases h
  · rintro ⟨hyphens, ds, hds, rfl⟩
    unfold generate
    rw [spelled_ninth _ hds u.size, readBytes_eq_some.mpr ⟨u.size, ds, hds, rfl⟩]
    simp [Uuid.ofBytes?_bytes]

/-- **The check accepts every form**, in the characters before the first NUL. -/
theorem stringGenerator_eq_some {s : String} {u : Uuid} :
    stringGenerator s = some u ↔ ∃ f, Spells f u (cStr s) := by
  unfold stringGenerator
  split
  · rename_i cs hc
    rw [hc, generate_eq_some]
    constructor
    · rintro ⟨hyphens, ds, hds, rfl⟩
      exact ⟨⟨hyphens, true⟩, ds, hds, rfl⟩
    · rintro ⟨⟨hyphens, braces⟩, ds, hds, htext⟩
      cases braces with
      | true => exact ⟨hyphens, ds, hds, (List.cons.inj htext).2⟩
      | false =>
        have hmem : '{' ∈ spelled hyphens ds := by
          rw [show spelled hyphens ds = '{' :: cs from htext.symm]
          exact List.mem_cons_self
        exact absurd rfl (spelled_plain hds _ hmem).1
  · rename_i hc
    rw [generate_eq_some]
    constructor
    · rintro ⟨hyphens, ds, hds, hcs⟩
      rw [List.append_nil] at hcs
      exact ⟨⟨hyphens, false⟩, ds, hds, hcs⟩
    · rintro ⟨⟨hyphens, braces⟩, ds, hds, htext⟩
      cases braces with
      | true => exact absurd htext (hc _)
      | false => exact ⟨hyphens, ds, hds, by rw [List.append_nil]; exact htext⟩

/-- **The decoder accepts the canonical form only**, and reads the whole string. -/
theorem lexicalCast_eq_some {s : String} {u : Uuid} :
    lexicalCast s = some u ↔ Spells .canonical u s.toList := by
  unfold lexicalCast
  constructor
  · intro h
    split at h
    · rename_i bs hread
      cases ofBytes?_eq_some.mp h
      obtain ⟨-, ds, hds, hcs⟩ := readBytes_eq_some.mp hread
      rw [List.append_nil] at hcs
      exact ⟨ds, hds, hcs⟩
    · cases h
  · rintro ⟨ds, hds, hcs⟩
    rw [hcs, show Form.canonical.text ds = spelled true ds ++ [] from
      (List.append_nil _).symm, readBytes_eq_some.mpr ⟨u.size, ds, hds, rfl⟩]
    exact Uuid.ofBytes?_bytes u

/-- A canonical string has no NUL. -/
theorem cStr_of_canonical {s : String} {u : Uuid} (h : Spells .canonical u s.toList) :
    cStr s = s.toList := by
  obtain ⟨ds, hds, hcs⟩ := h
  rw [cStr, List.takeWhile_eq_self_iff]
  intro c hc
  rw [hcs] at hc
  simpa using (spelled_plain hds c hc).2

/-- What the decoder accepts, the check accepts, as the same UUID. -/
theorem stringGenerator_of_lexicalCast {s : String} {u : Uuid} (h : lexicalCast s = some u) :
    stringGenerator s = some u := by
  have hs := lexicalCast_eq_some.mp h
  rw [stringGenerator_eq_some]
  exact ⟨.canonical, by rw [cStr_of_canonical hs]; exact hs⟩

/-! ## Agreement -/

/-- A text that is in the canonical form is in no other. -/
theorem form_eq_canonical {f : Form} {u v : Uuid} {cs : List Char} (h : Spells f u cs)
    (hc : Spells .canonical v cs) : f = .canonical := by
  obtain ⟨ds, hds, hcs⟩ := h
  obtain ⟨ds', hds', hcs'⟩ := hc
  have hplain : cs = spelled true ds' := hcs'
  obtain ⟨hyphens, braces⟩ := f
  cases braces with
  | true =>
    have hmem : '{' ∈ spelled true ds' := by
      rw [← hplain, hcs]
      exact List.mem_cons_self
    exact absurd rfl (spelled_plain hds' _ hmem).1
  | false =>
    have hboth : spelled hyphens ds ++ [] = spelled true ds' ++ [] := by
      rw [← hplain, hcs]
      rfl
    have hninth := spelled_ninth hyphens hds u.size []
    rw [hboth, spelled_ninth true hds' v.size] at hninth
    rw [← hninth]
    rfl

/-- The check and the decoder agree on the string `s` that the member holds. -/
structure Agree (params : Object) (name s : String) : Prop where
  accepts : isUuid s = true ↔ ∃ u, getParamAsId params name = .ok u
  same : ∀ u v, stringGenerator s = some u → getParamAsId params name = .ok v → u = v

theorem getParamAsId_eq_ok {params : Object} {name s : String} {u : Uuid}
    (h : params.find? name = some (.string s)) :
    getParamAsId params name = .ok u ↔ lexicalCast s = some u := by
  rw [getParamAsId_of h]
  cases lexicalCast s <;> simp

theorem isUuid_iff {s : String} : isUuid s = true ↔ ∃ f u, Spells f u (cStr s) := by
  rw [isUuid, Option.isSome_iff_exists]
  constructor
  · rintro ⟨u, hu⟩
    obtain ⟨f, hf⟩ := stringGenerator_eq_some.mp hu
    exact ⟨f, u, hf⟩
  · rintro ⟨f, u, hf⟩
    exact ⟨u, stringGenerator_eq_some.mpr ⟨f, hf⟩⟩

/-- **The check and the decoder agree exactly on the strings that are no UUID up to the first
NUL, or a canonical one without a NUL.** -/
theorem agree_iff {params : Object} {name s : String}
    (h : params.find? name = some (.string s)) :
    Agree params name s ↔
      ∀ f u, Spells f u (cStr s) → f = .canonical ∧ cStr s = s.toList := by
  constructor
  · intro ha f u hf
    obtain ⟨v, hv⟩ := ha.accepts.mp (isUuid_iff.mpr ⟨f, u, hf⟩)
    have hs := lexicalCast_eq_some.mp ((getParamAsId_eq_ok h).mp hv)
    have hwhole := cStr_of_canonical hs
    rw [hwhole] at hf
    exact ⟨form_eq_canonical hf hs, hwhole⟩
  · intro hall
    refine ⟨⟨fun hu => ?_, ?_⟩, ?_⟩
    · obtain ⟨f, u, hf⟩ := isUuid_iff.mp hu
      obtain ⟨rfl, hwhole⟩ := hall f u hf
      rw [hwhole] at hf
      exact ⟨u, (getParamAsId_eq_ok h).mpr (lexicalCast_eq_some.mpr hf)⟩
    · rintro ⟨u, hu⟩
      rw [isUuid, stringGenerator_of_lexicalCast ((getParamAsId_eq_ok h).mp hu)]
      rfl
    · intro u v hu hv
      rw [stringGenerator_of_lexicalCast ((getParamAsId_eq_ok h).mp hv)] at hu
      exact (Option.some.inj hu).symm

/-- The canonical text of the nil UUID. -/
theorem agree_nil :
    Object.find? [("id", .string Uuid.nil.toString)] "id" = some (.string Uuid.nil.toString) ∧
    (Agree [("id", .string Uuid.nil.toString)] "id" Uuid.nil.toString ↔
      ∀ f u, Spells f u (cStr Uuid.nil.toString) →
        f = .canonical ∧ cStr Uuid.nil.toString = Uuid.nil.toString.toList) :=
  ⟨rfl, agree_iff rfl⟩

/-- Without hyphens the check passes and the decoder raises. -/
theorem not_agree_plain : ¬ Agree [("id", .string "12345678123412341234123456789012")] "id"
    "12345678123412341234123456789012" := by
  intro h
  obtain ⟨u, hu⟩ := h.accepts.mp (by decide)
  have hcast := (getParamAsId_eq_ok (s := "12345678123412341234123456789012") rfl).mp hu
  rw [show lexicalCast "12345678123412341234123456789012" = none from by decide] at hcast
  cases hcast

end Aewt
