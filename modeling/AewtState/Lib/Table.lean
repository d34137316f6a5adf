import Mathlib.Data.List.Nodup

/-!
# Tables with a unique key

A list of rows no two of which have the same key, with the operations of an associative
container that refuses a second row for a key: `insert` (which reports whether it inserted),
`keep` (which drops the rows a predicate rejects) and `adjust` (which changes the row of one
key in place).  The order of the rows is the order of insertion.

Every operation carries the uniqueness of keys, so no later proof shows it again.
-/

set_option autoImplicit false

/-- A list of rows with pairwise distinct keys. -/
structure Table {α κ : Type} (key : α → κ) where
  rows : List α
  nodup : (rows.map key).Nodup

namespace Table

variable {α κ : Type} {key : α → κ}

instance : Membership α (Table key) := ⟨fun t a => a ∈ t.rows⟩

theorem mem_def {t : Table key} {a : α} : a ∈ t ↔ a ∈ t.rows := Iff.rfl

theorem ext {t u : Table key} (h : t.rows = u.rows) : t = u := by
  cases t; cases u; simp only at h; subst h; rfl

def empty (key : α → κ) : Table key := ⟨[], List.nodup_nil⟩

@[simp] theorem not_mem_empty (a : α) : a ∉ empty key := List.not_mem_nil

@[simp] theorem rows_empty : (empty key).rows = [] := rfl

/-- A row is determined by its key. -/
theorem eq_of_key {t : Table key} {a b : α} (ha : a ∈ t) (hb : b ∈ t) (h : key a = key b) :
    a = b :=
  List.inj_on_of_nodup_map t.nodup ha hb h

/-- Drop the rows that `p` rejects. -/
def keep (t : Table key) (p : α → Bool) : Table key :=
  ⟨t.rows.filter p, t.nodup.sublist (List.filter_sublist.map key)⟩

@[simp] theorem mem_keep {t : Table key} {p : α → Bool} {a : α} :
    a ∈ t.keep p ↔ a ∈ t ∧ p a = true := List.mem_filter

variable [DecidableEq κ]

/-- The row with key `k`. -/
def find? (t : Table key) (k : κ) : Option α := t.rows.find? fun a => key a = k

def hasKey (t : Table key) (k : κ) : Bool := t.rows.any fun a => key a = k

theorem hasKey_iff {t : Table key} {k : κ} : t.hasKey k = true ↔ ∃ a ∈ t, key a = k := by
  simp [hasKey, mem_def]

theorem hasKey_eq_false {t : Table key} {k : κ} :
    t.hasKey k = false ↔ ∀ a ∈ t, key a ≠ k := by
  simp [hasKey, mem_def]

theorem find?_eq_some {t : Table key} {k : κ} {a : α} :
    t.find? k = some a ↔ a ∈ t ∧ key a = k := by
  constructor
  · intro h
    exact ⟨List.mem_of_find?_eq_some h, by simpa using List.find?_some h⟩
  · rintro ⟨ha, hk⟩
    cases hf : t.find? k with
    | none =>
      have := List.find?_eq_none.mp hf a ha
      exact absurd hk (by simpa using this)
    | some b =>
      have hb : b ∈ t := List.mem_of_find?_eq_some hf
      have hbk : key b = k := by simpa using List.find?_some hf
      rw [eq_of_key hb ha (hbk.trans hk.symm)]

theorem find?_eq_none {t : Table key} {k : κ} : t.find? k = none ↔ ∀ a ∈ t, key a ≠ k := by
  simp [find?, mem_def]

theorem filter_key_of_nodup (k : κ) : ∀ {rows : List α}, (rows.map key).Nodup →
    rows.filter (fun a => key a = k) = (rows.find? fun a => key a = k).toList
  | [], _ => rfl
  | a :: rows, h => by
    rw [List.map_cons, List.nodup_cons] at h
    by_cases ha : key a = k
    · subst ha
      have hrest : rows.filter (fun b => key b = key a) = [] := by
        rw [List.filter_eq_nil_iff]
        intro b hb hk
        exact h.1 (List.mem_map.mpr ⟨b, hb, by simpa using hk⟩)
      simp [hrest]
    · simp [ha, filter_key_of_nodup k h.2]

/-- The rows of a key are the one row that `find?` finds. -/
theorem filter_key (t : Table key) (k : κ) :
    t.rows.filter (fun a => key a = k) = (t.find? k).toList :=
  filter_key_of_nodup k t.nodup

/-- Insert a row unless its key is present; the flag tells whether it was inserted. -/
def insert (t : Table key) (a : α) : Table key × Bool :=
  if h : t.hasKey (key a) = true then (t, false)
  else
    (⟨t.rows ++ [a], by
      rw [List.map_append, List.nodup_append]
      refine ⟨t.nodup, by simp, ?_⟩
      intro k hk l hl hkl
      simp only [List.map_cons, List.map_nil, List.mem_singleton] at hl
      obtain ⟨b, hb, rfl⟩ := List.mem_map.mp hk
      exact h (hasKey_iff.mpr ⟨b, hb, hkl.trans hl⟩)⟩, true)

theorem insert_of_hasKey {t : Table key} {a : α} (h : t.hasKey (key a) = true) :
    t.insert a = (t, false) := by
  simp [insert, h]

theorem rows_insert {t : Table key} {a : α} (h : t.hasKey (key a) = false) :
    (t.insert a).1.rows = t.rows ++ [a] := by
  simp [insert, h]

@[simp] theorem insert_snd (t : Table key) (a : α) : (t.insert a).2 = !t.hasKey (key a) := by
  cases h : t.hasKey (key a) <;> simp [insert, h]

theorem mem_insert {t : Table key} {a b : α} :
    b ∈ (t.insert a).1 ↔ b ∈ t ∨ (b = a ∧ t.hasKey (key a) = false) := by
  cases h : t.hasKey (key a) with
  | true => simp [insert_of_hasKey h]
  | false => simp [mem_def, rows_insert h]

/-- Afterwards the key is present. -/
theorem hasKey_insert_self (t : Table key) (a : α) :
    (t.insert a).1.hasKey (key a) = true := by
  cases h : t.hasKey (key a) with
  | true => rw [insert_of_hasKey h]; exact h
  | false => exact hasKey_iff.mpr ⟨a, mem_insert.mpr (Or.inr ⟨rfl, h⟩), rfl⟩

/-- Every other key is present as before. -/
theorem hasKey_insert_of_ne {t : Table key} {a : α} {k : κ} (h : k ≠ key a) :
    (t.insert a).1.hasKey k = t.hasKey k := by
  rw [Bool.eq_iff_iff, hasKey_iff, hasKey_iff]
  constructor
  · rintro ⟨b, hb, rfl⟩
    rcases mem_insert.mp hb with hb | ⟨rfl, -⟩
    · exact ⟨b, hb, rfl⟩
    · exact absurd rfl h
  · rintro ⟨b, hb, rfl⟩
    exact ⟨b, mem_insert.mpr (Or.inl hb), rfl⟩

/-- Dropping the row of one key. -/
theorem hasKey_keep_self (t : Table key) (k : κ) :
    (t.keep fun a => key a ≠ k).hasKey k = false := by
  rw [hasKey_eq_false]
  intro a ha
  simpa using (mem_keep.mp ha).2

theorem hasKey_keep_of_ne {t : Table key} {k l : κ} (h : l ≠ k) :
    (t.keep fun a => key a ≠ k).hasKey l = t.hasKey l := by
  rw [Bool.eq_iff_iff, hasKey_iff, hasKey_iff]
  constructor
  · rintro ⟨a, ha, rfl⟩
    exact ⟨a, (mem_keep.mp ha).1, rfl⟩
  · rintro ⟨a, ha, rfl⟩
    exact ⟨a, mem_keep.mpr ⟨ha, by simpa using h⟩, rfl⟩

/-- Change the row of key `k` in place. -/
def adjust (t : Table key) (k : κ) (f : α → α) (hf : ∀ a, key (f a) = key a) : Table key :=
  ⟨t.rows.map fun a => if key a = k then f a else a, by
    have : (t.rows.map fun a => if key a = k then f a else a).map key = t.rows.map key := by
      rw [List.map_map]
      apply List.map_congr_left
      intro a _
      simp only [Function.comp_apply]
      split
      · exact hf a
      · rfl
    rw [this]; exact t.nodup⟩

theorem mem_adjust {t : Table key} {k : κ} {f : α → α} {hf : ∀ a, key (f a) = key a} {b : α} :
    b ∈ t.adjust k f hf ↔ ∃ a ∈ t, (if key a = k then f a else a) = b := List.mem_map

/-- A row of another key stays as it is. -/
theorem mem_adjust_of_ne {t : Table key} {k : κ} {f : α → α} (hf : ∀ a, key (f a) = key a)
    {b : α} (h : key b ≠ k) : b ∈ t.adjust k f hf ↔ b ∈ t := by
  rw [mem_adjust]
  constructor
  · rintro ⟨a, ha, hab⟩
    split at hab
    · rename_i hk
      rw [← hab, hf] at h
      exact absurd hk h
    · rw [← hab]; exact ha
  · intro hb
    exact ⟨b, hb, by simp [h]⟩

/-- A key without a row. -/
theorem adjust_of_hasKey_false {t : Table key} {k : κ} (f : α → α)
    (hf : ∀ a, key (f a) = key a) (h : t.hasKey k = false) : t.adjust k f hf = t := by
  have hid : ∀ a ∈ t.rows, (if key a = k then f a else a) = a := fun a ha =>
    if_neg (hasKey_eq_false.mp h a ha)
  refine ext ?_
  simp only [adjust]
  rw [List.map_congr_left hid, List.map_id']

@[simp] theorem hasKey_adjust (t : Table key) (k l : κ) (f : α → α)
    (hf : ∀ a, key (f a) = key a) : (t.adjust k f hf).hasKey l = t.hasKey l := by
  simp only [hasKey, adjust, List.any_map]
  congr 1
  funext a
  simp only [Function.comp_apply]
  split <;> simp [hf]

end Table
