import Mathlib.Tactic.Common

/-!
# One fact announced by live updates and by snapshots

A fact that one party stores and another party is told of.  An update changes the store, then
looks whether the listener is known, and then sends, which is lost while the line is closed.
A sync sends the fact if it is stored.

* `Cell` — the store, what the listener will hold when everything sent has arrived, and how
  far the update is.
* `Move` — one step.  `Move lossy` may lose an announcement only if `lossy`.

Principal results: `Move.inv` and `Cell.Inv.settled` — after a sync and with no update under
way the listener agrees, although announcements were lost before; `Move.exact` and
`Cell.Exact.settled` — without a sync it agrees when nothing was lost.
-/

set_option autoImplicit false

namespace Announce

/-- An update to the value `b` that has changed the store: before it looked for the listener,
or after it, when `told` says whether it was there. -/
inductive Todo where
  | look (b : Bool)
  | send (b told : Bool)

/-- The value of an update under way. -/
def Todo.value : Todo → Bool
  | .look b => b
  | .send b _ => b

@[ext] structure Cell where
  store : Prop
  remote : Prop
  todo : Option Todo
  known : Bool
  opened : Bool
  synced : Bool

inductive Move (lossy : Prop) (c : Cell) : Cell → Prop where
  | idle (known opened : Bool) (hk : c.known = true → known = true)
    (ho : c.opened = true → opened = true) :
    Move lossy c { c with known := known, opened := opened }
  | update (b : Bool) (free : c.todo = none) :
    Move lossy c { c with store := b = true, todo := some (.look b) }
  | look (b : Bool) (ready : c.todo = some (.look b)) (h : c.known = false → lossy) :
    Move lossy c { c with todo := some (.send b c.known) }
  | post (b : Bool) (ready : c.todo = some (.send b true)) (ho : c.opened = true) :
    Move lossy c { c with remote := b = true, todo := none }
  | drop (b told : Bool) (ready : c.todo = some (.send b told))
    (h : told = false ∨ c.opened = false) (hl : lossy) :
    Move lossy c { c with todo := none }
  | sync (hk : c.known = true) (ho : c.opened = true) :
    Move lossy c { c with remote := c.remote ∨ c.store, synced := true }

namespace Cell

variable {c d : Cell} {lossy : Prop}

/-- An update is under way that is not lost yet. -/
def Owed (c : Cell) : Prop := ∃ b, c.todo = some (.look b) ∨ c.todo = some (.send b true)

/-- The value of the update under way is the one that was stored. -/
def Fresh (c : Cell) : Prop := ∀ u, c.todo = some u → (c.store ↔ u.value = true)

structure Inv (c : Cell) : Prop where
  fresh : c.Fresh
  late : c.remote → c.known = true ∧ c.opened = true
  ready : c.synced = true → c.known = true ∧ c.opened = true
  told : ∀ b, c.todo = some (.send b true) → c.known = true
  sound : c.remote → c.store ∨ c.Owed
  complete : c.synced = true → c.store → c.remote ∨ c.Owed

structure Exact (c : Cell) : Prop where
  fresh : c.Fresh
  agree : (c.remote ↔ c.store) ∨ c.Owed

/-- After a sync, and with no update under way, the listener agrees. -/
theorem Inv.settled (h : c.Inv) (hn : c.todo = none) (hs : c.synced = true) :
    c.remote ↔ c.store := by
  have howed : ¬ c.Owed := by simp [Owed, hn]
  constructor
  · exact fun hr => (h.sound hr).resolve_right howed
  · exact fun hst => (h.complete hs hst).resolve_right howed

theorem Exact.settled (h : c.Exact) (hn : c.todo = none) : c.remote ↔ c.store := by
  have howed : ¬ c.Owed := by simp [Owed, hn]
  exact h.agree.resolve_right howed

end Cell

namespace Move

open Cell

variable {c d : Cell} {lossy : Prop}

/-- A step that is not about the fact. -/
theorem of_same (hs : d.store = c.store) (hr : d.remote = c.remote) (ht : d.todo = c.todo)
    (hk : c.known = true → d.known = true) (ho : c.opened = true → d.opened = true)
    (hy : d.synced = c.synced) : Move lossy c d := by
  have hd : d = { c with known := d.known, opened := d.opened } := by
    ext <;> simp [*]
  rw [hd]
  exact .idle _ _ hk ho

theorem fresh (h : Move lossy c d) (hI : c.Fresh) : d.Fresh := by
  cases h with
  | idle known opened hk ho => exact hI
  | update b free =>
    rintro u hu
    cases hu
    exact Iff.rfl
  | look b ready h =>
    rintro u hu
    cases hu
    exact hI (.look b) ready
  | post b ready ho => rintro u ⟨⟩
  | drop b told ready h hl => rintro u ⟨⟩
  | sync hk ho => exact hI

/-- **Whatever is lost, a synced listener agrees but for what is owed.** -/
theorem inv (h : Move lossy c d) (hI : c.Inv) : d.Inv := by
  have hfresh := h.fresh hI.fresh
  cases h with
  | idle known opened hk ho =>
    exact ⟨hfresh, fun hr => ⟨hk (hI.late hr).1, ho (hI.late hr).2⟩,
      fun hs => ⟨hk (hI.ready hs).1, ho (hI.ready hs).2⟩, fun b hb => hk (hI.told b hb),
      hI.sound, hI.complete⟩
  | update b free =>
    exact ⟨hfresh, hI.late, hI.ready, by simp, fun _ => Or.inr ⟨b, Or.inl rfl⟩,
      fun _ _ => Or.inr ⟨b, Or.inl rfl⟩⟩
  | look b ready h =>
    -- the update is lost only while the listener is not known, when nothing has arrived yet
    refine ⟨hfresh, hI.late, hI.ready, fun b' hb' => ?_, fun hr => ?_, fun hs _ => ?_⟩
    · change some (Todo.send b c.known) = _ at hb'
      simp only [Option.some.injEq, Todo.send.injEq] at hb'
      exact hb'.2
    · exact Or.inr ⟨b, Or.inr (by rw [(hI.late hr).1])⟩
    · exact Or.inr ⟨b, Or.inr (by rw [(hI.ready hs).1])⟩
  | post b ready ho =>
    have hstore : c.store ↔ b = true := hI.fresh _ ready
    exact ⟨hfresh, fun _ => ⟨hI.told b ready, ho⟩, hI.ready, by simp,
      fun hr => Or.inl (hstore.mpr hr), fun _ hs => Or.inl (hstore.mp hs)⟩
  | drop b told ready h hl =>
    have howed : c.Owed → c.opened = false := by
      rintro ⟨b', hb | hb⟩
      · rw [ready] at hb
        cases hb
      · rw [ready] at hb
        cases hb
        exact h.resolve_left (by simp)
    refine ⟨hfresh, hI.late, hI.ready, by simp, fun hr => ?_, fun hs hst => ?_⟩
    · refine Or.inl ((hI.sound hr).resolve_right fun ho => ?_)
      exact absurd (hI.late hr).2 (by simp [howed ho])
    · refine Or.inl ((hI.complete hs hst).resolve_right fun ho => ?_)
      exact absurd (hI.ready hs).2 (by simp [howed ho])
  | sync hk ho =>
    refine ⟨hfresh, fun _ => ⟨hk, ho⟩, fun _ => ⟨hk, ho⟩, hI.told, ?_,
      fun _ hs => Or.inl (Or.inr hs)⟩
    rintro (hr | hs)
    · exact hI.sound hr
    · exact Or.inl hs

/-- **When nothing is lost, the listener agrees but for what is owed.** -/
theorem exact (h : Move lossy c d) (hl : ¬ lossy) (hI : c.Exact) : d.Exact := by
  have hfresh := h.fresh hI.fresh
  cases h with
  | idle known opened hk ho => exact ⟨hfresh, hI.agree⟩
  | update b free => exact ⟨hfresh, Or.inr ⟨b, Or.inl rfl⟩⟩
  | look b ready h =>
    have hk : c.known = true := by
      rw [← Bool.not_eq_false]
      exact fun hk => hl (h hk)
    exact ⟨hfresh, Or.inr ⟨b, Or.inr (by rw [hk])⟩⟩
  | post b ready ho =>
    have hstore : c.store ↔ b = true := hI.fresh _ ready
    exact ⟨hfresh, Or.inl hstore.symm⟩
  | drop b told ready h hlossy => exact absurd hlossy hl
  | sync hk ho =>
    refine ⟨hfresh, ?_⟩
    rcases hI.agree with hag | howed
    · exact Or.inl ⟨fun hr => hr.elim hag.mp id, Or.inr⟩
    · exact Or.inr howed

end Move

end Announce
