import Mathlib.Logic.Basic
import Mathlib.Data.List.Basic

/-!
# Replicating a set over a queue of updates

A sender keeps a set and posts an update for every change of it; a receiver applies the
updates in the order of the queue.  A message `m` is an update `upd m = some (k, b)` of the
key `k`, which is afterwards present (`b = true`) or absent, or it is none.

`after upd k p q` is the presence of `k` at the receiver once the queue `q` has been applied,
when `p` is its presence now.  The sender and the receiver agree on `k` when `after` is the
presence at the sender; then

* `after_cons` — a delivery changes nothing,
* `after_append` — what is posted is applied after what was posted before,
* `after_idle`, `after_filter` — other keys and other messages do not matter,
* `after_announced` — a snapshot of the sender's set adds exactly its keys.
-/

set_option autoImplicit false

namespace Replica

variable {κ μ : Type} [DecidableEq κ] {upd : μ → Option (κ × Bool)} {k : κ} {p : Prop}

/-- The presence of `k` after an update, if there is one. -/
def update (u : Option (κ × Bool)) (k : κ) (p : Prop) : Prop :=
  match u with
  | some (k', b) => if k' = k then b = true else p
  | none => p

/-- The presence of `k` after one message. -/
def apply (upd : μ → Option (κ × Bool)) (k : κ) (p : Prop) (m : μ) : Prop := update (upd m) k p

/-- The presence of `k` after all messages of the queue. -/
def after (upd : μ → Option (κ × Bool)) (k : κ) (p : Prop) (q : List μ) : Prop :=
  q.foldl (apply upd k) p

/-- No message of the queue is about `k`. -/
def Idle (upd : μ → Option (κ × Bool)) (k : κ) (q : List μ) : Prop :=
  ∀ m ∈ q, ∀ b, upd m ≠ some (k, b)

@[simp] theorem after_nil : after upd k p [] = p := rfl

@[simp] theorem after_cons (m : μ) (q : List μ) :
    after upd k p (m :: q) = after upd k (apply upd k p m) q := rfl

theorem after_append (q r : List μ) :
    after upd k p (q ++ r) = after upd k (after upd k p q) r := List.foldl_append

@[simp] theorem update_none : update none k p = p := rfl

@[simp] theorem update_self (b : Bool) : update (some (k, b)) k p = (b = true) := by
  simp [update]

theorem update_ne {k' : κ} (b : Bool) (h : k' ≠ k) : update (some (k', b)) k p = p := by
  simp [update, h]

/-- A key that is present after an update was set by it or present before. -/
theorem of_update {u : Option (κ × Bool)} (h : update u k p) : u = some (k, true) ∨ p := by
  unfold update at h
  split at h
  · rename_i k' b
    split at h
    · rename_i hk
      rw [hk, show b = true from h]
      exact Or.inl rfl
    · exact Or.inr h
  · exact Or.inr h

theorem apply_none {m : μ} (h : upd m = none) : apply upd k p m = p := by
  rw [apply, h, update_none]

theorem apply_self {m : μ} {b : Bool} (h : upd m = some (k, b)) :
    apply upd k p m = (b = true) := by
  rw [apply, h, update_self]

theorem apply_idle {m : μ} (h : ∀ b, upd m ≠ some (k, b)) : apply upd k p m = p := by
  unfold apply update
  split
  · rename_i k' b hm
    rw [if_neg]
    rintro rfl
    exact h b hm
  · rfl

theorem after_idle : ∀ {q : List μ} {p : Prop}, Idle upd k q → after upd k p q = p
  | [], _, _ => rfl
  | m :: q, p, h => by
    rw [after_cons, apply_idle (h m List.mem_cons_self)]
    exact after_idle fun m' hm' => h m' (List.mem_cons_of_mem _ hm')

/-- Only the messages about `k` count. -/
theorem after_filter {P : μ → Bool} : ∀ {q : List μ} {p : Prop},
    (∀ m ∈ q, ∀ b, upd m = some (k, b) → P m = true) →
    after upd k p (q.filter P) = after upd k p q
  | [], _, _ => rfl
  | m :: q, p, h => by
    have ih := @after_filter P q
    by_cases hm : P m = true
    · rw [List.filter_cons_of_pos hm, after_cons, after_cons]
      exact ih fun m' hm' => h m' (List.mem_cons_of_mem _ hm')
    · rw [List.filter_cons_of_neg hm, after_cons,
        apply_idle fun b hb => hm (h m List.mem_cons_self b hb)]
      exact ih fun m' hm' => h m' (List.mem_cons_of_mem _ hm')

/-- Posting messages that only say that keys are present. -/
theorem after_announced : ∀ {q : List μ} {p : Prop},
    (∀ m ∈ q, ∀ k' b, upd m = some (k', b) → b = true) →
    (after upd k p q ↔ p ∨ ∃ m ∈ q, upd m = some (k, true))
  | [], p, _ => by simp
  | m :: q, p, h => by
    rw [after_cons, after_announced fun m' hm' => h m' (List.mem_cons_of_mem _ hm')]
    by_cases hk : upd m = some (k, true)
    · simp [apply_self hk, hk]
    · have hidle : ∀ b, upd m ≠ some (k, b) := by
        intro b hb
        rw [h m List.mem_cons_self k b hb] at hb
        exact hk hb
      simp [apply_idle hidle, hk]

/-- Posting messages that only say what is the case already. -/
theorem after_confirmed {now : Prop} : ∀ {q : List μ} {p : Prop},
    (∀ m ∈ q, ∀ b, upd m = some (k, b) → b = true ∧ now) → (p ↔ now) →
    (after upd k p q ↔ now)
  | [], _, _, hp => hp
  | m :: q, p, h, hp => by
    rw [after_cons]
    refine after_confirmed (fun m' hm' => h m' (List.mem_cons_of_mem _ hm')) ?_
    unfold apply update
    split
    · rename_i k' b hm
      split
      · rename_i hk
        rw [hk] at hm
        obtain ⟨hb, hn⟩ := h m List.mem_cons_self b hm
        exact iff_of_true hb hn
      · exact hp
    · exact hp

/-- If `k` is present at the end, then it is present now or the queue says so. -/
theorem of_after : ∀ {q : List μ} {p : Prop}, after upd k p q → p ∨ ∃ m ∈ q, upd m = some (k, true)
  | [], _, h => Or.inl h
  | m :: q, p, h => by
    rw [after_cons] at h
    rcases of_after h with h | ⟨m', hm', hu⟩
    · rcases of_update h with hu | h
      · exact Or.inr ⟨m, List.mem_cons_self, hu⟩
      · exact Or.inl h
    · exact Or.inr ⟨m', List.mem_cons_of_mem _ hm', hu⟩

end Replica
