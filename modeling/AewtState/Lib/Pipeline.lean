import Mathlib.Order.Basic
import Mathlib.Data.List.Nodup

/-!
# Numbered elements in a pipeline

A pipeline is a row of queues.  Elements are numbered as they enter; the head of a queue is
taken off and some copies of it are put at the end of the next queue, which is what a filter
(no copy), a buffer (one) and a fan-out (several) do.

The contents of a pipeline are read from its outlet to its inlet, all queues in one list, so
that an element moves by staying where it is.

* `Flow` — what one step does to the contents and to the next number.
* `Numbered` — the numbers stand in the order `r` and are below the next one.

Principal results: `Numbered.of_flow` — every step keeps it; `Numbered.count_le_one` — a
pipeline without fan-out holds a number at most once.
-/

set_option autoImplicit false

namespace Pipeline

variable {κ : Type} [Preorder κ] {r : κ → κ → Prop}

/-- One step of a pipeline.  Copies may only be made where the order `r` allows equals. -/
inductive Flow (r : κ → κ → Prop) : κ → List κ → κ → List κ → Prop where
  | same (next : κ) (l : List κ) : Flow r next l next l
  | pass (next : κ) (u v : List κ) (k : κ) (n : Nat) (h : n ≤ 1 ∨ r k k) :
    Flow r next (u ++ k :: v) next (u ++ (List.replicate n k ++ v))
  | enter (next next' : κ) (l : List κ) (h : next < next') :
    Flow r next l next' (l ++ [next])

structure Numbered (r : κ → κ → Prop) (next : κ) (l : List κ) : Prop where
  ordered : l.Pairwise r
  below : ∀ k ∈ l, k < next

theorem Numbered.nil (next : κ) : Numbered r next [] :=
  ⟨List.Pairwise.nil, fun _ h => by cases h⟩

omit [Preorder κ] in
theorem pairwise_replicate {n : Nat} {k : κ} (h : n ≤ 1 ∨ r k k) :
    (List.replicate n k).Pairwise r := by
  rw [List.pairwise_replicate]
  exact h

omit [Preorder κ] in
theorem pairwise_pass {u v : List κ} {k : κ} {n : Nat} (h : n ≤ 1 ∨ r k k)
    (hl : (u ++ k :: v).Pairwise r) : (u ++ (List.replicate n k ++ v)).Pairwise r := by
  obtain ⟨hu, hkv, huk⟩ := List.pairwise_append.mp hl
  obtain ⟨hk, hv⟩ := List.pairwise_cons.mp hkv
  have hcopies : ∀ a ∈ List.replicate n k, a = k := fun a ha => List.eq_of_mem_replicate ha
  refine List.pairwise_append.mpr ⟨hu, List.pairwise_append.mpr
    ⟨pairwise_replicate h, hv, fun a ha b hb => ?_⟩, fun a ha b hb => ?_⟩
  · rw [hcopies a ha]
    exact hk b hb
  · rcases List.mem_append.mp hb with hb | hb
    · rw [hcopies b hb]
      exact huk a ha k List.mem_cons_self
    · exact huk a ha b (List.mem_cons_of_mem _ hb)

/-- **Every step of a pipeline keeps the order.** -/
theorem Numbered.of_flow (hr : ∀ {a b : κ}, a < b → r a b) {next next' : κ} {l l' : List κ}
    (h : Numbered r next l) (hf : Flow r next l next' l') : Numbered r next' l' := by
  cases hf with
  | same => exact h
  | pass u v k n hn =>
    refine ⟨pairwise_pass hn h.ordered, fun a ha => ?_⟩
    apply h.below a
    rcases List.mem_append.mp ha with ha | ha
    · exact List.mem_append_left _ ha
    · rcases List.mem_append.mp ha with ha | ha
      · rw [List.eq_of_mem_replicate ha]
        exact List.mem_append_right _ List.mem_cons_self
      · exact List.mem_append_right _ (List.mem_cons_of_mem _ ha)
  | enter next l hlt =>
    refine ⟨List.pairwise_append.mpr ⟨h.ordered, List.pairwise_singleton _ _,
      fun a ha b hb => ?_⟩, fun a ha => ?_⟩
    · rw [List.mem_singleton.mp hb]
      exact hr (h.below a ha)
    · rcases List.mem_append.mp ha with ha | ha
      · exact (h.below a ha).trans hlt
      · rw [List.mem_singleton.mp ha]
        exact hlt

/-- The part at the outlet. -/
theorem Numbered.of_append {next : κ} {l l' : List κ} (h : Numbered r next (l ++ l')) :
    Numbered r next l :=
  ⟨(List.pairwise_append.mp h.ordered).1, fun k hk => h.below k (List.mem_append_left _ hk)⟩

/-- Without fan-out no number occurs twice. -/
theorem Numbered.count_le_one [DecidableEq κ] {next : κ} {l : List κ}
    (h : Numbered (· < ·) next l) (k : κ) : l.count k ≤ 1 :=
  List.nodup_iff_count_le_one.mp (h.ordered.imp fun hab => hab.ne) k

end Pipeline
