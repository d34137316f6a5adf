import AewtState.Lib.Run
import Mathlib.Algebra.BigOperators.Finprod
import Mathlib.Algebra.Order.BigOperators.Group.Finset
import Mathlib.Algebra.Ring.Nat
import Mathlib.Order.WellFounded

/-!
# Runs that come to an end

A condition `P` says which actions are taken from now on: a system that is left to itself takes
those that need nothing from outside.

* `Ends` — no run of such actions goes on forever.
* `Stuck` — none of them is enabled.
* `sum_shift`, `finsum_shift` — a rank that is a sum over places, when a step takes something away
  at one place and adds something at another; `finsum_swap` — a sum in any monoid, when a step
  changes one place.

Principal results: `ends_of_rank` — a rank that every step lowers ends all runs;
`length_add_rank_le` — a rank in `ℕ` bounds their lengths; `Ends.exists_along` — a run can be
continued until it is stuck; `Ends.not_forever`.
-/

set_option autoImplicit false

namespace Run

variable {σ α : Type} {step : σ → α → Option σ} {P : α → Prop}

/-- Every run of actions in `P` that starts here ends. -/
def Ends (step : σ → α → Option σ) (P : α → Prop) (s : σ) : Prop :=
  Acc (fun t s => ∃ a, P a ∧ step s a = some t) s

/-- No action in `P` is enabled. -/
def Stuck (step : σ → α → Option σ) (P : α → Prop) (s : σ) : Prop := ∀ a, P a → step s a = none

/-- **A rank that every step lowers**, among the states of an invariant. -/
theorem ends_of_rank {ρ : Type} {r : ρ → ρ → Prop} (hwf : WellFounded r) (rank : σ → ρ)
    {I : σ → Prop}
    (hstep : ∀ {s a s'}, I s → P a → step s a = some s' → I s' ∧ r (rank s') (rank s)) {s : σ}
    (hI : I s) : Ends step P s := by
  generalize hrank : rank s = k
  induction k using hwf.induction generalizing s with
  | h k ih =>
    subst hrank
    refine Acc.intro s fun t ht => ?_
    obtain ⟨a, ha, hs⟩ := ht
    obtain ⟨hIt, hlt⟩ := hstep hI ha hs
    exact ih _ hlt hIt rfl

/-- **A rank in `ℕ` bounds the length of every run.** -/
theorem length_add_rank_le (rank : σ → ℕ) {I : σ → Prop}
    (hstep : ∀ {s a s'}, I s → P a → step s a = some s' → I s' ∧ rank s' < rank s) :
    ∀ {as : List α} {s s' : σ}, I s → (∀ a ∈ as, P a) → exec step s as = some s' →
      as.length + rank s' ≤ rank s
  | [], s, s', _, _, h => by
    cases h
    simp
  | a :: as, s, s', hI, hP, h => by
    obtain ⟨t, ht, hrest⟩ := exec_cons.mp h
    obtain ⟨hIt, hlt⟩ := hstep hI (hP a List.mem_cons_self) ht
    have hle := length_add_rank_le rank hstep hIt
      (fun b hb => hP b (List.mem_cons_of_mem _ hb)) hrest
    simp only [List.length_cons]
    omega

/-- Something goes at one place, and something comes at another. -/
theorem sum_shift {κ : Type} [DecidableEq κ] {E : Finset κ} {f g : κ → ℕ} {r s : κ} {d e : ℕ}
    (hr : r ∈ E)
    (h : ∀ q ∈ E, f q + (if q = r then d else 0) ≤ g q + (if q = s then e else 0)) :
    ∑ q ∈ E, f q + d ≤ ∑ q ∈ E, g q + e := by
  have hsum := Finset.sum_le_sum h
  rw [Finset.sum_add_distrib, Finset.sum_add_distrib, Finset.sum_ite_eq', Finset.sum_ite_eq',
    if_pos hr] at hsum
  split at hsum <;> omega

/-- The same with infinitely many places, of which finitely many count. -/
theorem finsum_shift {κ : Type} [DecidableEq κ] {f g : κ → ℕ} (hf : f.support.Finite)
    (hg : g.support.Finite) {r s : κ} {d e : ℕ}
    (h : ∀ q, f q + (if q = r then d else 0) ≤ g q + (if q = s then e else 0)) :
    ∑ᶠ q, f q + d ≤ ∑ᶠ q, g q + e := by
  have hsum := sum_shift (E := insert r (hf.toFinset ∪ hg.toFinset)) (Finset.mem_insert_self ..)
    fun q _ => h q
  rw [finsum_eq_sum_of_support_subset f (s := insert r (hf.toFinset ∪ hg.toFinset)),
    finsum_eq_sum_of_support_subset g (s := insert r (hf.toFinset ∪ hg.toFinset))]
  · exact hsum
  · intro q hq
    simp [Function.mem_support.mp hq]
  · intro q hq
    simp [Function.mem_support.mp hq]

/-- Two sums that differ at one place. -/
theorem finsum_swap {κ M : Type} [AddCommMonoid M] [DecidableEq κ] {f g : κ → M}
    (hf : f.support.Finite) (r : κ) (h : ∀ q, q ≠ r → g q = f q) :
    ∑ᶠ q, g q + f r = ∑ᶠ q, f q + g r := by
  have hsum : ∀ {k : κ → M}, (∀ q, q ≠ r → k q = f q) →
      ∑ᶠ q, k q = k r + ∑ q ∈ hf.toFinset.erase r, f q := by
    intro k hk
    have hsub : k.support ⊆ insert r hf.toFinset := by
      intro q hq
      by_cases hqr : q = r
      · simp [hqr]
      · have hfq : f q ≠ 0 := by
          rw [← hk q hqr]
          exact hq
        simp [hfq]
    rw [finsum_eq_sum_of_support_subset k (s := insert r hf.toFinset) (by simpa using hsub),
      ← Finset.add_sum_erase _ k (Finset.mem_insert_self r hf.toFinset),
      Finset.erase_insert_eq_erase]
    refine congrArg _ (Finset.sum_congr rfl fun q hq => hk q (Finset.ne_of_mem_erase hq))
  rw [hsum h, hsum fun _ _ => rfl, add_right_comm, add_comm (g r), add_right_comm]

/-- **A system whose runs end can be run until it is stuck**, also by the actions of a stronger
condition on the states alone. -/
theorem Ends.exists_along {C : σ → α → Prop} (hC : ∀ {s a}, C s a → P a) {s : σ}
    (h : Ends step P s) :
    ∃ as t, Along step C s as ∧ exec step s as = some t ∧ ∀ a, C t a → step t a = none := by
  induction h with
  | intro s _ ih =>
    by_cases hs : ∀ a, C s a → step s a = none
    · exact ⟨[], s, trivial, rfl, hs⟩
    · simp only [not_forall] at hs
      obtain ⟨a, ha, hne⟩ := hs
      obtain ⟨u, hu⟩ := Option.ne_none_iff_exists'.mp hne
      obtain ⟨as, t, has, ht, hstuck⟩ := ih u ⟨a, hC ha, hu⟩
      exact ⟨a :: as, t, along_cons hu ha has, exec_cons.mpr ⟨u, hu, ht⟩, hstuck⟩

theorem Ends.exists_stuck {s : σ} (h : Ends step P s) :
    ∃ as t, (∀ a ∈ as, P a) ∧ exec step s as = some t ∧ Stuck step P t := by
  obtain ⟨as, t, has, ht, hstuck⟩ := h.exists_along (C := fun _ => P) id
  exact ⟨as, t, forall_of_along (C := fun _ => P) id has ht, ht, hstuck⟩

/-- No infinite run starts here. -/
theorem Ends.not_forever {s : σ} (h : Ends step P s) :
    ¬ ∃ f : ℕ → σ, f 0 = s ∧ ∀ i, ∃ a, P a ∧ step (f i) a = some (f (i + 1)) := by
  induction h with
  | intro s _ ih =>
    rintro ⟨f, rfl, hf⟩
    exact ih (f 1) (hf 0) ⟨fun i => f (i + 1), rfl, fun i => hf (i + 1)⟩

end Run
