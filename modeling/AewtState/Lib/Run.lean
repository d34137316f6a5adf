import Mathlib.Data.Option.Basic

/-!
# Runs of a labelled transition function

`step s a` is the state after action `a` in state `s`, or `none` when `a` is not enabled.
`exec` iterates it over a list of actions, and `Along` says that every action of a run meets a
condition on the state it is taken in.

Principal results: `exec_invariant` and `exec_invariant_along` — what every step preserves
(every step that meets the condition) holds after a run; `exec_simulates` — a relation that every
step of one system keeps by steps of another is kept by runs.
-/

set_option autoImplicit false

namespace Run

variable {σ α : Type} {step : σ → α → Option σ}

/-- The state after the actions, when each was enabled. -/
def exec (step : σ → α → Option σ) : σ → List α → Option σ
  | s, [] => some s
  | s, a :: as =>
    match step s a with
    | some s' => exec step s' as
    | none => none

/-- Every action of the run meets `C` in the state before it. -/
def Along (step : σ → α → Option σ) (C : σ → α → Prop) : σ → List α → Prop
  | _, [] => True
  | s, a :: as => C s a ∧ ∀ s', step s a = some s' → Along step C s' as

@[simp] theorem exec_nil (s : σ) : exec step s [] = some s := rfl

theorem exec_cons {s s' : σ} {a : α} {as : List α} :
    exec step s (a :: as) = some s' ↔ ∃ t, step s a = some t ∧ exec step t as = some s' := by
  rw [exec]
  cases step s a <;> simp

theorem exec_append {s s' : σ} {as bs : List α} :
    exec step s (as ++ bs) = some s' ↔
      ∃ t, exec step s as = some t ∧ exec step t bs = some s' := by
  induction as generalizing s with
  | nil => simp [exec]
  | cons a as ih =>
    simp only [List.cons_append, exec_cons, ih]
    constructor
    · rintro ⟨t, ht, u, hu, hs⟩
      exact ⟨u, ⟨t, ht, hu⟩, hs⟩
    · rintro ⟨u, ⟨t, ht, hu⟩, hs⟩
      exact ⟨t, ht, u, hu, hs⟩

theorem along_cons {C : σ → α → Prop} {s s' : σ} {a : α} {as : List α} (hs : step s a = some s')
    (ha : C s a) (has : Along step C s' as) : Along step C s (a :: as) := by
  refine ⟨ha, fun t ht => ?_⟩
  cases hs.symm.trans ht
  exact has

instance decidableAlong {C : σ → α → Prop} [∀ s a, Decidable (C s a)] :
    ∀ (s : σ) (as : List α), Decidable (Along step C s as)
  | _, [] => .isTrue trivial
  | s, a :: as =>
    match h : step s a with
    | some t =>
      have : Decidable (Along step C t as) := decidableAlong t as
      decidable_of_iff (C s a ∧ Along step C t as) (by simp [Along, h])
    | none => decidable_of_iff (C s a) (by simp [Along, h])

/-- **The invariant rule for runs whose actions meet a condition.** -/
theorem exec_invariant_along {C : σ → α → Prop} {I : σ → Prop}
    (hstep : ∀ {s a s'}, I s → C s a → step s a = some s' → I s') :
    ∀ {as : List α} {s s' : σ}, I s → Along step C s as → exec step s as = some s' → I s'
  | [], s, s', hI, _, h => by cases h; exact hI
  | a :: as, s, s', hI, hC, h => by
    obtain ⟨t, ht, h⟩ := exec_cons.mp h
    exact exec_invariant_along hstep (hstep hI hC.1 ht) (hC.2 t ht) h

/-- A condition on the actions alone. -/
theorem along_of_forall {C : α → Prop} : ∀ {as : List α} (s : σ), (∀ a ∈ as, C a) →
    Along step (fun _ a => C a) s as
  | [], _, _ => trivial
  | a :: _, _, h => ⟨h a List.mem_cons_self,
      fun s' _ => along_of_forall s' fun b hb => h b (List.mem_cons_of_mem _ hb)⟩

/-- What the condition says of the actions alone. -/
theorem forall_of_along {C : σ → α → Prop} {P : α → Prop} (hP : ∀ {s a}, C s a → P a) :
    ∀ {as : List α} {s s' : σ}, Along step C s as → exec step s as = some s' → ∀ a ∈ as, P a
  | [], _, _, _, _ => fun _ h => by cases h
  | a :: as, s, s', hC, h => by
    obtain ⟨t, ht, hrest⟩ := exec_cons.mp h
    intro b hb
    rcases List.mem_cons.mp hb with rfl | hb
    · exact hP hC.1
    · exact forall_of_along (C := C) hP (hC.2 t ht) hrest b hb

/-- Conditions that agree in every state agree along every run. -/
theorem along_congr {C D : σ → α → Prop} (h : ∀ s a, C s a ↔ D s a) :
    ∀ (as : List α) (s : σ), Along step C s as ↔ Along step D s as
  | [], _ => Iff.rfl
  | a :: as, s => by
    have ih := along_congr h as
    simp only [Along, h s a, ih]

theorem along_true : ∀ (as : List α) (s : σ), Along step (fun _ _ => True) s as
  | [], _ => trivial
  | _ :: as, _ => ⟨trivial, fun s' _ => along_true as s'⟩

/-- **The invariant rule.** -/
theorem exec_invariant {I : σ → Prop} (hstep : ∀ {s a s'}, I s → step s a = some s' → I s')
    {as : List α} {s s' : σ} (hI : I s) (h : exec step s as = some s') : I s' :=
  exec_invariant_along (fun hI _ h => hstep hI h) hI (along_true as s) h

/-- **What a condition on the actions buys, in every state on the way**: where, in the states of
an invariant, an action meets the condition exactly when the state after it is good. -/
theorem along_iff_reached {C : σ → α → Prop} {I P : σ → Prop}
    (hstep : ∀ {s a s'}, I s → step s a = some s' → I s')
    (hC : ∀ {s} a, I s → P s → (C s a ↔ ∀ s', step s a = some s' → P s')) :
    ∀ (as : List α) {s : σ}, I s → P s →
      ((∀ bs s', bs <+: as → exec step s bs = some s' → P s') ↔ Along step C s as)
  | [], s, _, hP => by
    refine iff_of_true (fun bs s' hbs hs => ?_) trivial
    cases List.prefix_nil.mp hbs
    cases hs
    exact hP
  | a :: as, s, hI, hP => by
    constructor
    · intro h
      have hnext : ∀ s', step s a = some s' → P s' := fun s' hs =>
        h [a] s' ⟨as, rfl⟩ (exec_cons.mpr ⟨s', hs, rfl⟩)
      refine ⟨(hC a hI hP).mpr hnext, fun t ht => ?_⟩
      refine (along_iff_reached hstep hC as (hstep hI ht) (hnext t ht)).mp fun bs s' hbs hs => ?_
      exact h (a :: bs) s' ((List.prefix_cons_inj a).mpr hbs) (exec_cons.mpr ⟨t, ht, hs⟩)
    · rintro ⟨ha, has⟩ bs s' hbs hs
      rcases bs with - | ⟨b, bs⟩
      · cases hs
        exact hP
      · obtain ⟨rfl, hrest⟩ := List.cons_prefix_cons.mp hbs
        obtain ⟨t, ht, hs⟩ := exec_cons.mp hs
        have hPt : P t := (hC b hI hP).mp ha t ht
        exact (along_iff_reached hstep hC as (hstep hI ht) hPt).mpr (has t ht) bs s' hrest hs

/-- **The simulation rule.** -/
theorem exec_simulates {τ β : Type} {step' : τ → β → Option τ} {R : σ → τ → Prop}
    (hstep : ∀ {s a s' t}, R s t → step s a = some s' →
      ∃ bs t', exec step' t bs = some t' ∧ R s' t')
    {as : List α} {s s' : σ} {t : τ} (hR : R s t) (h : exec step s as = some s') :
    ∃ bs t', exec step' t bs = some t' ∧ R s' t' := by
  refine exec_invariant (I := fun s' => ∃ bs t', exec step' t bs = some t' ∧ R s' t')
    (fun {s a s'} hI hs => ?_) ⟨[], t, rfl, hR⟩ h
  obtain ⟨bs, u, hu, hR⟩ := hI
  obtain ⟨cs, v, hv, hR⟩ := hstep hR hs
  exact ⟨bs ++ cs, v, exec_append.mpr ⟨u, hu, hv⟩, hR⟩

end Run
