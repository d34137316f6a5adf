import AewtState.Lib.Run
import Mathlib.Logic.Function.Basic

/-!
# Handlers on several threads

A handler works outside the lock of a store and goes through critical sections: in each it
reads the store and may change it.  Between two sections of one thread the others may run any
number of theirs.

* `Code` — a handler as its sections.
* `Machine`, `step` — threads that begin handlers, run their next section and finish.
* `serve` — one handler at a time, from its beginning to its end.
* `Code.CommitsTo` — the first section decides: it changes the store as the whole handler
  does, and the sections after it change nothing and do not change the reply.

Principal results: `exec_agrees` — handlers that commit so, on any number of threads and under
any interleaving, leave the store and give the replies of the serial run in the order in which
they began; `exec_yields` — what a handler yields whatever it finds in the stores of a
condition, it yields in every run through such stores.
-/

set_option autoImplicit false

namespace Serial

/-- A handler between two sections: it is done, or it is to run a section and then go on with
what it read. -/
inductive Code (σ β : Type) where
  | done (b : β)
  | lock (f : σ → σ) (k : σ → Code σ β)

namespace Code

variable {σ β ρ : Type}

/-- The handler without other threads. -/
def alone : Code σ β → σ → σ × β
  | done b, s => (s, b)
  | lock f k, s => (k s).alone (f s)

/-- Run the first section, if there is one. -/
def enter : Code σ β → σ → σ × Code σ β
  | done b, s => (s, done b)
  | lock f k, s => (f s, k s)

/-- Whatever the other threads do, the handler changes nothing more and replies `r`. -/
def Settled (reply : β → ρ) (r : ρ) : Code σ β → Prop
  | done b => reply b = r
  | lock f k => ∀ s, f s = s ∧ (k s).Settled reply r

/-- The first section decides the new store and the reply. -/
def CommitsTo (reply : β → ρ) (g : σ → σ × ρ) : Code σ β → Prop
  | done b => ∀ s, g s = (s, reply b)
  | lock f k => ∀ s, (g s).1 = f s ∧ (k s).Settled reply (g s).2

/-- Whatever stores that meet `Q` the sections find, the result meets `P`. -/
def Yields (Q : σ → Prop) (P : β → Prop) : Code σ β → Prop
  | done b => P b
  | lock _ k => ∀ s, Q s → (k s).Yields Q P

variable {reply : β → ρ} {g : σ → σ × ρ} {c : Code σ β} {s : σ} {Q : σ → Prop} {P : β → Prop}

theorem CommitsTo.enter (h : c.CommitsTo reply g) (s : σ) :
    (c.enter s).1 = (g s).1 ∧ (c.enter s).2.Settled reply (g s).2 := by
  cases c with
  | done b =>
    have hb := h s
    simp [Code.enter, Settled, hb]
  | lock f k => exact ⟨(h s).1.symm, (h s).2⟩

theorem Yields.enter (h : c.Yields Q P) (hs : Q s) : (c.enter s).2.Yields Q P := by
  cases c with
  | done b => exact h
  | lock f k => exact h s hs

end Code

/-- The threads `ι` with the handlers they run, the common store and what handlers returned. -/
structure Machine (ι J σ β : Type) where
  store : σ
  running : ι → Option (J × Code σ β) := fun _ => none
  results : ι → List (J × β) := fun _ => []

inductive Action (ι J : Type) where
  /-- A handler begins and goes through its first section. -/
  | begin (i : ι) (j : J)
  | proceed (i : ι)
  | finish (i : ι)

variable {ι J σ β ρ : Type} [DecidableEq ι]

def step (code : J → Code σ β) (X : Machine ι J σ β) : Action ι J → Option (Machine ι J σ β)
  | .begin i j =>
    match X.running i with
    | some _ => none
    | none =>
      let r := (code j).enter X.store
      some { X with store := r.1, running := Function.update X.running i (some (j, r.2)) }
  | .proceed i =>
    match X.running i with
    | some (j, .lock f k) => some { X with
        store := f X.store
        running := Function.update X.running i (some (j, k X.store)) }
    | _ => none
  | .finish i =>
    match X.running i with
    | some (j, .done b) => some { X with
        running := Function.update X.running i none
        results := Function.update X.results i (X.results i ++ [(j, b)]) }
    | _ => none

section

variable {code : J → Code σ β} {X Y : Machine ι J σ β} {i : ι}

theorem step_begin {j : J} : step code X (.begin i j) = some Y ↔
    X.running i = none ∧ Y = { X with
      store := ((code j).enter X.store).1
      running := Function.update X.running i (some (j, ((code j).enter X.store).2)) } := by
  simp only [step]
  cases X.running i with
  | some p => simp
  | none => simp [eq_comm]

theorem step_proceed : step code X (.proceed i) = some Y ↔
    ∃ j f k, X.running i = some (j, .lock f k) ∧ Y = { X with
      store := f X.store
      running := Function.update X.running i (some (j, k X.store)) } := by
  simp only [step]
  rcases X.running i with _ | ⟨j, _ | ⟨f, k⟩⟩
  · simp
  · simp
  · constructor
    · intro h
      cases h
      exact ⟨j, f, k, rfl, rfl⟩
    · rintro ⟨j', f', k', hr, rfl⟩
      cases hr
      rfl

theorem step_finish : step code X (.finish i) = some Y ↔
    ∃ j b, X.running i = some (j, .done b) ∧ Y = { X with
      running := Function.update X.running i none
      results := Function.update X.results i (X.results i ++ [(j, b)]) } := by
  simp only [step]
  rcases X.running i with _ | ⟨j, b | ⟨f, k⟩⟩
  · simp
  · constructor
    · intro h
      cases h
      exact ⟨j, b, rfl, rfl⟩
    · rintro ⟨j', b', hr, rfl⟩
      cases hr
      rfl
  · simp

end

/-! ## One handler at a time -/

/-- The store and the replies of handlers that ran one after another. -/
structure Served (ι J σ ρ : Type) where
  store : σ
  replies : ι → List (J × ρ) := fun _ => []

def serve (serial : J → σ → σ × ρ) (R : Served ι J σ ρ) (e : ι × J) : Served ι J σ ρ where
  store := (serial e.2 R.store).1
  replies := Function.update R.replies e.1 (R.replies e.1 ++ [(e.2, (serial e.2 R.store).2)])

/-- The handlers of a run in the order in which they began. -/
def begun : List (Action ι J) → List (ι × J) :=
  List.filterMap fun a => match a with
    | .begin i j => some (i, j)
    | _ => none

/-- Handlers whose first section decides. -/
structure Handlers (J σ β ρ : Type) where
  code : J → Code σ β
  reply : β → ρ
  serial : J → σ → σ × ρ
  commits : ∀ j, (code j).CommitsTo reply (serial j)

namespace Handlers

variable (H : Handlers J σ β ρ)

/-- The replies that thread `i` gave. -/
def replies (X : Machine ι J σ β) (i : ι) : List (J × ρ) :=
  (X.results i).map fun e => (e.1, H.reply e.2)

/-- The serial run is ahead of a thread by the reply of the handler it runs. -/
def Ahead (X : Machine ι J σ β) (i : ι) (replies : List (J × ρ)) : Prop :=
  match X.running i with
  | none => replies = H.replies X i
  | some (j, c) => ∃ r, replies = H.replies X i ++ [(j, r)] ∧ c.Settled H.reply r

structure Agrees (X : Machine ι J σ β) (R : Served ι J σ ρ) : Prop where
  store : X.store = R.store
  ahead : ∀ i, H.Ahead X i (R.replies i)

variable {H} {X Y : Machine ι J σ β} {R : Served ι J σ ρ}

omit [DecidableEq ι] in
theorem ahead_of_none {i : ι} {replies : List (J × ρ)} (h : X.running i = none) :
    H.Ahead X i replies ↔ replies = H.replies X i := by
  simp [Ahead, h]

omit [DecidableEq ι] in
theorem ahead_of_some {i : ι} {replies : List (J × ρ)} {j : J} {c : Code σ β}
    (h : X.running i = some (j, c)) :
    H.Ahead X i replies ↔ ∃ r, replies = H.replies X i ++ [(j, r)] ∧ c.Settled H.reply r := by
  simp [Ahead, h]

omit [DecidableEq ι] in
/-- A thread that the step is not about. -/
theorem Ahead.congr {i : ι} {replies : List (J × ρ)} (h : H.Ahead X i replies)
    (hrun : Y.running i = X.running i) (hres : Y.results i = X.results i) :
    H.Ahead Y i replies := by
  unfold Ahead Handlers.replies
  rw [hrun, hres]
  exact h

/-- **A step of the threads is a step of the serial run or none.** -/
theorem Agrees.step {a : Action ι J} (h : H.Agrees X R) (hs : step H.code X a = some Y) :
    H.Agrees Y ((begun [a]).foldl (serve H.serial) R) := by
  cases a with
  | begin i j =>
    obtain ⟨hfree, rfl⟩ := step_begin.mp hs
    obtain ⟨hstore, hsettled⟩ := (H.commits j).enter X.store
    refine ⟨?_, fun i' => ?_⟩
    · change ((H.code j).enter X.store).1 = (H.serial j R.store).1
      rw [hstore, h.store]
    · by_cases hi : i' = i
      · subst hi
        refine (ahead_of_some (Function.update_self ..)).mpr ⟨(H.serial j R.store).2, ?_, ?_⟩
        · have hbefore := (ahead_of_none hfree).mp (h.ahead i')
          simp [begun, serve, hbefore, Handlers.replies]
        · rw [← h.store]
          exact hsettled
      · have hother : ((begun [.begin i j]).foldl (serve H.serial) R).replies i' =
            R.replies i' := Function.update_of_ne hi ..
        rw [hother]
        exact (h.ahead i').congr (Function.update_of_ne hi ..) rfl
  | proceed i =>
    obtain ⟨j, f, k, hrun, rfl⟩ := step_proceed.mp hs
    obtain ⟨r, hr, hsettled⟩ := (ahead_of_some hrun).mp (h.ahead i)
    obtain ⟨hsame, hrest⟩ := hsettled X.store
    refine ⟨?_, fun i' => ?_⟩
    · change f X.store = R.store
      rw [hsame, h.store]
    · by_cases hi : i' = i
      · subst hi
        exact (ahead_of_some (Function.update_self ..)).mpr ⟨r, hr, hrest⟩
      · exact (h.ahead i').congr (Function.update_of_ne hi ..) rfl
  | finish i =>
    obtain ⟨j, b, hrun, rfl⟩ := step_finish.mp hs
    obtain ⟨r, hr, hsettled⟩ := (ahead_of_some hrun).mp (h.ahead i)
    refine ⟨h.store, fun i' => ?_⟩
    by_cases hi : i' = i
    · subst hi
      refine (ahead_of_none (Function.update_self ..)).mpr ?_
      have hreply : H.reply b = r := hsettled
      change R.replies i' = _
      rw [hr, ← hreply]
      simp [Handlers.replies]
    · exact (h.ahead i').congr (Function.update_of_ne hi ..) (Function.update_of_ne hi ..)

/-- **Any interleaving is the serial run in the order in which the handlers began.** -/
theorem exec_agrees : ∀ {as : List (Action ι J)} {X : Machine ι J σ β} {R : Served ι J σ ρ},
    H.Agrees X R → Run.exec (Serial.step H.code) X as = some Y →
    H.Agrees Y ((begun as).foldl (serve H.serial) R)
  | [], X, R, h, hX => by
    cases hX
    exact h
  | a :: as, X, R, h, hX => by
    obtain ⟨Z, hZ, hY⟩ := Run.exec_cons.mp hX
    have hsplit : begun (a :: as) = begun [a] ++ begun as :=
      List.filterMap_append (l := [a])
    rw [hsplit, List.foldl_append]
    exact exec_agrees (h.step hZ) hY

omit [DecidableEq ι] in
theorem agrees_start (s : σ) : H.Agrees ({ store := s } : Machine ι J σ β) { store := s } :=
  ⟨rfl, fun _ => rfl⟩

end Handlers

/-! ## What a handler yields -/

section

variable {code : J → Code σ β} {Q : σ → Prop} {P : β → Prop} {i : ι} {j : J}
  {old : List (J × β)} {X Y : Machine ι J σ β}

/-- When the thread runs `j` it will yield `P`, and where it ran `j` after `old` it did. -/
structure Yielding (Q : σ → Prop) (P : β → Prop) (i : ι) (j : J) (old : List (J × β))
    (X : Machine ι J σ β) : Prop where
  running : ∀ c, X.running i = some (j, c) → c.Yields Q P
  results : ∃ new, X.results i = old ++ new ∧ ∀ b, (j, b) ∈ new → P b

theorem Yielding.step (h : (code j).Yields Q P) {a : Action ι J} (hI : Yielding Q P i j old X)
    (hQ : Q X.store) (hs : step code X a = some Y) : Yielding Q P i j old Y := by
  cases a with
  | begin i' j' =>
    obtain ⟨-, rfl⟩ := step_begin.mp hs
    refine ⟨fun c hrun => ?_, hI.results⟩
    by_cases hi : i = i'
    · subst hi
      obtain ⟨rfl, rfl⟩ : j' = j ∧ _ = c := by simpa using hrun
      exact h.enter hQ
    · exact hI.running c (by simpa [hi] using hrun)
  | proceed i' =>
    obtain ⟨j', f, k, hold, rfl⟩ := step_proceed.mp hs
    refine ⟨fun c hrun => ?_, hI.results⟩
    by_cases hi : i = i'
    · subst hi
      obtain ⟨rfl, rfl⟩ : j' = j ∧ _ = c := by simpa using hrun
      exact hI.running _ hold X.store hQ
    · exact hI.running c (by simpa [hi] using hrun)
  | finish i' =>
    obtain ⟨j', b, hold, rfl⟩ := step_finish.mp hs
    by_cases hi : i = i'
    · subst hi
      obtain ⟨new, hnew, hP⟩ := hI.results
      refine ⟨by simp, new ++ [(j', b)], by simp [hnew], fun b' hb' => ?_⟩
      rcases List.mem_append.mp hb' with hb' | hb'
      · exact hP b' hb'
      · cases List.mem_singleton.mp hb'
        exact hI.running _ hold
    · refine ⟨fun c hrun => hI.running c (by simpa [hi] using hrun), ?_⟩
      simpa [hi] using hI.results

/-- Results are only added. -/
theorem exec_results {as : List (Action ι J)} (hX : Run.exec (step code) X as = some Y) (i : ι) :
    ∃ new, Y.results i = X.results i ++ new := by
  refine Run.exec_invariant (I := fun Z => ∃ new, Z.results i = X.results i ++ new) ?_
    ⟨[], by simp⟩ hX
  rintro Z a Z' ⟨new, hnew⟩ hs
  cases a with
  | begin i' j' =>
    obtain ⟨-, rfl⟩ := step_begin.mp hs
    exact ⟨new, hnew⟩
  | proceed i' =>
    obtain ⟨j', f, k, -, rfl⟩ := step_proceed.mp hs
    exact ⟨new, hnew⟩
  | finish i' =>
    obtain ⟨j', b, -, rfl⟩ := step_finish.mp hs
    by_cases hi : i = i'
    · subst hi
      exact ⟨new ++ [(j', b)], by simp [hnew]⟩
    · exact ⟨new, by simpa [hi] using hnew⟩

/-- **What a handler yields in every store that meets `Q` it yields in a run through such
stores.** -/
theorem exec_yields (h : (code j).Yields Q P) {as : List (Action ι J)}
    (hfree : X.running i = none) (hX : Run.exec (step code) X as = some Y)
    (hQ : Run.Along (step code) (fun Z _ => Q Z.store) X as) {new : List (J × β)}
    (hnew : Y.results i = X.results i ++ new) {b : β} (hb : (j, b) ∈ new) : P b := by
  have hstart : Yielding Q P i j (X.results i) X :=
    ⟨fun c hrun => by simp [hfree] at hrun, [], by simp, by simp⟩
  obtain ⟨new', hnew', hP⟩ :=
    (Run.exec_invariant_along (fun hI hQ hs => hI.step h hQ hs) hstart hQ hX).results
  cases List.append_cancel_left (hnew.symm.trans hnew')
  exact hP b hb

end

end Serial
