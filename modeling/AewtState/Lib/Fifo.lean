import Mathlib.Data.List.Basic
import AewtState.Lib.Run

/-!
# A first-in first-out channel

What goes in comes out once and in order: `push` puts an element at the end of what is
pending, `pop` delivers the first pending one.

Principal result: `exec_delivered` — after any run, what was delivered followed by what is
pending is what was pushed.
-/

set_option autoImplicit false

variable {μ : Type}

structure Fifo (μ : Type) where
  delivered : List μ := []
  pending : List μ := []

namespace Fifo

inductive Action (μ : Type) where
  | push (m : μ)
  | pop

def step (f : Fifo μ) : Action μ → Option (Fifo μ)
  | .push m => some { f with pending := f.pending ++ [m] }
  | .pop =>
    match f.pending with
    | [] => none
    | m :: ms => some ⟨f.delivered ++ [m], ms⟩

/-- The elements that the actions push. -/
def pushed : List (Action μ) → List μ
  | [] => []
  | .push m :: as => m :: pushed as
  | .pop :: as => pushed as

theorem step_push {f f' : Fifo μ} {m : μ} (h : f.step (.push m) = some f') :
    f'.delivered ++ f'.pending = f.delivered ++ f.pending ++ [m] := by
  cases h
  simp

theorem step_pop {f f' : Fifo μ} (h : f.step .pop = some f') :
    f'.delivered ++ f'.pending = f.delivered ++ f.pending := by
  cases hp : f.pending with
  | nil =>
    rw [step, hp] at h
    cases h
  | cons m ms =>
    rw [step, hp] at h
    cases h
    simp

/-- **Nothing is lost, duplicated or reordered.** -/
theorem exec_delivered {as : List (Action μ)} {f f' : Fifo μ}
    (h : Run.exec step f as = some f') :
    f'.delivered ++ f'.pending = f.delivered ++ f.pending ++ pushed as := by
  induction as generalizing f with
  | nil =>
    cases h
    simp [pushed]
  | cons a as ih =>
    obtain ⟨g, hg, h⟩ := Run.exec_cons.mp h
    have hrest := ih h
    cases a with
    | push m =>
      rw [hrest, step_push hg]
      simp [pushed]
    | pop =>
      rw [hrest, step_pop hg]
      rfl

end Fifo
