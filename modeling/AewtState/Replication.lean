import AewtState.Registration

/-!
# Both nodes mirror the local rows of the other one

The two nodes start with any sessions to third nodes and any rows of these, and everything in the
run may interleave with the handlers of those sessions.

Principal results: `Pair.opener_mirrors_acceptor` — whatever the interleaving, the opener mirrors
the acceptor; `Pair.acceptor_mirrors_opener` — the acceptor mirrors the opener when every change
is told to the open session.
-/

set_option autoImplicit false

namespace Aewt

namespace Pair

open Announce (Cell)

variable {X Y : Pair} {a : Side}

/-! ## Runs -/

/-- Two nodes before the session and before any client of theirs.  They may have sessions to
third nodes, with rows about the clients of these. -/
structure Initial (X : Pair) : Prop where
  fresh : ∀ a, X.sid a ≠ (X.node a).id
  rows : ∀ a s k, (X.node a).Holds s k →
    s ≠ (X.node a).id ∧ s ≠ X.sid a ∧ X.away k.about = true
  opened : ∀ a, X.opened a = false
  reading : ∀ a, X.reading a = false
  stage : ∀ a, X.stage a = .idle
  wire : ∀ a, X.wire a = []
  fan : ∀ c, X.fan c = none
  home : ∀ c, X.home c = none
  synced : ∀ a store, X.synced a store = false

theorem Initial.good (h : X.Initial) : X.Good where
  owned := ⟨h.fresh, fun c _ => h.home c, fun a s k hh => Or.inr (Or.inr (h.rows a s k hh)),
    by simp [h.wire], fun c _ => h.fan c⟩
  busy := ⟨by simp [h.reading], by simp [h.stage]⟩

theorem Initial.registered (h : X.Initial) : X.Registered :=
  ⟨by simp [h.opened], by simp [h.stage], by simp [h.reading]⟩

theorem Initial.cell (h : X.Initial) (a : Side) (k : Key) :
    X.cell a k = ⟨False, False, none, X.knows a, false, false⟩ := by
  have hown : ¬ (X.node a).Holds (X.node a).id k := fun hh => (h.rows a _ k hh).1 rfl
  have hmirror : ¬ (X.node a.other).Holds (X.sid a.other) k := fun hh =>
    (h.rows a.other _ k hh).2.1 rfl
  simp only [Pair.cell, mirrored, todo, h.wire, h.opened, h.synced, h.home, Replica.after_nil,
    eq_false hown, eq_false hmirror]
  rfl

theorem Initial.inv (h : X.Initial) (a : Side) (k : Key) : (X.cell a k).Inv := by
  rw [h.cell]
  exact ⟨by simp [Cell.Fresh], False.elim, by simp, by simp, False.elim, by simp⟩

theorem Initial.exact (h : X.Initial) (a : Side) (k : Key) : (X.cell a k).Exact := by
  rw [h.cell]
  exact ⟨by simp [Cell.Fresh], Or.inl Iff.rfl⟩

/-- Nothing is on its way, and the handlers of the side's clients and of the acceptor's session
have ended. -/
structure Quiet (X : Pair) (a : Side) : Prop where
  wire : ∀ b, X.wire b = []
  stage : X.stage .acceptor = .idle
  fan : ∀ c, X.home c = some a → X.fan c = none

theorem Quiet.todo (h : X.Quiet a) (k : Key) : X.todo a k = none := by
  unfold Pair.todo
  split
  · rw [h.fan _ ‹_›]
  · rfl

theorem Quiet.mirrored (h : X.Quiet a) (b : Side) (k : Key) :
    X.mirrored b k = (X.node b).Holds (X.sid b) k := by
  rw [Pair.mirrored, h.wire, Replica.after_nil]

/-- Only `connect` gives a client a side. -/
theorem home_step {action : Action} (hs : X.step action = some Y) {c : Uuid}
    (hn : ∀ a t, action ≠ .connect a c t) : Y.home c = X.home c := by
  cases action with
  | connect a d t =>
    obtain ⟨-, rfl⟩ := step_connect hs
    exact Function.update_of_ne (fun hd => hn a t (by rw [hd])) _ _
  | request d data =>
    obtain ⟨a, u, t, -, rfl⟩ := step_request hs
    rfl
  | leave d t =>
    obtain ⟨a, -, rfl⟩ := step_leave hs
    rfl
  | look d =>
    obtain ⟨a, u, t, -, -, rfl⟩ := step_look hs
    rfl
  | send d =>
    obtain ⟨a, u, t, told, -, -, rfl⟩ := step_send hs
    rw [post_home]
    rfl
  | enter a =>
    rw [step_enter hs]
    rfl
  | shake a =>
    obtain ⟨-, rfl⟩ := step_shake hs
    rfl
  | accept a host env =>
    obtain ⟨-, w, -, rfl⟩ := step_accept hs
    simp
  | deliver a env =>
    obtain ⟨-, -, text, rest, -, ⟨t, sp, cp, r, -, -, rfl⟩ | ⟨w, -, -, rfl⟩⟩ := step_deliver hs
    · simp [setStage]
    · simp
  | advance a env =>
    cases step_advance hs with
    | silent w stage piece next eq =>
      subst eq
      simp [setStage]
    | sync w store stage piece next eq =>
      subst eq
      simp [setStage, markSynced]
  | third a g env =>
    obtain ⟨-, w, -, rfl⟩ := step_third hs
    simp

/-- The client that a `connect` is about. -/
def Action.newcomer : Action → Option Uuid
  | .connect _ c _ => some c
  | _ => none

theorem Initial.home_of_run {as : List Action} (h : X.Initial) (hr : Run.exec step X as = some Y)
    {c : Uuid} (hc : ∀ action ∈ as, action.newcomer ≠ some c) : Y.home c = none := by
  refine Run.exec_invariant_along (I := fun Z : Pair => Z.home c = none)
    (C := fun _ action => action.newcomer ≠ some c) (fun hI hn hs => ?_) (h.home c)
    (Run.along_of_forall X hc) hr
  rw [home_step hs]
  · exact hI
  · rintro a t rfl
    exact hn rfl

/-- **Whatever the interleaving, the opener mirrors the acceptor** once its side of the session
is open and nothing is in flight. -/
theorem opener_mirrors_acceptor {X₀ : Pair} {as : List Action} (h₀ : X₀.Initial)
    (hr : Run.exec step X₀ as = some X) (hopen : X.reading .opener = true)
    (hq : X.Quiet .acceptor) (k : Key) :
    (X.node .opener).Holds (X.sid .opener) k ↔
      (X.node .acceptor).Holds (X.node .acceptor).id k := by
  have hinv := Run.exec_invariant
    (I := fun X : Pair => X.Good ∧ X.Registered ∧ (X.cell .acceptor k).Inv)
    (fun ⟨hG, hR, hI⟩ hs =>
      ⟨(hG.step hs).1, hR.step hG hs, ((hG.step hs).2 .acceptor k).inv hI⟩)
    ⟨h₀.good, h₀.registered, h₀.inv .acceptor k⟩ hr
  obtain ⟨-, hR, hI⟩ := hinv
  have hsynced : X.synced .acceptor k.store = true := by
    rcases hR.sent hopen with ⟨text, ht, -⟩ | hp
    · rw [hq.wire] at ht
      cases ht
    · unfold Progress at hp
      rw [hq.stage] at hp
      exact hp k.store
  have hcell := hI.settled (hq.todo k) hsynced
  change X.mirrored .opener k ↔ _ at hcell
  rwa [hq.mirrored] at hcell

/-! ### Two nodes that do not know each other, but a third one -/

def strangerId : Side → Uuid
  | .opener => ⟨List.replicate 16 3, rfl⟩
  | .acceptor => ⟨List.replicate 16 4, rfl⟩

def strangerSession : Side → Session
  | .opener => { id := ⟨List.replicate 16 5, rfl⟩ }
  | .acceptor => { id := ⟨List.replicate 16 6, rfl⟩ }

/-- The session of each side to the third node, and a client there. -/
def thirdSession : Session := { id := ⟨List.replicate 16 21, rfl⟩ }

def thirdClient : Uuid := ⟨List.replicate 16 22, rfl⟩

def strangers : Pair where
  session := strangerSession
  node a := {
    id := strangerId a
    sessions := ((Table.empty _).insert thirdSession).1
    clients := ((Table.empty _).insert ⟨thirdClient, thirdSession.id⟩).1 }
  opened _ := false
  reading _ := false
  stage _ := .idle
  wire _ := []
  fan _ := none
  home _ := none
  away c := c = thirdClient
  synced _ _ := false

theorem initial_strangers : strangers.Initial where
  fresh a := by cases a <;> decide
  rows a s k hh := by
    cases k with
    | subscription c ch => exact absurd hh (Table.not_mem_empty _)
    | client c =>
      rcases Table.mem_insert.mp hh with hh | ⟨he, -⟩
      · exact absurd hh (Table.not_mem_empty _)
      · cases he
        cases a <;> decide
  opened _ := rfl
  reading _ := rfl
  stage _ := rfl
  wire _ := rfl
  fan _ := rfl
  home _ := rfl
  synced _ _ := rfl

/-- The session opens. -/
def opening : List Action :=
  [.enter .acceptor, .enter .opener, .shake .acceptor, .accept .acceptor "" still, .shake .opener,
    .accept .opener "" still]

/-- The acceptor handles the registration. -/
def registering : List Action :=
  [.deliver .acceptor still, .advance .acceptor still, .advance .acceptor still,
    .advance .acceptor still, .advance .acceptor still]

/-- The third node tells again of its client. -/
def telling (a : Side) : Action :=
  .third a (.read thirdSession.id (.object (requestObject Uuid.nil "join"
    (clientParams thirdClient)))) still

/-- The handler of a client that connects. -/
def connecting (a : Side) (c : Uuid) : List Action := [.connect a c Uuid.nil, .look c, .send c]

/-- `Quiet`, when `c` is the only client. -/
def quiet (X : Pair) (c : Uuid) : Bool :=
  (X.wire .opener).isEmpty && (X.wire .acceptor).isEmpty && (X.fan c).isNone &&
    match X.stage .acceptor with
    | .idle => true
    | _ => false

theorem quiet_of_run {as : List Action} {c : Uuid} (hr : Run.exec step strangers as = some X)
    (hq : X.quiet c = true)
    (has : ∀ action ∈ as, action.newcomer = none ∨ action.newcomer = some c) (a : Side) :
    X.Quiet a := by
  simp only [quiet, Bool.and_eq_true, List.isEmpty_iff, Option.isNone_iff_eq_none] at hq
  obtain ⟨⟨⟨ho, ha⟩, hf⟩, hs⟩ := hq
  refine ⟨fun b => ?_, ?_, fun d hd => ?_⟩
  · cases b with
    | opener => exact ho
    | acceptor => exact ha
  · split at hs
    · assumption
    · cases hs
  · by_cases hdc : d = c
    · rw [hdc, hf]
    · have hnone : X.home d = none := initial_strangers.home_of_run hr fun action hmem hn => by
        rcases has action hmem with hx | hx
        · rw [hx] at hn
          cases hn
        · rw [hx] at hn
          cases hn
          exact hdc rfl
      rw [hnone] at hd
      cases hd

/-- A client that connected to the acceptor before the session. -/
theorem opener_mirrors_firstClient : ∃ X,
    Run.exec step strangers (connecting .acceptor firstClient ++ opening ++ registering ++
      [.deliver .opener still, telling .opener, .deliver .opener still,
        .deliver .acceptor still]) = some X ∧
    (X.node .opener).Holds (X.sid .opener) (.client firstClient) := by
  have heval : (Run.exec step strangers (connecting .acceptor firstClient ++ opening ++
      registering ++ [.deliver .opener still, telling .opener, .deliver .opener still,
        .deliver .acceptor still])).any (fun X => X.quiet firstClient && X.reading .opener &&
      decide (⟨firstClient, (X.node .acceptor).id⟩ ∈ (X.node .acceptor).clients.rows)) = true := by
    decide +kernel
  simp only [Option.any_eq_true, Bool.and_eq_true, decide_eq_true_eq] at heval
  obtain ⟨X, hX, ⟨hq, hr⟩, hrow⟩ := heval
  refine ⟨X, hX, (opener_mirrors_acceptor initial_strangers hX hr
    (quiet_of_run hX hq ?_ .acceptor) (.client firstClient)).mpr hrow⟩
  simp [connecting, opening, registering, telling, Action.newcomer]

/-- **The acceptor mirrors the opener when every change at the opener is told to the open
session**: the snapshot of the sessions has it, and it is open when the text is sent. -/
theorem acceptor_mirrors_opener {X₀ : Pair} {as : List Action} (h₀ : X₀.Initial)
    (hr : Run.exec step X₀ as = some X)
    (htold : Run.Along step (fun X action => ¬ X.Loses .opener action) X₀ as)
    (hq : X.Quiet .opener) (k : Key) :
    (X.node .acceptor).Holds (X.sid .acceptor) k ↔
      (X.node .opener).Holds (X.node .opener).id k := by
  have hinv := Run.exec_invariant_along
    (I := fun X : Pair => X.Good ∧ (X.cell .opener k).Exact)
    (fun ⟨hG, hE⟩ hl hs => ⟨(hG.step hs).1, ((hG.step hs).2 .opener k).exact hl hE⟩)
    ⟨h₀.good, h₀.exact .opener k⟩ htold hr
  have hcell := hinv.2.settled (hq.todo k)
  change X.mirrored .acceptor k ↔ _ at hcell
  rwa [hq.mirrored] at hcell

/-- A client that connects to the opener when the session is open. -/
theorem acceptor_mirrors_firstClient : ∃ X,
    Run.exec step strangers (opening ++ connecting .opener firstClient ++ registering ++
      [.deliver .opener still, telling .acceptor, .deliver .acceptor still,
        .deliver .opener still]) = some X ∧
    (X.node .acceptor).Holds (X.sid .acceptor) (.client firstClient) := by
  have heval : (Run.exec step strangers (opening ++ connecting .opener firstClient ++
      registering ++ [.deliver .opener still, telling .acceptor, .deliver .acceptor still,
        .deliver .opener still])).any (fun X => X.quiet firstClient &&
      decide (⟨firstClient, (X.node .opener).id⟩ ∈ (X.node .opener).clients.rows)) = true := by
    decide +kernel
  have htold : Run.Along step (fun X action => ¬ X.Loses .opener action) strangers
      (opening ++ connecting .opener firstClient ++ registering ++ [.deliver .opener still,
        telling .acceptor, .deliver .acceptor still, .deliver .opener still]) := by
    decide +kernel
  simp only [Option.any_eq_true, Bool.and_eq_true, decide_eq_true_eq] at heval
  obtain ⟨X, hX, hq, hrow⟩ := heval
  refine ⟨X, hX, (acceptor_mirrors_opener initial_strangers hX htold
    (quiet_of_run hX hq ?_ .opener) (.client firstClient)).mpr hrow⟩
  simp [connecting, opening, registering, telling, Action.newcomer]

/-- A client that connects to the opener before the session is never announced. -/
theorem acceptor_misses_firstClient : ∃ X,
    Run.exec step strangers (connecting .opener firstClient ++ opening ++ registering ++
      [.deliver .opener still]) = some X ∧
    X.Quiet .opener ∧ X.reading .opener = true ∧ X.reading .acceptor = true ∧
    (∃ row ∈ (X.node .acceptor).sessions, row.id = X.sid .acceptor ∧ row.registered = true) ∧
    ¬ ((X.node .acceptor).Holds (X.sid .acceptor) (.client firstClient) ↔
      (X.node .opener).Holds (X.node .opener).id (.client firstClient)) := by
  have heval : (Run.exec step strangers (connecting .opener firstClient ++ opening ++
      registering ++ [.deliver .opener still])).any (fun X => X.quiet firstClient &&
      decide (X.reading .opener = true ∧ X.reading .acceptor = true ∧
        (∃ row ∈ (X.node .acceptor).sessions.rows,
          row.id = X.sid .acceptor ∧ row.registered = true) ∧
        ⟨firstClient, X.sid .acceptor⟩ ∉ (X.node .acceptor).clients.rows ∧
        ⟨firstClient, (X.node .opener).id⟩ ∈ (X.node .opener).clients.rows)) = true := by
    decide +kernel
  simp only [Option.any_eq_true, Bool.and_eq_true, decide_eq_true_eq] at heval
  obtain ⟨X, hX, hq, ho, ha, hreg, hmiss, hrow⟩ := heval
  refine ⟨X, hX, quiet_of_run hX hq ?_ .opener, ho, ha, hreg, fun hiff => hmiss (hiff.mpr hrow)⟩
  simp [connecting, opening, registering, Action.newcomer]

end Pair

end Aewt
