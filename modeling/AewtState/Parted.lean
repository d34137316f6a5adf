import AewtState.Fleet
import AewtState.Guarantees
import AewtState.Unicast

/-!
# A cluster that publishes in two parts

A handler of a `Cluster` runs at once.  That of a publish does not: others may run between
`publish_to_clients` and the lookup of the subscribed sessions.

* `Parted` — a cluster, and by its tag each publish whose second part is due.
* `Parted.step` — a handler runs at once, or a part of a publish does.

Principal results: `spread_step` and `letter_step` — what the steps of a cluster keep of a fan-out
and of a message to one client, these steps keep; `spread_publish` and `spread_lookup` — the two
parts of a publish are a fan-out.
-/

set_option autoImplicit false

namespace Aewt

/-- Tags are given out in turn. -/
theorem Cluster.tags_le {N : Type} [DecidableEq N] {X Y : Cluster N} {a : Action N}
    (h : X.step a = some Y) : X.tags ≤ Y.tags := by
  cases a with
  | connect n c env =>
    obtain ⟨-, w, -, rfl⟩ := Cluster.step_connect.mp h
    exact Nat.le_succ _
  | request n c frame env =>
    obtain ⟨-, w, -, rfl⟩ := Cluster.step_request.mp h
    exact Nat.le_succ _
  | disconnect n c env =>
    obtain ⟨-, w, -, rfl⟩ := Cluster.step_disconnect.mp h
    exact Nat.le_succ _
  | deliver n s i env =>
    obtain ⟨p, -, w, -, rfl⟩ := Cluster.step_deliver.mp h
    exact Nat.le_refl _

structure Parted (N : Type) where
  cluster : Cluster N
  due : Nat → Option (N × Publishing) := fun _ => none

namespace Parted

inductive Action (N : Type) where
  | handler (a : Aewt.Action N)
  /-- A handler reads a publish and sends to the clients. -/
  | publish (n : N) (c : Uuid) (frame : Frame) (env : Env)
  /-- The handler with this tag looks up the subscribed sessions and goes on. -/
  | lookup (tag : Nat) (env : Env)

variable {N : Type} [DecidableEq N]

def step (X : Parted N) : Action N → Option (Parted N)
  | .handler a => (X.cluster.step a).map fun Y => { X with cluster := Y }
  | .publish n c frame env =>
    if X.cluster.Local n c then
      match Client.onRead c frame (.start env (X.cluster.node n)) with
      | (.ok (), w) =>
        match (Strand.client n c).cut frame (X.cluster.node n) w with
        | (v, some p) => some {
            cluster := { X.cluster.perform n X.cluster.tags v with tags := X.cluster.tags + 1 }
            due := Function.update X.due X.cluster.tags (some (n, p)) }
        | (_, none) => none
      | (.error _, _) => none
    else none
  | .lookup tag env =>
    match X.due tag with
    | some (n, p) => some {
        cluster := X.cluster.perform n tag
          (World.emit (.start env (X.cluster.node n)) (p.effects (X.cluster.node n)))
        due := Function.update X.due tag none }
    | none => none

variable {X Y : Parted N}

/-! ## The steps -/

theorem step_handler {a : Aewt.Action N} : X.step (.handler a) = some Y ↔
    ∃ Z, X.cluster.step a = some Z ∧ Y = { X with cluster := Z } := by
  simp only [step, Option.map_eq_some_iff]
  exact exists_congr fun Z => and_congr_right fun _ => eq_comm

theorem step_publish {n : N} {c : Uuid} {frame : Frame} {env : Env} :
    X.step (.publish n c frame env) = some Y ↔ X.cluster.Local n c ∧ ∃ w v p,
      Client.onRead c frame (.start env (X.cluster.node n)) = (.ok (), w) ∧
      (Strand.client n c).cut frame (X.cluster.node n) w = (v, some p) ∧
      Y = {
        cluster := { X.cluster.perform n X.cluster.tags v with tags := X.cluster.tags + 1 }
        due := Function.update X.due X.cluster.tags (some (n, p)) } := by
  simp only [step]
  split
  · rename_i hlocal
    rcases Client.onRead c frame (.start env (X.cluster.node n)) with ⟨e | u, w⟩
    · simp
    · rcases hcut : (Strand.client n c).cut frame (X.cluster.node n) w with ⟨v, - | p⟩
      · simp [hlocal, hcut]
      · simp [hlocal, hcut, eq_comm]
  · rename_i hlocal
    simp [hlocal]

theorem step_lookup {tag : Nat} {env : Env} : X.step (.lookup tag env) = some Y ↔
    ∃ n p, X.due tag = some (n, p) ∧ Y = {
      cluster := X.cluster.perform n tag
        (World.emit (.start env (X.cluster.node n)) (p.effects (X.cluster.node n)))
      due := Function.update X.due tag none } := by
  simp only [step]
  cases hdue : X.due tag with
  | none => simp
  | some x => simp [eq_comm, Prod.ext_iff]

/-- The tags of everything in flight, sent or due were given out. -/
structure Fresh (X : Parted N) : Prop where
  cluster : X.cluster.Fresh
  due : ∀ k x, X.due k = some x → k < X.cluster.tags

theorem Fresh.of_step (h : X.Fresh) {b : Action N} (hs : X.step b = some Y) : Y.Fresh := by
  cases b with
  | handler a =>
    obtain ⟨Z, hZ, rfl⟩ := step_handler.mp hs
    refine ⟨h.cluster.of_step hZ, fun k x hx => Nat.lt_of_lt_of_le (h.due k x hx) ?_⟩
    exact Cluster.tags_le hZ
  | publish n c frame env =>
    obtain ⟨-, w, v, p, -, -, rfl⟩ := step_publish.mp hs
    refine ⟨h.cluster.perform (Nat.lt_succ_self _) (Nat.le_succ _) X.cluster.home,
      fun k x hx => ?_⟩
    by_cases hk : k = X.cluster.tags
    · exact hk ▸ Nat.lt_succ_self _
    · simp only [Function.update_of_ne hk] at hx
      exact Nat.lt_succ_of_lt (h.due k x hx)
  | lookup tag env =>
    obtain ⟨n, p, hdue, rfl⟩ := step_lookup.mp hs
    refine ⟨h.cluster.perform (h.due _ _ hdue) (Nat.le_refl _) X.cluster.home, fun k x hx => ?_⟩
    by_cases hk : k = tag
    · subst hk
      simp at hx
    · simp only [Function.update_of_ne hk] at hx
      exact h.due k x hx

/-- A tag that was given out does not become due. -/
theorem due_step {b : Action N} (hs : X.step b = some Y) {k : Nat} (hk : k < X.cluster.tags)
    (hdue : X.due k = none) : Y.due k = none := by
  cases b with
  | handler a =>
    obtain ⟨Z, -, rfl⟩ := step_handler.mp hs
    exact hdue
  | publish n c frame env =>
    obtain ⟨-, w, v, p, -, -, rfl⟩ := step_publish.mp hs
    exact (Function.update_of_ne (Nat.ne_of_lt hk) _ _).trans hdue
  | lookup tag env =>
    obtain ⟨n, p, -, rfl⟩ := step_lookup.mp hs
    by_cases htag : k = tag
    · subst htag
      exact Function.update_self ..
    · exact (Function.update_of_ne htag _ _).trans hdue

section

variable {k : Nat} {T : Text} {n m : N} {c d s : Uuid} {R : Uuid → Prop} {payload : Object}

/-- **A fan-out stays exact**, but when its own second part runs. -/
theorem spread_step (h : X.cluster.Spread k T n c R) (hfan : Fanout T c)
    (hl : Cluster.Paired X.cluster.links) {b : Action N} (hs : X.step b = some Y)
    (hdue : Y.due k = X.due k) (hsame : Cluster.SameClients X.cluster Y.cluster) :
    Y.cluster.Spread k T n c R := by
  cases b with
  | handler a =>
    obtain ⟨Z, hZ, rfl⟩ := step_handler.mp hs
    exact h.of_step hfan hl hZ hsame
  | publish i e frame env =>
    obtain ⟨-, w, v, p, -, -, rfl⟩ := step_publish.mp hs
    exact h.perform_other (Nat.ne_of_gt h.below) _ (Nat.le_succ _) X.cluster.home hsame
  | lookup tag env =>
    obtain ⟨i, p, hp, rfl⟩ := step_lookup.mp hs
    have htag : tag ≠ k := by
      rintro rfl
      simp [hp] at hdue
    exact h.perform_other htag _ (Nat.le_refl _) X.cluster.home hsame

/-- **A message to one client stays on its way or arrives.** -/
theorem letter_step {flying : Bool} (h : X.cluster.Letter k c d payload m s flying)
    (hlocal : X.cluster.Local m d) {b : Action N} (hs : X.step b = some Y)
    (hdue : Y.due k = X.due k) : ∃ flying', (flying' = true → flying = true) ∧
      Y.cluster.Letter k c d payload m s flying' := by
  cases b with
  | handler a =>
    obtain ⟨Z, hZ, rfl⟩ := step_handler.mp hs
    exact h.of_step hlocal hZ
  | publish i e frame env =>
    obtain ⟨-, w, v, p, -, -, rfl⟩ := step_publish.mp hs
    exact ⟨flying, id, h.perform_other (Nat.ne_of_gt h.below) _ (Nat.le_succ _) X.cluster.home⟩
  | lookup tag env =>
    obtain ⟨i, p, hp, rfl⟩ := step_lookup.mp hs
    have htag : tag ≠ k := by
      rintro rfl
      simp [hp] at hdue
    exact ⟨flying, id, h.perform_other htag _ (Nat.le_refl _) X.cluster.home⟩

/-- The first part of a publish sends it to the other clients of its node. -/
theorem spread_publish (hl : Cluster.Paired X.cluster.links) (hf : X.Fresh) {frame : Frame}
    {env : Env} {p : Publishing} (hp : (Strand.client n c).publish? frame = some p)
    (hc : p.clientId = c) (hs : X.step (.publish n c frame env) = some Y) :
    Y.cluster.Spread X.cluster.tags (serialize p.message) n c fun _ => False := by
  obtain ⟨-, w, v, q, eq, hcut, rfl⟩ := step_publish.mp hs
  obtain ⟨q', ⟨_, _, _, _, rfl⟩, hcut', hstate, -⟩ := cut_of_some (t := .client n c) hp eq
  have hv := (Prod.mk.inj (hcut.symm.trans hcut')).1
  have hfan : Fanout (serialize p.message) c := by
    rw [Publishing.message, hc]
    exact fanout_publish _ c _ _
  have heff : v.effects = toClients (X.cluster.node n) c (serialize p.message) ++
      (([] : List Session).map fun x => .session x.id (serialize p.message)) ++
      ([] : List Text).map (.client c) := by
    rw [hv]
    simp [Publishing.toClients, Publishing.message, toOthersClients, toClients, hc]
  have hspread := Cluster.Spread.start hl hf.cluster hfan (by rw [hv]; exact hstate) heff
    (fun reply hr => by cases hr) .nil
  have hnone : (fun s => s ∈ ([] : List Session).map Session.id) = fun _ => False := by
    simp
  rw [← hnone]
  exact hspread

/-- The second part sends it to the subscribed sessions. -/
theorem spread_lookup {p : Publishing} {reply : Text}
    (h : X.cluster.Spread k (serialize p.message) n c fun _ => False)
    (hfan : Fanout (serialize p.message) c) (hdue : X.due k = some (n, p))
    (hreply : p.reply = [.client c reply]) (hack : acknowledges reply = true) {env : Env}
    (hs : X.step (.lookup k env) = some Y) : Y.cluster.Spread k (serialize p.message) n c
      (· ∈ ((X.cluster.node n).getSessions.filter fun s =>
        s.id ∈ receivers (X.cluster.node n) p.channel).map Session.id) := by
  obtain ⟨m, q, hq, rfl⟩ := step_lookup.mp hs
  cases hdue.symm.trans hq
  have heff : p.effects (X.cluster.node n) =
      (((X.cluster.node n).getSessions.filter fun s =>
        s.id ∈ receivers (X.cluster.node n) p.channel).map fun x =>
          .session x.id (serialize p.message)) ++ [reply].map (.client c) := by
    rw [Publishing.effects, hreply]
    rfl
  exact h.go_on hfan rfl heff (fun r hr => by rw [List.mem_singleton.mp hr]; exact hack)
    ((Cluster.nodup_sessions (X.cluster.node n)).sublist (List.filter_sublist.map _))

end

end Parted

end Aewt
