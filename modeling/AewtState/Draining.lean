import AewtState.Mirrors
import AewtState.Lib.Rank
import Mathlib.Algebra.BigOperators.Finprod
import Mathlib.Algebra.Order.BigOperators.Group.Finset
import Mathlib.Algebra.Ring.Nat
import Mathlib.Data.Prod.Lex

/-!
# A fleet that is left to itself drains

Clients may do anything; when they stop, the strands send what their handlers still have to send,
write it and read it.

* `Internal` — the steps that need nothing from a client; `Alone` — those among them that the nodes
  can count on: a write to a connection that has failed may never complete.
* `Sparse` — all but finitely many strands have nothing to do.
* `dues` — the publishes whose subscribed sessions are still to be looked up; `Picture.load` — the
  reads that the texts of a strand can still cause; `chores` — what is left to do with them before
  they are read.

Principal result: `drains` — the internal steps come to an end under every schedule, and when the
nodes alone have none left, each node mirrors what the others held of their own clients when these
stopped.
-/

set_option autoImplicit false

namespace Aewt

/-- The reads that a waiting text can still cause. -/
def Effect.weight : Effect → ℕ
  | .session _ text => Aewt.weight text
  | .client _ _ | .dial _ _ _ => 0

/-- The reads that a frame of a session can still cause. -/
def Frame.weight : Frame → ℕ
  | .object text => Aewt.weight text
  | .other => 0

namespace Network

variable {N : Type} {G : Topology N}

/-- Nothing is to be done on the strand. -/
structure Still (X : Network N) (t : Strand N) : Prop where
  inbox : X.inbox t = []
  pending : X.pending t = []
  posts : X.posts t = []
  queue : X.queue t = []

variable [DecidableEq N] {X Y : Network N}

theorem still_send (X : Network N) (x : Option (Strand N × Text)) (o : Option (Origin N)) :
    ∃ E : Finset (Strand N), ∀ t ∉ E, X.Still t → (X.send x o).Still t := by
  rcases x with - | ⟨u, text⟩
  · exact ⟨∅, fun _ _ h => h⟩
  · refine ⟨{u}, fun t ht h => ⟨h.inbox, h.pending, ?_, h.queue⟩⟩
    rw [Finset.mem_singleton] at ht
    exact (push_of_ne _ _ _ ht).trans h.posts

/-- **A step of the network touches finitely many strands.** -/
theorem still_step {a : Action N} (h : X.step G a = some Y) :
    ∃ E : Finset (Strand N), ∀ t ∉ E, X.Still t → Y.Still t := by
  cases a with
  | request n c frame =>
    cases h
    refine ⟨{⟨n, .onClient, c⟩}, fun t ht h => ⟨?_, h.pending, h.posts, h.queue⟩⟩
    rw [Finset.mem_singleton] at ht
    exact (push_of_ne _ _ _ ht).trans h.inbox
  | announce u text =>
    cases h
    exact still_send X (some (u, text)) none
  | read u env st =>
    simp only [step] at h
    split at h
    · split at h
      · split at h
        · cases h
          refine ⟨{u}, fun t ht h => ?_⟩
          rw [Finset.mem_singleton] at ht
          exact ⟨(Function.update_of_ne ht _ _).trans h.inbox,
            (Function.update_of_ne ht _ _).trans h.pending, h.posts, h.queue⟩
        · cases h
      · cases h
    · cases h
  | post u =>
    simp only [step] at h
    split at h
    · rename_i e es hp
      cases h
      obtain ⟨E, hE⟩ := still_send { X with
        pending := Function.update X.pending u es
        log := X.log ++ [(u, e)] } (e.value.destination u.node) e.origin
      refine ⟨insert u E, fun t ht h => ?_⟩
      rw [Finset.mem_insert, not_or] at ht
      exact hE t ht.2 ⟨h.inbox, (Function.update_of_ne ht.1 _ _).trans h.pending, h.posts, h.queue⟩
    · cases h
  | onSend u =>
    simp only [step] at h
    split at h
    · cases h
      refine ⟨{u}, fun t ht h => ?_⟩
      rw [Finset.mem_singleton] at ht
      exact ⟨h.inbox, h.pending, (Function.update_of_ne ht _ _).trans h.posts,
        (push_of_ne _ _ _ ht).trans h.queue⟩
    · cases h
  | onWrite u =>
    simp only [step] at h
    split at h
    · rename_i x xs hq
      cases h
      refine ⟨insert u (G.peer u).toFinset, fun t ht h => ?_⟩
      rw [Finset.mem_insert, not_or, Option.mem_toFinset] at ht
      refine ⟨?_, (congrFun (arrive_pending ..) t).trans h.pending,
        (congrFun (arrive_posts ..) t).trans h.posts, ?_⟩
      · exact (arrive_inbox_of_ne G _ u x ht.2).trans h.inbox
      · rw [arrive_queue]
        exact (Function.update_of_ne ht.1 _ _).trans h.queue
    · cases h

end Network

namespace Fleet

variable {N : Type} {G : Topology N}

/-- The nodes need nothing from a client for the step. -/
def Internal : Action N → Prop
  | .read t _ => t.context = .onSession
  | .announce _ | .post _ | .lookup _ | .onSend _ | .onWrite _ => True
  | .connect .. | .accept .. | .fail .. | .request .. => False

section

variable [DecidableEq N]

/-- The nodes take the step alone: it needs nothing from a client, and what it writes goes to an
open connection. -/
def Alone (X : Fleet N) (a : Action N) : Prop := Internal a ∧ ∀ t, a = .onWrite t → X.IsOpen t

/-- The nodes alone take no step. -/
def Halted (G : Topology N) (X : Fleet N) : Prop := ∀ a, X.Alone a → X.step G a = none

end

/-- All but finitely many strands have nothing to do. -/
def Sparse (X : Fleet N) : Prop :=
  ∃ E : Finset (Strand N), ∀ t ∉ E, (X.notices t = [] ∧ X.due t = none) ∧ X.net.Still t

theorem Initial.sparse {X : Fleet N} (h : X.Initial G) : X.Sparse :=
  ⟨∅, fun t _ => ⟨⟨h.notices t, h.due t⟩, by rw [h.net]; exact ⟨rfl, rfl, rfl, rfl⟩⟩⟩

variable [DecidableEq N] {X Y : Fleet N} {a : Action N}

/-- A step touches finitely many strands. -/
theorem Sparse.grow (h : X.Sparse) (E' : Finset (Strand N))
    (hE : ∀ t ∉ E', X.notices t = [] ∧ X.due t = none → Y.notices t = [] ∧ Y.due t = none)
    (hnet : ∃ E : Finset (Strand N), ∀ t ∉ E, X.net.Still t → Y.net.Still t) : Y.Sparse := by
  obtain ⟨E, hX⟩ := h
  obtain ⟨E'', hnet⟩ := hnet
  refine ⟨E ∪ (E' ∪ E''), fun t ht => ?_⟩
  simp only [Finset.mem_union, not_or] at ht
  obtain ⟨hn, hs⟩ := hX t ht.1
  exact ⟨hE t ht.2.1 hn, hnet t ht.2.2 hs⟩

theorem Sparse.of_handle (h : X.Sparse) {t : Strand N} {op : Option Op} {env : Env} {x : M Unit}
    (hY : X.handle t op env x = some Y) : Y.Sparse := by
  unfold handle at hY
  split at hY
  · split at hY
    · cases hY
      refine h.grow {t} (fun u hu hn => ⟨?_, hn.2⟩) ⟨∅, fun _ _ => id⟩
      rw [Finset.mem_singleton] at hu
      exact (Function.update_of_ne hu _ _).trans hn.1
    · cases hY
  · cases hY

theorem Sparse.of_net (h : X.Sparse) {b : Network.Action N}
    (hY : (X.net.step G b).map (fun net => { X with net := net }) = some Y) : Y.Sparse := by
  obtain ⟨net, hnet, rfl⟩ := Option.map_eq_some_iff.mp hY
  exact h.grow ∅ (fun t _ hn => hn) (Network.still_step hnet)

theorem Sparse.of_send (h : X.Sparse) (n : N) (e : Traced N Effect) : (X.send n e).Sparse := by
  unfold send
  split
  · rename_i u text _
    split
    · exact h.grow ∅ (fun t _ hn => hn) (Network.still_send X.net (some (u, text)) e.origin)
    · exact h
  · exact h

/-- A step that touches one strand only. -/
theorem Sparse.touch (h : X.Sparse) (t : Strand N)
    (hn : ∀ u ≠ t, Y.notices u = X.notices u ∧ Y.due u = X.due u)
    (hs : ∀ u ≠ t, X.net.Still u → Y.net.Still u) : Y.Sparse := by
  refine h.grow {t} (fun u hu hX => ?_) ⟨{t}, fun u hu => hs u ?_⟩
  · rw [Finset.mem_singleton] at hu
    obtain ⟨hnotices, hdue⟩ := hn u hu
    exact ⟨hnotices.trans hX.1, hdue.trans hX.2⟩
  · rwa [Finset.mem_singleton] at hu

theorem Sparse.of_step (h : X.Sparse) (hY : X.step G a = some Y) : Y.Sparse := by
  cases a with
  | connect n c env =>
    simp only [step] at hY
    split at hY
    · have hs : Sparse { X with home := Function.update X.home c (some n) } := h
      exact hs.of_handle hY
    · cases hY
  | accept n c runAt env =>
    simp only [step] at hY
    split at hY
    · exact h.of_handle hY
    · cases hY
  | fail n c env =>
    simp only [step] at hY
    split at hY
    · exact h.of_handle hY
    · cases hY
  | request n c frame =>
    simp only [step] at hY
    split at hY
    · exact h.of_net hY
    · cases hY
  | read t env =>
    simp only [step] at hY
    split at hY
    · split at hY
      · split at hY
        · cases hY
          exact h.touch t (fun u hu => ⟨rfl, Function.update_of_ne hu _ _⟩) fun u hu hs =>
            ⟨(Function.update_of_ne hu _ _).trans hs.inbox,
              (Function.update_of_ne hu _ _).trans hs.pending, hs.posts, hs.queue⟩
        · cases hY
      · cases hY
    · cases hY
  | lookup t =>
    simp only [step] at hY
    split at hY
    · split at hY
      · cases hY
        exact h.touch t (fun u hu => ⟨rfl, Function.update_of_ne hu _ _⟩) fun u hu hs =>
          ⟨hs.inbox, (Function.update_of_ne hu _ _).trans hs.pending, hs.posts, hs.queue⟩
      · cases hY
    · cases hY
  | announce t =>
    simp only [step] at hY
    split at hY
    · rename_i e es hn
      cases hY
      have hs : Sparse { X with notices := Function.update X.notices t es } :=
        h.touch t (fun u hu => ⟨Function.update_of_ne hu _ _, rfl⟩) fun _ _ hs => hs
      exact hs.of_send _ _
    · cases hY
  | post t =>
    simp only [step] at hY
    split at hY
    · rename_i e es hp
      split at hY
      · cases hY
        have hs : Sparse { X with
            net := { X.net with pending := Function.update X.net.pending t es } } :=
          h.touch t (fun _ _ => ⟨rfl, rfl⟩) fun u hu hs =>
            ⟨hs.inbox, (Function.update_of_ne hu _ _).trans hs.pending, hs.posts, hs.queue⟩
        exact hs.of_send _ _
      · cases hY
    · cases hY
  | onSend t => exact h.of_net hY
  | onWrite t => exact h.of_net hY

/-! ## What is left to do -/

namespace Picture

variable {P : Picture N}

/-- The reads that the texts of a strand can still cause. -/
def load (P : Picture N) (t : Strand N) : ℕ :=
  ((P.waiting t).map Effect.weight).sum +
    match t.context with
    | .onSession => ((P.mail t).map Frame.weight).sum
    | .onClient => 0

/-- A text that is sent arrives on one session, or on none. -/
theorem mail_sends (P : Picture N) (t : Strand N) (e : Effect) (es : List Effect) :
    (P.sends G t e es).mail = P.mail ∨ ∃ x text v, e = .session x text ∧ v.context = .onSession ∧
      (P.sends G t e es).mail = push P.mail v (.object text) := by
  cases e with
  | client c text => exact .inl (by simp [sends, Effect.destination, deliver, Topology.peer])
  | dial d host port => exact .inl rfl
  | session x text =>
    cases hp : G.peer (.session t.node x) with
    | none => exact .inl (by simp [sends, Effect.destination, deliver, hp])
    | some v =>
      refine .inr ⟨x, text, v, rfl, G.context_of_peer (G.peer_symm hp), ?_⟩
      simp [sends, Effect.destination, deliver, hp]

/-- What a text can cause goes from the strand that sends it to the one that will read it. -/
theorem load_sends {t : Strand N} {e : Effect} {es : List Effect} (ht : P.waiting t = e :: es) :
    ∃ s d, d ≤ e.weight ∧ ∀ u, (P.sends G t e es).load u + (if u = t then e.weight else 0) ≤
      P.load u + if u = s then d else 0 := by
  have hwaiting : ∀ u, (((P.sends G t e es).waiting u).map Effect.weight).sum +
      (if u = t then e.weight else 0) = ((P.waiting u).map Effect.weight).sum := by
    intro u
    rw [sends_waiting]
    by_cases hu : u = t
    · subst hu
      rw [Function.update_self, ht, if_pos rfl, List.map_cons, List.sum_cons, Nat.add_comm]
    · rw [Function.update_of_ne hu, if_neg hu, Nat.add_zero]
  rcases mail_sends (G := G) P t e es with hmail | ⟨x, text, v, rfl, hv, hmail⟩
  · refine ⟨t, 0, Nat.zero_le _, fun u => ?_⟩
    have hu := hwaiting u
    simp only [load, hmail]
    omega
  · refine ⟨v, _, le_refl _, fun u => ?_⟩
    have hu := hwaiting u
    simp only [load, hmail]
    by_cases huv : u = v
    · subst huv
      simp only [hv, push_self, List.map_append, List.sum_append, List.map_singleton,
        List.sum_singleton, if_true, Frame.weight, Effect.weight] at hu ⊢
      omega
    · rw [push_of_ne _ _ _ huv, if_neg huv]
      omega

omit [DecidableEq N] in
/-- Acknowledgements on one session weigh one each. -/
theorem sum_weight {s : Uuid} : ∀ {es : List Effect}, (∀ x ≠ s, textsTo x es = []) →
    (∀ reply ∈ textsTo s es, acknowledges reply = true) →
    (es.map Effect.weight).sum = (textsTo s es).length
  | [], _, _ => rfl
  | e :: es, hsilent, hreplies => by
    have hcons : ∀ x, textsTo x (e :: es) = textsTo x [e] ++ textsTo x es := fun x =>
      textsTo_append x [e] es
    have ih : (es.map Effect.weight).sum = (textsTo s es).length :=
      sum_weight (fun x hx => (List.append_eq_nil_iff.mp (hcons x ▸ hsilent x hx)).2)
        (fun r hr => hreplies r (by rw [hcons]; exact List.mem_append_right _ hr))
    rw [List.map_cons, List.sum_cons, ih, hcons, List.length_append]
    congr 1
    cases e with
    | client c text => rfl
    | dial d host port => rfl
    | session x text =>
      have hx : x = s := by
        by_contra hne
        have hnil := hsilent x hne
        rw [hcons] at hnil
        simp [textsTo] at hnil
      subst hx
      have ha := hreplies text (by rw [hcons]; simp [textsTo])
      simp [Effect.weight, textsTo, weight_of_acknowledges ha]

/-- A session's handler takes a text away and leaves acknowledgements to send. -/
theorem load_read (h : P.Inv G) {n : N} {s : Uuid} {f : Frame} {fs : List Frame} {env : Env}
    {w : World} (hidle : P.waiting (.session n s) = []) (hf : P.mail (.session n s) = f :: fs)
    (hw : Session.onRead s f (.start env (P.node n)) = (.ok (), w)) : ∃ d, d < f.weight ∧ ∀ u,
      ({ P.starts (.session n s) w with
        mail := Function.update P.mail (.session n s) fs
        due := Function.update P.due (.session n s) none } : Picture N).load u +
        (if u = .session n s then f.weight else 0) ≤
      P.load u + if u = .session n s then d else 0 := by
  obtain ⟨i, s₁, text, -, rfl, hspeaks⟩ := h.mail (f := f) (by rw [hf]; exact List.mem_cons_self)
  obtain ⟨v, hv, hsilent, hreplies, hless⟩ := onRead_legible hspeaks.1 s env (P.node n)
  cases hw.symm.trans hv
  refine ⟨_, hless, fun u => ?_⟩
  by_cases hu : u = .session n s
  · subst hu
    simp only [load, starts, awaits, Function.update_self, hidle, hf, if_true, List.map_nil,
      List.sum_nil, List.map_cons, List.sum_cons, sum_weight hsilent hreplies, Frame.weight]
    omega
  · simp only [load, starts, awaits, Function.update_of_ne hu, if_neg hu]
    exact le_refl _

end Picture

/-- What is left to do with the texts of a strand before they are read: to send, to queue and to
write them. -/
def chores (X : Fleet N) (t : Strand N) : ℕ :=
  3 * ((X.notices t).length + (X.net.pending t).length) + 2 * (X.net.posts t).length +
    (X.net.queue t).length

section

variable {α : Type} {f : Strand N → List α} {t u : Strand N}

theorem length_push (a : α) : (push f t a u).length = (f u).length + if u = t then 1 else 0 := by
  by_cases h : u = t
  · subst h
    simp
  · simp [push_of_ne f t a h, h]

theorem length_tail {a : α} {as : List α} (h : f t = a :: as) :
    (Function.update f t as u).length + (if u = t then 1 else 0) = (f u).length := by
  by_cases hu : u = t
  · subst hu
    simp [h]
  · simp [hu]

end

/-- `send` leaves two chores at most, to queue the text and to write it. -/
theorem chores_send (X : Fleet N) (n : N) (e : Traced N Effect) (t : Strand N) :
    ∃ v d, d ≤ 1 ∧ ∀ u, (X.send n e).chores u = X.chores u + if u = v then 2 * d else 0 := by
  unfold send
  split
  · rename_i v text _
    split
    · refine ⟨v, 1, le_refl _, fun u => ?_⟩
      have hlen := length_push (f := X.net.posts) (t := v) (u := u) ⟨e.origin, text⟩
      simp only [chores, Network.send, hlen]
      split_ifs <;> omega
    · exact ⟨t, 0, Nat.zero_le _, fun u => by simp [chores]⟩
  · exact ⟨t, 0, Nat.zero_le _, fun u => by simp⟩

/-- **Every internal step but a read or a lookup leaves fewer chores.** -/
theorem chores_step (hY : X.step G a = some Y) (ha : Internal a)
    (hr : ∀ t env, a ≠ .read t env) (hl : ∀ t, a ≠ .lookup t) : ∃ r s d e, e < d ∧
      ∀ u, Y.chores u + (if u = r then d else 0) ≤ X.chores u + if u = s then e else 0 := by
  cases a with
  | connect | accept | fail | request => cases ha
  | read t env => exact absurd rfl (hr t env)
  | lookup t => exact absurd rfl (hl t)
  | announce t =>
    simp only [step] at hY
    split at hY
    · rename_i e es hn
      cases hY
      obtain ⟨v, d, hd, hchores⟩ := chores_send
        { X with notices := Function.update X.notices t es } t.node ⟨none, e⟩ t
      refine ⟨t, v, 3, 2 * d, by omega, fun u => ?_⟩
      have hlen := length_tail (u := u) hn
      rw [hchores u]
      simp only [chores]
      split_ifs at hlen ⊢ <;> omega
    · cases hY
  | post t =>
    simp only [step] at hY
    split at hY
    · rename_i e es hp
      split at hY
      · cases hY
        obtain ⟨v, d, hd, hchores⟩ := chores_send { X with
          net := { X.net with pending := Function.update X.net.pending t es } } t.node e t
        refine ⟨t, v, 3, 2 * d, by omega, fun u => ?_⟩
        have hlen := length_tail (u := u) hp
        rw [hchores u]
        simp only [chores]
        split_ifs at hlen ⊢ <;> omega
      · cases hY
    · cases hY
  | onSend t =>
    obtain ⟨net, hnet, rfl⟩ := Option.map_eq_some_iff.mp hY
    simp only [Network.step] at hnet
    split at hnet
    · rename_i x xs hx
      cases hnet
      refine ⟨t, t, 2, 1, by omega, fun u => ?_⟩
      have hlen := length_tail (u := u) hx
      simp only [chores, length_push]
      split_ifs at hlen ⊢ <;> omega
    · cases hnet
  | onWrite t =>
    obtain ⟨net, hnet, rfl⟩ := Option.map_eq_some_iff.mp hY
    simp only [Network.step] at hnet
    split at hnet
    · rename_i x xs hx
      cases hnet
      refine ⟨t, t, 1, 0, by omega, fun u => ?_⟩
      have hlen := length_tail (u := u) hx
      simp only [chores, Network.arrive_pending, Network.arrive_posts, Network.arrive_queue]
      split_ifs at hlen ⊢ <;> omega
    · cases hnet

/-! ## The rank -/

/-- The strand's publish whose subscribed sessions are to be looked up. -/
def dues (X : Fleet N) (t : Strand N) : ℕ := (X.due t).toList.length

/-- Only a lookup does what is due, and the nodes alone make nothing due. -/
theorem due_step (hY : X.step G a = some Y) (ha : Internal a) (hl : ∀ t, a ≠ .lookup t) :
    Y.due = X.due := by
  have hs := scene_step (G := G) hY
  have hdue : ∀ Z : Fleet N, (Z.scene G).due = Z.due := fun _ => rfl
  rw [← hdue X, ← hdue Y]
  generalize Y.scene G = T at hs
  cases hs with
  | connect | accept | fail | request => cases ha
  | lookup => exact absurd rfl (hl _)
  | announce | post => rw [Scene.sends_due]
  | onSend | onWrite => rfl
  | read opened idle free mail eq =>
    rename_i t env f fs w
    obtain ⟨n, context, s⟩ := t
    obtain rfl : context = .onSession := ha
    rw [cut_of_none (publish?_session ..)]
    exact (congrArg (Function.update (X.scene G).due _) free.symm).trans
      (Function.update_eq_self _ _)

theorem dues_lookup {t : Strand N} (hY : X.step G (.lookup t) = some Y) (u : Strand N) :
    Y.dues u + (if u = t then 1 else 0) ≤ X.dues u + if u = t then 0 else 0 := by
  simp only [step] at hY
  split at hY
  · rename_i p hp
    split at hY
    · cases hY
      by_cases hu : u = t
      · subst hu
        simp [dues, hp]
      · simp [dues, hu]
    · cases hY
  · cases hY

theorem Sparse.finite_dues (h : X.Sparse) : X.dues.support.Finite := by
  obtain ⟨E, hE⟩ := h
  refine E.finite_toSet.subset fun t ht => ?_
  by_contra hc
  exact ht (by simp [dues, (hE t hc).1.2])

theorem Sparse.finite_chores (h : X.Sparse) : X.chores.support.Finite := by
  obtain ⟨E, hE⟩ := h
  refine E.finite_toSet.subset fun t ht => ?_
  by_contra hc
  obtain ⟨hn, hs⟩ := hE t hc
  exact ht (by simp [chores, hn.1, hs.pending, hs.posts, hs.queue])

theorem Sparse.finite_load (h : X.Sparse) : (X.picture G).load.support.Finite := by
  obtain ⟨E, hE⟩ := h
  refine (E ∪ E.biUnion fun u => (G.peer u).toFinset).finite_toSet.subset fun t ht => ?_
  by_contra hc
  simp only [Finset.coe_union, Set.mem_union, Finset.mem_coe, Finset.mem_biUnion,
    Option.mem_toFinset, not_or, not_exists, not_and] at hc
  obtain ⟨hn, hs⟩ := hE t hc.1
  have hmail : (X.picture G).mail t = [] := by
    have hview : (X.net.view G).mail t = [] := by
      cases hp : G.peer t with
      | none => rw [Network.view_mail_of_none G X.net hp, hs.inbox]
      | some u =>
        have hu : u ∉ E := fun hu => hc.2 u hu (G.peer_symm hp)
        have hstill := (hE u hu).2
        rw [Network.view_mail_of_peer G X.net hp, hs.inbox, Network.outgoing, hstill.queue,
          hstill.posts]
        rfl
    simp [picture, scene, stage, Scene.erase, hview]
  have hwaiting : (X.picture G).waiting t = [] := picture_waiting hn.1 hs.pending
  apply ht
  simp only [Picture.load, hmail, hwaiting]
  split <;> rfl

/-- The lookups and the reads that are to come, and the chores before them. -/
noncomputable def rank (G : Topology N) (X : Fleet N) : Lex (ℕ × Lex (ℕ × ℕ)) :=
  toLex (∑ᶠ t, X.dues t, toLex (∑ᶠ t, (X.picture G).load t, ∑ᶠ t, X.chores t))

/-- The internal steps that read and look up nothing leave the reads that are to come. -/
theorem load_le {P Q : Picture N} (hP : P.load.support.Finite) (hQ : Q.load.support.Finite)
    (hs : P.Step G a Q) (ha : Internal a) (hr : ∀ t env, a ≠ .read t env)
    (hl : ∀ t, a ≠ .lookup t) : ∑ᶠ t, Q.load t ≤ ∑ᶠ t, P.load t := by
  have hsends : ∀ {t e es}, P.waiting t = e :: es → Q = P.sends G t e es →
      ∑ᶠ t, Q.load t ≤ ∑ᶠ t, P.load t := by
    rintro t e es ht rfl
    obtain ⟨s, d, hd, hshift⟩ := Picture.load_sends (G := G) ht
    have hsum := Run.finsum_shift hQ hP hshift
    omega
  cases hs with
  | connect | accept | fail | request => cases ha
  | read => exact absurd rfl (hr _ _)
  | lookup => exact absurd rfl (hl _)
  | announce waiting => exact hsends waiting rfl
  | post waiting => exact hsends waiting rfl
  | onSend | onWrite => exact le_refl _

/-- A session that reads leaves fewer reads to come. -/
theorem load_lt {P Q : Picture N} (h : P.Inv G) (hP : P.load.support.Finite)
    (hQ : Q.load.support.Finite) {t : Strand N} {env : Env} (hs : P.Step G (.read t env) Q)
    (ht : t.context = .onSession) : ∑ᶠ t, Q.load t < ∑ᶠ t, P.load t := by
  cases hs with
  | read opened idle mail eq =>
    obtain ⟨n, context, s⟩ := t
    cases ht
    rw [cut_of_none (publish?_session ..)] at hQ ⊢
    obtain ⟨d, hd, hshift⟩ := Picture.load_read h idle mail eq
    have hsum := Run.finsum_shift hQ hP hshift
    omega

/-- **Every internal step lowers the rank.** -/
theorem rank_lt (h : (X.picture G).Inv G) (hX : X.Sparse) (ha : Internal a)
    (hY : X.step G a = some Y) : rank G Y < rank G X := by
  have hsY := hX.of_step hY
  rw [rank, rank, Prod.Lex.toLex_lt_toLex]
  by_cases hl : ∀ t, a ≠ .lookup t
  · refine .inr ⟨by rw [show Y.dues = X.dues from funext fun t => by
      rw [dues, dues, due_step hY ha hl]], ?_⟩
    rw [Prod.Lex.toLex_lt_toLex]
    by_cases hr : ∀ t env, a ≠ .read t env
    · obtain ⟨r, s, d, e, hlt, hshift⟩ := chores_step hY ha hr hl
      have hsum := Run.finsum_shift hsY.finite_chores hX.finite_chores hshift
      have hle := load_le hX.finite_load hsY.finite_load (picture_step hY) ha hr hl
      dsimp only
      omega
    · push Not at hr
      obtain ⟨t, env, rfl⟩ := hr
      exact .inl (load_lt h hX.finite_load hsY.finite_load (picture_step hY) ha)
  · push Not at hl
    obtain ⟨t, rfl⟩ := hl
    have hsum := Run.finsum_shift hsY.finite_dues hX.finite_dues (dues_lookup hY)
    left
    dsimp only
    omega

/-- **Left to itself, a fleet comes to rest under every schedule.** -/
theorem ends_of_inv (hG : G.Single) (h : (X.picture G).Inv G) (hX : X.Sparse) :
    Run.Ends (step G) Internal X := by
  refine Run.ends_of_rank (I := fun X => (X.picture G).Inv G ∧ X.Sparse) wellFounded_lt (rank G)
    ?_ ⟨h, hX⟩
  intro X a Y hI ha hY
  exact ⟨⟨hI.1.of_step hG (picture_step hY), hI.2.of_step hY⟩, rank_lt hI.1 hI.2 ha hY⟩

/-! ## What is left at rest -/

/-- Nothing is to be sent, nor to be written on an open connection, and the sessions have nothing to
read. -/
structure AtRest (X : Fleet N) : Prop where
  notices : ∀ t, X.notices t = []
  due : ∀ t, X.due t = none
  pending : ∀ t, X.net.pending t = []
  posts : ∀ t, X.net.posts t = []
  queue : ∀ t, X.IsOpen t → X.net.queue t = []
  inbox : ∀ n s, X.net.inbox (.session n s) = []

theorem atRest_of_halted (h : (X.picture G).Inv G) (hX : X.Halted G) : X.AtRest := by
  have hnotices : ∀ t, X.notices t = [] := by
    intro t
    by_contra hne
    obtain ⟨e, es, hn⟩ := List.exists_cons_of_ne_nil hne
    have hs := hX (.announce t) ⟨trivial, by simp⟩
    simp [step, hn] at hs
  have hpending : ∀ t, X.net.pending t = [] := by
    intro t
    by_contra hne
    obtain ⟨e, es, hp⟩ := List.exists_cons_of_ne_nil hne
    have hs := hX (.post t) ⟨trivial, by simp⟩
    simp [step, hnotices, hp] at hs
  have hdue : ∀ t, X.due t = none := by
    intro t
    by_contra hne
    obtain ⟨p, hp⟩ := Option.ne_none_iff_exists'.mp hne
    have hs := hX (.lookup t) ⟨trivial, by simp⟩
    simp [step, hnotices, hpending, hp] at hs
  refine ⟨hnotices, hdue, hpending, fun t => ?_, fun t hopen => ?_, fun n s => ?_⟩
  · by_contra hne
    obtain ⟨x, xs, hx⟩ := List.exists_cons_of_ne_nil hne
    have hs := hX (.onSend t) ⟨trivial, by simp⟩
    simp [step, Network.step, hx] at hs
  · by_contra hne
    obtain ⟨x, xs, hx⟩ := List.exists_cons_of_ne_nil hne
    have hs := hX (.onWrite t) ⟨trivial, fun u hu => by cases hu; exact hopen⟩
    simp [step, Network.step, hx] at hs
  · by_contra hne
    obtain ⟨f, fs, hf⟩ := List.exists_cons_of_ne_nil hne
    have hmail : f.value ∈ (X.picture G).mail (.session n s) := by
      simp [picture, scene, stage, Scene.erase, Network.view, hf]
    obtain ⟨m, s', text, -, htext, hspeaks⟩ := h.mail hmail
    obtain ⟨w, hw, -⟩ := onRead_legible hspeaks.1 s still (X.node n)
    have hs := hX (.read (.session n s) still) ⟨rfl, by simp⟩
    have hidle : X.Idle (.session n s) := ⟨hnotices _, hpending _, hdue _⟩
    simp [step, hf, hidle, IsOpen, Strand.onRead, htext, hw] at hs

omit [DecidableEq N] in
/-- Nothing is to be read at rest. -/
theorem AtRest.toRead (h : X.AtRest) {n m : N} {s s' : Uuid} (hl : G.links n s = some (m, s'))
    (c : Uuid) : (X.picture G).toRead n s m s' c = [] := by
  have hmail : (X.net.view G).mail (.session n s) = [] := by
    rw [Network.view_mail_of_peer G X.net (G.peer_symm (Picture.peer_session hl)),
      Network.outgoing, h.inbox, h.queue _ (fun hc => by cases hc), h.posts]
    rfl
  have hwaiting : (X.picture G).waiting (.client m c) = [] :=
    picture_waiting (h.notices _) (h.pending _)
  rw [Picture.toRead, hwaiting]
  simp [picture, scene, stage, Scene.erase, hmail, textsTo]

/-- An internal step leaves what a node holds of its own clients. -/
theorem own_rows_step {P Q : Picture N} (h : P.Inv G) (hG : G.Single) (hs : P.Step G a Q)
    (ha : Internal a) (m : N) (k : Key) :
    (Q.node m).Holds (G.id m) k ↔ (P.node m).Holds (G.id m) k := by
  cases hs with
  | connect | accept | fail | request => cases ha
  | announce | post => rw [Picture.sends_node]
  | lookup | onSend | onWrite => exact Iff.rfl
  | read opened idle mail eq =>
    rename_i t env f fs w
    obtain ⟨n, context, s⟩ := t
    obtain rfl : context = .onSession := ha
    rw [cut_of_none (publish?_session ..)]
    obtain ⟨i, s', text, hl, rfl, -⟩ := h.mail (f := f) (by rw [mail]; exact List.mem_cons_self)
    have he := sessionEvent (h.text_owner hG (by rw [mail]; exact List.mem_cons_self)) eq
    by_cases hm : m = n
    · subst hm
      have hne : G.id m ≠ s := by
        rw [← h.id]
        exact (h.fresh hl).symm
      simp only [Picture.starts, Function.update_self]
      exact he.others _ hne k
    · simp only [Picture.starts, Function.update_of_ne hm]

variable {X₀ : Fleet N} {history : List (Action N)}

/-- **Left to itself, a fleet drains, and then the nodes agree.**  After any run of the strands the
internal steps come to an end under every schedule; and when the nodes alone have none left,
whatever the schedule was, every node stores for each session exactly what the node at the other end
held of its own clients and their subscriptions when the clients stopped. -/
theorem drains (hG : G.Single) (h₀ : X₀.Initial G) (hX : Run.exec (step G) X₀ history = some X) :
    Run.Ends (step G) Internal X ∧
    ∀ as Y, (∀ a ∈ as, Internal a) → Run.exec (step G) X as = some Y →
      Y.Halted G → Y.AtRest ∧
        ∀ n s m s', G.links n s = some (m, s') → ∀ k,
          (Y.node n).Holds s k ↔ (X.node m).Holds (X.node m).id k := by
  have hinv := inv_of_run hG h₀ hX
  have hsparse : X.Sparse := Run.exec_invariant (fun hI hs => hI.of_step hs) h₀.sparse hX
  refine ⟨ends_of_inv hG hinv hsparse, fun as Y has hY hhalted => ?_⟩
  have hown : (Y.picture G).Inv G ∧ ∀ m k,
      (Y.node m).Holds (G.id m) k ↔ (X.node m).Holds (G.id m) k := by
    refine Run.exec_invariant_along (C := fun _ a => Internal a)
      (I := fun Z => (Z.picture G).Inv G ∧ ∀ m k,
        (Z.node m).Holds (G.id m) k ↔ (X.node m).Holds (G.id m) k)
      (fun {Z a Z'} hI ha hs => ?_) ⟨hinv, fun _ _ => Iff.rfl⟩ (Run.along_of_forall X has) hY
    exact ⟨hI.1.of_step hG (picture_step hs), fun m k =>
      (own_rows_step hI.1 hG (picture_step hs) ha m k).trans (hI.2 m k)⟩
  have hrest := atRest_of_halted hown.1 hhalted
  refine ⟨hrest, fun n s m s' hl k => ?_⟩
  have hmirror := hown.1.mirror hl (k := k) (by rw [hrest.toRead hl]; exact fun _ h => by cases h)
  have hidY : (Y.node m).id = G.id m := hown.1.id m
  have hidX : (X.node m).id = G.id m := hinv.id m
  rw [hidX, ← hown.2 m k, ← hidY]
  exact hmirror

/-- The first client has connected; the strands do the rest. -/
theorem drains_connect : ∃ X as Y, Run.exec (step duoTopology) duo
      [.connect false firstClient still] = some X ∧
    (∀ a ∈ as, Internal a) ∧ Run.exec (step duoTopology) X as = some Y ∧ Y.AtRest ∧
    (Y.node true).Holds (Cluster.duoSession true) (.client firstClient) := by
  have heval : ((Run.exec (step duoTopology) duo
      [.connect false firstClient still]).any fun X =>
      decide (⟨firstClient, (X.node false).id⟩ ∈ (X.node false).clients.rows)) = true := by
    decide +kernel
  simp only [Option.any_eq_true, decide_eq_true_eq] at heval
  obtain ⟨X, hX, hrow⟩ := heval
  obtain ⟨hends, hrest⟩ := drains single_duo initial_duo hX
  obtain ⟨as, Y, has, hY, hstuck⟩ := hends.exists_stuck
  obtain ⟨hatRest, hmirror⟩ := hrest as Y has hY fun a ha => hstuck a ha.1
  exact ⟨X, as, Y, hX, has, hY, hatRest,
    (hmirror true _ false _ duo_links _).mpr hrow⟩

end Fleet

end Aewt
