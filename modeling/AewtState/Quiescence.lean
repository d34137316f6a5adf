import AewtState.Guarantees
import AewtState.Relay
import AewtState.Lib.Rank
import Mathlib.Algebra.BigOperators.Ring.Finset
import Mathlib.Algebra.Order.BigOperators.Group.Finset
import Mathlib.Data.Finset.Option
import Mathlib.Data.Set.Finite.Lattice

/-!
# A cluster that is left to itself becomes quiet

Clients may do anything; when they stop, the nodes read what is still in flight.

* `Legible` — the texts that a cluster has in flight: acknowledgements, and notices that are read
  without an exception and answered with one acknowledgement at most.
* `load` — two for every notice and one for every acknowledgement.
* `Bounded` — everything in flight is legible, and only finitely many wires carry something.

Principal results: `deliveries_end` — no text stops a node, and every run of deliveries is at most
twice as long as there are texts in flight; `eventually_consistent` — when nothing is left, every
node mirrors what the others hold of their own clients, whatever the order of the deliveries was.
-/

set_option autoImplicit false

namespace Aewt

/-- A notice that a handler of a client sends. -/
def Notice.OfClient : Notice → Prop
  | .join _ _ | .leave _ _ => True
  | m => m.FromClient

/-- What a cluster has in flight. -/
inductive Legible (text : Text) : Prop where
  | answer (h : acknowledges text = true)
  | notice (m : Notice) (client : m.OfClient) (eq : text = m.text)

/-- The reads that a text can still cause: its own, and that of the answer to it. -/
def weight (text : Text) : ℕ := if acknowledges text = true then 1 else 2

theorem weight_le (text : Text) : weight text ≤ 2 := by
  unfold weight
  split <;> omega

theorem weight_of_acknowledges {text : Text} (h : acknowledges text = true) : weight text = 1 :=
  if_pos h

theorem Notice.OfClient.command_ne {m : Notice} (h : m.OfClient) :
    (∀ host sp cp, m.command ≠ .session host sp cp) ∧
    (∀ sp cp registered, m.command ≠ .register sp cp registered) ∧ m.command ≠ .ack := by
  cases m with
  | register | syncSession | syncJoin | syncSubscribe => cases h
  | _ => simp [Notice.command]

theorem weight_of_client {m : Notice} (h : m.OfClient) : weight m.text = 2 := by
  refine if_neg fun ha => ?_
  obtain ⟨t, ht⟩ := acknowledges_iff.mp ha Uuid.nil
  rw [decode_notice] at ht
  simp only [Except.ok.injEq, Decoded.accepted.injEq] at ht
  exact h.command_ne.2.2 ht.2

theorem textsTo_replies (s : Uuid) : ∀ replies : List Text,
    textsTo s (replies.map (Effect.session s)) = replies
  | [] => rfl
  | reply :: replies => by
    have ih := textsTo_replies s replies
    simp only [textsTo, List.map_cons, List.filterMap_cons, if_true] at ih ⊢
    rw [ih]

theorem textsTo_replies_of_ne {s x : Uuid} (h : x ≠ s) (replies : List Text) :
    textsTo x (replies.map (Effect.session s)) = [] := by
  simp [textsTo, Ne.symm h]

/-- **A legible text is read**, and at most one acknowledgement is sent, on the same session. -/
theorem onRead_legible {text : Text} (h : Legible text) (s : Uuid) (env : Env) (st : State) :
    ∃ w, Session.onRead s (.object text) (.start env st) = (.ok (), w) ∧
      (∀ x ≠ s, textsTo x w.effects = []) ∧
      (∀ reply ∈ textsTo s w.effects, acknowledges reply = true) ∧
      (textsTo s w.effects).length < weight text := by
  cases h with
  | answer ha =>
    obtain ⟨t, ht⟩ := acknowledges_iff.mp ha s
    obtain ⟨v, runtime, hk, -⟩ := kernel_accepted (World.ticked (.start env st)) text .onSession
      s ht (by simp)
    have hread := Session.onRead_of_kernel hk
    obtain ⟨-, heff⟩ := onRead_acknowledges ha hread
    refine ⟨_, hread, fun x _ => ?_, fun reply hr => ?_, ?_⟩
    · rw [heff]
      rfl
    · rw [heff] at hr
      cases hr
    · rw [heff, weight_of_acknowledges ha]
      exact Nat.one_pos
  | notice m client eq =>
    subst eq
    have hd := decode_notice m s
    obtain ⟨hsession, hregister, -⟩ := client.command_ne
    -- the command itself sends nothing on a session, so all there is is the answer
    have hsilent : ∀ (w : World) (request : Request) x, request.context = .onSession →
        textsTo x (outcome w request m.command).effects = [] := fun w request x hctx =>
      outcome_silent hctx (fun sp cp r hc => absurd hc (hregister sp cp r)) x
    obtain ⟨v, runtime, hk, -, heff, -⟩ := kernel_accepted (World.ticked (.start env st)) m.text
      .onSession s hd (fun host sp cp hc => absurd hc (hsession host sp cp))
    have hread := Session.onRead_of_kernel hk
    cases sessionRead s m.text (.start env st) with
    | raised e w eq =>
      rw [eq] at hread
      cases hread
    | rejected t field message reply w decoded eq state effects isReply =>
      rw [hd] at decoded
      cases decoded
    | accepted t command request replies w decoded transactionId entityId context eq state
        effects successes =>
      rw [hd] at decoded
      cases decoded
      have htexts : ∀ x, textsTo x w.effects = textsTo x (replies.map (Effect.session s)) := by
        intro x
        rw [effects, textsTo_append, textsTo_append, hsilent _ _ _ context]
        rfl
      refine ⟨w, eq, fun x hx => ?_, fun reply hr => ?_, ?_⟩
      · rw [htexts, textsTo_replies_of_ne hx]
      · rw [htexts, textsTo_replies] at hr
        obtain ⟨message, timestamp, runtime', d, rfl⟩ := successes reply hr
        exact acknowledges_success _ _ _ _ _
      · rw [eq] at hread
        cases hread
        rw [World.emit_effects, textsTo_append, heff, textsTo_append,
          hsilent _ (requestOf _ _ _ _ _) _ rfl, weight_of_client client]
        split <;> simp [World.ticked, World.start]

namespace Cluster

variable {N : Type} {X Y : Cluster N}

/-- The reads that the texts on a wire can still cause. -/
def load (ps : List Packet) : ℕ := (ps.map fun p => weight p.text).sum

@[simp] theorem load_append (ps qs : List Packet) : load (ps ++ qs) = load ps + load qs := by
  simp [load]

theorem load_eraseIdx {ps : List Packet} {i : ℕ} {p : Packet} (h : ps[i]? = some p) :
    load (ps.eraseIdx i) + weight p.text = load ps := by
  obtain ⟨hi, rfl⟩ := List.getElem?_eq_some_iff.mp h
  have hperm := ((List.getElem_cons_eraseIdx_perm hi).map fun p => weight p.text).sum_eq
  rw [List.map_cons, List.sum_cons] at hperm
  simp only [load]
  omega

theorem load_le (ps : List Packet) : load ps ≤ 2 * ps.length := by
  induction ps with
  | nil => rfl
  | cons p ps ih =>
    have hp := weight_le p.text
    simp only [load, List.map_cons, List.sum_cons, List.length_cons] at ih ⊢
    omega

/-- Acknowledgements weigh one each. -/
theorem load_replies (tag : ℕ) {replies : List Text}
    (h : ∀ reply ∈ replies, acknowledges reply = true) :
    load (replies.map (Packet.mk tag)) = replies.length := by
  induction replies with
  | nil => rfl
  | cons reply replies ih =>
    have hrest := ih fun r hr => h r (List.mem_cons_of_mem _ hr)
    simp only [load, List.map_cons, List.sum_cons, List.length_cons] at hrest ⊢
    rw [weight_of_acknowledges (h reply List.mem_cons_self), hrest, Nat.add_comm]

/-- The ends of the sessions are joined in pairs, everything in flight is legible, and all but
finitely many wires are empty. -/
structure Bounded (X : Cluster N) : Prop where
  symm : ∀ {n s m s'}, X.links n s = some (m, s') → X.links m s' = some (n, s)
  legible : ∀ n s, ∀ p ∈ X.wire n s, Legible p.text
  finite : {e : N × Uuid | X.wire e.1 e.2 ≠ []}.Finite

/-- Whatever sessions there are, between which nodes, and whatever these store. -/
theorem bounded_of_empty (hl : ∀ {n s m s'}, X.links n s = some (m, s') →
    X.links m s' = some (n, s)) (hw : ∀ n s, X.wire n s = []) : X.Bounded where
  symm := hl
  legible n s p hp := by
    rw [hw] at hp
    cases hp
  finite := by simp [hw]

theorem Initial.bounded (h : X.Initial) : X.Bounded := bounded_of_empty h.mesh.symm h.wire

section

variable [DecidableEq N] {n : N} {tag : ℕ} {w : World}

/-- A handler posts on finitely many wires. -/
theorem finite_posted (hl : ∀ {n s m s'}, X.links n s = some (m, s') →
    X.links m s' = some (n, s)) (n : N) (tag : ℕ) (es : List Effect) :
    {e : N × Uuid | posted X.links n tag es e.1 e.2 ≠ []}.Finite := by
  have hfinite := (List.finite_toSet es).biUnion
    (t := fun a => {e | ∃ s text, a = .session s text ∧ X.links n s = some e}) fun a _ => by
      apply Set.Subsingleton.finite
      rintro e ⟨s, text, rfl, he⟩ e' ⟨s', text', heq, he'⟩
      cases heq
      exact Option.some.inj (he.symm.trans he')
  refine hfinite.subset fun e he => ?_
  obtain ⟨p, hp⟩ := List.exists_mem_of_ne_nil _ he
  obtain ⟨-, s, hlink, ht⟩ := mem_posted hp
  exact Set.mem_biUnion (mem_textsTo.mp ht) ⟨s, p.text, rfl, hl hlink⟩

/-- A handler that sends legible texts on its sessions. -/
theorem Bounded.perform (h : X.Bounded)
    (ht : ∀ s, ∀ text ∈ textsTo s w.effects, Legible text) (home : Uuid → Option N) (tags : ℕ) :
    Bounded { X.perform n tag w with home := home, tags := tags } where
  symm := h.symm
  legible m s p hp := by
    rcases List.mem_append.mp hp with hp | hp
    · exact h.legible m s p hp
    · obtain ⟨-, s', -, htext⟩ := mem_posted hp
      exact ht s' _ htext
  finite := by
    refine (h.finite.union (finite_posted h.symm n tag w.effects)).subset fun e he => ?_
    by_contra hc
    simp only [Set.mem_union, Set.mem_ofPred_eq, not_or, not_not] at hc
    exact he (by simp [Cluster.perform, hc])

/-- A text less in flight. -/
theorem Bounded.take (h : X.Bounded) (n : N) (s : Uuid) (i : ℕ) : (X.take n s i).Bounded where
  symm := h.symm
  legible m s' p hp := h.legible m s' p (mem_take hp)
  finite := by
    refine h.finite.subset fun e he hc => he ?_
    simp only [Cluster.take]
    split
    · rw [hc]
      rfl
    · exact hc

/-- What a client's handler sends to every session. -/
theorem legible_toSessions {st : State} {m : Notice} (hm : m.OfClient) {s : Uuid} {text : Text}
    (h : text ∈ textsTo s (toSessions st m.object)) : Legible text :=
  .notice m hm (mem_textsTo_sessions h)

/-- **Every step keeps what is in flight legible.** -/
theorem Bounded.of_step (h : X.Bounded) {a : Action N} (hs : X.step a = some Y) : Y.Bounded := by
  cases a with
  | connect n c env =>
    obtain ⟨-, w, hw, rfl⟩ := step_connect.mp hs
    rw [clientListenerOnAccept_eq] at hw
    cases hw
    refine h.perform (fun s text ht => ?_) _ _
    exact legible_toSessions (m := .join (env.random 0) c) trivial ht
  | request n c frame env =>
    obtain ⟨-, w, hw, rfl⟩ := step_request.mp hs
    obtain ⟨es, hes, hforward, -⟩ := effects_of_request hw
    refine h.perform (fun s text ht => ?_) X.home _
    rw [hes, mem_textsTo] at ht
    obtain ⟨m, hm, rfl⟩ := hforward s text (by simpa [World.start] using ht)
    refine .notice m ?_ rfl
    cases m <;> first | exact hm | cases hm
  | disconnect n c env =>
    obtain ⟨-, w, hw, rfl⟩ := step_disconnect.mp hs
    rw [Client.leave_eq] at hw
    cases hw
    refine h.perform (fun s text ht => ?_) X.home _
    exact legible_toSessions (m := .leave (env.random 0) c) trivial ht
  | deliver n s i env =>
    obtain ⟨p, hp, w, hw, rfl⟩ := step_deliver.mp hs
    obtain ⟨v, hv, hother, hself, -⟩ :=
      onRead_legible (h.legible n s p (List.mem_of_getElem? hp)) s env (X.node n)
    cases hw.symm.trans hv
    refine (h.take n s i).perform (fun x text ht => ?_) X.home X.tags
    by_cases hx : x = s
    · subst hx
      exact .answer (hself text ht)
    · rw [hother x hx] at ht
      cases ht

theorem Bounded.of_run (h : X.Bounded) {as : List (Action N)} (hr : Run.exec step X as = some Y) :
    Y.Bounded :=
  Run.exec_invariant (fun hI hs => hI.of_step hs) h hr

/-- **No text in flight stops its reader.** -/
theorem Bounded.deliver (h : X.Bounded) {n : N} {s : Uuid} {i : ℕ} {p : Packet}
    (hp : (X.wire n s)[i]? = some p) (env : Env) : ∃ Y, X.step (.deliver n s i env) = some Y := by
  obtain ⟨w, hw, -⟩ := onRead_legible (h.legible n s p (List.mem_of_getElem? hp)) s env (X.node n)
  exact ⟨_, step_deliver.mpr ⟨p, hp, w, hw, rfl⟩⟩

end

/-! ## The rank of a cluster -/

/-- The action reads a text in flight. -/
def Delivers : Action N → Prop
  | .deliver .. => True
  | _ => False

/-- Nothing is in flight. -/
def Quiet (X : Cluster N) : Prop := ∀ n s, X.wire n s = []

/-- The ends `E` include all that carry something, and with every end its peer. -/
structure Covers (X : Cluster N) (E : Finset (N × Uuid)) : Prop where
  carries : ∀ n s, (n, s) ∉ E → X.wire n s = []
  peers : ∀ e ∈ E, ∀ e', X.links e.1 e.2 = some e' → e' ∈ E

def rank (E : Finset (N × Uuid)) (X : Cluster N) : ℕ := ∑ e ∈ E, load (X.wire e.1 e.2)

section

variable [DecidableEq N] {E : Finset (N × Uuid)}

/-- A delivery takes the weight of its text away and adds that of the answer. -/
theorem rank_deliver (h : X.Bounded) (hE : X.Covers E) {n : N} {s : Uuid} {i : ℕ} {env : Env}
    (hs : X.step (.deliver n s i env) = some Y) : Y.Covers E ∧ rank E Y < rank E X := by
  obtain ⟨p, hp, w, hw, rfl⟩ := step_deliver.mp hs
  have hmem := List.mem_of_getElem? hp
  obtain ⟨v, hv, hother, hself, hless⟩ := onRead_legible (h.legible n s p hmem) s env (X.node n)
  cases hw.symm.trans hv
  have hn : (n, s) ∈ E := by
    by_contra hc
    rw [hE.carries n s hc] at hmem
    cases hmem
  have hposted : ∀ m x, posted X.links n p.tag w.effects m x =
      if X.links n s = some (m, x) then (textsTo s w.effects).map (Packet.mk p.tag) else [] := by
    intro m x
    split
    · rename_i hl
      exact posted_eq (h.symm hl)
    · rename_i hl
      by_contra hne
      obtain ⟨q, hq⟩ := List.exists_mem_of_ne_nil _ hne
      obtain ⟨-, s', hlink, ht⟩ := mem_posted hq
      have hs' : s' = s := by
        by_contra hne
        rw [hother s' hne] at ht
        cases ht
      exact hl (hs' ▸ h.symm hlink)
  have htake : ∀ e : N × Uuid, load ((X.take n s i).wire e.1 e.2) +
      (if e = (n, s) then weight p.text else 0) = load (X.wire e.1 e.2) := by
    rintro ⟨m, x⟩
    by_cases he : m = n ∧ x = s
    · obtain ⟨rfl, rfl⟩ := he
      simpa [Cluster.take] using load_eraseIdx hp
    · rw [take_wire_ne he, if_neg (by simpa using he), Nat.add_zero]
  constructor
  · refine ⟨fun m x hm => ?_, hE.peers⟩
    have hlink : X.links n s ≠ some (m, x) := fun hl => hm (hE.peers _ hn _ hl)
    change (X.take n s i).wire m x ++ posted X.links n p.tag w.effects m x = []
    rw [hposted, if_neg hlink, List.append_nil]
    simp only [Cluster.take]
    split
    · rw [hE.carries m x hm]
      rfl
    · exact hE.carries m x hm
  · -- summed over the ends: one weight goes, at most the answer comes
    have hsum : rank E ((X.take n s i).perform n p.tag w) + weight p.text =
        rank E X + ∑ e ∈ E, if X.links n s = some e then (textsTo s w.effects).length else 0 := by
      calc rank E ((X.take n s i).perform n p.tag w) + weight p.text
          = ∑ e ∈ E, (load ((X.take n s i).wire e.1 e.2) +
              (if e = (n, s) then weight p.text else 0)) +
            ∑ e ∈ E, load (posted X.links n p.tag w.effects e.1 e.2) := by
            rw [Finset.sum_add_distrib, Finset.sum_ite_eq', if_pos hn, Nat.add_right_comm,
              ← Finset.sum_add_distrib]
            simp only [rank, Cluster.perform, load_append, take_links]
        _ = rank E X + ∑ e ∈ E,
              if X.links n s = some e then (textsTo s w.effects).length else 0 := by
            simp only [htake, rank]
            congr 1
            refine Finset.sum_congr rfl fun e _ => ?_
            rw [hposted]
            split
            · exact load_replies _ hself
            · rfl
    have hanswer : (∑ e ∈ E, if X.links n s = some e then (textsTo s w.effects).length else 0) ≤
        (textsTo s w.effects).length := by
      cases X.links n s with
      | none => simp
      | some e =>
        simp only [Option.some.injEq, Finset.sum_ite_eq]
        split <;> simp
    omega

/-- Ends that carry something, closed under peers. -/
theorem Bounded.exists_covers (h : X.Bounded) : ∃ E₀ E : Finset (N × Uuid), X.Covers E ∧
    E₀ ⊆ E ∧ ∀ n s, (n, s) ∉ E₀ → X.wire n s = [] := by
  refine ⟨h.finite.toFinset, h.finite.toFinset ∪ h.finite.toFinset.biUnion
    fun e => (X.links e.1 e.2).toFinset, ⟨fun n s hn => ?_, fun e he e' hl => ?_⟩,
    Finset.subset_union_left, fun n s hn => ?_⟩
  · by_contra hc
    exact hn (Finset.mem_union_left _ ((Set.Finite.mem_toFinset _).mpr hc))
  · rcases Finset.mem_union.mp he with he | he
    · exact Finset.mem_union_right _ (Finset.mem_biUnion.mpr ⟨e, he, by simp [hl]⟩)
    · obtain ⟨d, hd, hde⟩ := Finset.mem_biUnion.mp he
      have hsymm : e' = d := Option.some.inj (hl.symm.trans (h.symm (by simpa using hde)))
      exact Finset.mem_union_left _ (hsymm ▸ hd)
  · by_contra hc
    exact hn ((Set.Finite.mem_toFinset _).mpr hc)

end

/-! ## Runs of deliveries -/

section

variable [DecidableEq N] {X₀ : Cluster N} {history : List (Action N)}

/-- **Deliveries come to an end.**  Whatever sessions join the nodes, after any run of a cluster no
text in flight stops the node that reads it, whichever is read first; only finitely many wires carry
something, and every run of deliveries is at most twice as long as the texts in flight are many. -/
theorem deliveries_end (hl : ∀ {n s m s'}, X₀.links n s = some (m, s') →
    X₀.links m s' = some (n, s)) (hw : ∀ n s, X₀.wire n s = [])
    (hX : Run.exec step X₀ history = some X) :
    (∀ n s i p env, (X.wire n s)[i]? = some p →
      ∃ Y, X.step (.deliver n s i env) = some Y) ∧
    ∃ E : Finset (N × Uuid), (∀ n s, (n, s) ∉ E → X.wire n s = []) ∧
      ∀ as Y, (∀ a ∈ as, Delivers a) → Run.exec step X as = some Y →
        as.length ≤ 2 * ∑ e ∈ E, (X.wire e.1 e.2).length := by
  have h := (bounded_of_empty hl hw).of_run hX
  refine ⟨fun n s i p env hp => h.deliver hp env, ?_⟩
  obtain ⟨E₀, E, hE, hsub, hempty⟩ := h.exists_covers
  refine ⟨E₀, hempty, fun as Y has hY => ?_⟩
  have hlen := Run.length_add_rank_le (P := Delivers) (rank E)
    (I := fun Z => Z.Bounded ∧ Z.Covers E) (fun {Z a Z'} hI ha hs => ?_) ⟨h, hE⟩ has hY
  · calc as.length ≤ rank E X := by omega
      _ = ∑ e ∈ E₀, load (X.wire e.1 e.2) := by
          refine (Finset.sum_subset hsub fun e _ he => ?_).symm
          rw [hempty e.1 e.2 he]
          rfl
      _ ≤ ∑ e ∈ E₀, 2 * (X.wire e.1 e.2).length := Finset.sum_le_sum fun e _ => load_le _
      _ = 2 * ∑ e ∈ E₀, (X.wire e.1 e.2).length := (Finset.mul_sum ..).symm
  · cases a with
    | deliver n s i env =>
      obtain ⟨hcovers, hlt⟩ := rank_deliver hI.1 hI.2 hs
      exact ⟨⟨hI.1.of_step hs, hcovers⟩, hlt⟩
    | _ => cases ha

/-- The first client has connected and its join is in flight. -/
theorem deliveries_end_join : ∃ X : Cluster Bool, ∃ E : Finset (Bool × Uuid),
    Run.exec step duo [.connect false firstClient still] = some X ∧
    (∀ n s, (n, s) ∉ E → X.wire n s = []) ∧
    ∀ as Y, (∀ a ∈ as, Delivers a) → Run.exec step X as = some Y →
      as.length ≤ 2 * ∑ e ∈ E, (X.wire e.1 e.2).length := by
  have heval : (Run.exec step duo [.connect false firstClient still]).isSome = true := by
    decide +kernel
  obtain ⟨X, hX⟩ := Option.isSome_iff_exists.mp heval
  obtain ⟨-, E, hempty, hbound⟩ := deliveries_end initial_duo.mesh.symm initial_duo.wire hX
  exact ⟨X, E, hX, hempty, hbound⟩

/-! ## What the nodes agree on in the end -/

/-- A delivery leaves what a node holds of its own clients. -/
theorem Inv.own_rows (h : X.Inv) {n : N} {s : Uuid} {env : Env}
    (hs : X.step (.deliver n s 0 env) = some Y) (m : N) :
    (Y.node m).id = (X.node m).id ∧
    ∀ k, (Y.node m).Holds (X.node m).id k ↔ (X.node m).Holds (X.node m).id k := by
  obtain ⟨p, hp, w, hw, rfl⟩ := step_deliver.mp hs
  have hmem := List.mem_of_getElem? hp
  have hevent := sessionEvent (h.text_owner hmem) hw
  obtain ⟨j, s', hl, -⟩ := h.wires hmem
  have hnode := (X.take n s 0).perform_node n p.tag w m
  have hid := (X.take n s 0).perform_id n p.tag hevent.id m
  refine ⟨hid, fun k => ?_⟩
  rw [hnode]
  split
  · rename_i hm
    subst hm
    exact hevent.others _ (h.mesh.fresh hl).symm k
  · exact Iff.rfl

/-- So does a run of deliveries. -/
theorem own_rows_of_run (h : X.Inv) {as : List (Action N)}
    (has : ∀ a ∈ as, Delivers a ∧ InOrder a) (hY : Run.exec step X as = some Y) :
    Y.Inv ∧ Y.links = X.links ∧ ∀ m, (Y.node m).id = (X.node m).id ∧
      ∀ k, (Y.node m).Holds (X.node m).id k ↔ (X.node m).Holds (X.node m).id k := by
  refine Run.exec_invariant_along (C := fun _ a => Delivers a ∧ InOrder a)
    (I := fun Z => Z.Inv ∧ Z.links = X.links ∧ ∀ m, (Z.node m).id = (X.node m).id ∧
      ∀ k, (Z.node m).Holds (X.node m).id k ↔ (X.node m).Holds (X.node m).id k)
    (fun {Z a Z'} hI ha hs => ?_) ⟨h, rfl, fun _ => ⟨rfl, fun _ => Iff.rfl⟩⟩
    (Run.along_of_forall X has) hY
  obtain ⟨hinv, hlinks, hown⟩ := hI
  refine ⟨hinv.of_step ha.2 hs, (step_links hs).trans hlinks, fun m => ?_⟩
  cases a with
  | deliver n s i env =>
    obtain rfl : i = 0 := ha.2
    obtain ⟨hid, hrows⟩ := hinv.own_rows hs m
    obtain ⟨hidX, hrowsX⟩ := hown m
    rw [hidX] at hid hrows
    exact ⟨hid, fun k => (hrows k).trans (hrowsX k)⟩
  | _ => exact absurd ha.1 id

/-- A cluster in which no text can be delivered is quiet. -/
theorem Bounded.quiet_of_stuck (h : X.Bounded)
    (hs : Run.Stuck step (fun a => Delivers a ∧ InOrder a) X) : X.Quiet := by
  intro n s
  by_contra hne
  obtain ⟨p, ps, hw⟩ := List.exists_cons_of_ne_nil hne
  obtain ⟨Y, hY⟩ := h.deliver (i := 0) (p := p) (by rw [hw]; rfl) still
  rw [hs (.deliver n s 0 still) ⟨trivial, rfl⟩] at hY
  cases hY

/-- **The nodes agree in the end.**  A cluster whose sessions deliver in order, and whose clients
do nothing more, can become quiet; and whenever it is quiet, whatever was read first, every node
stores for each session exactly what the node at the other end held of its own clients and their
subscriptions when the clients stopped. -/
theorem eventually_consistent (h₀ : X₀.Initial) (ho : ∀ a ∈ history, InOrder a)
    (hX : Run.exec step X₀ history = some X) :
    (∃ as Y, (∀ a ∈ as, Delivers a ∧ InOrder a) ∧ Run.exec step X as = some Y ∧ Y.Quiet) ∧
    ∀ as Y, (∀ a ∈ as, Delivers a ∧ InOrder a) → Run.exec step X as = some Y → Y.Quiet →
      ∀ n s m s', X.links n s = some (m, s') → ∀ k,
        (Y.node n).Holds s k ↔ (X.node m).Holds (X.node m).id k := by
  have h := h₀.bounded.of_run hX
  have hinv := h₀.inv.of_run ho hX
  constructor
  · obtain ⟨-, E, hE, -⟩ := h.exists_covers
    have hends : Run.Ends step (fun a => Delivers a ∧ InOrder a) X :=
      Run.ends_of_rank Nat.lt_wfRel.wf (rank E) (I := fun Z => Z.Bounded ∧ Z.Covers E)
        (fun {Z a Z'} hI ha hs => by
          cases a with
          | deliver n s i env =>
            obtain ⟨hcovers, hlt⟩ := rank_deliver hI.1 hI.2 hs
            exact ⟨⟨hI.1.of_step hs, hcovers⟩, hlt⟩
          | _ => exact absurd ha.1 id) ⟨h, hE⟩
    obtain ⟨as, Y, has, hY, hstuck⟩ := hends.exists_stuck
    exact ⟨as, Y, has, hY, (h.of_run hY).quiet_of_stuck hstuck⟩
  · intro as Y has hY hquiet n s m s' hl k
    obtain ⟨hinvY, hlinks, hown⟩ := own_rows_of_run hinv has hY
    obtain ⟨hid, hrows⟩ := hown m
    rw [← hrows k, ← hid]
    exact hinvY.mirror (by rw [hlinks]; exact hl) (by simp [hquiet n s])

/-- The first client has connected; the other node reads its join and the first one the answer. -/
theorem eventually_consistent_join : ∃ X Y : Cluster Bool,
    Run.exec step duo [.connect false firstClient still] = some X ∧
    Run.exec step X [.deliver true (duoSession true) 0 still,
      .deliver false (duoSession false) 0 still] = some Y ∧
    ((Y.node true).Holds (duoSession true) (.client firstClient) ↔
      (X.node false).Holds (X.node false).id (.client firstClient)) := by
  have heval : ((Run.exec step duo [.connect false firstClient still]).any fun X =>
      (Run.exec step X [.deliver true (duoSession true) 0 still,
        .deliver false (duoSession false) 0 still]).any fun Y =>
      decide (∀ m, (Y.wire m (duoSession m)).length = 0)) = true := by
    decide +kernel
  simp only [Option.any_eq_true, decide_eq_true_eq] at heval
  obtain ⟨X, hX, Y, hY, hlen⟩ := heval
  have hquiet : Y.Quiet := by
    intro m s
    by_contra hne
    obtain ⟨p, hp⟩ := List.exists_mem_of_ne_nil _ hne
    have hs := duo_wire (by simp [InOrder]) (Run.exec_append.mpr ⟨X, hX, hY⟩) hp
    exact hne (List.length_eq_zero_iff.mp (hs ▸ hlen m))
  refine ⟨X, Y, hX, hY, (eventually_consistent initial_duo (by simp [InOrder]) hX).2 _ Y
    (by simp [Delivers, InOrder]) hY hquiet true (duoSession true) false (duoSession false) ?_ _⟩
  have hl : duoLinks true (duoSession true) = some (false, duoSession false) :=
    duoLinks_eq_some.mpr ⟨rfl, rfl, rfl⟩
  rw [run_links hX]
  exact hl

end

end Cluster

end Aewt
