import AewtState.Strands
import AewtState.Lib.Pipeline

/-!
# Traffic

* `Traffic` — what a text that a client's request caused can be.  The client's own handler
  forwards it to sessions and sends it to clients; the handler of a session sends it to clients
  and otherwise only answers on its own session.
* `indices` — the numbers of one client's requests that caused a list of things, in order;
  `toSend` — of what a running handler has still to send to one strand.
* `onward` — a client's requests that were not read yet or are being handled, as the part of a
  pipeline at its inlet; `onward_request`, `onward_read` and `onward_post` are its steps.

Principal results: `Traffic.of_step` and `traffic_of_run` — everything in the cluster that a
request caused is of this kind.
-/

set_option autoImplicit false

namespace Aewt

namespace View

variable {N : Type} (G : Topology N)

/-- A text on a session of the node of `p`: forwarded there by a client's handler, or an
answer. -/
def Travels (p : Strand N) (o : Origin N) (text : Text) : Prop :=
  o.hops = 1 ∧ p.node = o.client.node ∧ Forwarded text ∨ 2 ≤ o.hops ∧ IsReply text

/-- A frame on its way to the strand `t`. -/
def Arrives (t : Strand N) (o : Origin N) (frame : Frame) : Prop :=
  match t.context with
  | .onClient => o.client = t ∧ o.hops = 0
  | .onSession => ∃ p text, G.peer p = some t ∧ frame = .object text ∧ Travels p o text

/-- What the handler on the strand `t` sends. -/
def Sends (t : Strand N) (o : Origin N) (e : Effect) : Prop :=
  match t.context with
  | .onClient => o.client = t ∧ o.hops = 1 ∧ ∀ s text, e = .session s text → Forwarded text
  | .onSession => (∃ text, e = .session t.id text ∧ 2 ≤ o.hops ∧ IsReply text) ∨
      ∃ c text p, e = .client c text ∧ o.hops = 2 ∧ G.peer p = some t ∧
        p.node = o.client.node

/-- Everything in transit that a request caused. -/
structure Traffic (V : View N) : Prop where
  mail : ∀ t, ∀ f ∈ V.mail t, ∀ o, f.origin = some o → Arrives G t o f.value
  pending : ∀ t, ∀ e ∈ V.pending t, ∀ o, e.origin = some o → Sends G t o e.value
  log : ∀ x ∈ V.log, ∀ o, x.2.origin = some o → Sends G x.1 o x.2.value

section

variable {t : Strand N} {o : Origin N} {frame : Frame} {env : Env} {st : State} {w : World}

variable {G}

theorem sends_of_arrives (h : Arrives G t o frame)
    (hr : t.onRead frame (.start env st) = (.ok (), w)) {e : Effect} (he : e ∈ w.effects) :
    Sends G t o.next e := by
  obtain ⟨n, context, id⟩ := t
  cases context with
  | onClient =>
    obtain ⟨hc, hh⟩ := h
    obtain ⟨es, hes, hforward, -⟩ := effects_of_request hr
    refine ⟨hc, by simp [Origin.next, hh], fun s text hs => ?_⟩
    subst hs
    rw [hes] at he
    exact hforward s text (by simpa [World.start] using he)
  | onSession =>
    obtain ⟨p, text, hp, rfl, ⟨hh, hn, hf⟩ | ⟨hh, hreply⟩⟩ := h
    · obtain ⟨es, replies, hes, hclients, hreplies⟩ := effects_of_forwarded hf hr
      rw [hes] at he
      simp only [World.start, List.nil_append, List.mem_append, List.mem_map] at he
      rcases he with he | ⟨reply, hmem, rfl⟩
      · obtain ⟨c, T, rfl⟩ := hclients e he
        exact .inr ⟨c, T, p, rfl, by simp [Origin.next, hh], hp, hn⟩
      · exact .inl ⟨reply, rfl, by simp [Origin.next, hh], hreplies reply hmem⟩
    · obtain ⟨replies, hes, hreplies⟩ := effects_of_reply hreply hr
      rw [hes] at he
      simp only [World.start, List.nil_append, List.mem_map] at he
      obtain ⟨reply, hmem, rfl⟩ := he
      exact .inl ⟨reply, rfl, by simp only [Origin.next]; omega, hreplies reply hmem⟩

theorem travels_of_sends {s : Uuid} {text : Text} (h : Sends G t o (.session s text)) :
    Travels ⟨t.node, .onSession, s⟩ o text := by
  obtain ⟨n, context, id⟩ := t
  cases context with
  | onClient =>
    obtain ⟨hc, hh, hf⟩ := h
    exact .inl ⟨hh, by simp [hc], hf s text rfl⟩
  | onSession =>
    rcases h with ⟨text', he, hh, hreply⟩ | ⟨c, text', p, he, -⟩
    · cases he
      exact .inr ⟨hh, hreply⟩
    · cases he

end

variable [DecidableEq N] {G}

/-- A text that is sent on a session arrives at the other end. -/
theorem Traffic.send {V : View N} (h : V.Traffic G) {x : Option (Strand N × Text)}
    {o : Option (Origin N)}
    (hx : ∀ p text o', x = some (p, text) → o = some o' → p.context = .onSession →
      Travels p o' text) : (V.send G x o).Traffic G := by
  rcases x with - | ⟨p, text⟩
  · exact h
  refine ⟨fun u f hf o' ho' => ?_, h.pending, h.log⟩
  cases hp : G.peer p with
  | none =>
    simp only [View.send, hp] at hf
    exact h.mail u f hf o' ho'
  | some v =>
    simp only [View.send, hp, mem_push] at hf
    rcases hf with hf | ⟨rfl, rfl⟩
    · exact h.mail u f hf o' ho'
    · have hv := G.context_of_peer (G.peer_symm hp)
      simp only [Arrives, hv]
      exact ⟨p, text, hp, rfl, hx p text o' rfl ho' (G.context_of_peer hp)⟩

theorem mem_update {α : Type} {f : Strand N → List α} {t u : Strand N} {as : List α} {a : α}
    (h : a ∈ Function.update f t as u) : u = t ∧ a ∈ as ∨ a ∈ f u := by
  by_cases hu : u = t
  · subst hu
    rw [Function.update_self] at h
    exact .inl ⟨rfl, h⟩
  · rw [Function.update_of_ne hu] at h
    exact .inr h

/-- **Every step keeps it.** -/
theorem Traffic.of_step {V W : View N} (h : V.Traffic G) (hs : V.Step G W) : W.Traffic G := by
  cases hs with
  | quiet => exact h
  | request t frame client =>
    refine ⟨fun u f hf o ho => ?_, h.pending, h.log⟩
    rcases (mem_push _ _ _).mp hf with hf | ⟨rfl, rfl⟩
    · exact h.mail u f hf o ho
    · cases ho
      simp [Arrives, client]
  | announce t text => exact h.send fun _ _ _ _ ho => by cases ho
  | read t f fs env st w mail idle eq =>
    refine ⟨fun u g hg o ho => ?_, fun u e he o ho => ?_, h.log⟩
    · change g ∈ Function.update V.mail t fs u at hg
      rcases mem_update hg with ⟨rfl, hrest⟩ | hold
      · exact h.mail u g (by rw [mail]; exact List.mem_cons_of_mem _ hrest) o ho
      · exact h.mail u g hold o ho
    · change e ∈ Function.update V.pending t (Network.caused f.origin w.effects) u at he
      rcases mem_update he with ⟨rfl, hnew⟩ | hold
      · obtain ⟨e', he', rfl⟩ := List.mem_map.mp hnew
        obtain ⟨o', ho', rfl⟩ := Option.map_eq_some_iff.mp ho
        have hf := h.mail u f (by rw [mail]; exact List.mem_cons_self) o' ho'
        exact sends_of_arrives hf eq he'
      · exact h.pending u e hold o ho
  | post t e es pending =>
    have hfirst : ∀ o, e.origin = some o → Sends G t o e.value :=
      h.pending t e (by rw [pending]; exact List.mem_cons_self)
    refine Traffic.send (V := { V with
      pending := Function.update V.pending t es, log := V.log ++ [(t, e)] })
      ⟨h.mail, fun u e' he' o ho => ?_, fun x hx o ho => ?_⟩ ?_
    · change e' ∈ Function.update V.pending t es u at he'
      rcases mem_update he' with ⟨rfl, hrest⟩ | hold
      · exact h.pending u e' (by rw [pending]; exact List.mem_cons_of_mem _ hrest) o ho
      · exact h.pending u e' hold o ho
    · rcases List.mem_append.mp hx with hx | hx
      · exact h.log x hx o ho
      · rw [List.mem_singleton.mp hx] at ho ⊢
        exact hfirst o ho
    · intro p text o hp ho hctx
      have hsends := hfirst o ho
      cases hv : e.value with
      | session s T =>
        rw [hv] at hp hsends
        cases hp
        exact travels_of_sends hsends
      | client c T =>
        rw [hv] at hp
        cases hp
        cases hctx
      | dial id host port =>
        rw [hv] at hp
        cases hp

/-! ## The requests of one client -/

end View

/-- The number of the request that caused this, when it is one of client `e`. -/
def Traced.index? {N α : Type} [DecidableEq N] (e : Strand N) (x : Traced N α) : Option Nat :=
  x.origin.bind fun o => if o.client = e then some o.index else none

/-- The effect is a text to the strand `u`. -/
def Effect.goesTo {N : Type} [DecidableEq N] (n : N) (u : Strand N) (e : Effect) : Bool :=
  (e.destination n).any fun x => x.1 = u

section

variable {N α β : Type} [DecidableEq N] (e : Strand N)

/-- The requests of `e` that caused these, in order. -/
def indices (xs : List (Traced N α)) : List Nat := xs.filterMap (Traced.index? e)

@[simp] theorem indices_nil : indices e ([] : List (Traced N α)) = [] := rfl

@[simp] theorem indices_append (xs ys : List (Traced N α)) :
    indices e (xs ++ ys) = indices e xs ++ indices e ys := List.filterMap_append

variable {e}

theorem index?_eq_some {x : Traced N α} {k : Nat} :
    x.index? e = some k ↔ ∃ o, x.origin = some o ∧ o.client = e ∧ o.index = k := by
  simp only [Traced.index?, Option.bind_eq_some_iff]
  constructor
  · rintro ⟨o, ho, h⟩
    split at h
    · rename_i hc
      cases h
      exact ⟨o, ho, hc, rfl⟩
    · cases h
  · rintro ⟨o, ho, rfl, rfl⟩
    exact ⟨o, ho, by simp⟩

theorem indices_cons_some {x : Traced N α} {k : Nat} (h : x.index? e = some k)
    (xs : List (Traced N α)) : indices e (x :: xs) = k :: indices e xs := by
  simp [indices, h]

theorem indices_cons_none {x : Traced N α} (h : x.index? e = none)
    (xs : List (Traced N α)) : indices e (x :: xs) = indices e xs := by
  simp [indices, h]

omit [DecidableEq N] in
theorem caused_filter (o : Option (Origin N)) (p : Effect → Bool) (es : List Effect) :
    ((Network.caused o es).filter fun x => p x.value) = Network.caused o (es.filter p) := by
  simp [Network.caused, List.filter_map, Function.comp_def]

/-- Everything that a handler sends has the number of the frame it read. -/
theorem indices_caused {f : Traced N α} {k : Nat} (h : f.index? e = some k)
    (es : List Effect) : indices e (Network.caused f.origin es) = List.replicate es.length k := by
  obtain ⟨o, ho, hc, hk⟩ := index?_eq_some.mp h
  have hone : ∀ a : Effect, Traced.index? e ⟨f.origin.map Origin.next, a⟩ = some k :=
    fun a => index?_eq_some.mpr ⟨o.next, by simp [ho], hc, hk⟩
  induction es with
  | nil => rfl
  | cons a es ih =>
    unfold Network.caused at ih ⊢
    rw [List.map_cons, indices_cons_some (hone a), ih]
    rfl

theorem indices_caused_none {f : Traced N α} (h : f.index? e = none) (es : List Effect) :
    indices e (Network.caused f.origin es) = [] := by
  have hone : ∀ a : Effect, Traced.index? e ⟨f.origin.map Origin.next, a⟩ = none := by
    intro a
    rw [Option.eq_none_iff_forall_ne_some] at h ⊢
    intro k hk
    obtain ⟨o, ho, hc, hi⟩ := index?_eq_some.mp hk
    obtain ⟨o', ho', rfl⟩ := Option.map_eq_some_iff.mp ho
    exact h k (index?_eq_some.mpr ⟨o', ho', hc, hi⟩)
  induction es with
  | nil => rfl
  | cons a es ih =>
    unfold Network.caused at ih ⊢
    rw [List.map_cons, indices_cons_none (hone a), ih]

end

namespace View

variable {N : Type} [DecidableEq N] {G : Topology N}

/-- What the handler on `t` has still to send to `u` for the client `e`. -/
def toSend (V : View N) (e t u : Strand N) : List Nat :=
  indices e ((V.pending t).filter fun x => x.value.goesTo t.node u)

/-- Nothing that is sent goes to the mail of a client's strand. -/
theorem send_mail_onClient (V : View N) (x : Option (Strand N × Text)) (o : Option (Origin N))
    {e : Strand N} (he : e.context = .onClient) : (V.send G x o).mail e = V.mail e := by
  rcases x with - | ⟨t, text⟩
  · rfl
  cases hp : G.peer t with
  | none => simp [View.send, hp]
  | some u =>
    have hu := G.context_of_peer (G.peer_symm hp)
    have hne : e ≠ u := by
      rintro rfl
      rw [he] at hu
      cases hu
    simp [View.send, hp, push_of_ne _ _ _ hne]

@[simp] theorem send_pending (V : View N) (x : Option (Strand N × Text)) (o : Option (Origin N)) :
    (V.send G x o).pending = V.pending := by
  rcases x with - | ⟨t, text⟩ <;> rfl

@[simp] theorem send_issued (V : View N) (x : Option (Strand N × Text)) (o : Option (Origin N)) :
    (V.send G x o).issued = V.issued := by
  rcases x with - | ⟨t, text⟩ <;> rfl

@[simp] theorem send_log (V : View N) (x : Option (Strand N × Text)) (o : Option (Origin N)) :
    (V.send G x o).log = V.log := by
  rcases x with - | ⟨t, text⟩ <;> rfl

section

variable (V : View N) (t : Strand N) (x : Traced N Effect) (xs : List (Traced N Effect))

@[simp] theorem post_pending :
    (V.post G t x xs).pending = Function.update V.pending t xs := send_pending ..

@[simp] theorem post_issued : (V.post G t x xs).issued = V.issued := send_issued ..

@[simp] theorem post_log : (V.post G t x xs).log = V.log ++ [(t, x)] := send_log ..

theorem post_mail_onClient {e : Strand N} (he : e.context = .onClient) :
    (V.post G t x xs).mail e = V.mail e := send_mail_onClient _ _ _ he

end

theorem toSend_idle {V : View N} {t : Strand N} (h : V.pending t = []) (e u : Strand N) :
    V.toSend e t u = [] := by
  simp [toSend, h]

/-- The next effect of the handler on `t` is the first of what it has to send, when it goes
there; the other handlers have to send what they had. -/
theorem toSend_post {V : View N} {t : Strand N} {x : Traced N Effect}
    {xs : List (Traced N Effect)} (hV : V.pending t = x :: xs) (e t' u : Strand N) :
    V.toSend e t' u = (if t = t' ∧ x.value.goesTo t'.node u then indices e [x] else []) ++
      (V.post G t x xs).toSend e t' u := by
  by_cases ht : t = t'
  · subst ht
    simp only [toSend, hV, post_pending, Function.update_self]
    by_cases hx : x.value.goesTo t.node u = true
    · have hcons : ((x :: xs).filter fun y => y.value.goesTo t.node u) =
          [x] ++ xs.filter fun y => y.value.goesTo t.node u := by simp [hx]
      rw [hcons, indices_append]
      simp [hx]
    · simp [hx]
  · have hne : t' ≠ t := fun h => ht h.symm
    simp [toSend, ht, Function.update_of_ne hne]

/-- The requests of `e` that were not read yet, or that its handler has still to send to `u`. -/
def onward (V : View N) (e u : Strand N) : List Nat := V.toSend e e u ++ indices e (V.mail e)

section

variable {r : Nat → Nat → Prop} {V W : View N} {e : Strand N}

/-- A handler that reads `f` replaces it by what it is to send. -/
theorem flow_read {α : Type} {f : Traced N α} {es : List Effect} (next : Nat) (us vs : List Nat)
    (h : ∀ k, f.index? e = some k → es.length ≤ 1 ∨ r k k) :
    Pipeline.Flow r next (us ++ (indices e [f] ++ vs)) next
      (us ++ (indices e (Network.caused f.origin es) ++ vs)) := by
  cases hk : f.index? e with
  | none =>
    rw [indices_cons_none hk, indices_caused_none hk]
    exact .same _ _
  | some k =>
    rw [indices_cons_some hk, indices_caused hk]
    exact .pass _ _ _ _ _ (h k hk)

/-- A request enters at the inlet. -/
theorem onward_request (us : List Nat) (t u : Strand N) (frame : Frame)
    (hmail : W.mail = push V.mail t ⟨some ⟨t, V.issued t, 0⟩, frame⟩)
    (hpending : W.pending = V.pending)
    (hissued : W.issued = Function.update V.issued t (V.issued t + 1)) :
    Pipeline.Flow r (V.issued e) (us ++ V.onward e u) (W.issued e) (us ++ W.onward e u) := by
  by_cases ht : e = t
  · subst ht
    have hW : us ++ W.onward e u = us ++ V.onward e u ++ [V.issued e] := by
      simp [onward, toSend, hmail, hpending, indices, Traced.index?]
    rw [hW, hissued, Function.update_self]
    exact .enter _ _ _ (Nat.lt_succ_self _)
  · have hW : W.onward e u = V.onward e u := by
      simp only [onward, toSend, hmail, hpending, push_of_ne _ _ _ ht]
    rw [hW, hissued, Function.update_of_ne ht]
    exact .same _ _

/-- The client's handler reads the first request. -/
theorem onward_read (us : List Nat) (u : Strand N) {f : Traced N Frame}
    {fs : List (Traced N Frame)} {es : List Effect} (next : Nat) (mail : V.mail e = f :: fs)
    (idle : V.pending e = [])
    (h : ∀ k, f.index? e = some k → (es.filter (Effect.goesTo e.node u)).length ≤ 1 ∨ r k k) :
    Pipeline.Flow r next (us ++ V.onward e u) next
      (us ++ (V.start e fs (Network.caused f.origin es)).onward e u) := by
  have hV : V.onward e u = indices e [f] ++ indices e fs := by
    rw [onward, toSend_idle idle, mail, ← indices_append]
    rfl
  have hW : (V.start e fs (Network.caused f.origin es)).onward e u =
      indices e (Network.caused f.origin (es.filter (Effect.goesTo e.node u))) ++
        indices e fs := by
    simp only [onward, toSend, start, Function.update_self]
    rw [caused_filter]
  rw [hV, hW]
  exact flow_read next us _ h

/-- Another handler that reads changes nothing here. -/
theorem onward_start {t : Strand N} (hne : e ≠ t) (fs : List (Traced N Frame))
    (es : List (Traced N Effect)) (u : Strand N) :
    (V.start t fs es).onward e u = V.onward e u := by
  simp only [onward, toSend, start, Function.update_of_ne hne]

/-- What the client's handler sends leaves this part. -/
theorem onward_post {t : Strand N} {x : Traced N Effect} {xs : List (Traced N Effect)}
    (hV : V.pending t = x :: xs) (he : e.context = .onClient) (u : Strand N) :
    V.onward e u = (if t = e ∧ x.value.goesTo e.node u then indices e [x] else []) ++
      (V.post G t x xs).onward e u := by
  rw [onward, onward, post_mail_onClient _ _ _ _ he, toSend_post (G := G) hV e e u,
    List.append_assoc]

/-- A text that no request caused changes nothing here. -/
theorem onward_announce (V : View N) (t u : Strand N) (text : Text)
    (he : e.context = .onClient) :
    (V.send G (some (t, text)) none).onward e u = V.onward e u := by
  rw [onward, onward, toSend, toSend, send_pending, send_mail_onClient _ _ _ he]

end

end View

namespace Network

variable {N : Type} [DecidableEq N]

omit [DecidableEq N] in
theorem view_empty (G : Topology N) :
    view G ({} : Network N) = ⟨fun _ => [], fun _ => [], fun _ => [], fun _ => 0, []⟩ := by
  refine View.ext (funext fun t => ?_) rfl rfl rfl rfl
  cases hp : G.peer t with
  | none => simp [view_mail_of_none G _ hp]
  | some u => simp [view_mail_of_peer G _ hp, outgoing]

omit [DecidableEq N] in
theorem traffic_empty (G : Topology N) : View.Traffic G (view G ({} : Network N)) := by
  rw [view_empty]
  refine ⟨fun t f hf => ?_, fun t e he => ?_, fun x hx => ?_⟩
  · cases hf
  · cases he
  · cases hx

/-- Everything in the cluster that a request caused is `Traffic`. -/
theorem traffic_of_run {G : Topology N} {as : List (Action N)} {Y : Network N}
    (h : Run.exec (step G) {} as = some Y) : View.Traffic G (Y.view G) :=
  view_invariant G (I := View.Traffic G) (fun hI hs => hI.of_step hs) (traffic_empty G) h

end Network

end Aewt
