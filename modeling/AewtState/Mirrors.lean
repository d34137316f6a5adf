import AewtState.Picture
import AewtState.Quiescence

/-!
# The nodes mirror each other whatever the strands do

The fan-outs of handlers are cut into single texts, which pass the queues of other strands between
each other.  The texts about one client all come from the strand of that client, so they stay in
order where it matters.

* `Picture.toRead` — what a node has still to read about a client of another node: what is on its
  way, and what the client's handler has still to send.
* `Picture.Inv` — rows and texts belong to the node a client connected to, and applying what is to
  be read to the rows of a session gives the local rows of the node at its other end.

Principal result: `rows_mirror` — where nothing about a row is to be read, a node holds it for a
session exactly when the node at the other end holds it as its own.
-/

set_option autoImplicit false

namespace Aewt

/-- Two nodes share at most one session, and no session leads back. -/
structure Topology.Single {N : Type} (G : Topology N) : Prop where
  irrefl : ∀ {n s m s'}, G.links n s = some (m, s') → n ≠ m
  unique : ∀ {n m s t s' t'}, G.links n s = some (m, s') → G.links n t = some (m, t') → s = t

/-- The text of a frame. -/
def Frame.text? : Frame → Option Text
  | .object data => some data
  | .other => none

/-- A handler of a client that changes no row and announces none. -/
theorem clientEvent_still {st : State} {w : World} (c : Uuid) (hw : w.state = st)
    (ht : ∀ s s', ∀ text ∈ textsTo s w.effects, updateOf s' text = none) :
    ClientEvent st w c none := by
  refine ⟨by rw [hw], by rw [hw], by simp, fun s k => ?_, ht, by simp⟩
  rw [hw]
  split <;> exact Iff.rfl

/-- `client::on_accept` welcomes the client and changes no row. -/
theorem clientEvent_onAccept {env : Env} {st : State} {c : Uuid} {runAt : Int64} {w : World}
    (h : Client.onAccept c runAt (.start env st) = (.ok (), w)) : ClientEvent st w c none := by
  cases h
  exact clientEvent_still c rfl fun s s' text ht => by cases ht

theorem updateOf_acknowledges {text : Text} (h : acknowledges text = true) (s : Uuid) :
    updateOf s text = none := by
  by_contra hu
  obtain ⟨u, hu⟩ := Option.ne_none_iff_exists'.mp hu
  rw [acknowledges_of_update hu] at h
  cases h

/-! ## The sections of a publish -/

namespace Publishing

variable (p : Publishing)

theorem updateOf_message (s : Uuid) : updateOf s (serialize p.message) = none :=
  updateOf_accepted (decode_publish (s := s) (built_requestObject _ _ _))

theorem legible_message : Legible (serialize p.message) :=
  .notice (.publish ⟨p.transactionId, p.clientId, .onClient, [], 0⟩ p.clientId p.channel p.payload)
    trivial rfl

variable {p}

/-- All that goes to sessions is the message. -/
theorem text_effects (hreply : ∀ s, textsTo s p.reply = []) {st : State} {s : Uuid} {text : Text}
    (h : text ∈ textsTo s (p.effects st)) : text = serialize p.message := by
  rw [effects, textsTo_append, hreply, List.append_nil] at h
  exact mem_textsTo_sessions h

/-- The second section of a publish changes no row and announces none. -/
theorem event (hreply : ∀ s, textsTo s p.reply = []) (st : State) (w : World) (c : Uuid) :
    ClientEvent st { w with state := st, effects := p.effects st } c none :=
  clientEvent_still c rfl fun s s' text ht => by
    rw [text_effects hreply ht]
    exact p.updateOf_message s'

end Publishing

/-- What a request of a client makes its node send on sessions. -/
theorem legible_request {c : Uuid} {f : Frame} {env : Env} {st : State} {w : World}
    (h : Client.onRead c f (.start env st) = (.ok (), w)) (s : Uuid) :
    ∀ text ∈ textsTo s w.effects, Legible text := by
  intro text ht
  obtain ⟨es, hes, hforward, -⟩ := effects_of_request h
  rw [hes, mem_textsTo] at ht
  obtain ⟨m, hm, rfl⟩ := hforward s text (by simpa [World.start] using ht)
  refine .notice m ?_ rfl
  cases m <;> first | exact hm | cases hm

/-- A client's request up to the lookup of the subscribed sessions, if there is one. -/
theorem clientEvent_cut {N : Type} {n : N} {c : Uuid} {f : Frame} {env : Env} {st : State}
    {w : World} (h : Client.onRead c f (.start env st) = (.ok (), w)) :
    (∃ u, ClientEvent st ((Strand.client n c).cut f st w).1 c u) ∧
    (∀ s, ∀ text ∈ textsTo s ((Strand.client n c).cut f st w).1.effects, Legible text) ∧
    ∀ p, ((Strand.client n c).cut f st w).2 = some p → ∀ s, textsTo s p.reply = [] := by
  cases hp : (Strand.client n c).publish? f with
  | none =>
    rw [cut_of_none hp]
    exact ⟨clientEvent_request h, legible_request h, fun p hp => by cases hp⟩
  | some p =>
    obtain ⟨q, ⟨_, _, _, _, rfl⟩, hcut, hstate, -⟩ := cut_of_some (t := .client n c) hp h
    rw [hcut]
    have hsilent : ∀ (q : Publishing) (s : Uuid), textsTo s (q.toClients st) = [] := fun q s =>
      textsTo_toOthersClients ..
    refine ⟨⟨none, clientEvent_still c hstate fun s s' text ht => ?_⟩, fun s text ht => ?_,
      fun q hq s => ?_⟩
    · rw [hsilent] at ht
      cases ht
    · rw [hsilent] at ht
      cases ht
    · cases hq
      rfl

namespace Fleet

variable {N : Type} {G : Topology N}

/-- No client has connected, no handler runs, and nothing is on its way. -/
structure Initial (G : Topology N) (X : Fleet N) : Prop where
  id : ∀ n, (X.node n).id = G.id n
  known : ∀ {n s e}, G.links n s = some e → (X.node n).sessions.hasKey s = true
  fresh : ∀ {n s e}, G.links n s = some e → s ≠ (X.node n).id
  rows : ∀ n s k, ¬ (X.node n).Holds s k
  home : ∀ c, X.home c = none
  notices : ∀ t, X.notices t = []
  due : ∀ t, X.due t = none
  dropped : ∀ t, X.dropped t = []
  net : X.net = {}

namespace Picture

variable {P Q : Picture N}

/-- The rows that node `n` stores for `s` may be about client `c`. -/
def Owner (G : Topology N) (P : Picture N) (n : N) (s c : Uuid) : Prop :=
  (s = (P.node n).id ∧ P.home c = some n) ∨
    ∃ m s', G.links n s = some (m, s') ∧ P.home c = some m

/-- What the end `s` of node `n` is still to read about client `c`; its other end is `s'` of
node `m`. -/
def toRead (P : Picture N) (n : N) (s : Uuid) (m : N) (s' c : Uuid) : List Text :=
  (P.mail (.session n s)).filterMap Frame.text? ++ textsTo s' (P.waiting (.client m c))

/-- A text that node `m` may have sent. -/
def Speaks (P : Picture N) (m : N) (text : Text) : Prop :=
  Legible text ∧ ∀ s k b, updateOf s text = some (k, b) → P.home k.about = some m

/-- A publish may be due on the strand. -/
structure Owes (P : Picture N) (t : Strand N) (p : Publishing) : Prop where
  context : t.context = .onClient
  home : P.home t.id = some t.node
  reply : ∀ s, textsTo s p.reply = []

structure Inv (G : Topology N) (P : Picture N) : Prop where
  id : ∀ n, (P.node n).id = G.id n
  known : ∀ {n s e}, G.links n s = some e → (P.node n).sessions.hasKey s = true
  fresh : ∀ {n s e}, G.links n s = some e → s ≠ (P.node n).id
  rows : ∀ {n s k}, (P.node n).Holds s k → P.Owner G n s k.about
  mail : ∀ {n s f}, f ∈ P.mail (.session n s) →
    ∃ m s' text, G.links n s = some (m, s') ∧ f = .object text ∧ P.Speaks m text
  client : ∀ {n c s text}, .session s text ∈ P.waiting (.client n c) → P.Speaks n text ∧
    ∀ s' k b, updateOf s' text = some (k, b) → k.about = c
  session : ∀ {n s x text}, .session x text ∈ P.waiting (.session n s) →
    acknowledges text = true
  agree : ∀ {n s m s'}, G.links n s = some (m, s') → ∀ k,
    Replica.after (updateOf s) k ((P.node n).Holds s k) (P.toRead n s m s' k.about) ↔
      (P.node m).Holds (P.node m).id k
  due : ∀ {t p}, P.due t = some p → P.Owes t p

end Picture

theorem Initial.inv {X : Fleet N} (h : X.Initial G) : (X.picture G).Inv G := by
  have hmail : ∀ t, (X.picture G).mail t = [] := by
    intro t
    simp [picture, scene, stage, Scene.erase, Network.view, Network.outgoing, h.net]
  have hwaiting : ∀ t, (X.picture G).waiting t = [] := by
    intro t
    simp [picture, scene, stage, Scene.erase, Network.caused, Network.view, h.net, h.notices]
  refine ⟨h.id, h.known, h.fresh, fun hr => absurd hr (h.rows _ _ _), fun {n s f} hf => ?_,
    fun {n c s text} ht => ?_, fun {n s x text} ht => ?_, fun {n s m s'} _ k => ?_,
    fun {t p} hp => ?_⟩
  · rw [hmail] at hf
    cases hf
  · rw [hwaiting] at ht
    cases ht
  · rw [hwaiting] at ht
    cases ht
  · rw [Picture.toRead, hmail, hwaiting]
    exact iff_of_false (h.rows _ _ k) (h.rows _ _ k)
  · simp [picture, scene, stage, Scene.erase, h.due] at hp

namespace Picture

variable {P Q : Picture N}

/-! ## Owners -/

/-- The rows about a client are stored for one owner only. -/
theorem owner_unique (hG : G.Single) {n : N} {s t c : Uuid} (hs : P.Owner G n s c)
    (ht : P.Owner G n t c) : s = t := by
  rcases hs with ⟨rfl, hs⟩ | ⟨m, s', hl, hs⟩
  · rcases ht with ⟨rfl, -⟩ | ⟨m, t', hl, ht⟩
    · rfl
    · rw [hs] at ht
      cases ht
      exact absurd rfl (hG.irrefl hl)
  · rcases ht with ⟨rfl, ht⟩ | ⟨m', t', hl', ht⟩
    · rw [hs] at ht
      cases ht
      exact absurd rfl (hG.irrefl hl)
    · rw [hs] at ht
      cases ht
      exact hG.unique hl hl'

theorem Inv.row_owner (h : P.Inv G) (hG : G.Single) {n : N} {s : Uuid} {row : Client}
    (hr : row ∈ (P.node n).clients) (ho : P.Owner G n s row.id) : row.sessionId = s :=
  owner_unique hG (h.rows (s := row.sessionId) (k := .client row.id) hr) ho

/-- Nobody stores a client that has not connected yet. -/
theorem Inv.rows_of_new (h : P.Inv G) {c : Uuid} (hnew : P.home c = none) (n : N) :
    ∀ row ∈ (P.node n).clients, row.id ≠ c := by
  rintro row hrow rfl
  rcases h.rows (s := row.sessionId) (k := .client row.id) hrow with ⟨-, hd⟩ | ⟨m, s', -, hd⟩
  · simp [Key.about, hnew] at hd
  · simp [Key.about, hnew] at hd

/-- A node stores the client that connected to it as its own. -/
theorem Inv.rows_of_home (h : P.Inv G) (hG : G.Single) {n : N} {c : Uuid}
    (hc : P.home c = some n) : ∀ row ∈ (P.node n).clients, row.id = c →
      row.sessionId = (P.node n).id :=
  fun _ hrow hid => h.row_owner hG hrow (.inl ⟨rfl, by rw [hid]; exact hc⟩)

/-- A text on its way to a session is about clients that are stored for it. -/
theorem Inv.text_owner (h : P.Inv G) (hG : G.Single) {n : N} {s : Uuid} {text : Text}
    (ht : Frame.object text ∈ P.mail (.session n s)) (k : Key) (b : Bool)
    (hu : updateOf s text = some (k, b)) :
    ∀ row ∈ (P.node n).clients, row.id = k.about → row.sessionId = s := by
  intro row hrow hid
  obtain ⟨m, s', text', hl, hf, hspeaks⟩ := h.mail ht
  cases hf
  exact h.row_owner hG hrow (.inr ⟨m, s', hl, by rw [hid]; exact hspeaks.2 s k b hu⟩)

theorem Owner.mono {n : N} {s c : Uuid} (h : P.Owner G n s c)
    (hid : (Q.node n).id = (P.node n).id) (hhome : ∀ d m, P.home d = some m → Q.home d = some m) :
    Q.Owner G n s c := by
  rcases h with ⟨hs, hd⟩ | ⟨m, s', hl, hd⟩
  · exact .inl ⟨hs.trans hid.symm, hhome _ _ hd⟩
  · exact .inr ⟨m, s', hl, hhome _ _ hd⟩

theorem Speaks.mono {m : N} {text : Text} (h : P.Speaks m text)
    (hhome : ∀ d m, P.home d = some m → Q.home d = some m) : Q.Speaks m text :=
  ⟨h.1, fun s k b hu => hhome _ _ (h.2 s k b hu)⟩

theorem Owes.mono {t : Strand N} {p : Publishing} (h : P.Owes t p)
    (hhome : ∀ d m, P.home d = some m → Q.home d = some m) : Q.Owes t p :=
  ⟨h.context, hhome _ _ h.home, h.reply⟩

/-! ## A handler starts -/

variable [DecidableEq N]

/-- The handler on `t` has something due, or nothing. -/
theorem Inv.owes (h : P.Inv G) {t u : Strand N} {x : Option Publishing} {p : Publishing}
    (hdue : Q.due = Function.update P.due t x) (hhome : Q.home = P.home)
    (hnew : ∀ p, x = some p → P.Owes t p) (hp : Q.due u = some p) : Q.Owes u p := by
  have howes : P.Owes u p := by
    rw [hdue] at hp
    by_cases hu : u = t
    · subst hu
      rw [Function.update_self] at hp
      exact hnew p hp
    · rw [Function.update_of_ne hu] at hp
      exact h.due hp
  exact howes.mono fun d m hd => by rw [hhome]; exact hd

/-- A handler of client `c` of node `n` starts. -/
theorem Inv.of_client (h : P.Inv G) {n : N} {c : Uuid} {w : World} {u : Option (Key × Bool)}
    (he : ClientEvent (P.node n) w c u)
    (hlegible : ∀ s, ∀ text ∈ textsTo s w.effects, Legible text)
    (hidle : P.waiting (.client n c) = [])
    (hnode : Q.node = Function.update P.node n w.state)
    (hwaiting : Q.waiting = Function.update P.waiting (.client n c) w.effects)
    (hmail : ∀ m s, Q.mail (.session m s) = P.mail (.session m s))
    (hhome : ∀ d m, P.home d = some m → Q.home d = some m) (hc : Q.home c = some n)
    (hdue : ∀ {t p}, Q.due t = some p → Q.Owes t p) : Q.Inv G := by
  have hself : Q.node n = w.state := by rw [hnode, Function.update_self]
  have hother : ∀ m, m ≠ n → Q.node m = P.node m := fun m hm => by
    rw [hnode, Function.update_of_ne hm]
  have hid : ∀ m, (Q.node m).id = (P.node m).id := by
    intro m
    by_cases hm : m = n
    · rw [hm, hself, he.id]
    · rw [hother m hm]
  have howner : ∀ {m s d}, P.Owner G m s d → Q.Owner G m s d := fun {m s d} ho =>
    ho.mono (hid m) hhome
  refine ⟨fun m => (hid m).trans (h.id m), fun {m s e} hl => ?_, fun {m s e} hl => ?_,
    fun {m s k} hh => ?_, fun {m s f} hf => ?_, fun {m d s text} ht => ?_,
    fun {m s x text} ht => ?_, fun {m s j s'} hl k => ?_, hdue⟩
  · by_cases hm : m = n
    · subst hm
      rw [hself, he.sessions]
      exact h.known hl
    · rw [hother m hm]
      exact h.known hl
  · rw [hid]
    exact h.fresh hl
  · by_cases hm : m = n
    · subst hm
      rw [hself, he.holds] at hh
      split at hh
      · rename_i hs
        rcases Replica.of_update hh with hu | hh
        · exact .inl ⟨hs.trans (hid m).symm, by rw [he.about k true hu]; exact hc⟩
        · exact howner (h.rows hh)
      · exact howner (h.rows hh)
    · rw [hother m hm] at hh
      exact howner (h.rows hh)
  · rw [hmail] at hf
    obtain ⟨j, s', text, hl, hft, hs⟩ := h.mail hf
    exact ⟨j, s', text, hl, hft, hs.mono hhome⟩
  · by_cases hd : Strand.client m d = .client n c
    · cases hd
      rw [hwaiting, Function.update_self, ← mem_textsTo] at ht
      have habout : ∀ s' k b, updateOf s' text = some (k, b) → k.about = c := by
        intro s' k b hu
        rw [he.texts s s' text ht] at hu
        exact he.about k b hu
      exact ⟨⟨hlegible s text ht, fun s' k b hu => by rw [habout s' k b hu]; exact hc⟩, habout⟩
    · rw [hwaiting, Function.update_of_ne hd] at ht
      obtain ⟨hs, habout⟩ := h.client ht
      exact ⟨hs.mono hhome, habout⟩
  · rw [hwaiting, Function.update_of_ne (by simp)] at ht
    exact h.session ht
  · -- the rows of the session stay, and what is to be read grows as the local rows do
    have hleft : (Q.node m).Holds s k ↔ (P.node m).Holds s k := by
      by_cases hm : m = n
      · subst hm
        rw [hself, he.holds, if_neg (h.fresh hl)]
      · rw [hother m hm]
    have hagree := h.agree hl k
    rw [propext hleft, hid]
    by_cases hj : j = n
    · subst hj
      rw [hself, he.holds, if_pos rfl]
      by_cases hk : k.about = c
      · rw [toRead, hmail, hwaiting, hk, Function.update_self, Replica.after_append,
          he.after (h.known (G.symm hl)) s k]
        rw [toRead, hk, hidle, Replica.after_append] at hagree
        exact iff_of_eq (congrArg _ (propext hagree))
      · have hsame : Q.toRead m s j s' k.about = P.toRead m s j s' k.about := by
          rw [toRead, toRead, hmail, hwaiting, Function.update_of_ne (by simpa using hk)]
        have hu : Replica.update u k ((P.node j).Holds (P.node j).id k) =
            (P.node j).Holds (P.node j).id k := by
          cases u with
          | none => rfl
          | some e => exact Replica.update_ne _ fun he' => hk (he.about k e.2 (by rw [← he']))
        rw [hsame, hu]
        exact hagree
    · have hsame : Q.toRead m s j s' k.about = P.toRead m s j s' k.about := by
        rw [toRead, toRead, hmail, hwaiting, Function.update_of_ne (by simp [hj])]
      rw [hsame, hother j hj]
      exact hagree

/-- A handler of a session starts with the first frame of its mail. -/
theorem Inv.of_session (h : P.Inv G) (hG : G.Single) {n : N} {s : Uuid} {f : Frame}
    {fs : List Frame} {env : Env} {w : World} (hidle : P.waiting (.session n s) = [])
    (hf : P.mail (.session n s) = f :: fs)
    (hw : Session.onRead s f (.start env (P.node n)) = (.ok (), w)) :
    Inv G { P.starts (.session n s) w with
      mail := Function.update P.mail (.session n s) fs
      due := Function.update P.due (.session n s) none } := by
  obtain ⟨i, s₁, text, hlink, rfl, hspeaks⟩ :=
    h.mail (f := f) (by rw [hf]; exact List.mem_cons_self)
  have he := sessionEvent (h.text_owner hG (by rw [hf]; exact List.mem_cons_self)) hw
  obtain ⟨v, hv, hsilent, hreplies, -⟩ := onRead_legible hspeaks.1 s env (P.node n)
  cases hw.symm.trans hv
  have hself : Function.update P.node n w.state n = w.state := Function.update_self ..
  have hother : ∀ m, m ≠ n → Function.update P.node n w.state m = P.node m :=
    fun m hm => Function.update_of_ne hm _ _
  have hid : ∀ m, (Function.update P.node n w.state m).id = (P.node m).id := by
    intro m
    by_cases hm : m = n
    · rw [hm, hself, he.id]
    · rw [hother m hm]
  have howner : ∀ {m x d}, P.Owner G m x d → Owner G { P.starts (.session n s) w with
      mail := Function.update P.mail (.session n s) fs
      due := Function.update P.due (.session n s) none } m x d :=
    fun {m x d} ho => ho.mono (hid m) fun _ _ hd => hd
  refine ⟨fun m => (hid m).trans (h.id m), fun {m x e} hl => ?_, fun {m x e} hl => ?_,
    fun {m x k} hh => ?_, fun {m x f} hf' => ?_, fun {m d x text} ht => ?_,
    fun {m x y text} ht => ?_, fun {m x j x'} hl k => ?_, fun {t p} hp => ?_⟩
  · by_cases hm : m = n
    · subst hm
      simp only [starts, hself]
      exact he.sessions x (h.known hl)
    · simp only [starts, hother m hm]
      exact h.known hl
  · simp only [starts, hid]
    exact h.fresh hl
  · by_cases hm : m = n
    · subst hm
      simp only [starts, hself] at hh
      by_cases hx : x = s
      · subst hx
        rw [he.holds] at hh
        rcases Replica.of_update hh with hu | hh
        · exact .inr ⟨i, s₁, hlink, hspeaks.2 _ _ _ hu⟩
        · exact howner (h.rows hh)
      · exact howner (h.rows ((he.others x hx k).mp hh))
    · simp only [starts, hother m hm] at hh
      exact howner (h.rows hh)
  · by_cases hm : Strand.session m x = .session n s
    · cases hm
      simp only [Function.update_self] at hf'
      exact h.mail (by rw [hf]; exact List.mem_cons_of_mem _ hf')
    · simp only [Function.update_of_ne hm] at hf'
      exact h.mail hf'
  · have hne : Strand.client m d ≠ .session n s := by simp
    simp only [starts, awaits, Function.update_of_ne hne] at ht
    exact h.client ht
  · by_cases hm : Strand.session m x = .session n s
    · cases hm
      simp only [starts, awaits, Function.update_self] at ht
      by_cases hy : y = s
      · subst hy
        exact hreplies text (mem_textsTo.mpr ht)
      · rw [← mem_textsTo, hsilent y hy] at ht
        cases ht
    · simp only [starts, awaits, Function.update_of_ne hm] at ht
      exact h.session ht
  · -- the text that was read is applied, and nothing else that is to be read changes
    have hright : (Function.update P.node n w.state j).Holds (P.node j).id k ↔
        (P.node j).Holds (P.node j).id k := by
      by_cases hj : j = n
      · subst hj
        rw [hself, he.others _ (h.fresh hlink).symm]
      · rw [hother j hj]
    have hwaiting : Function.update P.waiting (.session n s) w.effects (.client j k.about) =
        P.waiting (.client j k.about) := Function.update_of_ne (by simp) _ _
    have hagree := h.agree hl k
    simp only [toRead] at hagree
    simp only [toRead, starts, awaits, hid, hwaiting]
    rw [hright, ← hagree]
    by_cases hm : Strand.session m x = .session n s
    · cases hm
      rw [hself, Function.update_self, hf, propext (he.holds k)]
      rfl
    · rw [Function.update_of_ne hm]
      have hleft : (Function.update P.node n w.state m).Holds x k ↔ (P.node m).Holds x k := by
        by_cases hmn : m = n
        · subst hmn
          have hx : x ≠ s := fun hx => hm (by rw [hx])
          rw [hself, he.others x hx]
        · rw [hother m hmn]
      rw [propext hleft]
  · exact h.owes rfl rfl (fun _ hx => by cases hx) hp

/-! ## A text is sent -/

omit [DecidableEq N] in
/-- Where a text that waits on a strand may come from. -/
theorem Inv.speaks (h : P.Inv G) {t : Strand N} {x : Uuid} {text : Text}
    (ht : .session x text ∈ P.waiting t) : P.Speaks t.node text ∧
      ∀ s k b, updateOf s text = some (k, b) → t = .client t.node k.about := by
  obtain ⟨n, context, id⟩ := t
  cases context with
  | onClient =>
    obtain ⟨hs, habout⟩ := h.client ht
    exact ⟨hs, fun s k b hu => by rw [habout s k b hu]⟩
  | onSession =>
    have ha := h.session ht
    refine ⟨⟨.answer ha, fun s k b hu => ?_⟩, fun s k b hu => ?_⟩
    · rw [updateOf_acknowledges ha] at hu
      cases hu
    · rw [updateOf_acknowledges ha] at hu
      cases hu

theorem deliver_mail_of_ne (P : Picture N) {x : Option (Strand N × Text)} {v : Strand N}
    (h : ∀ u text, x = some (u, text) → G.peer u ≠ some v) : (P.deliver G x).mail v = P.mail v := by
  rcases x with - | ⟨u, text⟩
  · rfl
  · simp only [deliver]
    cases hp : G.peer u with
    | none => rfl
    | some u' =>
      refine push_of_ne _ _ _ ?_
      rintro rfl
      exact h u text rfl hp

omit [DecidableEq N] in
theorem peer_session {m j : N} {y y' : Uuid} (hl : G.links m y = some (j, y')) :
    G.peer (.session j y') = some (.session m y) := by
  simp [Topology.peer, G.symm hl]

/-- What a node sends on a session arrives at its other end. -/
theorem sends_mail (P : Picture N) (t : Strand N) (e : Effect) (es : List Effect) {m j : N}
    {y y' : Uuid} (hl : G.links m y = some (j, y')) :
    (P.sends G t e es).mail (.session m y) = P.mail (.session m y) ++
      if j = t.node then (textsTo y' [e]).map Frame.object else [] := by
  by_cases he : ∃ text, e = .session y' text ∧ j = t.node
  · obtain ⟨text, rfl, rfl⟩ := he
    simp [sends, Effect.destination, deliver, peer_session hl, textsTo]
  · have hnone : (if j = t.node then (textsTo y' [e]).map Frame.object else []) = [] := by
      split
      · rename_i hj
        rw [List.map_eq_nil_iff, List.eq_nil_iff_forall_not_mem]
        intro text ht
        exact he ⟨text, (List.mem_singleton.mp (mem_textsTo.mp ht)).symm, hj⟩
      · rfl
    rw [hnone, List.append_nil]
    refine deliver_mail_of_ne (G := G) _ fun u text hu hp => ?_
    have hp' := (G.peer_symm hp).symm.trans (G.peer_symm (peer_session hl))
    cases hp'
    cases e with
    | session x text' =>
      simp only [Effect.destination, Option.some.injEq, Prod.mk.injEq, Strand.mk.injEq,
        true_and] at hu
      exact he ⟨text', by rw [hu.1.2], hu.1.1.symm⟩
    | client c text' => simp [Effect.destination] at hu
    | dial d host port => cases hu

/-- Nothing arrives at an end that has no other end. -/
theorem sends_mail_of_none (P : Picture N) (t : Strand N) (e : Effect) (es : List Effect) {m : N}
    {y : Uuid} (hl : G.links m y = none) :
    (P.sends G t e es).mail (.session m y) = P.mail (.session m y) := by
  refine deliver_mail_of_ne (G := G) _ fun u text hu hp => ?_
  have hpeer := G.peer_symm hp
  simp [Topology.peer, hl] at hpeer

/-- The running handler of a strand sends its next text. -/
theorem Inv.of_sends (h : P.Inv G) {t : Strand N} {e : Effect} {es : List Effect}
    (ht : P.waiting t = e :: es) : (P.sends G t e es).Inv G := by
  have hmem : ∀ {u : Strand N} {a : Effect},
      a ∈ (P.sends G t e es).waiting u → a ∈ P.waiting u := by
    intro u a ha
    rw [sends_waiting] at ha
    by_cases hu : u = t
    · subst hu
      rw [Function.update_self] at ha
      rw [ht]
      exact List.mem_cons_of_mem _ ha
    · rwa [Function.update_of_ne hu] at ha
  have hspeaks : ∀ {m text}, P.Speaks m text → (P.sends G t e es).Speaks m text :=
    fun hs => hs.mono fun d m hd => by rw [sends_home]; exact hd
  refine ⟨by rw [sends_node]; exact h.id, fun {m s e'} hl => ?_, fun {m s e'} hl => ?_,
    fun {m s k} hh => ?_, fun {m s f} hf => ?_, fun {m d s text} ha => ?_,
    fun {m s x text} ha => ?_, fun {m s j s'} hl k => ?_, fun {t p} hp => ?_⟩
  · rw [sends_node]
    exact h.known hl
  · rw [sends_node]
    exact h.fresh hl
  · rw [sends_node] at hh
    exact (h.rows hh).mono (by rw [sends_node]) fun d m hd => by rw [sends_home]; exact hd
  · cases hl : G.links m s with
    | none =>
      rw [sends_mail_of_none P t e es hl] at hf
      obtain ⟨j, s', text, hl', -⟩ := h.mail hf
      rw [hl] at hl'
      cases hl'
    | some end' =>
      obtain ⟨j, s'⟩ := end'
      rw [sends_mail P t e es hl, List.mem_append] at hf
      rcases hf with hf | hf
      · obtain ⟨j', s'', text, hl', hft, hs⟩ := h.mail hf
        exact ⟨j', s'', text, by rw [← hl, hl'], hft, hspeaks hs⟩
      · split at hf
        · rename_i hj
          subst hj
          obtain ⟨text, htext, rfl⟩ := List.mem_map.mp hf
          have hin : Effect.session s' text ∈ P.waiting t := by
            rw [ht, List.mem_singleton.mp (mem_textsTo.mp htext)]
            exact List.mem_cons_self
          exact ⟨_, s', text, rfl, rfl, hspeaks (h.speaks hin).1⟩
        · cases hf
  · obtain ⟨hs, habout⟩ := h.client (hmem ha)
    exact ⟨hspeaks hs, habout⟩
  · exact h.session (hmem ha)
  · have hagree := h.agree hl k
    rw [sends_node]
    simp only [toRead] at hagree ⊢
    rw [sends_mail P t e es hl, sends_waiting, List.filterMap_append]
    have htexts : ∀ ts : List Text, (ts.map Frame.object).filterMap Frame.text? = ts := by
      intro ts
      rw [List.filterMap_map]
      exact List.filterMap_some
    by_cases hc : Strand.client j k.about = t
    · -- the text goes from what the client's handler has to send to what is on its way
      subst hc
      rw [if_pos rfl, htexts, Function.update_self, List.append_assoc, ← textsTo_append,
        List.singleton_append, ← ht]
      exact hagree
    · rw [Function.update_of_ne hc, List.append_assoc, Replica.after_append,
        Replica.after_append (List.filterMap _ _)]
      rw [Replica.after_append] at hagree
      rw [Replica.after_idle (q := List.filterMap _ _)]
      · exact hagree
      · split
        · rename_i hj
          subst hj
          rw [htexts]
          intro text htext b hu
          have hin : Effect.session s' text ∈ P.waiting t := by
            rw [ht, List.mem_singleton.mp (mem_textsTo.mp htext)]
            exact List.mem_cons_self
          exact hc ((h.speaks hin).2 s k b hu).symm
        · intro text htext
          cases htext
  · rw [sends_due] at hp
    exact (h.due hp).mono fun d m hd => by rw [sends_home]; exact hd

/-! ## Steps and runs -/

omit [DecidableEq N] in
/-- Frames of clients do not matter. -/
theorem Inv.of_mail (h : P.Inv G) {mail : Strand N → List Frame}
    (hmail : ∀ m s, mail (.session m s) = P.mail (.session m s)) :
    Inv G { P with mail := mail } where
  id := h.id
  known := h.known
  fresh := h.fresh
  rows hh := h.rows hh
  mail hf := by
    simp only [hmail] at hf
    exact h.mail hf
  client := h.client
  session := h.session
  agree hl k := by
    simp only [toRead, hmail]
    exact h.agree hl k
  due hp := (h.due hp).mono fun _ _ hd => hd

/-- The handler of a publish looks up the subscribed sessions. -/
theorem Inv.of_lookup (h : P.Inv G) {t : Strand N} {p : Publishing} (hdue : P.due t = some p)
    (hidle : P.waiting t = []) : Inv G { P.awaits t (p.effects (P.node t.node)) with
      due := Function.update P.due t none } := by
  have howes := h.due hdue
  obtain ⟨n, context, c⟩ := t
  obtain rfl : context = .onClient := howes.context
  have he := Publishing.event howes.reply (P.node n) (.start still (P.node n)) c
  refine h.of_client he (fun s text ht => ?_) hidle (Function.update_eq_self n P.node).symm rfl
    (fun _ _ => rfl) (fun _ _ hd => hd) howes.home
    fun hq => h.owes rfl rfl (fun _ hx => by cases hx) hq
  rw [Publishing.text_effects howes.reply ht]
  exact p.legible_message

/-- **Every step of the strands keeps the invariant.** -/
theorem Inv.of_step (h : P.Inv G) (hG : G.Single) {a : Action N} (hs : P.Step G a Q) :
    Q.Inv G := by
  cases hs with
  | connect fresh idle eq =>
    rename_i n c env w
    have hlegible : ∀ s, ∀ text ∈ textsTo s w.effects, Legible text := by
      intro s text ht
      rw [clientListenerOnAccept_eq] at eq
      cases eq
      exact Cluster.legible_toSessions (m := .join (env.random 0) c) trivial ht
    have hhome : ∀ d m, P.home d = some m → Function.update P.home c (some n) d = some m := by
      intro d m hd
      have hne : d ≠ c := by
        rintro rfl
        rw [fresh] at hd
        cases hd
      exact (Function.update_of_ne hne _ _).trans hd
    exact h.of_client (clientEvent_connect (h.rows_of_new fresh n) eq) hlegible idle rfl rfl
      (fun _ _ => rfl) hhome (Function.update_self ..) fun hp => (h.due hp).mono hhome
  | accept home op idle eq =>
    refine h.of_client (clientEvent_onAccept eq) (fun s text ht => ?_) idle rfl rfl
      (fun _ _ => rfl) (fun _ _ hd => hd) home fun hp => (h.due hp).mono fun _ _ hd => hd
    cases eq
    cases ht
  | fail home op idle eq =>
    rename_i n c env w
    have hlegible : ∀ s, ∀ text ∈ textsTo s w.effects, Legible text := by
      intro s text ht
      rw [Client.leave_eq] at eq
      cases eq
      exact Cluster.legible_toSessions (m := .leave (env.random 0) c) trivial ht
    exact h.of_client (clientEvent_disconnect (h.rows_of_home hG home) eq) hlegible idle rfl rfl
      (fun _ _ => rfl) (fun _ _ hd => hd) home fun hp => (h.due hp).mono fun _ _ hd => hd
  | request home =>
    exact h.of_mail fun m s => push_of_ne _ _ _ (by simp)
  | read opened idle mail eq =>
    rename_i t env f fs w
    obtain ⟨n, context, id⟩ := t
    cases context with
    | onClient =>
      obtain ⟨⟨u, he⟩, hlegible, hdue⟩ := clientEvent_cut (n := n) eq
      exact h.of_client he hlegible idle rfl rfl
        (fun m s => Function.update_of_ne (by simp) _ _) (fun _ _ hd => hd) (opened rfl).1
        fun hq => h.owes rfl rfl (fun p hp => ⟨rfl, (opened rfl).1, hdue p hp⟩) hq
    | onSession =>
      rw [cut_of_none (publish?_session ..)]
      exact h.of_session hG idle mail eq
  | lookup due idle => exact h.of_lookup due idle
  | announce waiting => exact h.of_sends waiting
  | post waiting => exact h.of_sends waiting
  | onSend => exact h
  | onWrite => exact h

end Picture

/-- Where nothing about a row is to be read, the node mirrors the other end. -/
theorem Picture.Inv.mirror {P : Picture N} (h : P.Inv G) {n m : N} {s s' : Uuid}
    (hl : G.links n s = some (m, s')) {k : Key}
    (hk : Replica.Idle (updateOf s) k (P.toRead n s m s' k.about)) :
    (P.node n).Holds s k ↔ (P.node m).Holds (P.node m).id k := by
  have hagree := h.agree hl k
  rw [Replica.after_idle hk] at hagree
  exact hagree

variable [DecidableEq N] {X₀ X : Fleet N} {as : List (Action N)}

theorem inv_of_run (hG : G.Single) (h₀ : X₀.Initial G) (hX : Run.exec (step G) X₀ as = some X) :
    (X.picture G).Inv G :=
  Run.exec_invariant (I := fun X => (X.picture G).Inv G)
    (fun hI hs => hI.of_step hG (picture_step hs)) h₀.inv hX

/-- **A node mirrors what the others hold, wherever nothing is to be read.**  After any run of the
strands, a node holds a row for a session exactly when the node at the session's other end holds
it as its own, unless a text about the row is on its way or is still to be sent. -/
theorem rows_mirror (hG : G.Single) (h₀ : X₀.Initial G) (hX : Run.exec (step G) X₀ as = some X)
    {n m : N} {s s' : Uuid} (hl : G.links n s = some (m, s')) (k : Key)
    (hk : ∀ text ∈ (X.picture G).toRead n s m s' k.about, ∀ b, updateOf s text ≠ some (k, b)) :
    (X.node n).Holds s k ↔ (X.node m).Holds (X.node m).id k :=
  (inv_of_run hG h₀ hX).mirror hl hk

/-! ## Two nodes -/

/-- Two nodes that share a session. -/
def duoTopology : Topology Bool where
  id := Cluster.duoId
  links := Cluster.duoLinks
  symm h := Cluster.initial_duo.mesh.symm h

def duo : Fleet Bool where
  node := Cluster.duo.node

theorem single_duo : duoTopology.Single where
  irrefl h := Cluster.initial_duo.mesh.irrefl h
  unique h h' := Cluster.initial_duo.mesh.unique h h'

theorem initial_duo : duo.Initial duoTopology where
  id _ := rfl
  known h := Cluster.initial_duo.mesh.known h
  fresh h := Cluster.initial_duo.mesh.fresh h
  rows := Cluster.initial_duo.rows
  home _ := rfl
  notices _ := rfl
  due _ := rfl
  dropped _ := rfl
  net := rfl

theorem duo_links : duoTopology.links true (Cluster.duoSession true) =
    some (false, Cluster.duoSession false) := by decide

/-- A client connects, and its join is told to the other node. -/
def joined : List (Action Bool) :=
  [.connect false firstClient still, .announce (.client false firstClient),
    .onSend (.session false (Cluster.duoSession false)),
    .onWrite (.session false (Cluster.duoSession false)),
    .read (.session true (Cluster.duoSession true)) still]

/-- The other node has read the join. -/
theorem rows_mirror_joined : ∃ X, Run.exec (step duoTopology) duo joined = some X ∧
    ((X.node true).Holds (Cluster.duoSession true) (.client firstClient) ↔
      (X.node false).Holds (X.node false).id (.client firstClient)) := by
  have heval : ((Run.exec (step duoTopology) duo joined).any fun X =>
      decide (((X.picture duoTopology).toRead true (Cluster.duoSession true) false
        (Cluster.duoSession false) firstClient).length = 0)) = true := by
    decide +kernel
  simp only [Option.any_eq_true] at heval
  obtain ⟨X, hX, hlen⟩ := heval
  rw [decide_eq_true_eq, List.length_eq_zero_iff] at hlen
  refine ⟨X, hX, rows_mirror single_duo initial_duo hX duo_links _ fun text ht => ?_⟩
  rw [show (Key.client firstClient).about = firstClient from rfl, hlen] at ht
  cases ht

end Fleet

end Aewt
