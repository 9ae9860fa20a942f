import Fleet.Store.Session

/-!
# What a query ensures

A query is held against a server, and may end with a result, with an error, or at a request that is
never answered.  `Query.Ensures` says what holds of the query's state and of the server's state in
the first case and what in the other two, and there is one rule for each way to build a query.  A
query that only makes some requests leaves alone what those requests leave alone:
`Ensures.frame`.
-/

namespace Fleet

/-! ## How a session settles -/

/-- A session has ended as it should: with a result for which `post` holds, or without one where
`stop` holds. -/
def Settles {σ α β : Type} (post : α → σ → β → Prop) (stop : σ → β → Prop) :
    Outcome α × σ × β → Prop
  | (.finished (.ok a), s, b) => post a s b
  | (.finished (.error _), s, b) => stop s b
  | (.stalled, s, b) => stop s b

/-- A request has been served as it should: with a reply for which `post` holds, or without one
where `stop` holds. -/
def Serves {β : Type} {r : Request} (post : r.Reply → β → Prop) (stop : β → Prop) :
    Option r.Result × β → Prop
  | (some (.ok reply), b) => post reply b
  | (some (.error _), b) => stop b
  | (none, b) => stop b

theorem Settles.imp {σ α β : Type} {post post' : α → σ → β → Prop} {stop stop' : σ → β → Prop}
    {x : Outcome α × σ × β} (h : Settles post stop x)
    (hpost : ∀ a s b, post a s b → post' a s b) (hstop : ∀ s b, stop s b → stop' s b) :
    Settles post' stop' x := by
  obtain ⟨⟨_ | a⟩ | _, s, b⟩ := x
  · exact hstop s b h
  · exact hpost a s b h
  · exact hstop s b h

theorem Settles.and {σ α β : Type} {post post' : α → σ → β → Prop} {stop stop' : σ → β → Prop}
    {x : Outcome α × σ × β} (h : Settles post stop x) (h' : Settles post' stop' x) :
    Settles (fun a s b => post a s b ∧ post' a s b) (fun s b => stop s b ∧ stop' s b) x := by
  obtain ⟨⟨_ | a⟩ | _, s, b⟩ := x <;> exact ⟨h, h'⟩

/-- A session that has settled ended with a result, or stopped. -/
theorem Settles.ok_or_stop {σ α β : Type} {post : α → σ → β → Prop} {stop : σ → β → Prop}
    {x : Outcome α × σ × β} (h : Settles post stop x) :
    (∃ a, x.1 = .finished (.ok a) ∧ post a x.2.1 x.2.2) ∨ stop x.2.1 x.2.2 := by
  obtain ⟨⟨_ | a⟩ | _, s, b⟩ := x
  · exact .inr h
  · exact .inl ⟨a, rfl, h⟩
  · exact .inr h

/-- What holds of the result of a session that has settled. -/
theorem Settles.of_ok {σ α β : Type} {post : α → σ → β → Prop} {stop : σ → β → Prop}
    {x : Outcome α × σ × β} (h : Settles post stop x) {a : α} (ha : x.1 = .finished (.ok a)) :
    post a x.2.1 x.2.2 := by
  obtain ⟨_, s, b⟩ := x
  subst ha
  exact h

/-- What holds of every end holds of the states of a session that has settled. -/
theorem Settles.always {σ α β : Type} {p : σ → β → Prop} {x : Outcome α × σ × β}
    (h : Settles (fun _ => p) p x) : p x.2.1 x.2.2 := by
  obtain ⟨⟨_ | a⟩ | _, s, b⟩ := x <;> exact h

theorem settles_always {σ α β : Type} (p : σ → β → Prop) {x : Outcome α × σ × β}
    (h : p x.2.1 x.2.2) : Settles (fun _ => p) p x := by
  obtain ⟨⟨_ | a⟩ | _, s, b⟩ := x <;> exact h

namespace Query

variable {σ α α' β γ : Type}

/-- **What a query ensures.**  Held against the server from states where `pre` holds, it ends with a
result for which `post` holds, or without one where `stop` holds. -/
def Ensures (serve : Server β) (pre : σ → β → Prop) (q : Query σ α) (post : α → σ → β → Prop)
    (stop : σ → β → Prop) : Prop :=
  ∀ s b, pre s b → Settles post stop ((q s).run serve b)

namespace Ensures

variable {serve : Server β} {pre pre' stop stop' : σ → β → Prop} {post post' : α → σ → β → Prop}

/-! ## One rule for each way to build a query -/

protected theorem pure {a : α} (h : ∀ s b, pre s b → post a s b) :
    Ensures serve pre (pure a) post stop := h

protected theorem throw {e : FleetError} (h : ∀ s b, pre s b → stop s b) :
    Ensures serve pre (throw e : Query σ α) post stop := h

theorem throw_bind {e : FleetError} {next : α' → Query σ α} (h : ∀ s b, pre s b → stop s b) :
    Ensures serve pre (MonadExcept.throw e >>= next) post stop := h

protected theorem get {post : σ → σ → β → Prop} (h : ∀ s b, pre s b → post s s b) :
    Ensures serve pre get post stop := h

protected theorem modify {f : σ → σ} {post : PUnit → σ → β → Prop}
    (h : ∀ s b, pre s b → post () (f s) b) : Ensures serve pre (modify f) post stop := h

/-- **One after the other:** what holds between the two is up to the prover. -/
protected theorem bind {q : Query σ α'} {next : α' → Query σ α} {mid : α' → σ → β → Prop}
    (h : Ensures serve pre q mid stop) (hnext : ∀ a, Ensures serve (mid a) (next a) post stop) :
    Ensures serve pre (q >>= next) post stop := by
  intro s b hpre
  have hq := h s b hpre
  show Settles post stop (((q s).andThen _).run serve b)
  rw [Session.run_andThen]
  cases hrun : (q s).run serve b with
  | mk outcome after =>
    obtain ⟨s', b'⟩ := after
    rw [hrun] at hq
    cases outcome with
    | stalled => exact hq
    | finished result =>
      cases result with
      | error e => exact hq
      | ok a => exact hnext a s' b' hq

/-- **A request:** what it ensures is what the server does with it. -/
protected theorem request {r : Request} {post : r.Reply → σ → β → Prop}
    (h : ∀ s b, pre s b → Serves (fun reply => post reply s) (stop s) (serve b r)) :
    Ensures serve pre (Query.request r) post stop := by
  intro s b hpre
  have hr := h s b hpre
  show Settles post stop ((Session.ask s r _).run serve b)
  rw [Session.run]
  rcases hserve : serve b r with ⟨_ | _ | reply, b'⟩ <;>
    · rw [hserve] at hr
      exact hr

protected theorem orFail {e : FleetError} {x : Option α}
    (hsome : ∀ a, x = some a → ∀ s b, pre s b → post a s b) (hnone : ∀ s b, pre s b → stop s b) :
    Ensures serve pre (Query.orFail e x) post stop := by
  cases x with
  | none => exact hnone
  | some a => exact hsome a rfl

protected theorem ite {c : Prop} [Decidable c] {q q' : Query σ α}
    (hpos : c → Ensures serve pre q post stop) (hneg : ¬c → Ensures serve pre q' post stop) :
    Ensures serve pre (if c then q else q') post stop := by
  split
  · exact hpos ‹c›
  · exact hneg ‹¬c›

protected theorem map {q : Query σ α'} {f : α' → α} {mid : α' → σ → β → Prop}
    (h : Ensures serve pre q mid stop) (hf : ∀ a s b, mid a s b → post (f a) s b) :
    Ensures serve pre (f <$> q) post stop :=
  h.bind fun a => .pure (hf a)

/-- A fact that follows from where a query starts, and does not depend on states, may be used. -/
theorem assume {q : Query σ α} {fact : Prop} (hfact : ∀ s b, pre s b → fact)
    (h : fact → Ensures serve pre q post stop) : Ensures serve pre q post stop :=
  fun s b hpre => h (hfact s b hpre) s b hpre

/-- More is required, and less is promised. -/
theorem weaken {q : Query σ α} (h : Ensures serve pre q post stop)
    (hpre : ∀ s b, pre' s b → pre s b) (hpost : ∀ a s b, post a s b → post' a s b)
    (hstop : ∀ s b, stop s b → stop' s b) : Ensures serve pre' q post' stop' :=
  fun s b hs => (h s b (hpre s b hs)).imp hpost hstop

theorem weaken_pre {q : Query σ α} (h : Ensures serve pre q post stop)
    (hpre : ∀ s b, pre' s b → pre s b) : Ensures serve pre' q post stop :=
  fun s b hs => h s b (hpre s b hs)

/-- Two things that a query ensures, it ensures at once. -/
protected theorem and {q : Query σ α} (h : Ensures serve pre q post stop)
    (h' : Ensures serve pre' q post' stop') :
    Ensures serve (fun s b => pre s b ∧ pre' s b) q (fun a s b => post a s b ∧ post' a s b)
      fun s b => stop s b ∧ stop' s b :=
  fun s b hs => (h s b hs.1).and (h' s b hs.2)

theorem weaken_stop {q : Query σ α} (h : Ensures serve pre q post stop)
    (hstop : ∀ s b, stop s b → stop' s b) : Ensures serve pre q post stop' :=
  h.weaken (fun _ _ hs => hs) (fun _ _ _ hs => hs) hstop

end Ensures

end Query

/-! ## Laws -/

theorem Session.andThen_done {σ α : Type} (m : Session σ α) : m.andThen .done = m := by
  induction m with
  | done s result => rfl
  | ask s r resume ih =>
    rw [andThen]
    congr
    funext answer
    exact ih answer

/-- Queries in a row may be grouped either way. -/
instance {σ : Type} : LawfulMonad (Query σ) := by
  refine LawfulMonad.mk' (Query σ) ?_ (fun _ _ => rfl) ?_
  · intro α q
    funext s
    refine Eq.trans ?_ (Session.andThen_done (q s))
    show (q s).andThen _ = (q s).andThen _
    congr
    funext s' result
    cases result <;> rfl
  · intro α β γ q f g
    funext s
    show ((q s).andThen _).andThen _ = (q s).andThen _
    rw [Session.andThen_assoc]
    congr
    funext s' result
    cases result <;> rfl

/-! ## The requests that a query makes -/

/-- Whatever it is answered, a session only makes requests of a certain kind. -/
def Session.Asks {σ α : Type} (p : Request → Prop) : Session σ α → Prop
  | .done _ _ => True
  | .ask _ r resume => p r ∧ ∀ answer, (resume answer).Asks p

theorem Session.Asks.mono {σ α : Type} {p p' : Request → Prop} (hp : ∀ r, p r → p' r)
    {m : Session σ α} (hm : m.Asks p) : m.Asks p' := by
  induction m with
  | done s result => trivial
  | ask s r resume ih => exact ⟨hp r hm.1, fun answer => ih answer (hm.2 answer)⟩

theorem Session.asks_andThen {σ α β : Type} {p : Request → Prop} {m : Session σ α}
    {next : σ → Except FleetError α → Session σ β} (hm : m.Asks p)
    (hnext : ∀ s r, (next s r).Asks p) : (m.andThen next).Asks p := by
  induction m with
  | done s result => exact hnext s result
  | ask s r resume ih => exact ⟨hm.1, fun answer => ih answer (hm.2 answer)⟩

/-- What every request of that kind leads to, a session leads to. -/
theorem Session.Asks.run_rel {σ α β : Type} {serve : Server β} {p : Request → Prop}
    {R : β → β → Prop} (hrefl : ∀ b, R b b) (htrans : ∀ a b c, R a b → R b c → R a c)
    (hserve : ∀ b r, p r → R b (serve b r).2) {m : Session σ α} (hm : m.Asks p) (b : β) :
    R b (m.run serve b).2.2 := by
  induction m generalizing b with
  | done => exact hrefl b
  | ask s r resume ih =>
    have hstep := hserve b r hm.1
    rw [run]
    generalize serve b r = served at hstep ⊢
    obtain ⟨_ | answer, after⟩ := served
    · exact hstep
    · exact htrans _ _ _ hstep (ih answer (hm.2 answer) after)

/-- What no request of that kind changes is as it was at the end of the session. -/
theorem Session.Asks.run_eq {σ α β γ : Type} {serve : Server β} {p : Request → Prop} (f : β → γ)
    (hf : ∀ b r, p r → f (serve b r).2 = f b) {m : Session σ α} (hm : m.Asks p) (b : β) :
    f (m.run serve b).2.2 = f b :=
  hm.run_rel (R := fun b b' => f b' = f b) (fun _ => rfl) (fun _ _ _ h h' => h'.trans h) hf b

namespace Query

variable {σ α α' β γ : Type} {p : Request → Prop}

/-- From wherever it starts, a query only makes requests of a certain kind. -/
def Asks (p : Request → Prop) (q : Query σ α) : Prop := ∀ s, (q s).Asks p

namespace Asks

theorem mono {p' : Request → Prop} {q : Query σ α} (hq : q.Asks p) (hp : ∀ r, p r → p' r) :
    q.Asks p' := fun s => (hq s).mono hp

protected theorem pure (a : α) : Asks p (pure a : Query σ α) := fun _ => trivial

protected theorem throw (e : FleetError) : Asks p (throw e : Query σ α) := fun _ => trivial

/-- Nothing is asked after an error. -/
theorem throw_bind (e : FleetError) (next : α' → Query σ α) :
    Asks p (MonadExcept.throw e >>= next) := fun _ => trivial

protected theorem get : Asks p (get : Query σ σ) := fun _ => trivial

protected theorem modify (f : σ → σ) : Asks p (modify f : Query σ PUnit) := fun _ => trivial

protected theorem request {r : Request} (h : p r) : Asks p (Query.request r : Query σ r.Reply) :=
  fun _ => ⟨h, fun _ => trivial⟩

protected theorem orFail (e : FleetError) (x : Option α) :
    Asks p (Query.orFail e x : Query σ α) := by
  cases x with
  | none => exact Asks.throw e
  | some a => exact Asks.pure a

protected theorem bind {q : Query σ α'} {next : α' → Query σ α} (hq : q.Asks p)
    (hnext : ∀ a, (next a).Asks p) : (q >>= next).Asks p := by
  refine fun s => Session.asks_andThen (hq s) fun s' result => ?_
  cases result with
  | error e => trivial
  | ok a => exact hnext a s'

protected theorem ite {c : Prop} [Decidable c] {q q' : Query σ α} (hpos : q.Asks p)
    (hneg : q'.Asks p) : (if c then q else q').Asks p := by
  split
  · exact hpos
  · exact hneg

end Asks

end Query

/-! ## How many entries a query makes -/

namespace Request

/-- Whether a request makes a new entry of a list. -/
def isPush : Request → Bool
  | .pushFront _ _ => true
  | _ => false

/-- The number of entries that a request makes. -/
def pushes (r : Request) : Nat := if r.isPush then 1 else 0

theorem pushes_eq_zero {r : Request} (h : r.isPush = false) : r.pushes = 0 := by
  simp [pushes, h]

end Request

/-- Whatever it is answered, a session makes at most `n` entries. -/
def Session.PushesAtMost {σ α : Type} : Nat → Session σ α → Prop
  | _, .done _ _ => True
  | n, .ask _ r resume => r.pushes ≤ n ∧ ∀ answer, (resume answer).PushesAtMost (n - r.pushes)

namespace Session

variable {σ α β : Type} {m : Session σ α} {k n : Nat}

theorem PushesAtMost.mono (hm : m.PushesAtMost k) (h : k ≤ n) : m.PushesAtMost n := by
  induction m generalizing k n with
  | done => trivial
  | ask s r resume ih =>
    exact ⟨Nat.le_trans hm.1 h, fun answer => ih answer (hm.2 answer) (Nat.sub_le_sub_right h _)⟩

theorem Asks.pushesAtMost (hm : m.Asks fun r => r.isPush = false) : m.PushesAtMost 0 := by
  induction m with
  | done => trivial
  | ask s r resume ih =>
    have hnone := Request.pushes_eq_zero hm.1
    refine ⟨Nat.le_of_eq hnone, fun answer => ?_⟩
    rw [hnone]
    exact ih answer (hm.2 answer)

theorem pushesAtMost_andThen {next : σ → Except FleetError α → Session σ β}
    (hm : m.PushesAtMost k) (hnext : ∀ s result, (next s result).PushesAtMost n) :
    (m.andThen next).PushesAtMost (k + n) := by
  induction m generalizing k with
  | done s result => exact (hnext s result).mono (Nat.le_add_left n k)
  | ask s r resume ih =>
    refine ⟨Nat.le_trans hm.1 (Nat.le_add_right k n), fun answer => ?_⟩
    have hsum : k + n - r.pushes = k - r.pushes + n := Nat.sub_add_comm hm.1
    rw [hsum]
    exact ih answer (hm.2 answer)

/-- **A server that counts entries** counts no more than the session makes. -/
theorem PushesAtMost.run_le {serve : Server β} {c : β → Nat}
    (hserve : ∀ b r, c (serve b r).2 ≤ c b + r.pushes) (hm : m.PushesAtMost n) (b : β) :
    c (m.run serve b).2.2 ≤ c b + n := by
  induction m generalizing b n with
  | done => exact Nat.le_add_right _ _
  | ask s r resume ih =>
    have hstep := hserve b r
    have hpushes := hm.1
    rw [run]
    generalize serve b r = served at hstep ⊢
    obtain ⟨_ | answer, after⟩ := served
    · exact Nat.le_trans hstep (Nat.add_le_add_left hpushes _)
    · calc c ((resume answer).run serve after).2.2
          ≤ c after + (n - r.pushes) := ih answer (hm.2 answer) after
        _ ≤ c b + r.pushes + (n - r.pushes) := Nat.add_le_add_right hstep _
        _ = c b + n := by omega

end Session

namespace Query

variable {σ α α' : Type} {k n : Nat}

/-- From wherever it starts, a query makes at most `n` entries. -/
def PushesAtMost (n : Nat) (q : Query σ α) : Prop := ∀ s, (q s).PushesAtMost n

namespace PushesAtMost

protected theorem bind {q : Query σ α'} {next : α' → Query σ α} (hq : q.PushesAtMost k)
    (hnext : ∀ a, (next a).PushesAtMost n) : (q >>= next).PushesAtMost (k + n) := by
  refine fun s => Session.pushesAtMost_andThen (hq s) fun s' result => ?_
  cases result with
  | error e => trivial
  | ok a => exact hnext a s'

protected theorem request (r : Request) :
    (Query.request r : Query σ r.Reply).PushesAtMost r.pushes :=
  fun _ => ⟨Nat.le_refl _, fun _ => trivial⟩

end PushesAtMost

theorem Asks.pushesAtMost {q : Query σ α} (hq : q.Asks fun r => r.isPush = false) :
    q.PushesAtMost 0 := fun s => (hq s).pushesAtMost

end Query

/-! ## What a query can yield -/

/-- Whatever it is answered, a session only yields results of a certain kind. -/
def Session.Yields {σ α : Type} (p : α → Prop) : Session σ α → Prop
  | .done _ (.ok a) => p a
  | .done _ (.error _) => True
  | .ask _ _ resume => ∀ answer, (resume answer).Yields p

theorem Session.yields_andThen {σ α β : Type} {p : α → Prop} {p' : β → Prop} {m : Session σ α}
    {next : σ → Except FleetError α → Session σ β} (hm : m.Yields p)
    (hok : ∀ s a, p a → (next s (.ok a)).Yields p')
    (herror : ∀ s e, (next s (.error e)).Yields p') : (m.andThen next).Yields p' := by
  induction m with
  | done s result =>
    cases result with
    | ok a => exact hok s a hm
    | error e => exact herror s e
  | ask s r resume ih => exact fun answer => ih answer (hm answer)

/-- A session ends with a result it can yield, or without one. -/
theorem Session.Yields.settles {σ α β : Type} {p : α → Prop} {m : Session σ α} (hm : m.Yields p)
    (serve : Server β) (b : β) :
    Settles (fun a _ _ => p a) (fun _ _ => True) (m.run serve b) := by
  induction m generalizing b with
  | done s result =>
    cases result with
    | ok a => exact hm
    | error e => trivial
  | ask s r resume ih =>
    rw [run]
    rcases serve b r with ⟨_ | answer, after⟩
    · trivial
    · exact ih answer (hm answer) after

namespace Query

variable {σ α α' β γ : Type} {p : Request → Prop}

/-- From wherever it starts, a query only yields results of a certain kind. -/
def Yields (p : α → Prop) (q : Query σ α) : Prop := ∀ s, (q s).Yields p

namespace Yields

variable {p : α → Prop} {p' : α' → Prop}

/-- Some result or none: nothing is said of it. -/
protected theorem trivial (q : Query σ α) : q.Yields fun _ => True := by
  intro s
  induction q s with
  | done s result => cases result <;> trivial
  | ask s r resume ih => exact ih

protected theorem pure {a : α} (h : p a) : Yields p (pure a : Query σ α) := fun _ => h

protected theorem throw (e : FleetError) : Yields p (throw e : Query σ α) := fun _ => trivial

protected theorem bind {q : Query σ α'} {next : α' → Query σ α} (hq : q.Yields p')
    (hnext : ∀ a, p' a → (next a).Yields p) : (q >>= next).Yields p :=
  fun s => Session.yields_andThen (hq s) (fun s' a ha => hnext a ha s') fun _ _ => trivial

protected theorem ite {c : Prop} [Decidable c] {q q' : Query σ α} (hpos : q.Yields p)
    (hneg : q'.Yields p) : (if c then q else q').Yields p := by
  split
  · exact hpos
  · exact hneg

end Yields

/-- **The frame rule.**  What none of a query's requests changes may be added to whatever the query
ensures. -/
theorem Ensures.frame {serve : Server β} {pre stop : σ → β → Prop} {post : α → σ → β → Prop}
    {q : Query σ α} {f : β → γ} (h : q.Ensures serve pre post stop) (hq : q.Asks p)
    (hf : ∀ b r, p r → f (serve b r).2 = f b) (c : γ) :
    q.Ensures serve (fun s b => pre s b ∧ f b = c) (fun a s b => post a s b ∧ f b = c)
      (fun s b => stop s b ∧ f b = c) := by
  rintro s b ⟨hpre, rfl⟩
  exact (h s b hpre).and (settles_always (fun _ b' => f b' = f b) ((hq s).run_eq f hf b))

end Query

end Fleet
