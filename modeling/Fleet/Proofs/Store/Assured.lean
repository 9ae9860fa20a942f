import Fleet.Proofs.Store.Locality

/-!
# Queries about one driver on a backend that never fails

A backend that never fails answers every request from what it holds of the driver, at a time that
nobody controls.  `Query.Assures` says what a query comes to there: it ends with a result, and on
the way no request takes back a stored analysis that has not expired.  There is one rule for each
way to build a query, and what is known of a query under faults carries over
(`Assures.and_leads`).
-/

namespace Fleet

open TrackPolicy (pointsKey analysisKey)

/-- Whether a request sets a value. -/
def Request.isSet : Request → Bool
  | .set _ _ _ => true
  | _ => false

/-! ## Stored analyses that are not taken back -/

/-- What is stored of a driver, if anything, can be read. -/
def Holding.IsReadable (h : Holding) : Prop :=
  ∀ e, h.stored = some e → ∃ a : TrackAnalysis, Wire.read? e.value = some a

/-- **From one holding to the next no stored analysis is taken back,** unless it has expired: it
stays, or gives way to one that covers no fewer points. -/
structure Holding.Advances (h h' : Holding) : Prop where
  unlapsed : h'.lapsed = false → h.lapsed = false
  readable : h.IsReadable → h'.IsReadable
  stored : h'.lapsed = false → ∀ a, h.Finds (some a) →
    ∃ a', h'.Finds (some a') ∧ a.sequence ≤ a'.sequence

namespace Holding

theorem Advances.refl (h : Holding) : h.Advances h where
  unlapsed := id
  readable := id
  stored _ a ha := ⟨a, ha, UInt64.le_refl _⟩

theorem Advances.trans {g h k : Holding} (hgh : g.Advances h) (hhk : h.Advances k) :
    g.Advances k where
  unlapsed hk := hgh.unlapsed (hhk.unlapsed hk)
  readable hg := hhk.readable (hgh.readable hg)
  stored hk a ha := by
    obtain ⟨a', ha', hle⟩ := hgh.stored (hhk.unlapsed hk) a ha
    obtain ⟨a'', ha'', hle'⟩ := hhk.stored hk a' ha'
    exact ⟨a'', ha'', UInt64.le_trans hle hle'⟩

/-- A request that sets nothing leaves the stored analysis or finds it expired. -/
theorem advances_perform (now : Duration) (h : Holding) {r : Request} (hr : r.isSet = false) :
    h.Advances (h.perform now r).2 := by
  cases r with
  | set key value ttl => cases hr
  | get key =>
    rw [perform]
    split
    · refine ⟨fun hlapsed => ?_, fun _ _ he => ?_, fun hlapsed => ?_⟩
      · cases hlapsed
      · cases he
      · cases hlapsed
    · exact Advances.refl h
  | pushFront key value => exact ⟨id, id, fun _ a ha => ⟨a, ha, UInt64.le_refl _⟩⟩
  | range key count => exact Advances.refl h
  | trim key keep => exact ⟨id, id, fun _ a ha => ⟨a, ha, UInt64.le_refl _⟩⟩

end Holding

/-! ## Sessions -/

/-- **What a session comes to where every request is answered,** at whatever times: no request
takes back a stored analysis, and at the end there is a result for which `post` holds. -/
def Session.Assures {σ α : Type} (post : α → σ → Holding → Prop) : Session σ α → Holding → Prop
  | .done s (.ok a), h => post a s h
  | .done _ (.error _), _ => False
  | .ask _ r resume, h => ∀ now, h.Advances (h.perform now r).2 ∧
      (resume (.ok (h.perform now r).1)).Assures post (h.perform now r).2

namespace Session

variable {σ α β : Type} {h : Holding}

theorem Assures.imp {post post' : α → σ → Holding → Prop} {m : Session σ α}
    (hm : m.Assures post h) (hpost : ∀ a s h, post a s h → post' a s h) : m.Assures post' h := by
  induction m generalizing h with
  | done s result =>
    cases result with
    | ok a => exact hpost a s h hm
    | error e => exact hm
  | ask s r resume ih => exact fun now => ⟨(hm now).1, ih _ (hm now).2⟩

theorem assures_andThen {mid : α → σ → Holding → Prop} {post : β → σ → Holding → Prop}
    {m : Session σ α} {next : σ → Except FleetError α → Session σ β} (hm : m.Assures mid h)
    (hnext : ∀ a s h, mid a s h → (next s (.ok a)).Assures post h) :
    (m.andThen next).Assures post h := by
  induction m generalizing h with
  | done s result =>
    cases result with
    | ok a => exact hnext a s h hm
    | error e => exact hm.elim
  | ask s r resume ih => exact fun now => ⟨(hm now).1, ih _ (hm now).2⟩

end Session

/-! ## Queries -/

namespace Query

variable {σ α α' : Type}

/-- **What a query assures.**  Where every request is answered, from states for which `pre` holds,
it takes back no stored analysis and ends with a result for which `post` holds. -/
def Assures (pre : σ → Holding → Prop) (q : Query σ α) (post : α → σ → Holding → Prop) : Prop :=
  ∀ s h, pre s h → (q s).Assures post h

namespace Assures

variable {pre pre' : σ → Holding → Prop} {post post' : α → σ → Holding → Prop}

protected theorem pure {a : α} (h : ∀ s g, pre s g → post a s g) :
    Assures pre (pure a) post := h

protected theorem get {post : σ → σ → Holding → Prop} (h : ∀ s g, pre s g → post s s g) :
    Assures pre get post := h

protected theorem modify {f : σ → σ} {post : PUnit → σ → Holding → Prop}
    (h : ∀ s g, pre s g → post () (f s) g) : Assures pre (modify f) post := h

/-- **One after the other:** what holds between the two is up to the prover. -/
protected theorem bind {q : Query σ α'} {next : α' → Query σ α} {mid : α' → σ → Holding → Prop}
    (h : Assures pre q mid) (hnext : ∀ a, Assures (mid a) (next a) post) :
    Assures pre (q >>= next) post :=
  fun s g hpre => Session.assures_andThen (h s g hpre) fun a s' g' => hnext a s' g'

protected theorem map {q : Query σ α'} {f : α' → α} {mid : α' → σ → Holding → Prop}
    (h : Assures pre q mid) (hf : ∀ a s g, mid a s g → post (f a) s g) :
    Assures pre (f <$> q) post :=
  h.bind fun a => .pure (hf a)

/-- **A request** that sets nothing takes back nothing. -/
protected theorem request {r : Request} {post : r.Reply → σ → Holding → Prop}
    (hr : r.isSet = false)
    (h : ∀ s g, pre s g → ∀ now, post (g.perform now r).1 s (g.perform now r).2) :
    Assures pre (Query.request r) post :=
  fun s g hpre now => ⟨g.advances_perform now hr, h s g hpre now⟩

/-- A value that is set must not take back what is stored. -/
protected theorem set {key : String} {value : Bytes} {ttl : Option Duration}
    {post : Unit → σ → Holding → Prop}
    (h : ∀ s g, pre s g → ∀ expiresAt, g.Advances { g with stored := some ⟨value, expiresAt⟩ } ∧
      post () s { g with stored := some ⟨value, expiresAt⟩ }) :
    Assures pre (Query.request (.set key value ttl)) post :=
  fun s g hpre _ => h s g hpre _

protected theorem orFail {e : FleetError} {x : Option α} (hsome : ∀ s g, pre s g → x.isSome)
    (h : ∀ a, x = some a → ∀ s g, pre s g → post a s g) :
    Assures pre (Query.orFail e x) post := by
  intro s g hpre
  obtain ⟨a, rfl⟩ := Option.isSome_iff_exists.mp (hsome s g hpre)
  exact h a rfl s g hpre

protected theorem ite {c : Prop} [Decidable c] {q q' : Query σ α}
    (hpos : c → Assures pre q post) (hneg : ¬c → Assures pre q' post) :
    Assures pre (if c then q else q') post := by
  split
  · exact hpos ‹c›
  · exact hneg ‹¬c›

/-- A fact that follows from where a query starts, and does not depend on states, may be used. -/
theorem assume {q : Query σ α} {fact : Prop} (hfact : ∀ s g, pre s g → fact)
    (h : fact → Assures pre q post) : Assures pre q post :=
  fun s g hpre => h (hfact s g hpre) s g hpre

/-- More is required, and less is promised. -/
theorem weaken {q : Query σ α} (h : Assures pre q post) (hpre : ∀ s g, pre' s g → pre s g)
    (hpost : ∀ a s g, post a s g → post' a s g) : Assures pre' q post' :=
  fun s g hs => (h s g (hpre s g hs)).imp hpost

theorem weaken_pre {q : Query σ α} (h : Assures pre q post) (hpre : ∀ s g, pre' s g → pre s g) :
    Assures pre' q post := fun s g hs => h s g (hpre s g hs)

end Assures

end Query

/-! ## What carries over from queries under faults -/

namespace Faulty

/-- A backend that holds just this of a driver. -/
def holder (d : String) (h : Holding) : Faulty where
  memory := {
    lists := Table.empty.insert (pointsKey d) h.log
    values := h.stored.elim Table.empty fun e => Table.empty.insert (analysisKey d) e }
  pushed := h.arrivals.map fun value => (pointsKey d, value)
  lapsed := if h.lapsed then [analysisKey d] else []

theorem holding_holder (d : String) (h : Holding) : (holder d h).holding d = h := by
  obtain ⟨log, arrivals, stored, lapsed⟩ := h
  have harrivals : (arrivals.map fun value => (pointsKey d, value)).filter
      (fun e => e.1 = pointsKey d) = arrivals.map fun value => (pointsKey d, value) :=
    List.filter_eq_self.mpr fun e he => by
      obtain ⟨value, -, rfl⟩ := List.mem_map.mp he
      exact decide_eq_true rfl
  have hvalues : (arrivals.map fun value => (pointsKey d, value)).map Prod.snd = arrivals := by
    rw [List.map_map]
    exact List.map_id _
  cases stored <;> cases lapsed <;>
    simp [holding, holder, Memory.list, Faulty.arrivals, harrivals, hvalues]

theorem serve_of_served {fates : Nat → Fate} {f : Faulty} {now : Duration}
    (h : fates f.asked = .served now) (r : Request) :
    serve fates f r = (some (.ok (f.memory.perform now r).1), f.carryOut now r) := by
  rw [serve, h]

theorem asked_serve (fates : Nat → Fate) (f : Faulty) (r : Request) :
    (serve fates f r).2.asked = f.asked + 1 := by
  unfold serve
  cases fates f.asked <;> rfl

/-- What becomes of a session depends on the fates of the requests to come only. -/
theorem run_congr_fates {σ α : Type} {fates fates' : Nat → Fate} {m : Session σ α} {f : Faulty}
    (h : ∀ n, f.asked ≤ n → fates n = fates' n) :
    m.run (serve fates) f = m.run (serve fates') f := by
  induction m generalizing f with
  | done s result => rfl
  | ask s r resume ih =>
    have hserve : serve fates f r = serve fates' f r := by
      unfold serve
      rw [h f.asked (Nat.le_refl _)]
    have hasked := asked_serve fates f r
    rw [Session.run, Session.run, ← hserve]
    generalize serve fates f r = served at hasked ⊢
    obtain ⟨_ | answer, after⟩ := served
    · rfl
    · refine ih answer fun n hn => h n ?_
      rw [show after.asked = f.asked + 1 from hasked] at hn
      exact Nat.le_of_succ_le hn

end Faulty

/-- What a session settles to whatever the fates of its requests, it settles to where they are
answered. -/
theorem Session.Assures.and_settles {σ α : Type} {d : String}
    {post post' : α → σ → Holding → Prop} {stop : σ → Holding → Prop} {m : Session σ α}
    {f : Faulty} (hm : m.Assures post (f.holding d)) (hasks : m.Asks (Request.About d))
    (hsettles : ∀ fates, Settles (fun a s f => post' a s (f.holding d))
      (fun s f => stop s (f.holding d)) (m.run (Faulty.serve fates) f)) :
    m.Assures (fun a s h => post a s h ∧ post' a s h) (f.holding d) := by
  induction m generalizing f with
  | done s result =>
    cases result with
    | ok a => exact ⟨hm, hsettles fun _ => .stalled⟩
    | error e => exact hm
  | ask s r resume ih =>
    intro now
    have hreply := congrArg Prod.fst (f.perform_holding now hasks.1)
    have hafter := congrArg Prod.snd (f.perform_holding now hasks.1)
    have hnow := hm now
    rw [← hreply, ← hafter] at hnow ⊢
    refine ⟨hnow.1, ih _ hnow.2 (hasks.2 _) fun fates => ?_⟩
    -- the request that is made now is served now, and those to come meet their own fates
    have hserved := hsettles fun n => if n = f.asked then .served now else fates n
    have hlater : ∀ n, (f.carryOut now r).asked ≤ n →
        (if n = f.asked then Fate.served now else fates n) = fates n := by
      intro n hn
      refine if_neg fun heq => ?_
      subst heq
      exact Nat.not_succ_le_self f.asked hn
    rw [Session.run, Faulty.serve_of_served (if_pos rfl)] at hserved
    dsimp only at hserved
    rw [Faulty.run_congr_fates hlater] at hserved
    exact hserved

/-- **What a query about a driver leads to under faults, it leads to without.** -/
theorem Query.Assures.and_leads {σ α : Type} {d : String} {pre stop : σ → Holding → Prop}
    {post post' : α → σ → Holding → Prop} {q : Query σ α} (h : q.Assures pre post)
    (hasks : q.Asks (Request.About d))
    (hleads : ∀ fates, Query.Leads fates d pre q post' stop) :
    q.Assures pre fun a s h => post a s h ∧ post' a s h := by
  intro s g hpre
  have hg := Faulty.holding_holder d g
  rw [← hg] at hpre ⊢
  exact (h s _ hpre).and_settles (hasks s) fun fates => hleads fates s _ hpre

end Fleet
