import Fleet.Proofs.Store.Call

/-!
# Drivers do not interfere

What becomes of a driver depends on that driver alone: on its slot and on what the backend holds of
it.  A request about a driver is answered from the driver's holding (`perform_holding`), so a call
answers alike in two states that are the same for its driver (`Call.run_sameFor`), and it leaves
alone what another driver's calls depend on (`Call.run_spares`).
-/

namespace Fleet

open TrackPolicy (pointsKey analysisKey)

/-! ## Requests about one driver -/

namespace Holding

/-- Whether the stored analysis has expired at the time `now`. -/
def hasExpired (now : Duration) (h : Holding) : Bool := h.stored.any (Memory.isExpired now)

/-- **A request about a driver,** carried out at the time `now` on what is held of the driver. -/
def perform (now : Duration) (h : Holding) : (r : Request) → r.Reply × Holding
  | .pushFront _ value =>
    (h.log.length + 1, { h with log := value :: h.log, arrivals := value :: h.arrivals })
  | .range _ count => (h.log.take count, h)
  | .trim _ keep => (h.log.length - keep, { h with log := h.log.take keep })
  | .set _ value ttl => ((), { h with stored := some ⟨value, ttl.bind now.add?⟩ })
  | .get _ =>
    if h.hasExpired now then ((none : Option Bytes), { h with stored := none, lapsed := true })
    else (h.stored.map Expiring.value, h)

end Holding

namespace Faulty

variable {fates : Nat → Fate} {d : String}

/-- The backend with its requests counted from zero again. -/
def rewind (f : Faulty) : Faulty := { f with asked := 0 }

/-- A look-up finds the stored analysis unless it has expired by then. -/
theorem perform_get (now : Duration) (f : Faulty) (d : String) :
    ((f.memory.perform now (.get (analysisKey d))).1,
      (f.carryOut now (.get (analysisKey d))).holding d) =
      (f.holding d).perform now (.get (analysisKey d)) := by
  have hexpired : (f.holding d).hasExpired now =
      (f.memory.values.get? (analysisKey d)).any (Memory.isExpired now) := rfl
  simp only [Holding.perform, hexpired, carryOut, note, Memory.perform]
  cases hget : f.memory.values.get? (analysisKey d) with
  | none => simp [holding, hget, Memory.list, arrivals]
  | some e =>
    cases hlapsed : Memory.isExpired now e <;>
      simp [holding, hget, hlapsed, Memory.list, arrivals]

/-- **A request about a driver is answered from what is held of the driver.** -/
theorem perform_holding (now : Duration) (f : Faulty) {r : Request} (hr : r.About d) :
    ((f.memory.perform now r).1, (f.carryOut now r).holding d) =
      (f.holding d).perform now r := by
  cases r with
  | pushFront key value =>
    obtain rfl : key = pointsKey d := hr
    rw [holding_pushFront]
    rfl
  | range key count =>
    obtain rfl : key = pointsKey d := hr
    rfl
  | trim key keep =>
    obtain rfl : key = pointsKey d := hr
    rw [holding_trim]
    cases hget : f.memory.lists.get? (pointsKey d) <;>
      simp [Memory.perform, Holding.perform, holding, Memory.list, hget]
  | set key value ttl =>
    obtain rfl : key = analysisKey d := hr
    rw [holding_set]
    rfl
  | get key =>
    obtain rfl : key = analysisKey d := hr
    exact perform_get now f d

/-- Two backends hold the same of a driver, and the same fate awaits the next request. -/
def Agree (d : String) (f f' : Faulty) : Prop := f.asked = f'.asked ∧ f.holding d = f'.holding d

/-- Backends that agree on a driver serve requests about it alike, and agree again. -/
theorem Agree.serve {f f' : Faulty} (h : Agree d f f') {r : Request} (hr : r.About d) :
    (serve fates f r).1 = (serve fates f' r).1 ∧
      Agree d (serve fates f r).2 (serve fates f' r).2 := by
  obtain ⟨hasked, hholding⟩ := h
  have hcount : f.asked + 1 = f'.asked + 1 := congrArg (· + 1) hasked
  unfold Faulty.serve
  rw [congrArg fates hasked]
  cases fates f'.asked with
  | served now =>
    have hdone := (f.perform_holding now hr).trans
      ((congrArg (Holding.perform now · r) hholding).trans (f'.perform_holding now hr).symm)
    obtain ⟨hreply, hafter⟩ := Prod.mk.inj hdone
    exact ⟨congrArg (fun reply => some (Except.ok reply)) hreply, hcount, hafter⟩
  | failed cause => exact ⟨rfl, hcount, hholding⟩
  | stalled => exact ⟨rfl, hcount, hholding⟩

end Faulty

/-- **A request that is carried out** does what is asked to the driver's holding, whenever that
is. -/
theorem Query.Leads.answered {σ : Type} {d : String} {times : Nat → Duration} {r : Request}
    (hr : r.About d) {pre stop : σ → Holding → Prop} {post : r.Reply → σ → Holding → Prop}
    (h : ∀ s g n, pre s g → post (g.perform (times n) r).1 s (g.perform (times n) r).2) :
    Leads (fun n => .served (times n)) d pre (Query.request r) post stop := by
  refine Ensures.request fun s f hpre => ?_
  have hdone := f.perform_holding (times f.asked) hr
  have hpost := h s (f.holding d) f.asked hpre
  rw [← hdone] at hpost
  exact hpost

/-- **Two runs of a session:** servers that answer its requests alike bring it to the same end.
They need do so only within bounds `W`, which are kept all along if they are kept at the end. -/
theorem Session.Asks.run_congr {σ α β : Type} {serve : Server β} {p : Request → Prop}
    {S : β → β → Prop} {W : β → Prop}
    (hmono : ∀ b r, p r → W (serve b r).2 → W b)
    (hserve : ∀ b b' r, p r → S b b' → W (serve b r).2 → W (serve b' r).2 →
      (serve b r).1 = (serve b' r).1 ∧ S (serve b r).2 (serve b' r).2)
    {m : Session σ α} (hm : m.Asks p) {b b' : β} (h : S b b') (hend : W (m.run serve b).2.2)
    (hend' : W (m.run serve b').2.2) :
    (m.run serve b).1 = (m.run serve b').1 ∧ (m.run serve b).2.1 = (m.run serve b').2.1 ∧
      S (m.run serve b).2.2 (m.run serve b').2.2 := by
  induction m generalizing b b' with
  | done => exact ⟨rfl, rfl, h⟩
  | ask s r resume ih =>
    have hwithin (b : β) (hend : W ((ask s r resume).run serve b).2.2) : W (serve b r).2 := by
      rw [run] at hend
      rcases hb : serve b r with ⟨_ | answer, after⟩
      · rwa [hb] at hend
      · rw [hb] at hend
        exact (hm.2 answer).run_rel (R := fun b b' => W b' → W b) (fun _ h => h)
          (fun _ _ _ h h' hw => h (h' hw)) hmono after hend
    obtain ⟨hanswer, hafter⟩ := hserve b b' r hm.1 h (hwithin b hend) (hwithin b' hend')
    rw [run] at hend hend'
    rw [run, run]
    rcases hb : serve b r with ⟨answer, after⟩
    rcases hb' : serve b' r with ⟨answer', after'⟩
    rw [hb, hb'] at hanswer hafter
    rw [hb] at hend
    rw [hb'] at hend'
    obtain rfl : answer = answer' := hanswer
    cases answer with
    | none => exact ⟨rfl, rfl, hafter⟩
    | some answer => exact ih answer (hm.2 answer) hafter hend hend'

/-! ## Operations on one driver -/

/-- Whether appends take a point: its driver has a name, and its coordinates are valid. -/
def TrackPoint.isAcceptable (q : TrackPoint) : Bool :=
  !q.driverId.isEmpty && q.position.isValid

namespace TrackPolicy

/-- An append of an acceptable point needs the slot of its driver. -/
theorem append_of_isAcceptable (p : TrackPolicy) (now : Timestamp) {point : TrackPoint}
    (h : point.isAcceptable = true) :
    p.append now point = pure (.leased point.driverId (p.appendLeased now point)) := by
  simp only [TrackPoint.isAcceptable, Bool.and_eq_true, Bool.not_eq_true'] at h
  have hnonempty : ¬point.driverId.isEmpty = true := by
    rw [h.1]
    exact nofun
  have hvalid : Geo.validate point.position.latitude point.position.longitude = .ok () :=
    if_pos h.2
  refine (if_neg hnonempty).trans ?_
  rw [hvalid]

/-- An append of any other point is refused at once. -/
theorem append_of_not_isAcceptable (p : TrackPolicy) (now : Timestamp) {point : TrackPoint}
    (h : point.isAcceptable = false) : ∃ e, p.append now point = throw e := by
  by_cases hempty : point.driverId.isEmpty = true
  · exact ⟨.invalidInput .emptyDriverId, (if_pos hempty).trans rfl⟩
  · have hvalid : Geo.validate point.position.latitude point.position.longitude =
        .error (.invalidCoordinate point.position.latitude point.position.longitude) := by
      refine if_neg ?_
      intro hvalid
      have haccepted : point.isAcceptable = true := by
        simp only [TrackPoint.isAcceptable, Bool.and_eq_true, Bool.not_eq_true']
        exact ⟨by simpa using hempty, hvalid⟩
      rw [h] at haccepted
      cases haccepted
    refine ⟨.invalidCoordinate point.position.latitude point.position.longitude,
      (if_neg hempty).trans ?_⟩
    rw [hvalid]
    rfl

/-- An append is refused at once, or needs the slot of its driver. -/
theorem append_cases (p : TrackPolicy) (now : Timestamp) (point : TrackPoint) :
    (∃ e, p.append now point = throw e) ∨
      p.append now point = pure (.leased point.driverId (p.appendLeased now point)) := by
  cases h : point.isAcceptable with
  | false => exact Or.inl (p.append_of_not_isAcceptable now h)
  | true => exact Or.inr (p.append_of_isAcceptable now h)

/-- A point is taken in on behalf of its own driver or refused. -/
theorem ingest_cases (p : TrackPolicy) (now : Timestamp) (d : String) (point : TrackPoint) :
    (∃ e, p.ingest now d point = throw e) ∨
      point.driverId = d ∧ p.ingest now d point = p.append now point := by
  by_cases hown : point.driverId = d
  · exact Or.inr ⟨hown, if_neg (not_not_intro hown)⟩
  · exact Or.inl ⟨.invalidInput (.foreignPoint point.driverId d), if_pos hown⟩

/-- A read of some points of a driver with a name needs the slot if there is a point. -/
theorem analyzed_of_count (p : TrackPolicy) (now : Timestamp) {d : String} {count : Nat}
    (hd : d.isEmpty = false) (hcount : count ≠ 0) :
    p.analyzed now d count = do
      let newest : List Bytes ← Query.request (.range (pointsKey d) 1)
      if newest.isEmpty then return .answered []
      return .leased d do
        return (← p.currentAnalysis now d).lastPoints (min count p.windowSize) := by
  have hnonempty : ¬d.isEmpty = true := by
    rw [hd]
    exact nofun
  have hanalyzed := (if_neg hnonempty : p.analyzed now d count = _)
  exact hanalyzed.trans (if_neg hcount)

/-- A read is refused at once, or it is of some points of a driver with a name. -/
theorem analyzed_refused_or (p : TrackPolicy) (now : Timestamp) (d : String) (count : Nat) :
    (∃ e, p.analyzed now d count = throw e) ∨ d.isEmpty = false ∧ count ≠ 0 := by
  cases hempty : d.isEmpty with
  | true => exact Or.inl ⟨.invalidInput .emptyDriverId, (if_pos hempty).trans rfl⟩
  | false =>
    by_cases hzero : count = 0
    · have hnonempty : ¬d.isEmpty = true := by
        rw [hempty]
        exact nofun
      have hanalyzed := (if_neg hnonempty : p.analyzed now d count = _)
      exact Or.inl ⟨.invalidInput .zeroCount, hanalyzed.trans ((if_pos hzero).trans rfl)⟩
    · exact Or.inr ⟨rfl, hzero⟩

/-- A read is refused at once, or needs the slot if there is a point. -/
theorem analyzed_cases (p : TrackPolicy) (now : Timestamp) (d : String) (count : Nat) :
    (∃ e, p.analyzed now d count = throw e) ∨
      p.analyzed now d count = do
        let newest : List Bytes ← Query.request (.range (pointsKey d) 1)
        if newest.isEmpty then return .answered []
        return .leased d do
          return (← p.currentAnalysis now d).lastPoints (min count p.windowSize) :=
  (p.analyzed_refused_or now d count).imp_right fun ⟨hd, hcount⟩ =>
    p.analyzed_of_count now hd hcount

end TrackPolicy

/-- If the rest of an operation needs a slot it is the driver's, and the rest is about the
driver. -/
def Phase.Concerns {α : Type} (d : String) : Phase α → Prop
  | .answered _ => True
  | .leased e rest => e = d ∧ rest.Asks (Request.About d)

/-- **An operation concerns a driver** if it asks only about the driver and leases no slot but the
driver's. -/
structure Concerns {α : Type} (d : String) (operation : Query Unit (Phase α)) : Prop where
  asks : operation.Asks (Request.About d)
  leases : operation.Yields (Phase.Concerns d)

namespace Concerns

open Query (Asks Yields)

variable {α : Type} {d : String}

/-- An operation that is refused at once concerns whomever you like. -/
protected theorem throw (d : String) (e : FleetError) :
    Concerns d (throw e : Query Unit (Phase α)) where
  asks := Asks.throw e
  leases := Yields.throw e

/-- A look-up needs no slot. -/
theorem lookUp {q : Query Unit α} (hq : q.Asks (Request.SparesLog d)) :
    Concerns d (Phase.answered <$> q) where
  asks := (hq.mono fun _ hr => hr.1).bind fun _ => Asks.pure _
  leases := (Yields.trivial q).bind fun _ _ => Yields.pure trivial

theorem append (p : TrackPolicy) (now : Timestamp) (point : TrackPoint) :
    Concerns point.driverId (p.append now point) := by
  rcases p.append_cases now point with ⟨e, hrefused⟩ | hleased
  · rw [hrefused]
    exact Concerns.throw _ e
  · rw [hleased]
    exact ⟨Asks.pure _, Yields.pure ⟨rfl, TrackPolicy.appendLeased_asks now point⟩⟩

theorem ingest (p : TrackPolicy) (now : Timestamp) (d : String) (point : TrackPoint) :
    Concerns d (p.ingest now d point) := by
  rcases p.ingest_cases now d point with ⟨e, hrefused⟩ | ⟨rfl, hown⟩
  · rw [hrefused]
    exact Concerns.throw _ e
  · rw [hown]
    exact append p now point

theorem analyzed (p : TrackPolicy) (now : Timestamp) (d : String) (count : Nat) :
    Concerns d (p.analyzed now d count) := by
  rcases p.analyzed_cases now d count with ⟨e, hrefused⟩ | hread
  · rw [hrefused]
    exact Concerns.throw _ e
  · have hrest := TrackStore.lastPoints_asks p d now (min count p.windowSize)
    have hnewest : (Query.request (.range (pointsKey d) 1) : Query Unit (List Bytes)).Asks
        (Request.About d) := Asks.request rfl
    rw [hread]
    refine ⟨hnewest.bind fun _ => (Asks.pure _).ite (Asks.pure _), ?_⟩
    exact (Yields.trivial _).bind fun _ _ =>
      (Yields.pure trivial).ite (Yields.pure ⟨rfl, hrest⟩)

theorem save (p : TrackPolicy) (a : TrackAnalysis) : Concerns a.driverId (p.save a) :=
  ⟨Asks.pure _, Yields.pure ⟨rfl, (TrackPolicy.storeAnalysis_asks rfl).mono fun _ hr => hr.1⟩⟩

end Concerns

/-- What needs a slot makes at most one entry. -/
def Phase.Frugal {α : Type} : Phase α → Prop
  | .answered _ => True
  | .leased _ rest => rest.PushesAtMost 1

/-- **An operation is frugal** if it makes at most one entry, and that under a lease. -/
structure Frugal {α : Type} (operation : Query Unit (Phase α)) : Prop where
  first : operation.PushesAtMost 0
  leases : operation.Yields Phase.Frugal

namespace Frugal

open Query (Asks Yields)

variable {α : Type} {d : String}

protected theorem throw (e : FleetError) : Frugal (throw e : Query Unit (Phase α)) where
  first := (Asks.throw e).pushesAtMost
  leases := Yields.throw e

theorem lookUp {q : Query Unit α} (hq : q.Asks (Request.SparesLog d)) :
    Frugal (Phase.answered <$> q) where
  first := ((hq.mono fun _ hr => hr.2.isPush_eq).bind fun _ => Asks.pure _).pushesAtMost
  leases := (Yields.trivial q).bind fun _ _ => Yields.pure trivial

theorem append (p : TrackPolicy) (now : Timestamp) (point : TrackPoint) :
    Frugal (p.append now point) := by
  rcases p.append_cases now point with ⟨e, hrefused⟩ | hleased
  · rw [hrefused]
    exact Frugal.throw e
  · rw [hleased]
    exact ⟨(Asks.pure _).pushesAtMost, Yields.pure (TrackPolicy.appendLeased_pushes now point)⟩

theorem ingest (p : TrackPolicy) (now : Timestamp) (d : String) (point : TrackPoint) :
    Frugal (p.ingest now d point) := by
  rcases p.ingest_cases now d point with ⟨e, hrefused⟩ | ⟨rfl, hown⟩
  · rw [hrefused]
    exact Frugal.throw e
  · rw [hown]
    exact append p now point

theorem analyzed (p : TrackPolicy) (now : Timestamp) (d : String) (count : Nat) :
    Frugal (p.analyzed now d count) := by
  rcases p.analyzed_cases now d count with ⟨e, hrefused⟩ | hread
  · rw [hrefused]
    exact Frugal.throw e
  · have hrest : (do
        return (← p.currentAnalysis now d).lastPoints (min count p.windowSize) :
          Query Slot (List TrackPoint)).PushesAtMost 1 := fun s =>
      ((((TrackPolicy.currentAnalysis_asks now).bind fun _ => Asks.pure _).mono
        fun _ hr => hr.2.isPush_eq).pushesAtMost s).mono (Nat.zero_le 1)
    have hnewest : (Query.request (.range (pointsKey d) 1) : Query Unit (List Bytes)).Asks
        fun r => r.isPush = false := Asks.request rfl
    rw [hread]
    refine ⟨(hnewest.bind fun _ => (Asks.pure _).ite (Asks.pure _)).pushesAtMost, ?_⟩
    exact (Yields.trivial _).bind fun _ _ => (Yields.pure trivial).ite (Yields.pure hrest)

theorem save (p : TrackPolicy) (a : TrackAnalysis) : Frugal (p.save a) := by
  have hrest : (p.storeAnalysis a : Query Slot Bool).PushesAtMost 1 := fun s =>
    (((TrackPolicy.storeAnalysis_asks rfl).mono fun _ hr => hr.2.isPush_eq).pushesAtMost s).mono
      (Nat.zero_le 1)
  exact ⟨(Asks.pure _).pushesAtMost, Yields.pure hrest⟩

end Frugal

namespace TrackStore

section Servers

variable {α β : Type} {serve : Server β} {operation : Query Unit (Phase α)} {d e : String}

theorem policy_run (serve : Server β) (st : TrackStore) (backend : β)
    (operation : Query Unit (Phase α)) :
    (st.run serve backend operation).2.1.policy = st.policy := by
  rw [run]
  split
  · rfl
  · rfl
  · rfl
  · split <;> rfl

/-- What every request about a driver leads to, an operation on the driver leads to. -/
theorem run_rel (hd : Concerns d operation) {R : β → β → Prop} (hrefl : ∀ b, R b b)
    (htrans : ∀ a b c, R a b → R b c → R a c)
    (hserve : ∀ b r, Request.About d r → R b (serve b r).2) (st : TrackStore) (b : β) :
    R b (st.run serve b operation).2.2 := by
  have hfirst := ((hd.leases ()).settles serve b).and
    (settles_always (fun _ => R b) ((hd.asks ()).run_rel hrefl htrans hserve b))
  have hsettles : Settles (fun _ _ => R b) (fun _ => R b) (st.run serve b operation) := by
    refine settles_run (hfirst.imp ?_ fun _ _ h => h.2)
    rintro (answer | ⟨driverId, rest⟩) _ b' ⟨hphase, hrel⟩
    · exact hrel
    · obtain ⟨rfl, hrest⟩ := hphase
      have hend := (hrest (st.slotOf driverId)).run_rel hrefl htrans hserve b'
      exact ⟨hrel, settles_always (fun _ => R b) (htrans _ _ _ hrel hend)⟩
  exact hsettles.always

/-- An operation on a driver leaves the slots of all others alone. -/
theorem slotOf_run (hd : Concerns d operation) (hne : d ≠ e) (serve : Server β) (st : TrackStore)
    (b : β) : (st.run serve b operation).2.1.slotOf e = st.slotOf e := by
  have hsettles : Settles (fun _ st' _ => st'.slotOf e = st.slotOf e)
      (fun st' _ => st'.slotOf e = st.slotOf e) (st.run serve b operation) := by
    refine settles_run (((hd.leases ()).settles serve b).imp ?_ fun _ _ _ => rfl)
    rintro (answer | ⟨driverId, rest⟩) _ b' hphase
    · rfl
    · obtain ⟨rfl, -⟩ := hphase
      refine ⟨rfl, settles_always (fun slot _ => (st.release driverId slot).slotOf e = _) ?_⟩
      rw [slotOf_release, if_neg hne]
  exact hsettles.always

/-- A frugal operation is counted as one entry at most. -/
theorem count_run_le (hf : Frugal operation) {c : β → Nat}
    (hserve : ∀ b r, c (serve b r).2 ≤ c b + r.pushes) (st : TrackStore) (b : β) :
    c (st.run serve b operation).2.2 ≤ c b + 1 := by
  have hfirst := ((hf.leases ()).settles serve b).and
    (settles_always (fun _ b' => c b' ≤ c b) ((hf.first ()).run_le hserve b))
  have hsettles : Settles (fun _ _ b' => c b' ≤ c b + 1) (fun _ b' => c b' ≤ c b + 1)
      (st.run serve b operation) := by
    refine settles_run (hfirst.imp ?_ fun _ _ h => Nat.le_succ_of_le h.2)
    rintro (answer | ⟨driverId, rest⟩) _ b' ⟨hphase, hcount⟩
    · exact Nat.le_succ_of_le hcount
    · have hend := (hphase (st.slotOf driverId)).run_le hserve b'
      exact ⟨Nat.le_succ_of_le hcount, settles_always (fun _ b'' => c b'' ≤ c b + 1)
        (Nat.le_trans hend (Nat.succ_le_succ hcount))⟩
  exact hsettles.always

/-- **Two runs of an operation on a driver** come out alike if the driver's slot is the same and
requests about the driver are answered alike. -/
theorem run_congr (hd : Concerns d operation) {S : β → β → Prop} {W : β → Prop}
    (hmono : ∀ b r, Request.About d r → W (serve b r).2 → W b)
    (hserve : ∀ b b' r, Request.About d r → S b b' → W (serve b r).2 → W (serve b' r).2 →
      (serve b r).1 = (serve b' r).1 ∧ S (serve b r).2 (serve b' r).2)
    {st st' : TrackStore} (hheld : st.held = st'.held) (hslot : st.slotOf d = st'.slotOf d)
    {b b' : β} (h : S b b') (hend : W (st.run serve b operation).2.2)
    (hend' : W (st'.run serve b' operation).2.2) :
    (st.run serve b operation).1 = (st'.run serve b' operation).1 ∧
      (st.run serve b operation).2.1.slotOf d = (st'.run serve b' operation).2.1.slotOf d ∧
      S (st.run serve b operation).2.2 (st'.run serve b' operation).2.2 := by
  have hwithin {σ γ : Type} {m : Session σ γ} (hm : m.Asks (Request.About d)) (b : β) :
      W (m.run serve b).2.2 → W b :=
    hm.run_rel (R := fun b b' => W b' → W b) (fun _ h => h)
      (fun _ _ _ h h' hw => h (h' hw)) hmono b
  -- the session before a lease ends within bounds if the operation does
  have hbefore (st : TrackStore) (b : β) (hend : W (st.run serve b operation).2.2) :
      W ((operation ()).run serve b).2.2 := by
    have hphase := (hd.leases ()).settles serve b
    rw [TrackStore.run] at hend
    rcases hx : (operation ()).run serve b with ⟨⟨error | answer | ⟨driverId, rest⟩⟩ | _, s, g⟩ <;>
      rw [hx] at hphase hend
    · exact hend
    · exact hend
    · dsimp only at hend
      split at hend
      · exact hend
      · obtain ⟨rfl, hrest⟩ := hphase
        exact hwithin (hrest _) g hend
    · exact hend
  have hphase := (hd.leases ()).settles serve b
  obtain ⟨houtcome, -, hsame⟩ :=
    (hd.asks ()).run_congr hmono hserve h (hbefore st b hend) (hbefore st' b' hend')
  rw [TrackStore.run] at hend hend'
  rw [TrackStore.run, TrackStore.run]
  rcases hx : (operation ()).run serve b with ⟨outcome, s, g⟩
  rcases hx' : (operation ()).run serve b' with ⟨outcome', s', g'⟩
  rw [hx] at hphase hend houtcome hsame
  rw [hx'] at hend' houtcome hsame
  obtain rfl : outcome = outcome' := houtcome
  rcases outcome with ⟨error | answer | ⟨driverId, rest⟩⟩ | _
  · exact ⟨rfl, hslot, hsame⟩
  · exact ⟨rfl, hslot, hsame⟩
  · obtain ⟨rfl, hrest⟩ : driverId = d ∧ rest.Asks (Request.About d) := hphase
    dsimp only at hend hend' ⊢
    rw [← hheld] at hend' ⊢
    split
    · exact ⟨rfl, hslot, hsame⟩
    · rename_i hout
      rw [if_neg hout] at hend hend'
      -- what comes under the lease starts from the same slot
      rw [← hslot] at hend' ⊢
      obtain ⟨hresult, hslot', hafter⟩ :=
        (hrest (st.slotOf driverId)).run_congr hmono hserve hsame hend hend'
      refine ⟨hresult, ?_, hafter⟩
      dsimp only
      rw [slotOf_release, slotOf_release, if_pos rfl, if_pos rfl, hslot']
  · exact ⟨rfl, hslot, hsame⟩

end Servers

variable {fates : Nat → Fate} {d e : String}

/-- **Two states of store and backend are the same for a driver:** its slot and what is held of it
are. -/
structure SameFor (d : String) (s s' : TrackStore × Faulty) : Prop where
  policy_eq : s.1.policy = s'.1.policy
  held_eq : s.1.held = s'.1.held
  slotOf_eq : s.1.slotOf d = s'.1.slotOf d
  holding_eq : s.2.holding d = s'.2.holding d

/-- What another driver's calls do not change. -/
structure Spares (e : String) (s s' : TrackStore × Faulty) : Prop where
  slotOf_eq : s'.1.slotOf e = s.1.slotOf e
  holding_eq : s'.2.holding e = s.2.holding e

/-- **An operation on a driver** comes out alike in states that are the same for the driver. -/
theorem SameFor.run {α : Type} {operation : Query Unit (Phase α)} (hd : Concerns d operation)
    {st st' : TrackStore} {f f' : Faulty} (h : SameFor d (st, f) (st', f'))
    (hasked : f.asked = f'.asked) :
    (st.run (Faulty.serve fates) f operation).1 = (st'.run (Faulty.serve fates) f' operation).1 ∧
      SameFor d (st.run (Faulty.serve fates) f operation).2
        (st'.run (Faulty.serve fates) f' operation).2 := by
  obtain ⟨houtcome, hslot, hagree⟩ := run_congr (S := Faulty.Agree d) (W := fun _ => True) hd
    (fun _ _ _ _ => trivial) (fun _ _ _ hr hb _ _ => hb.serve hr) h.held_eq h.slotOf_eq
    ⟨hasked, h.holding_eq⟩ trivial trivial
  refine ⟨houtcome, ?_, ?_, hslot, hagree.2⟩
  · rw [policy_run, policy_run]
    exact h.policy_eq
  · rw [held_run, held_run]
    exact h.held_eq

/-- An operation on a driver spares all others. -/
theorem spares_run {α : Type} {operation : Query Unit (Phase α)} (hd : Concerns d operation)
    (hne : d ≠ e) (st : TrackStore) (f : Faulty) :
    Spares e (st, f) (st.run (Faulty.serve fates) f operation).2 where
  slotOf_eq := slotOf_run hd hne _ st f
  holding_eq := by
    refine run_rel (R := fun f f' => f'.holding e = f.holding e) hd (fun _ => rfl) ?_ ?_ st f
    · exact fun _ _ _ h h' => h'.trans h
    · exact fun f r hr => Faulty.holding_serve hne f r hr

/-! ## What a store keeps between calls -/

/-- Nothing is out on lease, and a slot that is kept is dirty. -/
structure AtRest (st : TrackStore) : Prop where
  free : st.held = none
  kept : ∀ d, (st.slotOf d).isDirty = false → st.slotOf d = {}

theorem atRest_new (policy : TrackPolicy) : (new policy).AtRest where
  free := rfl
  kept _ _ := rfl

theorem AtRest.release {st : TrackStore} (h : st.AtRest) (e : String) (slot : Slot) :
    (st.release e slot).AtRest where
  free := h.free
  kept d hclean := by
    rw [slotOf_release] at hclean ⊢
    split at hclean
    · rename_i he
      rw [if_pos he]
      split at hclean
      · rename_i hdirty
        rw [hdirty] at hclean
        cases hclean
      · rename_i hslot
        exact if_neg hslot
    · rename_i he
      rw [if_neg he]
      exact h.kept d hclean

theorem AtRest.run {st : TrackStore} (h : st.AtRest) {α β : Type} (serve : Server β) (backend : β)
    (operation : Query Unit (Phase α)) : (st.run serve backend operation).2.1.AtRest := by
  rw [TrackStore.run]
  split
  · exact h
  · exact h
  · exact h
  · split
    · exact h
    · exact h.release _ _

namespace Call

/-- The driver that a call names. -/
def driverId : Call → String
  | .append point => point.driverId
  | .ingest driverId _ _ => driverId
  | .deliver envelope => envelope.driverId
  | .recent driverId _ => driverId
  | .latest driverId => driverId
  | .analyzed driverId _ _ => driverId

/-- **A call is a frugal operation on the driver it names,** and its answer is how that comes
out. -/
theorem exists_operation (c : Call) (p : TrackPolicy) (now : Timestamp) :
    ∃ (α : Type) (operation : Query Unit (Phase α)) (answer : Outcome α → Depot.Answer),
      Concerns c.driverId operation ∧ Frugal operation ∧
        ∀ {β : Type} (serve : Server β) (s : TrackStore × β), s.1.policy = p →
          c.run serve now s = (answer (s.1.run serve s.2 operation).1,
            (s.1.run serve s.2 operation).2) := by
  cases c with
  | append point =>
    refine ⟨_, p.append now point, Depot.answerBy .appended none, .append p now point,
      .append p now point, ?_⟩
    rintro β serve s rfl
    rfl
  | ingest driverId point deadline =>
    refine ⟨_, p.ingest now driverId point, Depot.answerBy .appended deadline,
      .ingest p now driverId point, .ingest p now driverId point, ?_⟩
    rintro β serve s rfl
    rfl
  | deliver envelope =>
    cases hread : (Wire.read? envelope.payload : Option TrackPoint) with
    | none =>
      -- what cannot be read is refused before anything is asked
      refine ⟨TrackAnalysis, throw (.internal .unreadableRecord),
        fun _ => .delivered envelope (.refused .undecodable), .throw _ _, .throw _, ?_⟩
      rintro β serve s rfl
      simp only [Call.run, TrackStore.deliver, hread]
      rfl
    | some point =>
      refine ⟨_, p.ingest now envelope.driverId point,
        fun outcome => .delivered envelope (verdict outcome), .ingest p now _ point,
        .ingest p now _ point, ?_⟩
      rintro β serve s rfl
      simp only [Call.run, TrackStore.deliver, hread]
  | recent driverId count =>
    exact ⟨_, TrackPolicy.recent driverId count, Depot.answerBy .points none,
      .lookUp (TrackPolicy.recentPoints_asks count),
      .lookUp (TrackPolicy.recentPoints_asks (d := driverId) count), fun _ _ _ => rfl⟩
  | latest driverId =>
    exact ⟨_, TrackPolicy.latest driverId, Depot.answerBy .latest none,
      .lookUp TrackPolicy.latestAnalysis_asks,
      .lookUp (TrackPolicy.latestAnalysis_asks (d := driverId)), fun _ _ _ => rfl⟩
  | analyzed driverId count deadline =>
    refine ⟨_, p.analyzed now driverId count, Depot.answerBy .points deadline,
      .analyzed p now driverId count, .analyzed p now driverId count, ?_⟩
    rintro β serve s rfl
    rfl

/-- **A call answers alike in states that are the same for its driver.** -/
theorem run_sameFor (c : Call) (fates : Nat → Fate) (now : Timestamp) {s s' : TrackStore × Faulty}
    (h : SameFor c.driverId s s') (hasked : s.2.asked = s'.2.asked) :
    (c.run (Faulty.serve fates) now s).1 = (c.run (Faulty.serve fates) now s').1 ∧
      SameFor c.driverId (c.run (Faulty.serve fates) now s).2
        (c.run (Faulty.serve fates) now s').2 := by
  obtain ⟨α, operation, answer, hd, -, hrun⟩ := c.exists_operation s.1.policy now
  rw [hrun _ s rfl, hrun _ s' h.policy_eq.symm]
  obtain ⟨houtcome, hafter⟩ := h.run hd hasked
  exact ⟨congrArg answer houtcome, hafter⟩

/-- **A call spares every driver that it does not name.** -/
theorem run_spares (c : Call) (fates : Nat → Fate) (hne : c.driverId ≠ e) (now : Timestamp)
    (s : TrackStore × Faulty) : Spares e s (c.run (Faulty.serve fates) now s).2 := by
  obtain ⟨α, operation, answer, hd, -, hrun⟩ := c.exists_operation s.1.policy now
  rw [hrun _ s rfl]
  exact spares_run hd hne s.1 s.2

/-- No call changes the policy of the store, nor whether a slot is out on lease. -/
theorem run_fixed (c : Call) (fates : Nat → Fate) (now : Timestamp) (s : TrackStore × Faulty) :
    (c.run (Faulty.serve fates) now s).2.1.policy = s.1.policy ∧
      (c.run (Faulty.serve fates) now s).2.1.held = s.1.held := by
  obtain ⟨α, operation, answer, -, -, hrun⟩ := c.exists_operation s.1.policy now
  rw [hrun _ s rfl]
  exact ⟨policy_run _ _ _ _, held_run _ _ _ _⟩

/-- Between calls a store is at rest. -/
theorem run_atRest (c : Call) (fates : Nat → Fate) (now : Timestamp) {s : TrackStore × Faulty}
    (h : s.1.AtRest) : (c.run (Faulty.serve fates) now s).2.1.AtRest := by
  obtain ⟨α, operation, answer, -, -, hrun⟩ := c.exists_operation s.1.policy now
  rw [hrun _ s rfl]
  exact h.run _ _ _

end Call

end TrackStore

end Fleet
