import Fleet.Proofs.Store.Tally

/-!
# Sequence numbers over time

A store on a backend that serves every request at once, while time passes between the calls.  An
append is answered with the number of points that arrived since the driver's count was last
forgotten, and no count is forgotten within the lifetime of an analysis after an append:
`sequences_monotonic`.  After that time it is, and the numbers start over at one:
`sequence_restarts_after_expiry`.
-/

namespace Fleet

open Query (Ensures Leads)

/-- The analysis that answers an append. -/
def Depot.Answer.analysis? : Depot.Answer → Option TrackAnalysis
  | .appended (.ok a) => some a
  | _ => none

theorem Depot.Answer.eq_of_analysis? {answer : Depot.Answer} {a : TrackAnalysis}
    (h : answer.analysis? = some a) : answer = .appended (.ok a) := by
  unfold analysis? at h
  split at h
  · cases h
    rfl
  · cases h

theorem Clock.now_le_advance (c : Clock) (span : Duration) :
    c.now.nanos ≤ (c.advance span).now.nanos := by
  have hbounded := c.bounded
  show c.elapsed ≤ min (c.elapsed + span.nanos) last
  unfold last
  omega

namespace TrackStore

variable {now : Duration} {ttl : Duration} {k : Account} {st : TrackStore} {f g : Faulty}
  {d : String} {slot : Slot}

/-! ## What calls count -/

/-- What store and backend have of a driver counts its points. -/
abbrev Tallies (ttl now : Duration) (k : Account) (d : String) (st : TrackStore) (f : Faulty) :
    Prop := Tallied ttl now k (st.slotOf d) (f.holding d)

/-- What an append that is answered with an analysis has done to its driver's count. -/
structure Receives (ttl now : Duration) (k : Account) (d : String) (f : Faulty)
    (a : TrackAnalysis) (st' : TrackStore) (f' : Faulty) : Prop
    extends Reported ttl now { k with since := now } a (st'.slotOf d) (f'.holding d) where
  arrivals_eq : (f'.holding d).arrivals.length = (f.holding d).arrivals.length + 1

/-- A slot that is given back is kept as it is or was clean. -/
theorem tallies_release (hs : Tallied ttl now k slot (g.holding d)) :
    Tallies ttl now k d (st.release d slot) g := by
  rw [Tallies, slotOf_release, if_pos rfl]
  split
  · exact hs
  · rename_i hclean
    exact hs.forget (by simpa using hclean)

section Operations

variable (p : TrackPolicy) (computedAt : Timestamp)

theorem append_tallied {point : TrackPoint} (hd : point.driverId = d)
    (h : Current p.analysisTtl now k (st.slotOf d) (f.holding d)) :
    Settles (Receives p.analysisTtl now k d f) (Tallies p.analysisTtl now k d)
      (st.run (Faulty.serve fun _ => .served now) f (p.append computedAt point)) := by
  rcases p.append_cases computedAt point with ⟨e, hrefused⟩ | hleased
  · rw [hrefused]
    exact h.toTallied
  · rw [hleased, hd]
    have hrest := TrackPolicy.appendLeased_tallied now p d k computedAt hd
      (f.holding d).arrivals (st.slotOf d) f ⟨h, rfl⟩
    refine settles_run ⟨h.toTallied, hrest.imp ?_ fun slot g hs => tallies_release hs⟩
    rintro a slot g ⟨hs, harrivals⟩
    exact { tallies_release hs.toTallied with
      sequence_eq := hs.sequence_eq
      arrivals_eq := congrArg List.length harrivals }

theorem ingest_tallied (point : TrackPoint)
    (h : Current p.analysisTtl now k (st.slotOf d) (f.holding d)) :
    Settles (Receives p.analysisTtl now k d f) (Tallies p.analysisTtl now k d)
      (st.run (Faulty.serve fun _ => .served now) f (p.ingest computedAt d point)) := by
  rcases p.ingest_cases computedAt d point with ⟨e, hrefused⟩ | ⟨hd, hown⟩
  · rw [hrefused]
    exact h.toTallied
  · rw [hown]
    exact append_tallied p computedAt hd h

theorem lookUp_tallied {α : Type} {q : Query Unit α}
    (hq : Leads (fun _ => .served now) d (fun _ h => Current ttl now k (st.slotOf d) h) q
      (fun _ _ h => Current ttl now k (st.slotOf d) h)
      fun _ h => Current ttl now k (st.slotOf d) h)
    (h : Current ttl now k (st.slotOf d) (f.holding d)) :
    Settles (fun _ => Tallies ttl now k d) (Tallies ttl now k d)
      (st.run (Faulty.serve fun _ => .served now) f (Phase.answered <$> q)) := by
  have hphase : (Phase.answered <$> q).Ensures (Faulty.serve fun _ => .served now)
      (fun _ f' => Current ttl now k (st.slotOf d) (f'.holding d))
      (fun phase _ => PhaseSettles (Faulty.serve fun _ => .served now) st
        (fun _ => Tallies ttl now k d) (Tallies ttl now k d) phase)
      (fun _ => Tallies ttl now k d st) :=
    Ensures.map (hq.weaken_stop fun _ _ hs => hs.toTallied) fun _ _ _ hs => hs.toTallied
  exact settles_run (hphase () f h)

theorem analyzed_tallied (count : Nat)
    (h : Current p.analysisTtl now k (st.slotOf d) (f.holding d)) :
    Settles (fun _ => Tallies p.analysisTtl now k d) (Tallies p.analysisTtl now k d)
      (st.run (Faulty.serve fun _ => .served now) f (p.analyzed computedAt d count)) := by
  rcases p.analyzed_cases computedAt d count with ⟨e, hrefused⟩ | hread
  · rw [hrefused]
    exact h.toTallied
  · rw [hread]
    have hrest : Leads (fun _ => .served now) d (Current p.analysisTtl now k)
        (do return (← p.currentAnalysis computedAt d).lastPoints (min count p.windowSize))
        (fun _ => Tallied p.analysisTtl now k) (Tallied p.analysisTtl now k) :=
      (TrackPolicy.currentAnalysis_tallied now p d k computedAt).bind fun _ =>
        Ensures.pure fun _ _ hs => hs
    have habout : (Request.range (TrackPolicy.pointsKey d) 1).About d := rfl
    have hnewest : Leads (fun _ => .served now) d
        (fun (_ : Unit) h => Current p.analysisTtl now k (st.slotOf d) h)
        (Query.request (.range (TrackPolicy.pointsKey d) 1))
        (fun (_ : List Bytes) _ h => Current p.analysisTtl now k (st.slotOf d) h)
        (fun _ h => Tallied p.analysisTtl now k (st.slotOf d) h) :=
      Leads.served habout fun _ _ hs => hs
    refine settles_run ((Ensures.bind hnewest fun newest => ?_) () f h)
    refine Ensures.ite (fun _ => Ensures.pure fun _ _ hs => hs.toTallied) fun _ =>
      Ensures.pure fun s g hs => ⟨hs.toTallied, ?_⟩
    exact (hrest (st.slotOf d) g hs).imp (fun _ slot g' hs => tallies_release hs)
      fun slot g' hs => tallies_release hs

end Operations

theorem Receives.tallies {a : TrackAnalysis} {st' : TrackStore} {f' : Faulty}
    (h : Receives ttl now k d f a st' f') (hsince : k.since.nanos ≤ now.nanos) :
    Tallies ttl now k d st' f' := h.toTallied.earlier hsince

/-- **A call keeps its driver's count,** and if it is answered with an analysis one more point has
arrived. -/
structure Call.Keeps (ttl now : Duration) (k : Account) (c : Call) (f : Faulty)
    (step : Depot.Answer × TrackStore × Faulty) : Prop where
  tallies : Tallies ttl now k c.driverId step.2.1 step.2.2
  receives : ∀ a, step.1 = .appended (.ok a) → Receives ttl now k c.driverId f a step.2.1 step.2.2

/-- What an append has kept, however its answer is given. -/
theorem keeps_of_append {c : Call} {x : Outcome TrackAnalysis × TrackStore × Faulty}
    (hx : Settles (Receives ttl now k c.driverId f) (Tallies ttl now k c.driverId) x)
    (hsince : k.since.nanos ≤ now.nanos) {answer : Depot.Answer} (hanswer : Tells answer x.1) :
    c.Keeps ttl now k f (answer, x.2) where
  tallies := (hx.imp (fun _ _ _ h => h.tallies hsince) fun _ _ h => h).always
  receives a ha := by
    obtain ⟨outcome, st', f'⟩ := x
    obtain rfl : outcome = .finished (.ok a) := hanswer.appended a ha
    exact hx

/-- What a call has kept that takes nothing in. -/
theorem keeps_of_read {c : Call} {after : TrackStore × Faulty}
    (h : Tallies ttl now k c.driverId after.1 after.2) {answer : Depot.Answer}
    (hanswer : answer.accepts = false) : c.Keeps ttl now k f (answer, after) where
  tallies := h
  receives a ha := by
    obtain rfl : answer = .appended (.ok a) := ha
    cases hanswer

theorem Call.keeps (c : Call) (computedAt : Timestamp) (st : TrackStore) (f : Faulty)
    (h : Current st.policy.analysisTtl now k (st.slotOf c.driverId) (f.holding c.driverId)) :
    c.Keeps st.policy.analysisTtl now k f
      (c.run (Faulty.serve fun _ => .served now) computedAt (st, f)) := by
  cases c with
  | append point =>
    exact keeps_of_append (append_tallied _ computedAt rfl h) h.since_le (tells_answerBy _ _)
  | ingest driverId point deadline =>
    exact keeps_of_append (ingest_tallied _ computedAt point h) h.since_le (tells_answerBy _ _)
  | deliver envelope =>
    cases hread : (Wire.read? envelope.payload : Option TrackPoint) with
    | none =>
      simp only [Call.run, TrackStore.deliver, hread]
      exact keeps_of_read h.toTallied rfl
    | some point =>
      simp only [Call.run, TrackStore.deliver, hread]
      exact keeps_of_append (ingest_tallied _ computedAt point h) h.since_le (tells_verdict _ _)
  | recent driverId count =>
    have hq := TrackPolicy.recentPoints_leads (fun _ => .served now) driverId
      (fun (_ : Unit) h => Current st.policy.analysisTtl now k (st.slotOf driverId) h) count
    have hkept := lookUp_tallied (hq.weaken (fun _ _ hs => hs) (fun _ _ _ hs => hs.1)
      fun _ _ hs => hs) h
    exact keeps_of_read hkept.always (accepts_answerBy (fun _ => rfl) _ _)
  | latest driverId =>
    have hq := TrackPolicy.latestAnalysis_served now driverId
      (fun (_ : Unit) h => Current st.policy.analysisTtl now k (st.slotOf driverId) h)
      fun _ _ hs => hs.lapse
    have hkept := lookUp_tallied (hq.weaken (fun _ _ hs => hs) (fun _ _ _ hs => hs.1.1)
      fun _ _ hs => hs) h
    exact keeps_of_read hkept.always (accepts_answerBy (fun _ => rfl) _ _)
  | analyzed driverId count deadline =>
    exact keeps_of_read (analyzed_tallied _ computedAt count h).always
      (accepts_answerBy (fun _ => rfl) _ _)

/-! ## Time passes between calls -/

/-- **What happens to a store whose backend never fails:** time passes, or a call is made. -/
inductive Tick where
  | pass (span : Duration)
  | call (c : Call)

/-- **A store and its backend with a clock,** and an account of every driver's count. -/
structure Watch where
  clock : Clock := .start
  store : TrackStore
  backend : Faulty := {}
  accounts : String → Account := fun _ => {}

/-- What an append was answered, and when. -/
structure Receipt where
  time : Duration
  /-- How many points of the driver had arrived by then. -/
  total : Nat
  /-- How many of them had arrived when the driver's count was last forgotten. -/
  forgotten : Nat
  sequence : UInt64
deriving DecidableEq

namespace Watch

/-- A store that has not been used, at the start of time. -/
def new (policy : TrackPolicy) : Watch := { store := .new policy }

/-- A call on a backend that serves every request at the time that the clock shows. -/
def perform (w : Watch) (c : Call) : Depot.Answer × TrackStore × Faulty :=
  c.run (Faulty.serve fun _ => .served w.clock.now) w.clock.timestamp (w.store, w.backend)

/-- The counts of drivers whose analysis has expired are forgotten if their slots are clean. -/
def settle (w : Watch) : Watch :=
  { w with accounts := fun d =>
      (w.accounts d).settle w.clock.now (w.store.slotOf d) (w.backend.holding d) }

/-- Store, backend and accounts after a call. -/
def afterCall (w : Watch) (c : Call) : Watch :=
  { w with
    store := (w.perform c).2.1
    backend := (w.perform c).2.2
    accounts := fun d =>
      if c.driverId = d ∧ (w.perform c).1.analysis?.isSome then
        { w.accounts d with since := w.clock.now }
      else w.accounts d }

/-- One tick. -/
def next (w : Watch) : Tick → Watch
  | .pass span => settle { w with clock := w.clock.advance span }
  | .call c => (w.afterCall c).settle

/-- The receipt for a tick, if it is an append of the driver that is answered with an analysis. -/
def receipt? (d : String) (w : Watch) : Tick → Option Receipt
  | .pass _ => none
  | .call c =>
    if c.driverId = d then
      (w.perform c).1.analysis?.map fun a =>
        { time := w.clock.now
          total := ((w.perform c).2.2.holding d).arrivals.length
          forgotten := (w.accounts d).forgotten
          sequence := a.sequence }
    else none

/-- The receipts for a driver's appends, in order. -/
def receipts (d : String) : Watch → List Tick → List Receipt
  | _, [] => []
  | w, tick :: ticks => (w.receipt? d tick).toList ++ receipts d (w.next tick) ticks

end Watch

/-- **A watch is kept** if its store is sound and at rest and every driver's count is current. -/
structure Kept (p : TrackPolicy) (w : Watch) : Prop where
  sound : w.store.Sound p w.backend
  atRest : w.store.AtRest
  current : ∀ d, Current p.analysisTtl w.clock.now (w.accounts d) (w.store.slotOf d)
    (w.backend.holding d)

variable {p : TrackPolicy} {w w' : Watch}

theorem kept_new (policy : TrackPolicy) : Kept policy (.new policy) where
  sound := sound_new policy
  atRest := atRest_new policy
  current _ := current_empty _ _

/-- Counts are current once those that have expired are forgotten. -/
theorem kept_settle (hsound : w.store.Sound p w.backend) (hrest : w.store.AtRest)
    (h : ∀ d, Tallies p.analysisTtl w.clock.now (w.accounts d) d w.store w.backend) :
    Kept p w.settle where
  sound := hsound
  atRest := hrest
  current d := (h d).settle (hrest.kept d)

/-- What a call has done to the account of a driver. -/
theorem Kept.afterCall (h : Kept p w) (c : Call) (d : String) :
    Tallies p.analysisTtl w.clock.now ((w.afterCall c).accounts d) d (w.perform c).2.1
      (w.perform c).2.2 := by
  obtain rfl := h.sound.policy_eq
  show Tallies _ _ (if _ then _ else _) _ _ _
  by_cases hd : c.driverId = d
  · subst hd
    have hkeeps := c.keeps w.clock.timestamp w.store w.backend (h.current c.driverId)
    split
    · rename_i hanswered
      obtain ⟨a, ha⟩ := Option.isSome_iff_exists.mp hanswered.2
      exact (hkeeps.receives a (Depot.Answer.eq_of_analysis? ha)).toTallied
    · exact hkeeps.tallies
  · have hspares := c.run_spares (fun _ => .served w.clock.now) hd w.clock.timestamp
      (w.store, w.backend)
    have hslot : (w.perform c).2.1.slotOf d = w.store.slotOf d := hspares.slotOf_eq
    have hholding : (w.perform c).2.2.holding d = w.backend.holding d := hspares.holding_eq
    rw [if_neg fun hc => hd hc.1, Tallies, hslot, hholding]
    exact (h.current d).toTallied

theorem Kept.next (h : Kept p w) (tick : Tick) : Kept p (w.next tick) := by
  cases tick with
  | pass span =>
    refine kept_settle h.sound h.atRest fun d => ?_
    exact (h.current d).toTallied.later (w.clock.now_le_advance span)
  | call c =>
    have hstart : (w.store, w.backend).1.AtRest := h.atRest
    exact kept_settle (h.sound.run w.clock.timestamp c).1 (c.run_atRest _ _ hstart)
      (h.afterCall c)

/-! ## From one state to a later one -/

/-- **A later state of a watch,** as far as one driver is concerned. -/
structure Onward (ttl : Duration) (d : String) (w w' : Watch) : Prop where
  now_le : w.clock.now.nanos ≤ w'.clock.now.nanos
  arrivals_le : (w.backend.holding d).arrivals.length ≤ (w'.backend.holding d).arrivals.length
  since_le : (w.accounts d).since.nanos ≤ (w'.accounts d).since.nanos
  forgotten_le : (w.accounts d).forgotten ≤ (w'.accounts d).forgotten
  /-- After an append no count is forgotten within the lifetime of an analysis. -/
  remembered : (w'.accounts d).forgotten = (w.accounts d).forgotten ∨
    (w.accounts d).since.nanos + ttl.nanos ≤ w'.clock.now.nanos

theorem Onward.trans {w'' : Watch} (h : Onward ttl d w w') (h' : Onward ttl d w' w'') :
    Onward ttl d w w'' where
  now_le := Nat.le_trans h.now_le h'.now_le
  arrivals_le := Nat.le_trans h.arrivals_le h'.arrivals_le
  since_le := Nat.le_trans h.since_le h'.since_le
  forgotten_le := Nat.le_trans h.forgotten_le h'.forgotten_le
  remembered := by
    -- a count that either step forgets was last reported a lifetime before the end
    have hnow := h'.now_le
    have hsince := h.since_le
    rcases h.remembered with hfirst | hfirst <;> rcases h'.remembered with hsecond | hsecond <;>
      omega

theorem onward_settle (h : Tallies ttl w.clock.now (w.accounts d) d w.store w.backend) :
    Onward ttl d w w.settle where
  now_le := Nat.le_refl _
  arrivals_le := Nat.le_refl _
  since_le := Nat.le_of_eq (congrArg Duration.nanos (Account.since_settle _ _ _ _).symm)
  forgotten_le := h.forgotten_settle_le
  remembered := h.forgotten_settle

theorem onward_advance (ttl : Duration) (d : String) (w : Watch) (span : Duration) :
    Onward ttl d w { w with clock := w.clock.advance span } :=
  ⟨w.clock.now_le_advance span, Nat.le_refl _, Nat.le_refl _, Nat.le_refl _, Or.inl rfl⟩

theorem Watch.forgotten_afterCall (w : Watch) (c : Call) (d : String) :
    ((w.afterCall c).accounts d).forgotten = (w.accounts d).forgotten := by
  show Account.forgotten (if _ then _ else _) = _
  split <;> rfl

/-- No call takes a point away. -/
theorem Kept.onward_afterCall (h : Kept p w) (c : Call) (d : String) :
    Onward p.analysisTtl d w (w.afterCall c) where
  now_le := Nat.le_refl _
  arrivals_le := by
    obtain hgained | ⟨point, -, hgained⟩ := (h.sound.run w.clock.timestamp c).2.gained <;>
      · rw [Watch.afterCall, Watch.perform, hgained d, List.length_append]
        exact Nat.le_add_left _ _
  since_le := by
    show Duration.nanos _ ≤ Duration.nanos (Account.since (if _ then _ else _))
    split
    · exact (h.current d).since_le
    · exact Nat.le_refl _
  forgotten_le := Nat.le_of_eq (w.forgotten_afterCall c d).symm
  remembered := Or.inl (w.forgotten_afterCall c d)

theorem Kept.onward (h : Kept p w) (d : String) (tick : Tick) :
    Onward p.analysisTtl d w (w.next tick) := by
  cases tick with
  | pass span =>
    exact (onward_advance _ d w span).trans
      (onward_settle ((h.current d).toTallied.later (w.clock.now_le_advance span)))
  | call c => exact (h.onward_afterCall c d).trans (onward_settle (h.afterCall c d))

/-! ## Receipts -/

/-- **A receipt is issued** for an append that is made in a state of the watch or later. -/
structure Issued (ttl : Duration) (d : String) (w : Watch) (r : Receipt) : Prop where
  now_le : w.clock.now.nanos ≤ r.time.nanos
  arrivals_lt : (w.backend.holding d).arrivals.length < r.total
  forgotten_le : (w.accounts d).forgotten ≤ r.forgotten
  forgotten_lt : r.forgotten < r.total
  sequence_eq : r.sequence = UInt64.ofNat (r.total - r.forgotten)
  remembered : r.forgotten = (w.accounts d).forgotten ∨
    (w.accounts d).since.nanos + ttl.nanos ≤ r.time.nanos

theorem Issued.earlier {r : Receipt} (h : Issued ttl d w' r) (hon : Onward ttl d w w') :
    Issued ttl d w r where
  now_le := Nat.le_trans hon.now_le h.now_le
  arrivals_lt := Nat.lt_of_le_of_lt hon.arrivals_le h.arrivals_lt
  forgotten_le := Nat.le_trans hon.forgotten_le h.forgotten_le
  forgotten_lt := h.forgotten_lt
  sequence_eq := h.sequence_eq
  remembered := by
    have hnow := h.now_le
    have hsince := hon.since_le
    rcases h.remembered with hfirst | hfirst <;> rcases hon.remembered with hsecond | hsecond <;>
      omega

/-- The append for which a receipt is issued. -/
theorem Kept.receipt? (h : Kept p w) {tick : Tick} {r : Receipt}
    (hr : w.receipt? d tick = some r) :
    ∃ c, tick = .call c ∧ Issued p.analysisTtl d w r ∧
      r.time = w.clock.now ∧ r.time = ((w.afterCall c).accounts d).since ∧
      r.total = ((w.afterCall c).backend.holding d).arrivals.length ∧
      r.forgotten = ((w.afterCall c).accounts d).forgotten := by
  cases tick with
  | pass span => cases hr
  | call c =>
    refine ⟨c, rfl, ?_⟩
    rw [Watch.receipt?] at hr
    split at hr
    · rename_i hd
      subst hd
      obtain ⟨a, ha, rfl⟩ := Option.map_eq_some_iff.mp hr
      obtain rfl := h.sound.policy_eq
      have hreceives := (c.keeps w.clock.timestamp w.store w.backend
        (h.current c.driverId)).receives a (Depot.Answer.eq_of_analysis? ha)
      have hforgotten := (h.current c.driverId).forgotten_le
      have hanswered : c.driverId = c.driverId ∧ (w.perform c).1.analysis?.isSome :=
        ⟨rfl, Option.isSome_iff_exists.mpr ⟨a, ha⟩⟩
      have harrivals : ((w.perform c).2.2.holding c.driverId).arrivals.length =
          (w.backend.holding c.driverId).arrivals.length + 1 := hreceives.arrivals_eq
      refine ⟨⟨Nat.le_refl _, ?_, Nat.le_refl _, ?_, hreceives.sequence_eq, Or.inl rfl⟩, rfl, ?_,
        rfl, (w.forgotten_afterCall c _).symm⟩
      · exact Nat.lt_of_lt_of_eq (Nat.lt_succ_self _) harrivals.symm
      · exact Nat.lt_of_le_of_lt hforgotten (Nat.lt_of_lt_of_eq (Nat.lt_succ_self _) harrivals.symm)
      · show w.clock.now = Account.since (if _ then _ else _)
        rw [if_pos hanswered]
    · cases hr

theorem Kept.issued (h : Kept p w) {ticks : List Tick} {r : Receipt}
    (hr : r ∈ w.receipts d ticks) : Issued p.analysisTtl d w r := by
  induction ticks generalizing w with
  | nil => cases hr
  | cons tick ticks ih =>
    rcases List.mem_append.mp hr with hfirst | hlater
    · obtain ⟨c, -, hissued, -⟩ := h.receipt? (Option.mem_toList.mp hfirst)
      exact hissued
    · exact (ih (h.next tick) hlater).earlier (h.onward d tick)

/-- **One receipt after another:** more points have arrived, and within the lifetime of an analysis
the count goes on. -/
structure Receipt.Before (ttl : Duration) (r r' : Receipt) : Prop where
  total_lt : r.total < r'.total
  forgotten_le : r.forgotten ≤ r'.forgotten
  remembered : r'.time.nanos < r.time.nanos + ttl.nanos → r'.forgotten = r.forgotten

theorem Kept.pairwise_receipts (h : Kept p w) (d : String) (ticks : List Tick) :
    (w.receipts d ticks).Pairwise (Receipt.Before p.analysisTtl) := by
  induction ticks generalizing w with
  | nil => exact List.Pairwise.nil
  | cons tick ticks ih =>
    rw [Watch.receipts]
    cases hr : w.receipt? d tick with
    | none => exact ih (h.next tick)
    | some r =>
      refine List.pairwise_cons.mpr ⟨fun r' hr' => ?_, ih (h.next tick)⟩
      obtain ⟨c, rfl, -, -, htime, htotal, hforgotten⟩ := h.receipt? hr
      -- right after the call its account is what the receipt says
      have hissued : Issued p.analysisTtl d (w.afterCall c) r' :=
        ((h.next (.call c)).issued hr').earlier (onward_settle (h.afterCall c d))
      refine ⟨htotal ▸ hissued.arrivals_lt, hforgotten ▸ hissued.forgotten_le, fun hsoon => ?_⟩
      rw [hforgotten]
      refine hissued.remembered.resolve_right fun hlate => ?_
      rw [← htime] at hlate
      exact Nat.not_lt.mpr hlate hsoon

/-- Counts that go on rise, as long as they do not wrap. -/
theorem Receipt.Before.sequence_lt {r r' : Receipt} (h : r.Before ttl r')
    (hlt : r.forgotten < r.total)
    (hr : r.sequence = UInt64.ofNat (r.total - r.forgotten))
    (hr' : r'.sequence = UInt64.ofNat (r'.total - r'.forgotten))
    (hsoon : r'.time.nanos < r.time.nanos + ttl.nanos) (hwrap : r'.total < 2 ^ 64) :
    r.sequence < r'.sequence := by
  have htotal := h.total_lt
  have hforgotten := h.remembered hsoon
  rw [hr, hr', hforgotten, UInt64.lt_iff_toNat_lt, UInt64.toNat_ofNat', UInt64.toNat_ofNat',
    Nat.mod_eq_of_lt (by omega), Nat.mod_eq_of_lt (by omega)]
  omega

/-- **Sequence numbers count, and rise until the count is forgotten.**  Whatever calls are made and
however much time passes between them, the number that an append of a driver is answered with is the
number of the driver's points that have arrived since its count was last forgotten.  Of two appends
less than the lifetime of an analysis apart the later one gets the higher number. -/
theorem sequences_monotonic (policy : TrackPolicy) (d : String) (ticks : List Tick) :
    let receipts := (Watch.new policy).receipts d ticks
    (∀ r ∈ receipts, r.forgotten < r.total ∧
        r.sequence = UInt64.ofNat (r.total - r.forgotten)) ∧
      receipts.Pairwise fun r r' =>
        r.total < r'.total ∧ r.forgotten ≤ r'.forgotten ∧
          (r'.time.nanos < r.time.nanos + policy.analysisTtl.nanos →
            r'.forgotten = r.forgotten ∧ (r'.total < 2 ^ 64 → r.sequence < r'.sequence)) := by
  intro receipts
  have hissued : ∀ r ∈ receipts, Issued policy.analysisTtl d (.new policy) r :=
    fun r hr => (kept_new policy).issued hr
  refine ⟨fun r hr => ⟨(hissued r hr).forgotten_lt, (hissued r hr).sequence_eq⟩, ?_⟩
  refine ((kept_new policy).pairwise_receipts d ticks).imp_of_mem ?_
  intro r r' hr hr' hbefore
  refine ⟨hbefore.total_lt, hbefore.forgotten_le, fun hsoon => ⟨hbefore.remembered hsoon, ?_⟩⟩
  exact hbefore.sequence_lt (hissued r hr).forgotten_lt (hissued r hr).sequence_eq
    (hissued r' hr').sequence_eq hsoon

/-- **After an expiry the numbers start over.**  The second append comes when the analysis of the
first has just expired, and both are answered with one. -/
theorem sequence_restarts_after_expiry :
    let policy : TrackPolicy := { speedLimit := 200, analysisTtl := .ofSeconds 1 }
    let point : TrackPoint := { driverId := "d", position := ⟨0, 0, 0⟩ }
    let receipts := (Watch.new policy).receipts "d"
      [.call (.append point), .pass (.ofSeconds 1), .call (.append point)]
    receipts.map Receipt.total = [1, 2] ∧ receipts.map Receipt.sequence = [1, 1] := by
  decide +kernel

end TrackStore

end Fleet
