import Fleet.Proofs.Store.Operation
import Fleet.Store.Depot

/-!
# Calls of a track store

Appends, deliveries and reads as data, to be made on any backend: the calls by which drivers' tracks
grow and are looked at.  On a backend under faults, every call leads from a store that is in step
with the backend to one that is (`Sound.run`), so a store is in step after every history
(`sound_after`).  What an append and a read do besides is said by `Sound.append` and
`Sound.analyzed`.
-/

namespace Fleet

namespace Depot.Answer

/-- Whether an answer says that a point was taken in. -/
def accepts : Depot.Answer → Bool
  | .appended (.ok _) => true
  | .delivered _ .accepted => true
  | _ => false

/-- The analysis that an answer holds. -/
def heldAnalysis? : Depot.Answer → Option TrackAnalysis
  | .appended (.ok a) => some a
  | .latest (.ok found) => found
  | _ => none

end Depot.Answer

namespace TrackStore

/-- **A call of a track store.** -/
inductive Call where
  | append (point : TrackPoint)
  | ingest (driverId : String) (point : TrackPoint) (deadline : Option Duration)
  | deliver (envelope : Envelope)
  | recent (driverId : String) (count : Nat)
  | latest (driverId : String)
  | analyzed (driverId : String) (count : Nat) (deadline : Option Duration)

namespace Call

variable {β : Type}

/-- **One call at the time `now`:** its answer, and store and backend after it. -/
def run (serve : Server β) (now : Timestamp) (start : TrackStore × β) :
    Call → Depot.Answer × TrackStore × β
  | .append point =>
    let (outcome, after) := start.1.run serve start.2 (start.1.policy.append now point)
    (Depot.answerBy .appended none outcome, after)
  | .ingest driverId point deadline =>
    let (outcome, after) := start.1.run serve start.2 (start.1.policy.ingest now driverId point)
    (Depot.answerBy .appended deadline outcome, after)
  | .deliver envelope =>
    let (delivery, after) := TrackStore.deliver serve now start envelope
    (.delivered envelope delivery, after)
  | .recent driverId count =>
    let (outcome, after) := start.1.run serve start.2 (TrackPolicy.recent driverId count)
    (Depot.answerBy .points none outcome, after)
  | .latest driverId =>
    let (outcome, after) := start.1.run serve start.2 (TrackPolicy.latest driverId)
    (Depot.answerBy .latest none outcome, after)
  | .analyzed driverId count deadline =>
    let (outcome, after) := start.1.run serve start.2 (start.1.policy.analyzed now driverId count)
    (Depot.answerBy .points deadline outcome, after)

/-- Store and backend after a history of calls, each made at a time of its own. -/
def after (serve : Server β) (start : TrackStore × β) (history : List (Timestamp × Call)) :
    TrackStore × β :=
  history.foldl (fun s c => (c.2.run serve c.1 s).2) start

/-- The command by which a depot makes the call. -/
def command : Call → Depot.Command
  | .append point => .append point
  | .ingest driverId point deadline => .ingest driverId point deadline
  | .deliver envelope => .deliver envelope
  | .recent driverId count => .recent driverId count
  | .latest driverId => .latest driverId
  | .analyzed driverId count deadline => .analyzed driverId count deadline

/-- A depot makes a call on its own store and backend. -/
theorem run_command (clock : Clock) (d : Depot) (c : Call) :
    d.run clock c.command =
      let step := c.run (Backend.serve clock) clock.timestamp (d.store, d.backend)
      (step.1, { store := step.2.1, backend := step.2.2 }) := by
  cases c <;> rfl

/-- The point that a call offers to the store, if it can be read. -/
def point? : Call → Option TrackPoint
  | .append point => some point
  | .ingest _ point _ => some point
  | .deliver envelope => Wire.read? envelope.payload
  | _ => none

end Call

/-! ## Leases -/

theorem slotOf_release (st : TrackStore) (d e : String) (slot : Slot) :
    (st.release d slot).slotOf e =
      if d = e then (if slot.isDirty then slot else {}) else st.slotOf e := by
  unfold release slotOf
  by_cases hdirty : slot.isDirty = true <;> by_cases h : d = e <;> simp [hdirty, h]

/-- What is left to show of an operation once its first part is over. -/
def PhaseSettles {α β : Type} (serve : Server β) (st : TrackStore)
    (post : α → TrackStore → β → Prop) (stop : TrackStore → β → Prop) : Phase α → β → Prop
  | .answered a, b => post a st b
  | .leased d rest, b => stop st b ∧
      Settles (fun a slot => post a (st.release d slot)) (fun slot => stop (st.release d slot))
        ((rest (st.slotOf d)).run serve b)

/-- An operation settles if its two parts do. -/
theorem settles_run {α β : Type} {serve : Server β} {st : TrackStore} {b : β}
    {operation : Query Unit (Phase α)} {post : α → TrackStore → β → Prop}
    {stop : TrackStore → β → Prop}
    (h : Settles (fun phase _ b => PhaseSettles serve st post stop phase b) (fun _ => stop st)
      ((operation ()).run serve b)) :
    Settles post stop (st.run serve b operation) := by
  rw [run]
  split
  · rename_i hrun
    rw [hrun] at h
    exact h
  · rename_i hrun
    rw [hrun] at h
    exact h
  · rename_i hrun
    rw [hrun] at h
    exact h
  · rename_i d rest _ b' hrun
    rw [hrun] at h
    split
    · exact h.1
    · have hrest := h.2
      rcases hend : (rest (st.slotOf d)).run serve b' with ⟨⟨_ | a⟩ | _, slot, b''⟩ <;>
        · rw [hend] at hrest
          exact hrest

/-! ## Stores in step with their backend -/

/-- **A store is in step with its backend** if every driver's slot is in step with its track. -/
structure Sound (p : TrackPolicy) (st : TrackStore) (f : Faulty) : Prop where
  policy_eq : st.policy = p
  inStep : ∀ d, InStep p d (st.slotOf d) (f.holding d)

theorem sound_new (policy : TrackPolicy) : (new policy).Sound policy {} where
  policy_eq := rfl
  inStep := inStep_empty policy

end TrackStore

namespace Faulty

/-- **Between two states the given points arrived,** each at its driver's track, and no others. -/
def Gained (f f' : Faulty) (points : List TrackPoint) : Prop :=
  ∀ d, (f'.holding d).arrivals =
    ((points.filter fun q => q.driverId = d).map Wire.write) ++ (f.holding d).arrivals

/-- **Between two states no log was touched.** -/
def SameLogs (f f' : Faulty) : Prop := ∀ d, (f'.holding d).log = (f.holding d).log ∧
  (f'.holding d).arrivals = (f.holding d).arrivals

theorem SameLogs.gained {f f' : Faulty} (h : f.SameLogs f') : f.Gained f' [] := fun d => (h d).2

theorem sameLogs_of_holding_eq {f f' : Faulty} (h : ∀ d, f'.holding d = f.holding d) :
    f.SameLogs f' := by
  intro d
  rw [h d]
  exact ⟨rfl, rfl⟩

theorem SameBut.sameLogs {d : String} {f f' : Faulty} (h : f.SameBut d f')
    (hd : (f'.holding d).log = (f.holding d).log ∧
      (f'.holding d).arrivals = (f.holding d).arrivals) : f.SameLogs f' := by
  intro e
  by_cases he : d = e
  · subst he
    exact hd
  · rw [h e he]
    exact ⟨rfl, rfl⟩

theorem SameBut.gained {d : String} {f f' : Faulty} (h : f.SameBut d f') {points : List TrackPoint}
    (hpoints : ∀ q ∈ points, q.driverId = d)
    (hd : (f'.holding d).arrivals = points.map Wire.write ++ (f.holding d).arrivals) :
    f.Gained f' points := by
  intro e
  by_cases he : d = e
  · subst he
    rw [hd, List.filter_eq_self.mpr fun q hq => by simp [hpoints q hq]]
  · have hnone : (points.filter fun q => q.driverId = e) = [] :=
      List.filter_eq_nil_iff.mpr fun q hq h => he ((hpoints q hq).symm.trans (of_decide_eq_true h))
    rw [h e he, hnone]
    rfl

end Faulty

namespace TrackStore

open Query (Ensures Leads Asks)

variable {p : TrackPolicy} {fates : Nat → Fate} {st : TrackStore} {f : Faulty} {d : String}

/-- A store is sound again when it gets back a slot that is in step. -/
theorem Sound.release (hst : st.Sound p f) {slot : Slot} {f' : Faulty} (hsame : f.SameBut d f')
    (hd : InStep p d slot (f'.holding d)) : (st.release d slot).Sound p f' where
  policy_eq := hst.policy_eq
  inStep e := by
    rw [slotOf_release]
    split
    · rename_i he
      subst he
      split
      · exact hd
      · rename_i hclean
        exact hd.forget (by simpa using hclean)
    · rename_i he
      rw [hsame e he]
      exact hst.inStep e

/-- **The rule for leases.**  What an operation on a driver leads to under the lease of its slot
holds of the store after it. -/
theorem Sound.leased (hst : st.Sound p f) {α : Type} {rest : Query Slot α} {known : Holding → Prop}
    {post : α → Holding → Prop} {stop : Holding → Prop}
    (hrest : Leads fates d (fun s h => InStep p d s h ∧ known h) rest
      (fun a s h => InStep p d s h ∧ post a h) fun s h => InStep p d s h ∧ stop h)
    (hasks : rest.Asks (Request.About d)) (hknown : known (f.holding d)) :
    Settles
      (fun a slot f' => (st.release d slot).Sound p f' ∧ f.SameBut d f' ∧ post a (f'.holding d))
      (fun slot f' => (st.release d slot).Sound p f' ∧ f.SameBut d f' ∧ stop (f'.holding d))
      ((rest (st.slotOf d)).run (Faulty.serve fates) f) := by
  have hsame := Faulty.sameBut_run fates (hasks (st.slotOf d)) f
  have hdriver := hrest _ _ ⟨hst.inStep d, hknown⟩
  refine (hdriver.and (settles_always (fun _ => f.SameBut d) hsame)).imp ?_ ?_
  · rintro a slot f' ⟨⟨hslot, hpost⟩, hsame⟩
    exact ⟨hst.release hsame hslot, hsame, hpost⟩
  · rintro slot f' ⟨⟨hslot, hstop⟩, hsame⟩
    exact ⟨hst.release hsame hslot, hsame, hstop⟩

/-- The rule for look-ups, which need no lease. -/
theorem Sound.lookedUp (hst : st.Sound p f) {α : Type} {q : Query Unit α}
    (hq : Leads fates d (fun _ h => InStep p d (st.slotOf d) h) q
      (fun _ _ h => InStep p d (st.slotOf d) h) fun _ h => InStep p d (st.slotOf d) h)
    (hasks : q.Asks (Request.SparesLog d)) :
    Settles (fun _ st' f' => st'.Sound p f' ∧ f.SameLogs f')
      (fun st' f' => st'.Sound p f' ∧ f.SameLogs f')
      (st.run (Faulty.serve fates) f (Phase.answered <$> q)) := by
  have hend : q.Ensures (Faulty.serve fates) (fun _ f' => f' = f)
      (fun _ _ f' => st.Sound p f' ∧ f.SameLogs f')
      (fun _ f' => st.Sound p f' ∧ f.SameLogs f') := by
    rintro s f' rfl
    apply settles_always (fun _ f'' => st.Sound p f'' ∧ f'.SameLogs f'')
    -- an expiry may be noticed, which the frame keeps away from the log
    have hsame := Faulty.sameBut_run fates ((hasks s).mono fun _ hr => hr.1) f'
    obtain ⟨hslot, hlogs⟩ := (hq.frame hasks (fun log arrivals => log = (f'.holding d).log ∧
      arrivals = (f'.holding d).arrivals) s f' ⟨hst.inStep d, rfl, rfl⟩).always
    refine ⟨⟨hst.policy_eq, fun e => ?_⟩, hsame.sameLogs hlogs⟩
    by_cases he : d = e
    · subst he
      exact hslot
    · rw [hsame e he]
      exact hst.inStep e
  have hphase : (Phase.answered <$> q).Ensures (Faulty.serve fates) (fun _ f' => f' = f)
      (fun phase _ => PhaseSettles (Faulty.serve fates) st
        (fun _ st' f' => st'.Sound p f' ∧ f.SameLogs f')
        (fun st' f' => st'.Sound p f' ∧ f.SameLogs f') phase)
      (fun _ f' => st.Sound p f' ∧ f.SameLogs f') :=
    hend.map fun _ _ _ h => h
  exact settles_run (hphase () f rfl)

/-! ## What the calls do -/

theorem Sound.congr (hst : st.Sound p f) {f' : Faulty} (h : ∀ e, f'.holding e = f.holding e) :
    st.Sound p f' where
  policy_eq := hst.policy_eq
  inStep e := by
    rw [h e]
    exact hst.inStep e

/-- What is true of a driver's track when an append on it has given an analysis. -/
structure Appended (p : TrackPolicy) (a : TrackAnalysis) (h : Holding) : Prop where
  length_le : h.log.length ≤ p.maxPointsRetained
  sequence_eq : h.lapsed = false → a.sequence = UInt64.ofNat h.arrivals.length

/-- **An append adds its point once or not at all,** and once if it gives an analysis. -/
theorem Sound.append (hst : st.Sound p f) (fates : Nat → Fate) (now : Timestamp)
    (point : TrackPoint) :
    Settles
      (fun a st' f' => st'.Sound p f' ∧ f.Gained f' [point] ∧
        Appended p a (f'.holding point.driverId))
      (fun st' f' => st'.Sound p f' ∧ (f.Gained f' [] ∨ f.Gained f' [point]))
      (st.run (Faulty.serve fates) f (p.append now point)) := by
  generalize hd : point.driverId = d
  have hsingle : ∀ q ∈ [point], q.driverId = d := by simp [hd]
  have hleased : Leads fates d
      (fun s h => InStep p d s h ∧ h.arrivals = (f.holding d).arrivals) (p.appendLeased now point)
      (fun a s h => InStep p d s h ∧
        (h.arrivals = Wire.write point :: (f.holding d).arrivals ∧ Appended p a h))
      (fun s h => InStep p d s h ∧ (h.arrivals = (f.holding d).arrivals ∨
        h.arrivals = Wire.write point :: (f.holding d).arrivals)) := by
    refine (TrackPolicy.appendLeased_leads fates p d now hd _).weaken (fun _ _ hs => hs) ?_
      fun _ _ hs => hs
    rintro a s f' ⟨hs, hlength, harrivals⟩
    exact ⟨hs.inStep, harrivals, hlength, hs.sequence_eq_ofNat⟩
  have hasks := TrackPolicy.appendLeased_asks (p := p) now point
  rw [hd] at hasks
  have hfirst : Query.Ensures (Faulty.serve fates) (fun _ f' => f' = f) (p.append now point)
      (fun phase _ => PhaseSettles (Faulty.serve fates) st
        (fun a st' f' => st'.Sound p f' ∧ f.Gained f' [point] ∧ Appended p a (f'.holding d))
        (fun st' f' => st'.Sound p f' ∧ (f.Gained f' [] ∨ f.Gained f' [point])) phase)
      (fun _ f' => st.Sound p f' ∧ (f.Gained f' [] ∨ f.Gained f' [point])) := by
    have hstop : st.Sound p f ∧ (f.Gained f [] ∨ f.Gained f [point]) := ⟨hst, Or.inl fun _ => rfl⟩
    refine Ensures.ite (fun _ => Ensures.throw_bind ?_) fun _ => ?_
    · rintro s f' rfl
      exact hstop
    split
    · apply Ensures.throw_bind
      rintro s f' rfl
      exact hstop
    · apply Ensures.pure
      rintro s f' rfl
      rw [hd]
      refine ⟨hstop, (hst.leased hleased hasks rfl).imp ?_ ?_⟩
      · rintro a slot f'' ⟨hst', hsame, harrivals, happended⟩
        exact ⟨hst', hsame.gained hsingle harrivals, happended⟩
      · -- given up: before the push, or after it
        rintro slot f'' ⟨hst', hsame, harrivals | harrivals⟩
        · exact ⟨hst', Or.inl (hsame.gained (fun q hq => by cases hq) harrivals)⟩
        · exact ⟨hst', Or.inr (hsame.gained hsingle harrivals)⟩
  exact settles_run (hfirst () f rfl)

/-- A point of another driver is not taken in. -/
theorem Sound.ingest (hst : st.Sound p f) (fates : Nat → Fate) (now : Timestamp)
    (driverId : String) (point : TrackPoint) :
    Settles
      (fun a st' f' => st'.Sound p f' ∧ f.Gained f' [point] ∧
        Appended p a (f'.holding point.driverId))
      (fun st' f' => st'.Sound p f' ∧ (f.Gained f' [] ∨ f.Gained f' [point]))
      (st.run (Faulty.serve fates) f (p.ingest now driverId point)) := by
  by_cases hforeign : point.driverId = driverId
  · have heq : p.ingest now driverId point = p.append now point := by
      unfold TrackPolicy.ingest
      rw [if_neg (not_not_intro hforeign)]
    rw [heq]
    exact hst.append fates now point
  · have heq : p.ingest now driverId point =
        throw (.invalidInput (.foreignPoint point.driverId driverId)) := by
      unfold TrackPolicy.ingest
      rw [if_pos hforeign]
      rfl
    rw [heq]
    exact ⟨hst, Or.inl fun _ => rfl⟩

theorem Sound.recent (hst : st.Sound p f) (fates : Nat → Fate) (d : String) (count : Nat) :
    Settles (fun _ st' f' => st'.Sound p f' ∧ f.SameLogs f')
      (fun st' f' => st'.Sound p f' ∧ f.SameLogs f')
      (st.run (Faulty.serve fates) f (TrackPolicy.recent d count)) :=
  hst.lookedUp ((TrackPolicy.recentPoints_leads fates d
    (fun _ h => InStep p d (st.slotOf d) h) count).weaken (fun _ _ hs => hs) (fun _ _ _ hs => hs.1)
    fun _ _ hs => hs) (TrackPolicy.recentPoints_asks count)

theorem Sound.latest (hst : st.Sound p f) (fates : Nat → Fate) (d : String) :
    Settles (fun _ st' f' => st'.Sound p f' ∧ f.SameLogs f')
      (fun st' f' => st'.Sound p f' ∧ f.SameLogs f')
      (st.run (Faulty.serve fates) f (TrackPolicy.latest d)) :=
  hst.lookedUp ((TrackPolicy.latestAnalysis_leads fates d
    (fun _ h => InStep p d (st.slotOf d) h) fun _ _ hs => hs.lapse).weaken (fun _ _ hs => hs)
    (fun _ _ _ hs => hs.1) fun _ _ hs => hs) TrackPolicy.latestAnalysis_asks

/-- What a read shows of a driver's log: the end of an analysis of that log, which may have been
written and read back. -/
def Shows (p : TrackPolicy) (d : String) (log : List Bytes) (count : Nat)
    (points : List TrackPoint) : Prop :=
  ∃ a, p.Reflects d log a ∧ (points = a.lastPoints count ∨
    ∃ b : TrackAnalysis, Wire.read? (Wire.write a) = some b ∧ points = b.lastPoints count)

theorem shows_nil (p : TrackPolicy) (d : String) (count : Nat) : Shows p d [] count [] := by
  refine ⟨p.analyze d [] 0, ⟨[], 0, ?_, rfl⟩, Or.inl List.drop_nil.symm⟩
  rw [TrackPolicy.window?, List.take_nil]
  rfl

/-- What a read does under its lease.  What is known of the log stays known. -/
theorem lastPoints_leads (fates : Nat → Fate) (p : TrackPolicy) (d : String) (now : Timestamp)
    (count : Nat) (known : List Bytes → List Bytes → Prop) :
    Leads fates d (fun s h => InStep p d s h ∧ known h.log h.arrivals)
      (do return (← p.currentAnalysis now d).lastPoints count)
      (fun points s h => InStep p d s h ∧ (known h.log h.arrivals ∧ Shows p d h.log count points))
      (fun s h => InStep p d s h ∧ known h.log h.arrivals) := by
  have hcurrent := (TrackPolicy.currentAnalysis_leads fates p d now).frame
    (TrackPolicy.currentAnalysis_asks now) known
  refine hcurrent.bind fun a => Ensures.pure ?_
  rintro s f ⟨⟨hs, b, hreflects, rfl | hread⟩, hknown⟩
  · exact ⟨hs, hknown, a, hreflects, Or.inl rfl⟩
  · exact ⟨hs, hknown, b, hreflects, Or.inr ⟨a, hread, rfl⟩⟩

theorem lastPoints_asks (p : TrackPolicy) (d : String) (now : Timestamp) (count : Nat) :
    (do return (← p.currentAnalysis now d).lastPoints count :
      Query Slot (List TrackPoint)).Asks (Request.About d) :=
  ((TrackPolicy.currentAnalysis_asks now).bind fun _ => Asks.pure _).mono fun _ hr => hr.1

/-- **A read shows the log as it is** and changes no log. -/
theorem Sound.analyzed (hst : st.Sound p f) (fates : Nat → Fate) (now : Timestamp) (d : String)
    (count : Nat) :
    Settles
      (fun points st' f' => (st'.Sound p f' ∧ f.SameLogs f') ∧
        Shows p d (f'.holding d).log (min count p.windowSize) points)
      (fun st' f' => st'.Sound p f' ∧ f.SameLogs f')
      (st.run (Faulty.serve fates) f (p.analyzed now d count)) := by
  have hrange : Query.Ensures (Faulty.serve fates) (fun (_ : Unit) f' => f' = f)
      (Query.request (.range (TrackPolicy.pointsKey d) 1))
      (fun (newest : List Bytes) _ f' =>
        (∀ e, f'.holding e = f.holding e) ∧ (f.holding d).log.take 1 = newest)
      (fun _ f' => st.Sound p f' ∧ f.SameLogs f') := by
    apply Ensures.request
    rintro s f' rfl
    apply Faulty.serves_of ⟨hst.congr fun _ => rfl, fun _ => ⟨rfl, rfl⟩⟩
    exact fun now => ⟨fun _ => rfl, rfl⟩
  have hfirst : Query.Ensures (Faulty.serve fates) (fun _ f' => f' = f) (p.analyzed now d count)
      (fun phase _ => PhaseSettles (Faulty.serve fates) st
        (fun points st' f' => (st'.Sound p f' ∧ f.SameLogs f') ∧
          Shows p d (f'.holding d).log (min count p.windowSize) points)
        (fun st' f' => st'.Sound p f' ∧ f.SameLogs f') phase)
      (fun _ f' => st.Sound p f' ∧ f.SameLogs f') := by
    have hthrow : ∀ (_ : Unit) f', f' = f → st.Sound p f' ∧ f.SameLogs f' := by
      rintro _ f' rfl
      exact ⟨hst, fun _ => ⟨rfl, rfl⟩⟩
    refine Ensures.ite (fun _ => Ensures.throw_bind hthrow) fun _ =>
      Ensures.ite (fun _ => Ensures.throw_bind hthrow) fun _ => hrange.bind fun newest =>
        Ensures.ite (fun hempty => Ensures.pure ?_) fun _ => Ensures.pure ?_
    · rintro s f' ⟨hsame, hnewest⟩
      -- a log that has no newest point is empty
      have hlog : (f'.holding d).log = [] := by
        rw [hsame d]
        rw [List.isEmpty_iff.mp hempty] at hnewest
        exact (List.take_eq_nil_iff.mp hnewest).resolve_left (by decide)
      refine ⟨⟨hst.congr hsame, Faulty.sameLogs_of_holding_eq hsame⟩, ?_⟩
      rw [hlog]
      exact shows_nil p d _
    · rintro s f' ⟨hsame, -⟩
      have hsound := hst.congr hsame
      have hsameBut : ∀ f'', f'.SameBut d f'' → f.SameBut d f'' :=
        fun f'' h e he => (h e he).trans (hsame e)
      have hleased := hsound.leased (lastPoints_leads fates p d now (min count p.windowSize)
        fun log arrivals => log = (f.holding d).log ∧ arrivals = (f.holding d).arrivals)
        (lastPoints_asks p d now _) (Faulty.sameLogs_of_holding_eq hsame d)
      refine ⟨⟨hsound, Faulty.sameLogs_of_holding_eq hsame⟩, hleased.imp ?_ ?_⟩
      · rintro points slot f'' ⟨hst', hsame', hlogs, hshows⟩
        exact ⟨⟨hst', (hsameBut f'' hsame').sameLogs hlogs⟩, hshows⟩
      · rintro slot f'' ⟨hst', hsame', hlogs⟩
        exact ⟨hst', (hsameBut f'' hsame').sameLogs hlogs⟩
  exact settles_run (hfirst () f rfl)

/-! ## Every call, every history -/

/-- **What a call has done to the logs,** judged by its answer. -/
structure Call.Effect (p : TrackPolicy) (c : Call) (answer : Depot.Answer) (f f' : Faulty) :
    Prop where
  /-- Nothing arrived, or the call's own point did. -/
  gained : f.Gained f' [] ∨ ∃ point, c.point? = some point ∧ f.Gained f' [point]
  /-- A point that was taken in arrived, and its driver's log is no longer than allowed. -/
  accepted : answer.accepts = true → ∃ point, c.point? = some point ∧ f.Gained f' [point] ∧
    (f'.holding point.driverId).log.length ≤ p.maxPointsRetained
  /-- An analysis counts the points of its driver that arrived, modulo `2^64`. -/
  counted : ∀ a, answer = .appended (.ok a) → ∃ point, c.point? = some point ∧
    ((f'.holding point.driverId).lapsed = false →
      a.sequence = UInt64.ofNat (f'.holding point.driverId).arrivals.length)

/-- An answer tells of an append no more than how it came out. -/
structure Tells (answer : Depot.Answer) (outcome : Outcome TrackAnalysis) : Prop where
  accepts : answer.accepts = true → ∃ a, outcome = .finished (.ok a)
  appended : ∀ a, answer = .appended (.ok a) → outcome = .finished (.ok a)

theorem tells_answerBy (deadline : Option Duration) (outcome : Outcome TrackAnalysis) :
    Tells (Depot.answerBy .appended deadline outcome) outcome := by
  constructor
  · intro h
    rcases deadline with _ | deadline <;> rcases outcome with ⟨_ | a⟩ | _ <;>
      first
        | exact ⟨a, rfl⟩
        | cases h
  · intro a h
    rcases deadline with _ | deadline <;> rcases outcome with ⟨_ | b⟩ | _ <;> cases h <;> rfl

theorem tells_verdict (envelope : Envelope) (outcome : Outcome TrackAnalysis) :
    Tells (.delivered envelope (verdict outcome)) outcome := by
  constructor
  · intro h
    rcases outcome with ⟨e | a⟩ | _
    · cases e <;> cases h
    · exact ⟨a, rfl⟩
    · cases h
  · intro a h
    cases h

/-- The effect of an append, however its answer is given. -/
theorem effect_of_append {c : Call} {point : TrackPoint} (hc : c.point? = some point)
    {x : Outcome TrackAnalysis × TrackStore × Faulty}
    (hx : Settles
      (fun a st' f' => st'.Sound p f' ∧ f.Gained f' [point] ∧
        Appended p a (f'.holding point.driverId))
      (fun st' f' => st'.Sound p f' ∧ (f.Gained f' [] ∨ f.Gained f' [point])) x)
    {answer : Depot.Answer} (hanswer : Tells answer x.1) :
    x.2.1.Sound p x.2.2 ∧ c.Effect p answer f x.2.2 := by
  obtain ⟨outcome, st', f'⟩ := x
  have hgained : st'.Sound p f' ∧ (f.Gained f' [] ∨ f.Gained f' [point]) :=
    (hx.imp (fun _ _ _ h => ⟨h.1, Or.inr h.2.1⟩) fun _ _ h => h).always
  have hdone : ∀ a, outcome = .finished (.ok a) → f.Gained f' [point] ∧
      Appended p a (f'.holding point.driverId) := by
    rintro a rfl
    exact hx.2
  refine ⟨hgained.1, ⟨?_, ?_, ?_⟩⟩
  · exact hgained.2.imp_right fun h => ⟨point, hc, h⟩
  · intro h
    obtain ⟨a, ha⟩ := hanswer.accepts h
    exact ⟨point, hc, (hdone a ha).1, (hdone a ha).2.length_le⟩
  · intro a h
    exact ⟨point, hc, (hdone a (hanswer.appended a h)).2.sequence_eq⟩

/-- The effect of a call that takes nothing in. -/
theorem effect_of_read {c : Call} {st' : TrackStore} {f' : Faulty}
    (h : st'.Sound p f' ∧ f.SameLogs f') {answer : Depot.Answer}
    (hanswer : answer.accepts = false) : st'.Sound p f' ∧ c.Effect p answer f f' := by
  refine ⟨h.1, ⟨Or.inl h.2.gained, fun haccepts => ?_, ?_⟩⟩
  · rw [hanswer] at haccepts
    cases haccepts
  · rintro a rfl
    cases hanswer

theorem accepts_answerBy {α : Type} {answer : Except FleetError α → Depot.Answer}
    (h : ∀ result, (answer result).accepts = false) (deadline : Option Duration)
    (outcome : Outcome α) : (Depot.answerBy answer deadline outcome).accepts = false := by
  cases deadline with
  | some deadline => exact h _
  | none =>
    cases outcome with
    | finished result => exact h result
    | stalled => rfl

/-- **Every call keeps the store sound,** and does to the logs what its answer says. -/
theorem Sound.run (hst : st.Sound p f) (now : Timestamp) (c : Call) :
    (c.run (Faulty.serve fates) now (st, f)).2.1.Sound p
        (c.run (Faulty.serve fates) now (st, f)).2.2 ∧
      c.Effect p (c.run (Faulty.serve fates) now (st, f)).1 f
        (c.run (Faulty.serve fates) now (st, f)).2.2 := by
  obtain rfl := hst.policy_eq
  cases c with
  | append point =>
    have hc : (Call.append point).point? = some point := rfl
    exact effect_of_append hc (hst.append fates now point) (tells_answerBy _ _)
  | ingest driverId point deadline =>
    have hc : (Call.ingest driverId point deadline).point? = some point := rfl
    exact effect_of_append hc (hst.ingest fates now driverId point) (tells_answerBy _ _)
  | deliver envelope =>
    cases hread : (Wire.read? envelope.payload : Option TrackPoint) with
    | none =>
      simp only [Call.run, TrackStore.deliver, hread]
      exact effect_of_read ⟨hst, fun _ => ⟨rfl, rfl⟩⟩ rfl
    | some point =>
      have hc : (Call.deliver envelope).point? = some point := hread
      simp only [Call.run, TrackStore.deliver, hread]
      exact effect_of_append hc (hst.ingest fates now envelope.driverId point) (tells_verdict _ _)
  | recent driverId count =>
    exact effect_of_read (hst.recent fates driverId count).always
      (accepts_answerBy (fun _ => rfl) _ _)
  | latest driverId =>
    exact effect_of_read (hst.latest fates driverId).always (accepts_answerBy (fun _ => rfl) _ _)
  | analyzed driverId count deadline =>
    have hread := (hst.analyzed fates now driverId count).imp
      (fun _ _ _ h => h.1) fun _ _ h => h
    exact effect_of_read hread.always (accepts_answerBy (fun _ => rfl) _ _)

theorem Sound.after {start : TrackStore × Faulty} (h : start.1.Sound p start.2)
    (history : List (Timestamp × Call)) :
    (Call.after (Faulty.serve fates) start history).1.Sound p
      (Call.after (Faulty.serve fates) start history).2 := by
  induction history generalizing start with
  | nil => exact h
  | cons c history ih => exact ih (h.run c.1 c.2).1

/-- **A store is in step with its backend after every history.** -/
theorem sound_after (policy : TrackPolicy) (fates : Nat → Fate)
    (history : List (Timestamp × Call)) :
    (Call.after (Faulty.serve fates) (new policy, {}) history).1.Sound policy
      (Call.after (Faulty.serve fates) (new policy, {}) history).2 :=
  (sound_new policy).after history

end TrackStore

end Fleet
