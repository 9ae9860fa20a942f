import Fleet.Proofs.Store.Contents
import Fleet.Proofs.Store.Serial

/-!
# An append happens or leaves no trace

On a backend that never fails, an operation fails only if it is refused at once or if a record of
its driver cannot be read back, be it the stored analysis or a point of the window
(`append_cases_of_answered`).  Numbers that are not finite make such records, and nothing else does:
where all points that are taken and all analyses that are saved are finite, every append happens or
leaves no trace, and no append or read of a driver fails (`append_all_or_nothing`).  A point that
holds such a number is not refused, though.  It is stored, and the driver's appends fail until it
has left the window: `unreadable_point_is_stored`.
-/

namespace Fleet

open TrackPolicy (pointsKey analysisKey)
open Query (Ensures Leads)

/-- A record of a driver cannot be read back: the stored analysis, or one of the newest `count`
points. -/
def Holding.Spoilt (count : Nat) (h : Holding) : Prop :=
  (∃ e, h.stored = some e ∧ (Wire.read? e.value : Option TrackAnalysis) = none) ∨
    (h.log.take count).mapM (Wire.read? : Bytes → Option TrackPoint) = none

/-- Every request is answered, at its own time. -/
abbrev Fate.answering (times : Nat → Duration) : Nat → Fate := fun n => .served (times n)

namespace TrackPolicy

variable {σ : Type} {times : Nat → Duration} {p : TrackPolicy} {d : String}

/-! ## Operations fail on unreadable records only -/

/-- A record is read, or what follows from its being unreadable holds. -/
theorem readable_leads {α : Type} {fates : Nat → Fate} {record : Option α}
    {pre stop : σ → Holding → Prop} (h : record = none → ∀ s g, pre s g → stop s g) :
    Leads fates d pre (readable record) (fun _ _ _ => True) stop := by
  cases record with
  | none => exact Ensures.throw fun s f hs => h rfl s _ hs
  | some a => exact Ensures.pure fun _ _ _ => trivial

theorem latestAnalysis_answered (count : Nat) :
    Leads (.answering times) d (fun (_ : σ) _ => True) (latestAnalysis d) (fun _ _ _ => True)
      fun _ h => h.Spoilt count := by
  have habout : (Request.get (analysisKey d)).About d := rfl
  have hget : Leads (.answering times) d (fun (_ : σ) _ => True)
      (Query.request (.get (analysisKey d)))
      (fun (record : Option Bytes) _ h => ∀ bytes, record = some bytes →
        ∃ e, h.stored = some e ∧ e.value = bytes) fun _ h => h.Spoilt count := by
    refine Leads.answered habout fun s h n _ bytes hbytes => ?_
    rw [Holding.perform] at hbytes ⊢
    split at hbytes
    · cases hbytes
    · rename_i hfresh
      rw [if_neg hfresh]
      exact Option.map_eq_some_iff.mp hbytes
  refine Ensures.bind hget fun record => ?_
  cases record with
  | none => exact Ensures.pure fun _ _ _ => trivial
  | some bytes =>
    have hread : Leads (.answering times) d
        (fun (_ : σ) h => ∀ bytes', some bytes = some bytes' →
          ∃ e, h.stored = some e ∧ e.value = bytes')
        (readable (Wire.read? bytes)) (fun (_ : TrackAnalysis) _ _ => True)
        fun _ h => h.Spoilt count := by
      refine readable_leads fun hnone s h hs => ?_
      obtain ⟨e, he, rfl⟩ := hs bytes rfl
      exact Or.inl ⟨e, he, hnone⟩
    exact hread.bind fun a => Ensures.pure fun _ _ hs => hs

theorem recentPoints_answered (count : Nat) :
    Leads (.answering times) d (fun (_ : σ) _ => True) (recentPoints d count)
      (fun _ _ _ => True) fun _ h => h.Spoilt count := by
  have habout : (Request.range (pointsKey d) count).About d := rfl
  have hrange : Leads (.answering times) d (fun (_ : σ) _ => True)
      (Query.request (.range (pointsKey d) count))
      (fun (records : List Bytes) _ h => h.log.take count = records)
      fun _ h => h.Spoilt count := Leads.answered habout fun _ _ _ _ => rfl
  refine Ensures.bind hrange fun records => ?_
  have hread : Leads (.answering times) d (fun (_ : σ) h => h.log.take count = records)
      (readable (records.mapM Wire.read?)) (fun (_ : List TrackPoint) _ _ => True)
      fun _ h => h.Spoilt count := by
    refine readable_leads fun hnone s h hs => Or.inr ?_
    rw [hs]
    exact hnone
  exact hread.bind fun points => Ensures.pure fun _ _ hs => hs

theorem load_answered (count : Nat) :
    Leads (.answering times) d (fun _ _ => True) (load d) (fun _ _ _ => True)
      fun _ h => h.Spoilt count := by
  have hget : Leads (.answering times) d (fun _ _ => True) get (fun (_ : Slot) _ _ => True)
      fun _ h => h.Spoilt count := Ensures.get fun _ _ hs => hs
  exact Ensures.bind hget fun slot => Ensures.ite (fun _ => Ensures.pure fun _ _ hs => hs) fun _ =>
    (latestAnalysis_answered count).bind fun found => Ensures.modify fun _ _ hs => hs

theorem storeAnalysis_answered {a : TrackAnalysis} (ha : a.driverId = d) (count : Nat) :
    Leads (.answering times) d (fun (_ : σ) _ => True) (p.storeAnalysis a) (fun _ _ _ => True)
      fun _ h => h.Spoilt count := by
  obtain rfl := ha
  have habout : (Request.set (analysisKey a.driverId) (Wire.write a) (some p.analysisTtl)).About
      a.driverId := rfl
  have hrequest : Leads (.answering times) a.driverId (fun (_ : σ) _ => True)
      (Query.request (.set (analysisKey a.driverId) (Wire.write a) (some p.analysisTtl)))
      (fun _ _ _ => True) fun _ h => h.Spoilt count :=
    Leads.answered habout fun _ _ _ _ => trivial
  have hset : Leads (.answering times) a.driverId (fun (_ : σ) _ => True)
      (do
        Query.request (.set (analysisKey a.driverId) (Wire.write a) (some p.analysisTtl))
        return true)
      (fun (_ : Bool) _ _ => True) fun _ h => h.Spoilt count :=
    hrequest.bind fun _ => Ensures.pure fun _ _ hs => hs
  refine (latestAnalysis_answered count).bind fun found => ?_
  cases found with
  | none => exact hset
  | some stored => exact Ensures.ite (fun _ => Ensures.pure fun _ _ hs => hs) fun _ => hset

/-- The window is analyzed and saved unless a record cannot be read. -/
theorem analyzeAndSave_answered (now : Timestamp) (sequence : UInt64) :
    Leads (.answering times) d (fun _ _ => True)
      (do
        let analysis ← p.analyzeWindow now d sequence
        p.saveFresh analysis
        return analysis)
      (fun _ _ _ => True) fun _ h => h.Spoilt p.windowSize := by
  rw [analyzeWindow, bind_assoc]
  refine (recentPoints_answered p.windowSize).bind fun window => ?_
  rw [pure_bind]
  let analysis := { p.analyze d window now with sequence }
  have hdriver : analysis.driverId = d := p.driverId_analyze d window now
  have hstore : Leads (.answering times) d (fun (_ : Slot) _ => True) (p.storeAnalysis analysis)
      (fun _ _ _ => True) fun _ h => h.Spoilt p.windowSize :=
    storeAnalysis_answered hdriver p.windowSize
  exact Ensures.bind (hstore.bind fun done => Ensures.ite
    (fun _ => Ensures.modify fun _ _ hs => hs) fun _ => Ensures.pure fun _ _ hs => hs)
    fun _ => Ensures.pure fun _ _ hs => hs

/-- **An append fails under its lease only if a record of the driver cannot be read.** -/
theorem appendLeased_answered (now : Timestamp) {point : TrackPoint} (hd : point.driverId = d) :
    Leads (.answering times) d (fun _ _ => True) (p.appendLeased now point) (fun _ _ _ => True)
      fun _ h => h.Spoilt p.windowSize := by
  rw [appendLeased, hd]
  have hpushAbout : (Request.pushFront (pointsKey d) (Wire.write point)).About d := rfl
  have hpush : Leads (.answering times) d (fun (_ : Slot) _ => True)
      (Query.request (.pushFront (pointsKey d) (Wire.write point))) (fun (_ : Nat) _ _ => True)
      fun _ h => h.Spoilt p.windowSize := Leads.answered hpushAbout fun _ _ _ _ => trivial
  have htrimAbout : (Request.trim (pointsKey d) p.maxPointsRetained).About d := rfl
  have htrim : Leads (.answering times) d (fun (_ : Slot) _ => True)
      (Query.request (.trim (pointsKey d) p.maxPointsRetained)) (fun (_ : Nat) _ _ => True)
      fun _ h => h.Spoilt p.windowSize := Leads.answered htrimAbout fun _ _ _ _ => trivial
  have hcount : Leads (.answering times) d (fun _ _ => True)
      (modify fun slot : Slot => { slot with sequence := slot.sequence + 1, isDirty := true })
      (fun _ _ _ => True) fun _ h => h.Spoilt p.windowSize := Ensures.modify fun _ _ hs => hs
  have hget : Leads (.answering times) d (fun _ _ => True) get (fun (_ : Slot) _ _ => True)
      fun _ h => h.Spoilt p.windowSize := Ensures.get fun _ _ hs => hs
  have hrest := hget.bind fun slot => analyzeAndSave_answered (p := p) now slot.sequence
  exact (load_answered p.windowSize).bind fun _ => Ensures.bind hpush fun count =>
    hcount.bind fun _ => Ensures.ite (fun _ => Ensures.bind htrim fun _ => hrest) fun _ => hrest

theorem currentAnalysis_answered (now : Timestamp) :
    Leads (.answering times) d (fun _ _ => True) (p.currentAnalysis now d) (fun _ _ _ => True)
      fun _ h => h.Spoilt p.windowSize := by
  refine (load_answered p.windowSize).bind fun _ =>
    (latestAnalysis_answered p.windowSize).bind fun stored => ?_
  have hget : Leads (.answering times) d (fun _ _ => True) get (fun (_ : Slot) _ _ => True)
      fun _ h => h.Spoilt p.windowSize := Ensures.get fun _ _ hs => hs
  refine Ensures.bind hget fun slot => ?_
  split
  · exact Ensures.pure fun _ _ hs => hs
  · exact analyzeAndSave_answered now slot.sequence

end TrackPolicy

namespace TrackStore

variable {p : TrackPolicy} {times : Nat → Duration} {st : TrackStore} {f : Faulty}
  {points : List TrackPoint} {d : String}

/-- **How an append ends where every request is answered.**  It happens, or it is refused at once
with nothing changed, or afterwards a record of the driver cannot be read. -/
theorem append_cases_of_answered (hfree : st.held = none) (now : Timestamp) (point : TrackPoint) :
    let x := st.run (Faulty.serve (.answering times)) f (p.append now point)
    (∃ a, x.1 = .finished (.ok a)) ∨
    (∃ e, x = (.finished (.error e), st, f)) ∨
    (x.2.2.holding point.driverId).Spoilt p.windowSize := by
  intro x
  rcases p.append_cases now point with ⟨e, hrefused⟩ | hleased
  · refine .inr (.inl ⟨e, ?_⟩)
    show st.run _ f (p.append now point) = _
    rw [hrefused]
    rfl
  · have hrest : Leads (.answering times) point.driverId (fun _ _ => True)
        (p.appendLeased now point) (fun _ _ _ => True) fun _ h => h.Spoilt p.windowSize :=
      TrackPolicy.appendLeased_answered now rfl
    have hend : Settles _ _ x := hleased ▸ settles_leased hrest trivial hfree
    rcases hend.ok_or_stop with ⟨a, ha, -⟩ | ⟨slot, -, hspoilt⟩
    · exact .inl ⟨a, ha⟩
    · exact .inr (.inr hspoilt)

/-! ## Where everything can be read back -/

/-- A value is an analysis that can be read. -/
def HoldsAnalysis (value : Bytes) : Prop := ∃ a : TrackAnalysis, Wire.read? value = some a

/-- Analyses of legible points can be read back. -/
theorem analyzes_of_legible (hp : ∀ d, p.Legible d points) :
    p.Analyzes (WritesOf points) HoldsAnalysis :=
  fun d _ _ hlog ha => TrackPolicy.exists_read?_of_reflects (hp d).analysis hlog ha

/-- Nothing that is legible is spoilt. -/
theorem not_spoilt_of_meets (hp : ∀ d, p.Legible d points) {h : Holding}
    (hm : h.Meets (WritesOf points) HoldsAnalysis) (count : Nat) : ¬h.Spoilt count := by
  rintro (⟨e, he, hnone⟩ | hnone)
  · obtain ⟨a, ha⟩ := hm.stored e he
    rw [hnone] at ha
    cases ha
  · obtain ⟨records, hrecords⟩ := Wire.mapM_of_forall (l := h.log.take count)
      (f := (Wire.read? : Bytes → Option TrackPoint)) fun value hvalue => by
        obtain ⟨q, hq, rfl⟩ := hm.log value (List.mem_of_mem_take hvalue)
        exact (hp "").point q hq
    rw [hnone] at hrecords
    cases hrecords

section Legible

variable (hp : ∀ d, p.Legible d points)
include hp

/-- A query that fails on unreadable records only does not fail. -/
theorem leads_of_legible {σ α : Type} {q : Query σ α} {post : α → σ → Holding → Prop}
    {count : Nat}
    (hanswered : Leads (.answering times) d (fun _ _ => True) q (fun _ _ _ => True)
      fun _ h => h.Spoilt count)
    (hmeets : Leads (.answering times) d (fun _ h => h.Meets (WritesOf points) HoldsAnalysis) q
      post fun _ h => h.Meets (WritesOf points) HoldsAnalysis) :
    Leads (.answering times) d (fun _ h => h.Meets (WritesOf points) HoldsAnalysis) q post
      fun _ _ => False :=
  (hanswered.and hmeets).weaken (fun _ _ hs => ⟨trivial, hs⟩) (fun _ _ _ hs => hs.2)
    fun _ _ hs => not_spoilt_of_meets hp hs.2 count hs.1

variable (h : (f.holding d).Meets (WritesOf points) HoldsAnalysis)
include h

/-- **A legible point is appended.** -/
theorem append_of_legible (hfree : st.held = none) (now : Timestamp) {point : TrackPoint}
    (hd : point.driverId = d) (haccepted : point.isAcceptable = true) (hpoint : point ∈ points) :
    ∃ a, (st.run (Faulty.serve (.answering times)) f (p.append now point)).1 =
      .finished (.ok a) := by
  have hanswered : Leads (.answering times) d (fun _ _ => True) (p.appendLeased now point)
      (fun _ _ _ => True) fun _ h => h.Spoilt p.windowSize :=
    TrackPolicy.appendLeased_answered now hd
  have hrest := leads_of_legible hp hanswered
    (TrackPolicy.appendLeased_meets (analyzes_of_legible hp) now hd ⟨point, hpoint, rfl⟩)
  rw [p.append_of_isAcceptable now haccepted, hd]
  rcases (settles_leased hrest h hfree).ok_or_stop with ⟨a, ha, -⟩ | ⟨-, -, hfalse⟩
  · exact ⟨a, ha⟩
  · exact hfalse.elim

/-- **A track of legible points is read,** as it is stored. -/
theorem lookUp_of_legible {α : Type} {q : Query Unit α} {count : Nat}
    (hanswered : Leads (.answering times) d (fun _ _ => True) q (fun _ _ _ => True)
      fun _ h => h.Spoilt count)
    (hmeets : Leads (.answering times) d (fun _ h => h.Meets (WritesOf points) HoldsAnalysis) q
      (fun _ _ h => h.Meets (WritesOf points) HoldsAnalysis)
      fun _ h => h.Meets (WritesOf points) HoldsAnalysis) :
    ∃ a, (st.run (Faulty.serve (.answering times)) f (Phase.answered <$> q)).1 =
      .finished (.ok a) := by
  have hq := leads_of_legible hp hanswered hmeets
  have hend : Settles _ _ (st.run (Faulty.serve (.answering times)) f (Phase.answered <$> q)) :=
    settles_lookUp hq h
  rcases hend.ok_or_stop with ⟨a, ha, -⟩ | ⟨-, hfalse⟩
  · exact ⟨a, ha⟩
  · exact hfalse.elim

/-- **A track of legible points is read with its analysis.** -/
theorem analyzed_of_legible (hfree : st.held = none) (now : Timestamp) (hd : d.isEmpty = false)
    {count : Nat} (hcount : count ≠ 0) :
    ∃ found, (st.run (Faulty.serve (.answering times)) f (p.analyzed now d count)).1 =
      .finished (.ok found) := by
  have hanswered : Leads (.answering times) d (fun _ _ => True) (p.currentAnalysis now d)
      (fun _ _ _ => True) fun _ h => h.Spoilt p.windowSize :=
    TrackPolicy.currentAnalysis_answered now
  have hcurrent := leads_of_legible hp hanswered
    (TrackPolicy.currentAnalysis_meets (analyzes_of_legible hp) now)
  have hrest : Leads (.answering times) d
      (fun _ h => h.Meets (WritesOf points) HoldsAnalysis)
      (do return (← p.currentAnalysis now d).lastPoints (min count p.windowSize))
      (fun _ _ h => h.Meets (WritesOf points) HoldsAnalysis) fun _ _ => False :=
    hcurrent.bind fun a => Ensures.pure fun _ _ hs => hs
  have habout : (Request.range (pointsKey d) 1).About d := rfl
  have hnewest : Leads (.answering times) d
      (fun (_ : Unit) h => h.Meets (WritesOf points) HoldsAnalysis)
      (Query.request (.range (pointsKey d) 1))
      (fun (_ : List Bytes) _ h => h.Meets (WritesOf points) HoldsAnalysis)
      (fun _ _ => False) := Leads.answered habout fun _ _ _ hs => hs
  have hend : Settles (fun (_ : List TrackPoint) (_ : TrackStore) _ => True) (fun _ _ => False)
      (st.run (Faulty.serve (.answering times)) f (p.analyzed now d count)) := by
    rw [p.analyzed_of_count now hd hcount]
    refine settles_run_of_free hfree ((Ensures.bind hnewest fun newest => ?_) () f h)
    refine Ensures.ite (fun _ => Ensures.pure fun _ _ _ => trivial) fun _ =>
      Ensures.pure fun s g hs => ?_
    exact (hrest (st.slotOf d) g hs).imp (fun _ _ _ _ => trivial) fun _ _ hfalse => hfalse
  rcases hend.ok_or_stop with ⟨a, ha, -⟩ | hfalse
  · exact ⟨a, ha⟩
  · exact hfalse.elim

end Legible

/-! ## All or nothing -/

/-- After any history the store is at rest, and its policy is the one that it was given. -/
theorem rests_after (p : TrackPolicy) (fates : Nat → Fate) (history : List Incident) :
    (Incident.after (Faulty.serve fates) (new p, {}) history).1.policy = p ∧
      (Incident.after (Faulty.serve fates) (new p, {}) history).1.held = none := by
  -- any point of the history may be taken
  have hs : Obeys p (fun e _ h => e = "" → h.Meets
      (WritesOf (history.filterMap Incident.point?)) fun _ => True)
      (Incident.after (Faulty.serve fates) (new p, {}) history) :=
    meets_after (fun _ _ _ _ _ => trivial) fates
      (fun i hi q hq _ _ => List.mem_filterMap.mpr ⟨i, hi, hq⟩) fun _ _ _ _ _ => trivial
  exact ⟨hs.policy_eq, hs.atRest.free⟩

/-- **An append happens or leaves no trace,** on a backend that answers every request.  After any
history, an append of any point whatever succeeds, or is refused with store and backend as they
were, or leaves a record of the driver that cannot be read.  A driver of finite points, of whose
analyses only readable ones are saved, has no such records under a valid policy: its points are
appended and its track is read, whatever was refused before. -/
theorem append_all_or_nothing (p : TrackPolicy) (times : Nat → Duration)
    (history : List Incident) :
    let serve := Faulty.serve (.answering times)
    let s := Incident.after serve (new p, {}) history
    (∀ now point,
      let x := (Call.append point).run serve now s
      (∃ a, x.1 = .appended (.ok a)) ∨ (∃ e, x = (.appended (.error e), s)) ∨
        (x.2.2.holding point.driverId).Spoilt p.windowSize) ∧
    ∀ (d : String) (points : List TrackPoint), Config.isPositive p.speedLimit = true →
      p.windowSize < 2 ^ 64 → p.trigonometry.IsBounded →
      (∀ q ∈ points, q.IsFinite ∧ q.position.isValid = true) →
      (∀ i ∈ history, ∀ q, i.point? = some q → q.isAcceptable = true → q.driverId = d →
        q ∈ points) →
      (∀ i ∈ history, ∀ a, i.offer? = some a → a.driverId = d → HoldsAnalysis (Wire.write a)) →
      (∀ now point, point.driverId = d → point.isAcceptable = true → point ∈ points →
        ∃ a, ((Call.append point).run serve now s).1 = .appended (.ok a)) ∧
      (∀ now count, d.isEmpty = false → count ≠ 0 →
        ∃ found, ((Call.analyzed d count none).run serve now s).1 = .points (.ok found)) ∧
      (∀ now count, ∃ found, ((Call.recent d count).run serve now s).1 = .points (.ok found)) ∧
      ∀ now, ∃ found, ((Call.latest d).run serve now s).1 = .latest (.ok found) := by
  intro serve s
  refine ⟨fun now point => ?_, fun d points hlimit hwindow ht hpoints htaken hsaved => ?_⟩
  · obtain ⟨hpolicy, hfree⟩ : s.1.policy = p ∧ s.1.held = none := rests_after p _ history
    clear_value s
    obtain ⟨st, f⟩ := s
    obtain rfl : st.policy = p := hpolicy
    rcases append_cases_of_answered hfree now point with ⟨a, ha⟩ | ⟨e, he⟩ | hspoilt
    · exact .inl ⟨a, congrArg (Depot.answerBy .appended none) ha⟩
    · exact .inr (.inl ⟨e, congrArg (fun x => (Depot.answerBy .appended none x.1, x.2)) he⟩)
    · exact .inr (.inr hspoilt)
  have hp : ∀ d, p.Legible d points := fun _ =>
    TrackPolicy.legible_of_isFinite hlimit hwindow hpoints ht
  have hs : Obeys p (fun e _ h => e = d → h.Meets (WritesOf points) HoldsAnalysis) s :=
    meets_after (analyzes_of_legible hp) _ htaken hsaved
  clear_value s
  obtain ⟨st, f⟩ := s
  obtain rfl : st.policy = p := hs.policy_eq
  have hfree : st.held = none := hs.atRest.free
  have h : (f.holding d).Meets (WritesOf points) HoldsAnalysis := hs.each d rfl
  refine ⟨fun now point hd haccepted hpoint => ?_, fun now count hd hcount => ?_,
    fun now count => ?_, fun now => ?_⟩
  · obtain ⟨a, ha⟩ := append_of_legible hp h hfree now hd haccepted hpoint
    exact ⟨a, congrArg (Depot.answerBy .appended none) ha⟩
  · obtain ⟨found, hfound⟩ := analyzed_of_legible hp h hfree now hd hcount
    exact ⟨found, congrArg (Depot.answerBy .points none) hfound⟩
  · obtain ⟨found, hfound⟩ := lookUp_of_legible hp h (TrackPolicy.recentPoints_answered count)
      (TrackPolicy.recentPoints_keeps count)
    exact ⟨found, congrArg (Depot.answerBy .points none) hfound⟩
  · obtain ⟨found, hfound⟩ := lookUp_of_legible hp h (TrackPolicy.latestAnalysis_answered 0)
      (TrackPolicy.latestAnalysis_keeps (Holding.Meets.outlasts _ _))
    exact ⟨found, congrArg (Depot.answerBy .latest none) hfound⟩

open Crowd (standstill onTheWay smallWindow smallScale)

/-- A driver is on its way.  Between two of its fixes the store refuses a point without a driver and
starts anew. -/
theorem append_all_or_nothing_on_the_way :
    let serve := Faulty.serve (.answering fun _ => .zero)
    let refused : TrackPoint := { standstill with driverId := "" }
    let history : List Incident := [.act 0 (.call (.append standstill)),
      .act 1 (.call (.append refused)), .restart, .act 2 (.call (.append onTheWay))]
    let s := Incident.after serve (new smallScale, {}) history
    (∃ a, ((Call.append onTheWay).run serve 3 s).1 = .appended (.ok a)) ∧
      ∃ found, ((Call.analyzed "d" 2 none).run serve 3 s).1 = .points (.ok found) := by
  intro serve refused history
  have htaken : ∀ i ∈ history, ∀ q, i.point? = some q → q.isAcceptable = true →
      q.driverId = "d" → q ∈ [standstill, onTheWay] := by
    intro i hi q hq haccepted hd
    have hoffered : q ∈ history.filterMap Incident.point? := List.mem_filterMap.mpr ⟨i, hi, hq⟩
    have hpoints : history.filterMap Incident.point? = [standstill, refused, onTheWay] := rfl
    rw [hpoints] at hoffered
    simp only [List.mem_cons, List.not_mem_nil, or_false] at hoffered ⊢
    rcases hoffered with rfl | rfl | rfl
    · exact .inl rfl
    · exact absurd hd (by decide)
    · exact .inr rfl
  have hsaved : ∀ i ∈ history, ∀ a, i.offer? = some a → a.driverId = "d" →
      HoldsAnalysis (Wire.write a) := by
    intro i hi a ha
    have hoffered : a ∈ history.filterMap Incident.offer? := List.mem_filterMap.mpr ⟨i, hi, ha⟩
    cases hoffered
  obtain ⟨-, hdriver⟩ := append_all_or_nothing smallScale (fun _ => .zero) history
  obtain ⟨happend, hanalyzed, -⟩ := hdriver "d" [standstill, onTheWay] (by decide +kernel)
    (by decide) Trigonometry.isBounded_ofSmallAngles (fun _ => Crowd.isFinite_of_mem_fixes) htaken
    hsaved
  exact ⟨happend 3 onTheWay rfl (by decide +kernel)
    (List.mem_cons_of_mem _ (List.mem_singleton_self _)), hanalyzed 3 2 (by decide) (by decide)⟩

/-- **A point that cannot be read back is stored.**  Its position is valid and its speed is no
number.  Its append fails with the point in the log and counted, and then an append of a good point
and a read fail as well. -/
theorem unreadable_point_is_stored :
    let serve := Faulty.serve (.answering fun _ => .zero)
    let unreadable : TrackPoint := { standstill with speed := 0 / 0 }
    let x := (Call.append unreadable).run serve 0 (new smallWindow, {})
    (x.1 matches .appended (.error _)) = true ∧
      (x.2.2.holding "d").log = [Wire.write unreadable] ∧
      x.2.1.slotOf "d" = { sequence := 1, isLoaded := true, isDirty := true } ∧
      (((Call.append standstill).run serve 0 x.2).1 matches .appended (.error _)) = true ∧
      (((Call.analyzed "d" 2 none).run serve 0 x.2).1 matches .points (.error _)) = true := by
  decide +kernel

end TrackStore

end Fleet
