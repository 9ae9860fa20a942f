import Fleet.Proofs.Store.Contents
import Fleet.Proofs.Store.Serial
import Fleet.Proofs.Track.Verdicts
import Fleet.Proofs.Wire.Reread

/-!
# Where the verdicts of an analysis come from

A point of an analysis has the verdict that the analyzer gave it, or, where the analyzer gave none,
what it was submitted with (`TrackAnalysis.Attributed`).  The analyzer's own verdicts are lawful,
and the anomalies among them are what an analysis counts.  So the verdicts in an analysis agree with
its count, and estimate a location just where they find an anomaly, if no point is submitted with a
verdict that says otherwise: `analyses_attributed`.  A point that is submitted as an anomaly is
shown as one, and not counted: `submitted_verdict_is_shown`.
-/

namespace Fleet

/-- The point has a verdict that finds an anomaly. -/
def TrackPoint.isAnomalous (q : TrackPoint) : Bool := q.analysis.any EdgeAnalysis.isAnomaly

/-- **The verdicts in an analysis are consistent:** the anomalies among them are counted, and they
are lawful. -/
structure TrackAnalysis.IsConsistent (a : TrackAnalysis) : Prop where
  counted : a.points.countP TrackPoint.isAnomalous = a.anomalyCount
  lawful : ∀ q ∈ a.points, ∀ e, q.analysis = some e → e.IsLawful

/-- A point has no verdict, or one that neither finds an anomaly nor estimates a location. -/
def TrackPoint.IsUnmarked (q : TrackPoint) : Prop := ∀ m, q.marks? = some m → m = (false, false)

/-- **A point bears the verdict** that an analyzer gave it.  Where there was none, it bears what one
of the submitted points came with. -/
def TrackPoint.Bears (submitted : List TrackPoint) : Option EdgeAnalysis → TrackPoint → Prop
  | some e, r => e.IsLawful ∧ r.marks? = some e.marks
  | none, r => ∃ q ∈ submitted, r.marks? = q.marks?

/-- **An analysis is attributed** if its points bear verdicts of which it counts the anomalies. -/
def TrackAnalysis.Attributed (submitted : List TrackPoint) (a : TrackAnalysis) : Prop :=
  ∃ verdicts, List.Forall₂ (TrackPoint.Bears submitted) verdicts a.points ∧
    a.anomalyCount = Track.anomalies (verdicts.filterMap id)

variable {submitted : List TrackPoint}

/-! ## Marks -/

theorem TrackPoint.isAnomalous_eq (q : TrackPoint) : q.isAnomalous = q.marks?.any Prod.fst := by
  rw [isAnomalous, marks?, Option.any_map]
  rfl

/-- What is lawful can be told from marks. -/
theorem EdgeAnalysis.isLawful_iff (e : EdgeAnalysis) : e.IsLawful ↔ e.marks.2 = e.marks.1 := Iff.rfl

namespace TrackPoint

variable {r : TrackPoint} {e : EdgeAnalysis}

/-- A point that bears a verdict is anomalous if that is, and lawful. -/
theorem Bears.of_some (h : Bears submitted (some e) r) :
    r.isAnomalous = e.isAnomaly ∧ ∀ e', r.analysis = some e' → e'.IsLawful := by
  obtain ⟨hlawful, hmarks⟩ := h
  refine ⟨?_, fun e' he' => ?_⟩
  · rw [isAnomalous_eq, hmarks]
    rfl
  · have hsame : e'.marks = e.marks := by
      rw [marks?, he'] at hmarks
      exact Option.some.inj hmarks
    rw [EdgeAnalysis.isLawful_iff, hsame]
    exact hlawful

/-- A point without a verdict of its own is not anomalous if no point was submitted as such. -/
theorem Bears.of_none (hsubmitted : ∀ q ∈ submitted, q.IsUnmarked) (h : Bears submitted none r) :
    r.isAnomalous = false ∧ ∀ e', r.analysis = some e' → e'.IsLawful := by
  obtain ⟨q, hq, hmarks⟩ := h
  have hunmarked : r.IsUnmarked := fun m hm => hsubmitted q hq m (hmarks ▸ hm)
  refine ⟨?_, fun e' he' => ?_⟩
  · rw [isAnomalous_eq]
    cases hm : r.marks? with
    | none => rfl
    | some m =>
      rw [hunmarked m hm]
      rfl
  · rw [EdgeAnalysis.isLawful_iff, hunmarked e'.marks (by rw [marks?, he']; rfl)]

end TrackPoint

namespace TrackAnalysis

variable {a b : TrackAnalysis}

/-- **An attributed analysis is consistent** if no submitted point has marks. -/
theorem Attributed.isConsistent (ha : a.Attributed submitted)
    (hsubmitted : ∀ q ∈ submitted, q.IsUnmarked) : a.IsConsistent := by
  obtain ⟨verdicts, hverdicts, hcount⟩ := ha
  suffices h : a.points.countP TrackPoint.isAnomalous = Track.anomalies (verdicts.filterMap id) ∧
      ∀ q ∈ a.points, ∀ e, q.analysis = some e → e.IsLawful from ⟨h.1.trans hcount.symm, h.2⟩
  clear hcount
  generalize a.points = shown at hverdicts
  induction hverdicts with
  | nil => exact ⟨rfl, fun _ hq => nomatch hq⟩
  | @cons verdict r verdicts shown hbears _ ih =>
    cases verdict with
    | none =>
      obtain ⟨hregular, hlawful⟩ := hbears.of_none hsubmitted
      refine ⟨?_, List.forall_mem_cons.mpr ⟨hlawful, ih.2⟩⟩
      rw [List.countP_cons_of_neg (by rw [hregular]; exact Bool.false_ne_true)]
      exact ih.1
    | some e =>
      obtain ⟨hanomalous, hlawful⟩ := hbears.of_some
      refine ⟨?_, List.forall_mem_cons.mpr ⟨hlawful, ih.2⟩⟩
      rw [List.countP_cons, hanomalous, ih.1]
      exact (List.countP_cons ..).symm

/-- **An attributed analysis stays attributed** when it is written and read back. -/
theorem Attributed.reread (ha : a.Attributed submitted)
    (hread : Wire.read? (Wire.write a) = some b) : b.Attributed submitted := by
  obtain ⟨verdicts, hverdicts, hcount⟩ := ha
  refine ⟨verdicts, ?_, (Wire.anomalyCount_of_write hread).trans hcount⟩
  refine forall₂_comp (fun verdict r r' hbears hr => ?_) hverdicts (Wire.points_of_write hread)
  have hmarks := (Wire.point_of_ofJson? hr).2
  cases verdict with
  | none => exact hbears.imp fun q hq => ⟨hq.1, hmarks.trans hq.2⟩
  | some e => exact ⟨hbears.1, hmarks.trans hbears.2⟩

end TrackAnalysis

/-- **An analysis of submitted points is attributed.** -/
theorem TrackPolicy.Reflects.attributed {p : TrackPolicy} {d : String} {log : List Bytes}
    {a : TrackAnalysis} (ha : p.Reflects d log a)
    (hlog : ∀ value ∈ log, WritesOf submitted value) : a.Attributed submitted := by
  obtain ⟨window, computedAt, hwindow, ha⟩ := ha
  obtain ⟨records, hrecords, rfl⟩ := Option.map_eq_some_iff.mp hwindow
  have hmarks : ∀ r ∈ records.reverse, ∃ q ∈ submitted, r.marks? = q.marks? := by
    intro r hr
    obtain ⟨value, hvalue, hread⟩ := (mem_of_mapM hrecords).2 r (List.mem_reverse.mp hr)
    obtain ⟨q, hq, rfl⟩ := hlog value (List.mem_of_mem_take hvalue)
    rw [Wire.read?_write] at hread
    exact ⟨q, hq, (Wire.point_of_ofJson? hread).2⟩
  rw [ha]
  refine ⟨Track.verdicts p.trigonometry.distanceKm p.speedLimit records.reverse, ?_,
    Track.anomalyCount_analyzeWith d computedAt⟩
  show List.Forall₂ _ _ (p.analyze d records.reverse computedAt).points
  rw [TrackPolicy.analyze, Track.points_analyzeWith, List.zipWith_comm]
  refine Track.forall₂_zipWith (Nat.le_of_eq Track.length_verdicts) fun verdict hverdict r hr => ?_
  cases verdict with
  | none => exact hmarks r hr
  | some e => exact ⟨Track.isLawful_of_mem_verdicts hverdict, rfl⟩

/-! ## Answers -/

/-- A value is an attributed analysis. -/
def HoldsAttributed (submitted : List TrackPoint) (value : Bytes) : Prop :=
  ∃ a : TrackAnalysis, value = Wire.write a ∧ a.Attributed submitted

/-- Analyses of submitted points can be stored as attributed ones. -/
theorem analyzes_attributed (p : TrackPolicy) (submitted : List TrackPoint) :
    p.Analyzes (WritesOf submitted) (HoldsAttributed submitted) :=
  fun _ _ a hlog ha => ⟨a, rfl, ha.attributed hlog⟩

namespace TrackStore

variable {p : TrackPolicy} {fates : Nat → Fate} {st : TrackStore} {f : Faulty} {d : String}
  {a : TrackAnalysis}

/-- An append answers an attributed analysis. -/
theorem append_attributed (hfree : st.held = none) {now : Timestamp} {point : TrackPoint}
    (hd : point.driverId = d) (hpoint : point.isAcceptable = true → point ∈ submitted)
    (h : (f.holding d).Meets (WritesOf submitted) (HoldsAttributed submitted))
    (hok : (st.run (Faulty.serve fates) f (p.append now point)).1 = .finished (.ok a)) :
    a.Attributed submitted := by
  obtain ⟨hmeets, -, hreflects⟩ := append_reflects (analyzes_attributed p submitted) hfree hd
    (fun haccepted => ⟨point, hpoint haccepted, rfl⟩) h hok
  exact hreflects.attributed hmeets.log

/-- The answer of an append holds an analysis only if the append came out with it. -/
theorem outcome_of_appended {deadline : Option Duration} {outcome : Outcome TrackAnalysis}
    (h : (Depot.answerBy .appended deadline outcome).heldAnalysis? = some a) :
    outcome = .finished (.ok a) := by
  rcases deadline with _ | deadline <;> rcases outcome with ⟨_ | b⟩ | _ <;> cases h <;> rfl

/-- Points are no analysis. -/
theorem heldAnalysis?_points (deadline : Option Duration) (outcome : Outcome (List TrackPoint)) :
    (Depot.answerBy .points deadline outcome).heldAnalysis? = none := by
  rcases deadline with _ | deadline <;> rcases outcome with ⟨_ | b⟩ | _ <;> rfl

/-- **A call answers an attributed analysis,** if it answers one. -/
theorem call_attributed (hfree : st.held = none) {now : Timestamp} {c : Call}
    (hpoint : ∀ q, c.point? = some q → q.isAcceptable = true → q ∈ submitted)
    (h : (f.holding c.driverId).Meets (WritesOf submitted) (HoldsAttributed submitted))
    (ha : (c.run (Faulty.serve fates) now (st, f)).1.heldAnalysis? = some a) :
    a.Attributed submitted := by
  cases c with
  | append point =>
    exact append_attributed hfree rfl (hpoint point rfl) h (outcome_of_appended ha)
  | ingest driverId point deadline =>
    have hok : (st.run (Faulty.serve fates) f (st.policy.ingest now driverId point)).1 =
        .finished (.ok a) := outcome_of_appended ha
    rcases st.policy.ingest_cases now driverId point with ⟨e, hrefused⟩ | ⟨hd, hown⟩
    · rw [hrefused] at hok
      cases hok
    · rw [hown] at hok
      exact append_attributed hfree hd (hpoint point rfl) h hok
  | deliver envelope => cases ha
  | recent driverId count =>
    have hnone : none = some a := (heldAnalysis?_points none _).symm.trans ha
    cases hnone
  | latest driverId =>
    have hok : (st.run (Faulty.serve fates) f (TrackPolicy.latest driverId)).1 =
        .finished (.ok (some a)) := by
      change (Depot.answerBy .latest none
        (st.run (Faulty.serve fates) f (TrackPolicy.latest driverId)).1).heldAnalysis? =
          some a at ha
      generalize (st.run (Faulty.serve fates) f (TrackPolicy.latest driverId)).1 = outcome at ha
      rcases outcome with ⟨_ | found⟩ | _
      · cases ha
      · exact congrArg (fun found => Outcome.finished (.ok found)) ha
      · cases ha
    obtain ⟨_, ⟨b, rfl, hb⟩, hread⟩ := latest_meets h hok
    exact hb.reread hread
  | analyzed driverId count deadline =>
    have hnone : none = some a := (heldAnalysis?_points deadline _).symm.trans ha
    cases hnone

/-- **Analyses contain the analyzer's own verdicts, and what points were submitted with.**  After
every history, whatever became of its requests, each analysis of a driver that a call answers is
attributed to the points that were submitted for the driver.  It is consistent if they were
submitted without marks. -/
theorem analyses_attributed (p : TrackPolicy) (fates : Nat → Fate) (history : List Incident)
    (htaken : ∀ i ∈ history, ∀ q, i.point? = some q → q.isAcceptable = true → q.driverId = d →
      q ∈ submitted)
    (hsaved : ∀ i ∈ history, ∀ b, i.offer? = some b → b.driverId = d → b.Attributed submitted)
    (now : Timestamp) (c : Call) (hd : c.driverId = d)
    (hpoint : ∀ q, c.point? = some q → q.isAcceptable = true → q ∈ submitted) :
    let s := Incident.after (Faulty.serve fates) (new p, {}) history
    (c.run (Faulty.serve fates) now s).1.heldAnalysis? = some a →
      a.Attributed submitted ∧ ((∀ q ∈ submitted, q.IsUnmarked) → a.IsConsistent) := by
  intro s ha
  have hs : Obeys p (fun e _ h => e = d →
      h.Meets (WritesOf submitted) (HoldsAttributed submitted)) s :=
    meets_after (analyzes_attributed p submitted) fates htaken
      fun i hi b hb hdriver => ⟨b, rfl, hsaved i hi b hb hdriver⟩
  have hattributed := call_attributed hs.atRest.free hpoint (hs.each _ hd) ha
  exact ⟨hattributed, hattributed.isConsistent⟩

open Crowd (standstill smallWindow)

/-- A driver stands still, and its fixes come with a verdict that marks nothing. -/
theorem analyses_attributed_of_standstill :
    let serve := Faulty.serve fun _ => .served .zero
    let judged : TrackPoint := { standstill with analysis := some ⟨0, 1, false, none⟩ }
    let s := Incident.after serve (new smallWindow, {}) [.act 0 (.call (.append judged))]
    ∃ a, ((Call.append judged).run serve 1 s).1 = .appended (.ok a) ∧
      a.Attributed [judged] ∧ a.IsConsistent := by
  intro serve judged s
  have hunmarked : ∀ q ∈ [judged], q.IsUnmarked := by
    intro q hq m hm
    obtain rfl := List.mem_singleton.mp hq
    exact (Option.some.inj hm).symm
  obtain ⟨a, ha⟩ : ∃ a, ((Call.append judged).run serve 1 s).1 = .appended (.ok a) :=
    Call.exists_appended (by decide +kernel)
  have htaken : ∀ i ∈ [Incident.act 0 (.call (.append judged))], ∀ q, i.point? = some q →
      q.isAcceptable = true → q.driverId = "d" → q ∈ [judged] := by
    intro i hi q hq _ _
    obtain rfl := List.mem_singleton.mp hi
    exact List.mem_singleton.mpr (Option.some.inj hq).symm
  have hsaved : ∀ i ∈ [Incident.act 0 (.call (.append judged))], ∀ b, i.offer? = some b →
      b.driverId = "d" → b.Attributed [judged] := by
    intro i hi b hb
    obtain rfl := List.mem_singleton.mp hi
    cases hb
  have hpoint : ∀ q, (Call.append judged).point? = some q → q.isAcceptable = true →
      q ∈ [judged] := fun q hq _ => List.mem_singleton.mpr (Option.some.inj hq).symm
  obtain ⟨hattributed, hconsistent⟩ := analyses_attributed smallWindow (fun _ => .served .zero)
    [.act 0 (.call (.append judged))] htaken hsaved 1 (.append judged) rfl hpoint
    (congrArg Depot.Answer.heldAnalysis? ha)
  exact ⟨a, ha, hattributed, hconsistent hunmarked⟩

/-- **A verdict that a point was submitted with is shown.**  The first point of a driver is
submitted as an anomaly.  The append and a look-up after it answer an analysis in which one point is
anomalous, and no anomaly is counted. -/
theorem submitted_verdict_is_shown :
    let serve := Faulty.serve fun _ => .served .zero
    let marked : TrackPoint := { standstill with analysis := some ⟨500, 1, true, none⟩ }
    let x := (Call.append marked).run serve 0 (new smallWindow, {})
    let found := (Call.latest "d").run serve 0 x.2
    let anomalies (answer : Depot.Answer) := answer.heldAnalysis?.map fun a =>
      (a.points.countP TrackPoint.isAnomalous, a.anomalyCount)
    anomalies x.1 = some (1, 0) ∧ anomalies found.1 = some (1, 0) := by
  decide +kernel

end TrackStore

end Fleet
