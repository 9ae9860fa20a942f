import Fleet.Proofs.Store.Upkeep

/-!
# What the backend comes to hold

A property of the values that are appended is a property of every value in a log, and what follows
from it for an analysis of such a log is true of the stored analysis, for nothing else is ever
written: `Holding.Meets` is an invariant (`invariant_meets`).  It does not depend on slots, nor on
what becomes of requests.
-/

namespace Fleet

open Query (Leads)

/-- **The values of a log and the stored value have given properties.** -/
structure Holding.Meets (P Q : Bytes → Prop) (h : Holding) : Prop where
  log : ∀ value ∈ h.log, P value
  stored : ∀ e, h.stored = some e → Q e.value

namespace Holding.Meets

variable {P Q : Bytes → Prop}

theorem empty (P Q : Bytes → Prop) : ({} : Holding).Meets P Q where
  log _ hvalue := nomatch hvalue
  stored _ he := nomatch he

theorem outlasts (P Q : Bytes → Prop) : Outlasts (Meets P Q) where
  trim hm _ := ⟨fun value hvalue => hm.log value (List.mem_of_mem_take hvalue), hm.stored⟩
  lapse hm := ⟨hm.log, fun _ he => nomatch he⟩

theorem outlastsPush {value : Bytes} (hvalue : P value) : OutlastsPush (Meets P Q) value := by
  refine fun h hm => ⟨fun value' hvalue' => ?_, hm.stored⟩
  rcases List.mem_cons.mp hvalue' with rfl | hvalue'
  · exact hvalue
  · exact hm.log value' hvalue'

theorem outlastsStore {a : TrackAnalysis} (ha : Q (Wire.write a)) :
    OutlastsStore (Meets P Q) a := by
  refine fun h found hm _ _ expiresAt => ⟨hm.log, fun e he => ?_⟩
  cases he
  exact ha

end Holding.Meets

namespace TrackPolicy

variable {fates : Nat → Fate} {p : TrackPolicy} {d : String} {P Q : Bytes → Prop}

/-- What is analyzed of logs of such values can be stored. -/
def Analyzes (p : TrackPolicy) (P Q : Bytes → Prop) : Prop :=
  ∀ d log a, (∀ value ∈ log, P value) → p.Reflects d log a → Q (Wire.write a)

variable (hanalyzes : p.Analyzes P Q)
include hanalyzes

theorem Analyzes.outlastsStore (d : String) (h : Holding) (a : TrackAnalysis) (hm : h.Meets P Q)
    (ha : p.Reflects d h.log a) : OutlastsStore (Holding.Meets P Q) a :=
  Holding.Meets.outlastsStore (hanalyzes d h.log a hm.log ha)

/-- **An append** of a value with the property keeps logs and stored values as they should be.  What
it answers is an analysis of the log with the value in front. -/
theorem appendLeased_meets (now : Timestamp) {point : TrackPoint} (hd : point.driverId = d)
    (hpoint : P (Wire.write point)) :
    Leads fates d (fun _ h => h.Meets P Q) (p.appendLeased now point)
      (fun a _ h => h.Meets P Q ∧ p.Fronts (Wire.write point) h.log ∧ p.Reflects d h.log a)
      fun _ h => h.Meets P Q :=
  appendLeased_keeps (Holding.Meets.outlasts P Q) hanalyzes.outlastsStore now hd
    (Holding.Meets.outlastsPush hpoint)

theorem currentAnalysis_meets (now : Timestamp) :
    Leads fates d (fun _ h => h.Meets P Q) (p.currentAnalysis now d) (fun _ _ h => h.Meets P Q)
      fun _ h => h.Meets P Q :=
  currentAnalysis_keeps (Holding.Meets.outlasts P Q) hanalyzes.outlastsStore now

end TrackPolicy

/-- A value is the written form of one of some points. -/
def WritesOf (points : List TrackPoint) (value : Bytes) : Prop := ∃ q ∈ points, value = Wire.write q

namespace TrackStore

variable {p : TrackPolicy} {P Q : Bytes → Prop}

/-- **What the backend holds is an invariant,** if points with the property are appended and
analyses that can be stored are offered. -/
theorem invariant_meets (hanalyzes : p.Analyzes P Q) (fates : Nat → Fate) :
    Invariant p fates (fun q _ _ => P (Wire.write q)) (fun a _ _ => Q (Wire.write a))
      fun _ _ h => h.Meets P Q :=
  (invariant_of_outlasts (Holding.Meets.outlasts P Q) hanalyzes.outlastsStore fates).restrict
    (fun _ _ _ hq => Holding.Meets.outlastsPush hq) fun _ _ _ ha => Holding.Meets.outlastsStore ha

/-- **What is held of a driver after a history** are the driver's points and analyses of them, or
analyses that were offered. -/
theorem meets_after {points : List TrackPoint} {d : String}
    (hanalyzes : p.Analyzes (WritesOf points) Q) (fates : Nat → Fate) {history : List Incident}
    (htaken : ∀ i ∈ history, ∀ q, i.point? = some q → q.isAcceptable = true → q.driverId = d →
      q ∈ points)
    (hsaved : ∀ i ∈ history, ∀ a, i.offer? = some a → a.driverId = d → Q (Wire.write a)) :
    Obeys p (fun e _ h => e = d → h.Meets (WritesOf points) Q)
      (Incident.after (Faulty.serve fates) (new p, {}) history) :=
  ((invariant_meets hanalyzes fates).only d).after
    (obeys_new p fun _ _ => Holding.Meets.empty _ _)
    (Incident.allAdmitted_of_forall
      (fun i hi q hq haccepted hd => ⟨q, htaken i hi q hq haccepted hd, rfl⟩) hsaved _)

/-! ## Answers -/

variable {fates : Nat → Fate} {st : TrackStore} {f : Faulty} {d : String}

/-- **The analysis that an append answers** is one of the log with the point in front. -/
theorem append_reflects (hanalyzes : p.Analyzes P Q) (hfree : st.held = none) {now : Timestamp}
    {point : TrackPoint} (hd : point.driverId = d)
    (hpoint : point.isAcceptable = true → P (Wire.write point))
    (h : (f.holding d).Meets P Q) {a : TrackAnalysis}
    (hok : (st.run (Faulty.serve fates) f (p.append now point)).1 = .finished (.ok a)) :
    let g := (st.run (Faulty.serve fates) f (p.append now point)).2.2.holding d
    g.Meets P Q ∧ p.Fronts (Wire.write point) g.log ∧ p.Reflects d g.log a := by
  obtain ⟨haccepted, hleased⟩ := append_eq_of_ok hd hok
  rw [hleased] at hok ⊢
  obtain ⟨-, -, hmeets⟩ := (settles_leased
    (TrackPolicy.appendLeased_meets hanalyzes now hd (hpoint haccepted)) h hfree).of_ok hok
  exact hmeets

/-- An append that takes in its point answers an analysis. -/
theorem Call.exists_appended {β : Type} {serve : Server β} {now : Timestamp}
    {s : TrackStore × β} {point : TrackPoint}
    (h : ((Call.append point).run serve now s).1.accepts = true) :
    ∃ a, ((Call.append point).run serve now s).1 = .appended (.ok a) := by
  obtain ⟨a, ha⟩ := (tells_answerBy none _).accepts h
  exact ⟨a, congrArg (Depot.answerBy .appended none) ha⟩

/-- **The analysis that a look-up answers** was stored. -/
theorem latest_meets (h : (f.holding d).Meets P Q) {a : TrackAnalysis}
    (hok : (st.run (Faulty.serve fates) f (TrackPolicy.latest d)).1 = .finished (.ok (some a))) :
    ∃ value, Q value ∧ Wire.read? value = some a := by
  have hfound : Leads fates d (fun (_ : Unit) h => h.Meets P Q) _ _ _ :=
    TrackPolicy.latestAnalysis_finds (Holding.Meets.outlasts P Q)
  obtain ⟨-, hmeets, hfinds⟩ := (settles_lookUp hfound h).of_ok hok
  obtain ⟨e, he, hread⟩ := hfinds.eq_some
  exact ⟨e.value, hmeets.stored e he, hread⟩

end TrackStore

end Fleet
