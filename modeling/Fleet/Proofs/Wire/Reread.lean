import Fleet.Proofs.Wire.Finite

/-!
# What reading back keeps

Floats can change when they are written and read back.  What does not depend on floats is kept:
whose a point is, whether it has a verdict, and what the verdict marks (`point_of_ofJson?`).  An
analysis keeps its points, one by one, and its count of anomalies (`points_of_write`,
`anomalyCount_of_write`).
-/

namespace Fleet

/-- **What a verdict marks:** whether its edge is an anomaly, and whether a location is
estimated. -/
def EdgeAnalysis.marks (e : EdgeAnalysis) : Bool × Bool :=
  (e.isAnomaly, e.estimatedLocation.isSome)

/-- What the verdict on a point marks, if there is one. -/
def TrackPoint.marks? (q : TrackPoint) : Option (Bool × Bool) := q.analysis.map EdgeAnalysis.marks

theorem forall₂_of_mapM {α β : Type} {f : α → Option β} {l : List α} {l' : List β}
    (h : l.mapM f = some l') : List.Forall₂ (fun a b => f a = some b) l l' := by
  induction l generalizing l' with
  | nil =>
    cases h
    exact .nil
  | cons a l ih =>
    rw [List.mapM_cons] at h
    simp only [Option.bind_eq_bind, Option.bind_eq_some_iff, Option.pure_def,
      Option.some.injEq] at h
    obtain ⟨b, hb, rest, hrest, rfl⟩ := h
    exact .cons hb (ih hrest)

theorem forall₂_comp {α β γ : Type} {R : α → β → Prop} {S : β → γ → Prop} {T : α → γ → Prop}
    (hcomp : ∀ a b c, R a b → S b c → T a c) {l : List α} {l' : List β} {l'' : List γ}
    (h : List.Forall₂ R l l') (h' : List.Forall₂ S l' l'') : List.Forall₂ T l l'' := by
  induction h generalizing l'' with
  | nil =>
    cases h'
    exact .nil
  | cons hab _ ih =>
    cases h' with
    | cons hbc hrest => exact .cons (hcomp _ _ _ hab hbc) (ih hrest)

namespace Wire

/-! ## Verdicts -/

/-- What each value of a type keeps, a field that may be absent keeps, unless its value is written
as null. -/
theorem map_of_nullable {α γ : Type} [Wire α] {g : α → γ} (hnull : ∀ a : α, toJson a ≠ .null)
    (hg : ∀ a b : α, ofJson? (toJson a) = some b → g b = g a) {o o' : Option α}
    (h : nullable (o.map toJson) = some o') : o'.map g = o.map g := by
  cases o with
  | none =>
    cases h
    rfl
  | some a =>
    rw [Option.map_some] at h
    unfold nullable at h
    split at h
    · rename_i heq
      cases heq
    · rename_i heq
      exact absurd (Option.some.inj heq) (hnull a)
    · rename_i j hj
      obtain rfl := Option.some.inj hj
      obtain ⟨b, hb, rfl⟩ := Option.map_eq_some_iff.mp h
      exact congrArg some (hg a b hb)

/-- No record is written as null. -/
theorem record_ne_null (fields : List (String × Option Json)) : Json.record fields ≠ .null := by
  unfold Json.record
  exact nofun

/-- **A verdict keeps its marks.** -/
theorem marks_of_ofJson? {e e' : EdgeAnalysis} (h : ofJson? (toJson e) = some e') :
    e'.marks = e.marks := by
  rw [ofJson?_toJson_edge] at h
  simp only [Option.bind_eq_bind, Option.bind_eq_some_iff, Option.pure_def,
    Option.some.injEq] at h
  obtain ⟨_, -, _, -, location, hlocation, rfl⟩ := h
  have hsame : location.map (fun _ => ()) = e.estimatedLocation.map fun _ => () :=
    map_of_nullable (fun _ => record_ne_null _) (fun _ _ _ => rfl) hlocation
  have hisSome := congrArg Option.isSome hsame
  rw [Option.isSome_map, Option.isSome_map] at hisSome
  exact congrArg (Prod.mk e.isAnomaly) hisSome

/-! ## Points -/

/-- **A point keeps its driver and its marks.** -/
theorem point_of_ofJson? {q r : TrackPoint} (h : ofJson? (toJson q) = some r) :
    r.driverId = q.driverId ∧ r.marks? = q.marks? := by
  rw [ofJson?_toJson_point] at h
  simp only [Option.bind_eq_bind, Option.bind_eq_some_iff, Option.pure_def,
    Option.some.injEq] at h
  obtain ⟨_, -, _, -, verdict, hverdict, rfl⟩ := h
  exact ⟨rfl, map_of_nullable (fun _ => record_ne_null _) (fun _ _ => marks_of_ofJson?) hverdict⟩

/-! ## Analyses -/

/-- **An analysis keeps its points,** one by one. -/
theorem points_of_write {a b : TrackAnalysis} (h : read? (write a) = some b) :
    List.Forall₂ (fun q r => ofJson? (toJson q) = some r) a.points b.points := by
  have hpoints : (a.points.map toJson).mapM ofJson? = some b.points := points_of_read? h
  rw [List.mapM_map] at hpoints
  exact forall₂_of_mapM hpoints

/-- A count that is read back is what was written. -/
theorem ofJson?_toJson_nat_eq {n m : Nat} (h : (ofJson? (toJson n) : Option Nat) = some m) :
    m = n := by
  have hint : ((Numeral.ofInt n).int?.filter fun i =>
      decide (0 ≤ i) && decide (i ≤ 2 ^ 64 - 1)).map Int.toNat = some m := h
  obtain ⟨i, hi, rfl⟩ := Option.map_eq_some_iff.mp hint
  obtain ⟨hi, -⟩ := Option.filter_eq_some_iff.mp hi
  rw [int?_ofInt] at hi
  obtain rfl := Option.some.inj hi
  exact Int.toNat_natCast n

/-- **An analysis keeps its count of anomalies.** -/
theorem anomalyCount_of_write {a b : TrackAnalysis} (h : read? (write a) = some b) :
    b.anomalyCount = a.anomalyCount := by
  rw [read?_write_analysis] at h
  simp only [Option.bind_eq_bind, Option.bind_eq_some_iff, Option.pure_def, Option.some.injEq] at h
  obtain ⟨_, -, _, -, _, -, _, -, count, hcount, rfl⟩ := h
  exact ofJson?_toJson_nat_eq hcount

end Wire
end Fleet
