import Fleet.Proofs.Wire.Reread

/-!
# Records that survive being written

A float is written with its shortest digits, but reading takes these digits in as an integer and
scales it once, so what is read can be another float.  All else in a record is read back as it was
written: texts, times, counts, bytes, and which of the fields that may be absent are there.

So what is read back of a record is the record with every float replaced by what it is read as,
which is its `reread`.  Main statements, for each of the track types: `eq_reread`, and
`ofJson?_toJson_iff`, by which a record is read back as itself exactly if each of its floats is; for
an analysis, whose count of anomalies must be one of 64 bits, these are `isStable_of_read?` and
`read?_write`.
-/

namespace Fleet

open Wire

/-! ## Floats -/

namespace Wire

/-- **What a float is once it has been written and read.** -/
def reread (x : Float) : Float := (read? (write x)).getD x

/-- A float that is read as itself. -/
def IsStable (x : Float) : Prop := read? (write x) = some x

/-- The text between writing and reading need not be looked at. -/
theorem isStable_iff {x : Float} : IsStable x ↔ (ofJson? (toJson x) : Option Float) = some x := by
  rw [IsStable, read?_write]

instance (x : Float) : Decidable (IsStable x) := decidable_of_iff _ isStable_iff.symm

theorem eq_reread {x y : Float} (h : ofJson? (toJson x) = some y) : y = reread x := by
  rw [reread, read?_write, h, Option.getD_some]

theorem IsStable.reread_eq {x : Float} (h : IsStable x) : reread x = x :=
  (eq_reread (isStable_iff.mp h)).symm

/-! ## Lists, fields that may be absent, bytes -/

theorem ofJson?_toJson_list {α : Type} [Wire α] (as : List α) :
    (ofJson? (toJson as) : Option (List α)) = as.mapM fun a => ofJson? (toJson a) := by
  show (as.map toJson).mapM ofJson? = _
  rw [List.mapM_map]
  rfl

/-- Items that are read one by one as what they are replaced by. -/
theorem eq_map_of_mapM {α : Type} {f : α → Option α} {g : α → α}
    (hg : ∀ a b, f a = some b → b = g a) {l l' : List α} (h : l.mapM f = some l') :
    l' = l.map g := by
  have hitems := forall₂_of_mapM h
  clear h
  induction hitems with
  | nil => rfl
  | cons hab _ ih => rw [List.map_cons, ← hg _ _ hab, ← ih]

/-- A list is read as itself exactly if its items are. -/
theorem mapM_eq_self_iff {α : Type} {f : α → Option α} {l : List α} :
    l.mapM f = some l ↔ ∀ a ∈ l, f a = some a := by
  induction l with
  | nil => simp
  | cons a l ih =>
    rw [List.mapM_cons]
    simp only [Option.bind_eq_bind, Option.bind_eq_some_iff, Option.pure_def, Option.some.injEq,
      List.cons.injEq, List.forall_mem_cons]
    constructor
    · rintro ⟨b, hb, rest, hrest, rfl, rfl⟩
      exact ⟨hb, ih.mp hrest⟩
    · rintro ⟨ha, hrest⟩
      exact ⟨a, ha, l, ih.mpr hrest, rfl, rfl⟩

/-- A field that is present is read as what it holds, unless this is written as null. -/
theorem nullable_map {α : Type} [Wire α] (hnull : ∀ a : α, toJson a ≠ .null) (o : Option α) :
    (nullable (o.map toJson) : Option (Option α)) =
      o.elim (some none) fun a => (ofJson? (toJson a)).map some := by
  cases o with
  | none => rfl
  | some a =>
    rw [Option.map_some]
    unfold nullable
    split
    · rename_i heq
      cases heq
    · rename_i heq
      exact absurd (Option.some.inj heq) (hnull a)
    · rename_i j hj
      obtain rfl := Option.some.inj hj
      rfl

theorem eq_map_of_nullable {α : Type} [Wire α] (hnull : ∀ a : α, toJson a ≠ .null) {g : α → α}
    (hg : ∀ a b : α, ofJson? (toJson a) = some b → b = g a) {o o' : Option α}
    (h : nullable (o.map toJson) = some o') : o' = o.map g := by
  rw [nullable_map hnull] at h
  cases o with
  | none => exact (Option.some.inj h).symm
  | some a =>
    obtain ⟨b, hb, rfl⟩ := Option.map_eq_some_iff.mp h
    rw [Option.map_some, hg a b hb]

theorem nullable_eq_self_iff {α : Type} [Wire α] (hnull : ∀ a : α, toJson a ≠ .null)
    {o : Option α} :
    nullable (o.map toJson) = some o ↔ ∀ a, o = some a → ofJson? (toJson a) = some a := by
  rw [nullable_map hnull]
  cases o with
  | none => simp
  | some a => simp

theorem ofJson?_toJson_uint8 (b : UInt8) : (ofJson? (toJson b) : Option UInt8) = some b := by
  show (intIn? 0 255 (.int b.toNat)).map (fun i => UInt8.ofNat i.toNat) = some b
  have hb : b.toNat < 256 := b.toNat_lt
  rw [intIn?_int (by omega) (by omega), Option.map_some, Int.toNat_natCast, UInt8.ofNat_toNat]

@[simp]
theorem ofJson?_toJson_bytes (bs : Bytes) : (ofJson? (toJson bs) : Option Bytes) = some bs :=
  (ofJson?_toJson_list bs).trans (mapM_eq_self_iff.mpr fun b _ => ofJson?_toJson_uint8 b)

end Wire

/-! ## Positions -/

namespace Position

/-- **A position as it is read back.** -/
def reread (p : Position) : Position :=
  { p with latitude := Wire.reread p.latitude, longitude := Wire.reread p.longitude }

/-- A position whose coordinates are read as themselves. -/
structure IsStable (p : Position) : Prop where
  latitude : Wire.IsStable p.latitude
  longitude : Wire.IsStable p.longitude

variable {p p' : Position}

theorem eq_reread (h : ofJson? (toJson p) = some p') : p' = p.reread := by
  rw [ofJson?_toJson_position] at h
  simp only [Option.bind_eq_bind, Option.bind_eq_some_iff, Option.pure_def, Option.some.injEq] at h
  obtain ⟨x, hx, y, hy, rfl⟩ := h
  rw [reread, Wire.eq_reread hx, Wire.eq_reread hy]

theorem ofJson?_toJson_iff : ofJson? (toJson p) = some p ↔ p.IsStable := by
  rw [ofJson?_toJson_position]
  constructor
  · intro h
    simp only [Option.bind_eq_bind, Option.bind_eq_some_iff, Option.pure_def,
      Option.some.injEq] at h
    obtain ⟨x, hx, y, hy, hsame⟩ := h
    obtain rfl : x = p.latitude := congrArg latitude hsame
    obtain rfl : y = p.longitude := congrArg longitude hsame
    exact ⟨isStable_iff.mpr hx, isStable_iff.mpr hy⟩
  · intro h
    rw [isStable_iff.mp h.latitude, isStable_iff.mp h.longitude]
    rfl

end Position

/-! ## Verdicts -/

namespace EdgeAnalysis

/-- **A verdict as it is read back.** -/
def reread (e : EdgeAnalysis) : EdgeAnalysis :=
  { e with
    speed := Wire.reread e.speed
    confidence := Wire.reread e.confidence
    estimatedLocation := e.estimatedLocation.map Position.reread }

/-- A verdict whose numbers are read as themselves. -/
structure IsStable (e : EdgeAnalysis) : Prop where
  speed : Wire.IsStable e.speed
  confidence : Wire.IsStable e.confidence
  estimatedLocation : ∀ p, e.estimatedLocation = some p → p.IsStable

variable {e e' : EdgeAnalysis}

theorem eq_reread (h : ofJson? (toJson e) = some e') : e' = e.reread := by
  rw [ofJson?_toJson_edge] at h
  simp only [Option.bind_eq_bind, Option.bind_eq_some_iff, Option.pure_def, Option.some.injEq] at h
  obtain ⟨x, hx, y, hy, location, hlocation, rfl⟩ := h
  rw [reread, Wire.eq_reread hx, Wire.eq_reread hy,
    eq_map_of_nullable (fun _ => record_ne_null _) (fun _ _ => Position.eq_reread) hlocation]

theorem ofJson?_toJson_iff : ofJson? (toJson e) = some e ↔ e.IsStable := by
  have hlocation : nullable (e.estimatedLocation.map toJson) = some e.estimatedLocation ↔
      ∀ p, e.estimatedLocation = some p → p.IsStable := by
    rw [nullable_eq_self_iff fun _ => record_ne_null _]
    simp only [Position.ofJson?_toJson_iff]
  rw [ofJson?_toJson_edge]
  constructor
  · intro h
    simp only [Option.bind_eq_bind, Option.bind_eq_some_iff, Option.pure_def,
      Option.some.injEq] at h
    obtain ⟨x, hx, y, hy, location, hread, hsame⟩ := h
    obtain rfl : x = e.speed := congrArg speed hsame
    obtain rfl : y = e.confidence := congrArg confidence hsame
    obtain rfl : location = e.estimatedLocation := congrArg estimatedLocation hsame
    exact ⟨isStable_iff.mpr hx, isStable_iff.mpr hy, hlocation.mp hread⟩
  · intro h
    rw [isStable_iff.mp h.speed, isStable_iff.mp h.confidence, hlocation.mpr h.estimatedLocation]
    rfl

end EdgeAnalysis

/-! ## Points -/

namespace TrackPoint

/-- **A point as it is read back.** -/
def reread (q : TrackPoint) : TrackPoint :=
  { q with
    position := q.position.reread
    speed := Wire.reread q.speed
    analysis := q.analysis.map EdgeAnalysis.reread }

/-- A point whose numbers are read as themselves, those of its verdict included. -/
structure IsStable (q : TrackPoint) : Prop where
  position : q.position.IsStable
  speed : Wire.IsStable q.speed
  analysis : ∀ e, q.analysis = some e → e.IsStable

variable {q q' : TrackPoint}

theorem eq_reread (h : ofJson? (toJson q) = some q') : q' = q.reread := by
  rw [ofJson?_toJson_point] at h
  simp only [Option.bind_eq_bind, Option.bind_eq_some_iff, Option.pure_def, Option.some.injEq] at h
  obtain ⟨place, hplace, x, hx, verdict, hverdict, rfl⟩ := h
  rw [reread, Position.eq_reread hplace, Wire.eq_reread hx,
    eq_map_of_nullable (fun _ => record_ne_null _) (fun _ _ => EdgeAnalysis.eq_reread) hverdict]

theorem ofJson?_toJson_iff : ofJson? (toJson q) = some q ↔ q.IsStable := by
  have hverdict : nullable (q.analysis.map toJson) = some q.analysis ↔
      ∀ e, q.analysis = some e → e.IsStable := by
    rw [nullable_eq_self_iff fun _ => record_ne_null _]
    simp only [EdgeAnalysis.ofJson?_toJson_iff]
  rw [ofJson?_toJson_point]
  constructor
  · intro h
    simp only [Option.bind_eq_bind, Option.bind_eq_some_iff, Option.pure_def,
      Option.some.injEq] at h
    obtain ⟨place, hplace, x, hx, verdict, hread, hsame⟩ := h
    obtain rfl : place = q.position := congrArg position hsame
    obtain rfl : x = q.speed := congrArg speed hsame
    obtain rfl : verdict = q.analysis := congrArg analysis hsame
    exact ⟨Position.ofJson?_toJson_iff.mp hplace, isStable_iff.mpr hx, hverdict.mp hread⟩
  · intro h
    rw [Position.ofJson?_toJson_iff.mpr h.position, isStable_iff.mp h.speed,
      hverdict.mpr h.analysis]
    rfl

theorem IsStable.reread_eq (h : q.IsStable) : q.reread = q :=
  (eq_reread (ofJson?_toJson_iff.mpr h)).symm

/-- **What is read back of a point is the point itself** exactly if all its numbers are read as
themselves. -/
theorem reread_eq_iff (h : ofJson? (toJson q) = some q') : q.reread = q ↔ q.IsStable := by
  obtain rfl := eq_reread h
  constructor
  · intro heq
    rw [heq] at h
    exact ofJson?_toJson_iff.mp h
  · exact IsStable.reread_eq

end TrackPoint

/-! ## Analyses -/

namespace TrackAnalysis

/-- **An analysis as it is read back.** -/
def reread (a : TrackAnalysis) : TrackAnalysis :=
  { a with
    points := a.points.map TrackPoint.reread
    averageSpeed := Wire.reread a.averageSpeed
    maxSpeed := Wire.reread a.maxSpeed
    confidence := Wire.reread a.confidence }

/-- An analysis whose numbers are read as themselves, those of its points included. -/
structure IsStable (a : TrackAnalysis) : Prop where
  points : ∀ q ∈ a.points, q.IsStable
  averageSpeed : Wire.IsStable a.averageSpeed
  maxSpeed : Wire.IsStable a.maxSpeed
  confidence : Wire.IsStable a.confidence

variable {a b : TrackAnalysis}

theorem eq_reread (h : read? (write a) = some b) : b = a.reread := by
  rw [read?_write_analysis, ofJson?_toJson_list] at h
  simp only [Option.bind_eq_bind, Option.bind_eq_some_iff, Option.pure_def, Option.some.injEq] at h
  obtain ⟨points, hpoints, x, hx, y, hy, z, hz, count, hcount, rfl⟩ := h
  rw [reread, eq_map_of_mapM (fun _ _ => TrackPoint.eq_reread) hpoints, Wire.eq_reread hx,
    Wire.eq_reread hy, Wire.eq_reread hz, ofJson?_toJson_nat_eq hcount]

theorem isStable_of_read? (h : read? (write a) = some a) : a.IsStable := by
  rw [read?_write_analysis, ofJson?_toJson_list] at h
  simp only [Option.bind_eq_bind, Option.bind_eq_some_iff, Option.pure_def, Option.some.injEq] at h
  obtain ⟨read, hread, x, hx, y, hy, z, hz, count, -, hsame⟩ := h
  obtain rfl : read = a.points := congrArg TrackAnalysis.points hsame
  obtain rfl : x = a.averageSpeed := congrArg averageSpeed hsame
  obtain rfl : y = a.maxSpeed := congrArg maxSpeed hsame
  obtain rfl : z = a.confidence := congrArg confidence hsame
  refine ⟨fun q hq => ?_, isStable_iff.mpr hx, isStable_iff.mpr hy, isStable_iff.mpr hz⟩
  exact TrackPoint.ofJson?_toJson_iff.mp (mapM_eq_self_iff.mp hread q hq)

/-- **An analysis is read back as itself** if all its numbers are read as themselves. -/
theorem read?_write (h : a.IsStable) (hcount : a.anomalyCount < 2 ^ 64) :
    read? (write a) = some a := by
  have hpoints : (a.points.mapM fun q => ofJson? (toJson q)) = some a.points :=
    mapM_eq_self_iff.mpr fun q hq => TrackPoint.ofJson?_toJson_iff.mpr (h.points q hq)
  rw [read?_write_analysis, ofJson?_toJson_list, ofJson?_toJson_nat hcount, hpoints,
    isStable_iff.mp h.averageSpeed, isStable_iff.mp h.maxSpeed, isStable_iff.mp h.confidence]
  rfl

/-- **What is read back of an analysis is the analysis itself** exactly if all its numbers are read
as themselves. -/
theorem reread_eq_iff (h : read? (write a) = some b) : a.reread = a ↔ a.IsStable := by
  obtain rfl := eq_reread h
  constructor
  · intro heq
    rw [heq] at h
    exact isStable_of_read? h
  · intro hstable
    have hpoints : a.points.map TrackPoint.reread = a.points.map id :=
      List.map_congr_left fun q hq => (hstable.points q hq).reread_eq
    rw [reread, hpoints, List.map_id, hstable.averageSpeed.reread_eq, hstable.maxSpeed.reread_eq,
      hstable.confidence.reread_eq]

end TrackAnalysis
end Fleet
