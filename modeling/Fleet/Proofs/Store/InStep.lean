import Fleet.Proofs.Store.Faulty
import Fleet.Proofs.Wire.Track

/-!
# A driver's slot and its track in the backend

The invariant of the track store, said of one driver: `InStep` relates the driver's slot to what the
backend holds of the driver.  It holds whenever an operation waits for the backend, so it does not
matter where an operation is given up.  There is one lemma for each step that an operation can take.
-/

namespace Fleet

namespace TrackPolicy

/-- An analysis carries the name of the driver whose points were analyzed. -/
theorem driverId_analyze (p : TrackPolicy) (driverId : String) (points : List TrackPoint)
    (computedAt : Timestamp) : (p.analyze driverId points computedAt).driverId = driverId := by
  unfold analyze Track.analyzeWith
  split <;> rfl

/-- When an analysis is computed is noted, and has no other influence. -/
theorem analyze_computedAt (p : TrackPolicy) (driverId : String) (points : List TrackPoint)
    (now computedAt : Timestamp) : p.analyze driverId points computedAt =
      { p.analyze driverId points now with computedAt } := by
  unfold analyze Track.analyzeWith
  split <;> rfl

/-- The points that an analysis looks at, oldest first, if all of them can be read. -/
def window? (p : TrackPolicy) (log : List Bytes) : Option (List TrackPoint) :=
  ((log.take p.windowSize).mapM Wire.read?).map List.reverse

/-- **An analysis reflects a log** if it is what the window of that log is analyzed to.  It may have
been computed at any time, and its sequence number is its own. -/
def Reflects (p : TrackPolicy) (driverId : String) (log : List Bytes) (a : TrackAnalysis) : Prop :=
  ∃ window computedAt, p.window? log = some window ∧
    a = { p.analyze driverId window computedAt with sequence := a.sequence }

theorem Reflects.driverId_eq {p : TrackPolicy} {d : String} {log : List Bytes} {a : TrackAnalysis}
    (ha : p.Reflects d log a) : a.driverId = d := by
  obtain ⟨window, computedAt, -, ha⟩ := ha
  rw [ha]
  exact p.driverId_analyze d window computedAt

end TrackPolicy

/-- **A driver's slot and the driver's track in the backend are in step.** -/
structure InStep (p : TrackPolicy) (d : String) (s : Slot) (h : Holding) : Prop where
  /-- The log consists of the points that arrived last. -/
  newest : h.log <+: h.arrivals
  retained : min h.arrivals.length p.maxPointsRetained ≤ h.log.length
  /-- A slot knows nothing before it is loaded. -/
  blank : s.isLoaded = false → s = {}
  /-- A loaded slot counts the points that arrived. -/
  counted : h.lapsed = false → s.isLoaded = true → s.sequence = UInt64.ofNat h.arrivals.length
  absent : h.lapsed = false → s.isDirty = false → h.stored = none → h.arrivals = []
  /-- An analysis that the slot takes for current covers every point. -/
  covered : s.isDirty = false → ∀ e, h.stored = some e → ∃ a, e.value = Wire.write a ∧
    p.Reflects d h.log a ∧ (h.lapsed = false → a.sequence = UInt64.ofNat h.arrivals.length)

/-- In step with its track, a slot is ready for more when it is loaded. -/
structure Ready (p : TrackPolicy) (d : String) (s : Slot) (h : Holding) : Prop where
  inStep : InStep p d s h
  isLoaded : s.isLoaded = true

/-- An analysis fits a slot if it can be stored on its behalf. -/
structure Fits (p : TrackPolicy) (d : String) (a : TrackAnalysis) (s : Slot) (h : Holding) : Prop
    extends Ready p d s h where
  reflects : p.Reflects d h.log a
  sequence_eq : a.sequence = s.sequence

/-- The stored analysis as a look-up finds it. -/
def Holding.Finds (h : Holding) (found : Option TrackAnalysis) : Prop :=
  (h.stored.map fun e => Wire.read? e.value) = found.map some

theorem Holding.Finds.eq_none {h : Holding} (hf : h.Finds none) : h.stored = none :=
  Option.map_eq_none_iff.mp hf

theorem Holding.Finds.eq_some {h : Holding} {a : TrackAnalysis} (hf : h.Finds (some a)) :
    ∃ e, h.stored = some e ∧ Wire.read? e.value = some a :=
  Option.map_eq_some_iff.mp hf

variable {p : TrackPolicy} {d : String} {s : Slot} {h : Holding} {a : TrackAnalysis}

/-- Nothing is in step with nothing. -/
theorem inStep_empty (p : TrackPolicy) (d : String) : InStep p d {} {} where
  newest := List.prefix_refl []
  retained := Nat.min_le_left _ _
  blank _ := rfl
  counted _ hloaded := by cases hloaded
  absent _ _ _ := rfl
  covered _ e he := by cases he

namespace InStep

/-- What a clean slot knows can be forgotten. -/
theorem forget (hs : InStep p d s h) (hclean : s.isDirty = false) : InStep p d {} h where
  newest := hs.newest
  retained := hs.retained
  blank _ := rfl
  counted _ hloaded := by cases hloaded
  absent hlapsed _ := hs.absent hlapsed hclean
  covered _ := hs.covered hclean

/-- The stored analysis expires. -/
theorem lapse (hs : InStep p d s h) : InStep p d s { h with stored := none, lapsed := true } where
  newest := hs.newest
  retained := hs.retained
  blank := hs.blank
  counted hlapsed := by cases hlapsed
  absent hlapsed := by cases hlapsed
  covered _ e he := by cases he

/-- A slot takes the stored analysis into account. -/
theorem load (hs : InStep p d s h) (hblank : s.isLoaded = false) {found : Option TrackAnalysis}
    (hfound : h.Finds found) :
    InStep p d
      { s with
        sequence := found.elim s.sequence fun a => max s.sequence a.sequence
        isLoaded := true } h := by
  -- a slot that is not loaded counts from zero, so the maximum is what the stored analysis counts
  obtain rfl := hs.blank hblank
  have hcounted : h.lapsed = false →
      (found.elim 0 fun a => max 0 a.sequence) = UInt64.ofNat h.arrivals.length := by
    intro hlapsed
    cases found with
    | none =>
      rw [hs.absent hlapsed rfl hfound.eq_none]
      rfl
    | some a =>
      obtain ⟨e, he, hread⟩ := hfound.eq_some
      obtain ⟨b, hb, -, hsequence⟩ := hs.covered rfl e he
      rw [hb] at hread
      show max 0 a.sequence = _
      rw [Wire.sequence_of_read? hread, hsequence hlapsed]
      exact if_pos UInt64.zero_le
  exact { hs with
    blank := fun hloaded => by cases hloaded
    counted := fun hlapsed _ => hcounted hlapsed }

/-- The log of a driver with a dirty slot is trimmed. -/
theorem trim (hs : InStep p d s h) (hdirty : s.isDirty = true) :
    InStep p d s { h with log := h.log.take p.maxPointsRetained } where
  newest := (List.take_prefix _ _).trans hs.newest
  retained := by
    have hretained := hs.retained
    simp only [List.length_take]
    omega
  blank := hs.blank
  counted := hs.counted
  absent _ hclean := by
    rw [hdirty] at hclean
    cases hclean
  covered hclean := by
    rw [hdirty] at hclean
    cases hclean

end InStep

/-- A point arrives and is counted. -/
theorem Ready.push (hs : Ready p d s h) (value : Bytes) :
    Ready p d { s with sequence := s.sequence + 1, isDirty := true }
      { h with log := value :: h.log, arrivals := value :: h.arrivals } where
  isLoaded := hs.isLoaded
  inStep :=
    { newest := List.cons_prefix_cons.mpr ⟨rfl, hs.inStep.newest⟩
      retained := by
        have hretained := hs.inStep.retained
        simp only [List.length_cons]
        omega
      blank := fun hblank => by
        rw [hs.isLoaded] at hblank
        cases hblank
      counted := fun hlapsed _ => by
        show s.sequence + 1 = UInt64.ofNat (h.arrivals.length + 1)
        rw [hs.inStep.counted hlapsed hs.isLoaded, UInt64.ofNat_add]
        rfl
      absent := fun _ hclean => by cases hclean
      covered := fun hclean => by cases hclean }

namespace Fits

/-- The stored analysis expires. -/
theorem lapse (hs : Fits p d a s h) : Fits p d a s { h with stored := none, lapsed := true } :=
  ⟨⟨hs.inStep.lapse, hs.isLoaded⟩, hs.reflects, hs.sequence_eq⟩

/-- A fitting analysis covers every point that arrived. -/
theorem sequence_eq_ofNat (hs : Fits p d a s h) (hlapsed : h.lapsed = false) :
    a.sequence = UInt64.ofNat h.arrivals.length :=
  hs.sequence_eq.trans (hs.inStep.counted hlapsed hs.isLoaded)

/-- A fitting analysis is stored. -/
theorem store (hs : Fits p d a s h) (expiresAt : Option Duration) :
    Fits p d a s { h with stored := some ⟨Wire.write a, expiresAt⟩ } := by
  refine ⟨⟨?_, hs.isLoaded⟩, hs.reflects, hs.sequence_eq⟩
  exact { hs.inStep with
    absent := fun _ _ hnone => by cases hnone
    covered := by
      rintro - e ⟨⟩
      exact ⟨a, rfl, hs.reflects, hs.sequence_eq_ofNat⟩ }

/-- Once a fitting analysis is stored, the slot is clean. -/
theorem clean (hs : Fits p d a s h) {e : Expiring} (he : h.stored = some e)
    (hvalue : e.value = Wire.write a) : Fits p d a { s with isDirty := false } h := by
  refine ⟨⟨?_, hs.isLoaded⟩, hs.reflects, hs.sequence_eq⟩
  exact { hs.inStep with
    blank := fun hblank => by
      rw [hs.isLoaded] at hblank
      cases hblank
    absent := fun _ _ hnone => by
      rw [he] at hnone
      cases hnone
    covered := by
      intro _ e' he'
      obtain rfl := Option.some.inj (he.symm.trans he')
      exact ⟨a, hvalue, hs.reflects, hs.sequence_eq_ofNat⟩ }

end Fits

end Fleet
