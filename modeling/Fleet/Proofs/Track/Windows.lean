import Fleet.Proofs.Track.Specification

/-!
# Windows of a track

The annotation of a point depends on its position and on that of the point before it, and on
nothing else: neither on earlier annotations nor on where the window starts.  So windows agree where
they overlap, and a part of an analyzed track is analyzed to itself.
-/

namespace Fleet

namespace Track

variable {limit : Float} {points points' : List TrackPoint}

/-! ## What a leg depends on -/

/-- **A leg depends on two neighbouring positions.** -/
theorem legTo?_succ_congr {i j : Nat}
    (hprevious : points[i]?.map (·.position) = points'[j]?.map (·.position))
    (hcurrent : points[i + 1]?.map (·.position) = points'[j + 1]?.map (·.position)) :
    legTo? points (i + 1) = legTo? points' (j + 1) := by
  have hleg (points : List TrackPoint) (i : Nat) : legTo? points (i + 1) =
      (points[i]?.map (·.position)).bind fun previous =>
        (points[i + 1]?.map (·.position)).bind fun current =>
          if Leg.delta ⟨previous, current⟩ = 0 then none else some ⟨previous, current⟩ := by
    rw [legTo?, Option.bind_eq_bind, Option.bind_map]
    simp only [Option.bind_map, Function.comp_def]
  rw [hleg, hleg, hprevious, hcurrent]

/-- A verdict overrides an earlier one and is not changed by it. -/
theorem annotate_annotate (q : TrackPoint) (verdict : Option EdgeAnalysis) :
    annotate (annotate q verdict) verdict = annotate q verdict := by
  cases verdict <;> rfl

/-- An analysis moves no point. -/
theorem position_points_analyze {driverId : String} {computedAt : Timestamp} (i : Nat) :
    (analyze limit driverId points computedAt).points[i]?.map (·.position) =
      points[i]?.map (·.position) := by
  rw [getElem?_points_analyze, Option.map_map]
  exact Option.map_congr fun q _ => (annotate_fix q _).2

/-! ## Parts of an analyzed track -/

theorem getElem?_of_infix {α : Type} {l w : List α} (h : w <:+: l) :
    ∃ start, ∀ j < w.length, w[j]? = l[start + j]? := by
  obtain ⟨s, t, rfl⟩ := h
  refine ⟨s.length, fun j hj => ?_⟩
  rw [List.append_assoc, List.getElem?_append_right (Nat.le_add_right _ _), Nat.add_sub_cancel_left,
    List.getElem?_append_left hj]

/-- **A part of an analyzed track is analyzed to itself.** -/
theorem points_analyze_of_infix {driverId driverId' : String} {computedAt computedAt' : Timestamp}
    {window : List TrackPoint}
    (hwindow : window <:+: (analyze limit driverId points computedAt).points) :
    (analyze limit driverId' window computedAt').points = window := by
  obtain ⟨start, hpart⟩ := getElem?_of_infix hwindow
  apply List.ext_getElem?
  intro j
  rw [getElem?_points_analyze]
  rcases Nat.lt_or_ge j window.length with hj | hj
  · cases j with
    | zero => exact Option.map_id'
    | succ j =>
      -- the leg is the one at the same place of the whole track
      have hleg : legTo? window (j + 1) = legTo? points (start + j + 1) := by
        apply legTo?_succ_congr
        · rw [hpart j (Nat.lt_of_succ_lt hj), position_points_analyze]
        · rw [hpart _ hj, position_points_analyze, Nat.add_assoc]
      rw [hpart _ hj, hleg, getElem?_points_analyze, Option.map_map]
      exact Option.map_congr fun q _ => annotate_annotate q _
  · rw [List.getElem?_eq_none hj]
    rfl

/-! ## Windows of one track -/

theorem getElem?_window {a m i : Nat} (hai : a ≤ i) (him : i < a + m) :
    ((points.drop a).take m)[i - a]? = points[i]? := by
  rw [List.getElem?_take_of_lt (by omega), List.getElem?_drop, Nat.add_sub_cancel' hai]

/-- **A point is annotated in a window as in the whole track,** if the window has the point before
it. -/
theorem getElem?_points_window {driverId : String} {computedAt : Timestamp} {a m i : Nat}
    (hai : a < i) (him : i < a + m) :
    (analyze limit driverId ((points.drop a).take m) computedAt).points[i - a]? =
      points[i]?.map fun q => annotate q ((legTo? points i).map (Leg.verdict limit)) := by
  obtain ⟨k, rfl⟩ : ∃ k, i = k + 1 := ⟨i - 1, by omega⟩
  have hplace : k + 1 - a = k - a + 1 := by omega
  have hleg : legTo? ((points.drop a).take m) (k - a + 1) = legTo? points (k + 1) := by
    apply legTo?_succ_congr
    · rw [getElem?_window (by omega) (by omega)]
    · rw [← hplace, getElem?_window hai.le him]
  rw [getElem?_points_analyze, getElem?_window hai.le him, hplace, hleg]

/-- **Windows agree.**  A part of an analyzed track is analyzed to itself, and in all windows of
one track that hold a point and the one before it, at another time, the point gets the verdict on
the leg between the two. -/
theorem windows_agree (limit : Float) (points : List TrackPoint) :
    (∀ driverId computedAt window,
      window <:+: (analyze limit driverId points computedAt).points →
        ∀ driverId' computedAt', (analyze limit driverId' window computedAt').points = window) ∧
    ∀ i leg q, legTo? points i = some leg → points[i]? = some q →
      ∀ a m driverId computedAt, a < i → i < a + m →
      ∀ b n driverId' computedAt', b < i → i < b + n →
        (analyze limit driverId ((points.drop a).take m) computedAt).points[i - a]? =
            some { q with speed := leg.speed, analysis := some (leg.verdict limit) } ∧
          (analyze limit driverId' ((points.drop b).take n) computedAt').points[i - b]? =
            some { q with speed := leg.speed, analysis := some (leg.verdict limit) } := by
  refine ⟨fun _ _ _ hwindow _ _ => points_analyze_of_infix hwindow, ?_⟩
  intro i leg q hleg hq a m _ _ hai him b n _ _ hbi hin
  have hannotated : points[i]?.map (fun q => annotate q ((legTo? points i).map (Leg.verdict limit)))
      = some { q with speed := leg.speed, analysis := some (leg.verdict limit) } := by
    rw [hleg, hq, ← Leg.speed_verdict]
    rfl
  exact ⟨(getElem?_points_window hai him).trans hannotated,
    (getElem?_points_window hbi hin).trans hannotated⟩

/-- Of a track of three fixes a minute apart, the last two are analyzed to themselves, and the last
has the same verdict in the windows that start at the first and at the second. -/
theorem windows_agree_three_fixes :
    let fix (longitude : Float) (observedAt : Timestamp) : TrackPoint :=
      { driverId := "a", position := ⟨0, longitude, observedAt⟩ }
    let track := [fix 0 0, fix 1 60000, fix 2 120000]
    let leg : Leg := ⟨⟨0, 1, 60000⟩, ⟨0, 2, 120000⟩⟩
    let judged := { fix 2 120000 with speed := leg.speed, analysis := some (leg.verdict 200) }
    (analyze 200 "a" ((analyze 200 "a" track 0).points.drop 1) 5).points =
        (analyze 200 "a" track 0).points.drop 1 ∧
      (analyze 200 "a" ((track.drop 0).take 3) 0).points[2 - 0]? = some judged ∧
      (analyze 200 "a" ((track.drop 1).take 2) 0).points[2 - 1]? = some judged := by
  intro fix track leg judged
  have hdelta : leg.delta ≠ 0 := by decide
  have hfrom : track[1]? = some (fix 1 60000) := rfl
  have hto : track[2]? = some (fix 2 120000) := rfl
  have hleg : legTo? track 2 = some leg := legTo?_succ hfrom hto hdelta
  obtain ⟨hpart, hcommon⟩ := windows_agree 200 track
  exact ⟨hpart "a" 0 _ (List.drop_suffix 1 _).isInfix "a" 5,
    hcommon 2 leg _ hleg hto 0 3 "a" 0 (by decide) (by decide)
      1 2 "a" 0 (by decide) (by decide)⟩

end Track

end Fleet
