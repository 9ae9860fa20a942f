import Fleet.Proofs.Index.Refinement

/-!
# Ages, and what a sweep leaves

Ages are counted in whole milliseconds, and the limit that a sweep compares them with is cut to
whole milliseconds and held at the end of their range.  The cut does not matter: a position is stale
exactly if its age exceeds the limit to the nanosecond (`Position.isStale_eq`).  So a sweep leaves
every driver its position unless that is too old (`Index.lookup_sweep`), and what it counts is what
it drops (`Index.stale_eq_filter`).
-/

namespace Fleet

/-! ## Ages -/

namespace Position

/-- Age in nanoseconds at the time `now`, which is a whole number of milliseconds. -/
def ageNanos (x : Position) (now : Timestamp) : Int := (x.age now).toInt * nanosPerMilli

/-- Whether the position is at most `limit` old. -/
def isWithin (x : Position) (now : Timestamp) (limit : Duration) : Bool :=
  decide (x.ageNanos now ≤ (limit.nanos : Int))

/-- **A position is stale as soon as its age exceeds the limit,** to the nanosecond and whatever the
limit.  A limit beyond the range of ages is not exceeded by any. -/
theorem isStale_eq (x : Position) (now : Timestamp) (limit : Duration) :
    x.isStale now limit = !x.isWithin now limit := by
  have hage := (x.age now).toInt_lt
  rw [isStale, isWithin, ← decide_not, decide_eq_decide, Int64.lt_iff_toInt_lt, toInt_ofIntClamp,
    ageNanos]
  unfold Duration.millis nanosPerMilli
  omega

end Position

/-! ## What a sweep leaves -/

namespace Index

/-- Whoever is swept goes with its placement, and the others keep theirs. -/
theorem drivers_sweep (ix : Index) (now : Timestamp) (limit : Duration) (d : String) :
    (ix.sweep now limit).2.drivers.get? d =
      (ix.drivers.get? d).filter (·.position.isWithin now limit) := by
  rw [sweep, drivers_foldl_remove]
  cases hd : ix.drivers.get? d with
  | none => simp
  | some p =>
    have hmem : d ∈ ix.stale now limit ↔ ¬p.position.isWithin now limit := by
      rw [mem_stale, lookup, hd]
      simp [Position.isStale_eq]
    by_cases hage : p.position.isWithin now limit
    · rw [if_neg (not_not_intro hage ∘ hmem.mp), Option.filter_some, if_pos hage]
    · rw [if_pos (hmem.mpr hage), Option.filter_some, if_neg hage]

/-- **A sweep leaves every driver its position unless that is too old,** and drops it then. -/
theorem lookup_sweep (ix : Index) (now : Timestamp) (limit : Duration) (d : String) :
    (ix.sweep now limit).2.lookup d = (ix.lookup d).filter (·.isWithin now limit) := by
  rw [lookup, lookup, drivers_sweep, Option.filter_map]
  rfl

/-- What a sweep drops is there before it and not after it. -/
theorem stale_eq_filter (ix : Index) (now : Timestamp) (limit : Duration) :
    ix.stale now limit =
      ix.drivers.keys.filter fun d => ((ix.sweep now limit).2.lookup d).isNone := by
  rw [stale, Table.keys, List.filter_map]
  congr 1
  refine List.filter_congr fun e he => ?_
  have hfound : ix.lookup e.1 = some e.2.position := by
    rw [lookup, Table.mem_entries_iff.mp he]
    rfl
  rw [Function.comp_apply, lookup_sweep, hfound, Option.filter_some, Position.isStale_eq]
  cases e.2.position.isWithin now limit <;> rfl

end Index

end Fleet
