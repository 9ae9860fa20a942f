import Fleet.Proofs.Index.Staleness

/-!
# Sweeps one after another

Times are held in 64 bits, so an age may not fit, and limits are not held like times.  A sweep is
exact all the same: below the longest age that there is, it drops whoever is older than the limit in
plain numbers, and from there on nobody (`Position.isStale_iff`).

What removals leave is a part of what was there, in the same order, in both tables.  So it depends
on who is removed and not on when (`Consistent.foldl_remove_eq`), and two sweeps leave what the
later one alone would have left (`Consistent.sweep_sweep`).
-/

namespace Fleet

/-! ## Parts of lists and tables -/

section Parts

variable {α : Type} [DecidableEq α] {whole part part' : List α}

/-- A part of a list without repetitions is what is picked from it by membership. -/
theorem filter_mem_of_sublist (hpart : part.Sublist whole) (hnodup : whole.Nodup) :
    whole.filter (· ∈ part) = part := by
  induction hpart with
  | slnil => rfl
  | cons a hpart ih =>
    obtain ⟨ha, hnodup⟩ := List.nodup_cons.mp hnodup
    have hout : a ∉ _ := fun hmem => ha (hpart.subset hmem)
    rw [List.filter_cons_of_neg (by simpa using hout), ih hnodup]
  | cons_cons a hpart ih =>
    obtain ⟨ha, hnodup⟩ := List.nodup_cons.mp hnodup
    rw [List.filter_cons_of_pos (by simp)]
    refine congrArg (a :: ·) ((List.filter_congr fun b hb => ?_).trans (ih hnodup))
    have hne : b ≠ a := fun he => ha (he ▸ hb)
    simp [hne]

/-- **Parts of one list without repetitions** are the same if they have the same members. -/
theorem eq_of_sublist_of_mem_iff (hpart : part.Sublist whole) (hpart' : part'.Sublist whole)
    (hnodup : whole.Nodup) (hmem : ∀ a, a ∈ part ↔ a ∈ part') : part = part' := by
  rw [← filter_mem_of_sublist hpart hnodup, ← filter_mem_of_sublist hpart' hnodup]
  simp only [hmem]

end Parts

namespace Table

variable {κ α : Type} [DecidableEq κ] {t t' : Table κ α}

/-- **Tables with the same look-ups** are the same if their keys are in the same order. -/
theorem eq_of_get?_eq (hkeys : t.keys = t'.keys) (hget : ∀ k, t.get? k = t'.get? k) : t = t' := by
  have hread (t : Table κ α) :
      t.keys.map (fun k => (k, t.get? k)) = t.entries.map (Prod.map id some) := by
    rw [keys, List.map_map]
    refine List.map_congr_left fun e he => ?_
    rw [Function.comp_apply, mem_entries_iff.mp he]
    rfl
  have hentries : t.entries.map (Prod.map id some) = t'.entries.map (Prod.map id some) := by
    rw [← hread, ← hread, hkeys]
    simp only [hget]
  have hinj : Function.Injective (Prod.map id some : κ × α → κ × Option α) :=
    Function.Injective.prodMap Function.injective_id (Option.some_injective α)
  obtain ⟨entries, distinct⟩ := t
  obtain ⟨entries', distinct'⟩ := t'
  obtain rfl : entries = entries' := List.map_injective_iff.mpr hinj hentries
  rfl

/-- Parts of one table are the same if their look-ups are. -/
theorem eq_of_sublist {whole : Table κ α} (ht : t.keys.Sublist whole.keys)
    (ht' : t'.keys.Sublist whole.keys) (hget : ∀ k, t.get? k = t'.get? k) : t = t' := by
  refine eq_of_get?_eq (eq_of_sublist_of_mem_iff ht ht' whole.distinct fun k => ?_) hget
  rw [mem_keys_iff, mem_keys_iff, hget]

end Table

/-! ## Exact ages -/

namespace Position

/-- Age in milliseconds at the time `now`, as a number without bounds. -/
def exactAge (x : Position) (now : Timestamp) : Int := now.toInt - x.observedAt.toInt

/-- The longest age that is told from longer ones, in nanoseconds. -/
def longestAge : Nat := (2 ^ 63 - 1) * nanosPerMilli

/-- **Limits are compared with ages in plain numbers,** below the longest age. -/
theorem isWithin_iff {x : Position} {now : Timestamp} {limit : Duration} : x.isWithin now limit ↔
    longestAge ≤ limit.nanos ∨ x.exactAge now * nanosPerMilli ≤ (limit.nanos : Int) := by
  have hage : (x.age now).toInt = max (-2 ^ 63) (min (x.exactAge now) (2 ^ 63 - 1)) :=
    toInt_ofIntClamp _
  rw [isWithin, ageNanos, hage, decide_eq_true_iff]
  unfold longestAge nanosPerMilli
  omega

theorem isStale_iff {x : Position} {now : Timestamp} {limit : Duration} :
    x.isStale now limit ↔ ¬x.isWithin now limit := by
  rw [isStale_eq, Bool.not_eq_true', Bool.not_eq_true]

/-- Positions only grow older. -/
theorem isStale_mono {x : Position} {now later : Timestamp} {limit : Duration}
    (hle : now ≤ later) (hstale : x.isStale now limit) : x.isStale later limit := by
  rw [isStale_iff, isWithin_iff] at hstale ⊢
  rw [Int64.le_iff_toInt_le] at hle
  unfold exactAge nanosPerMilli at *
  omega

end Position

namespace Index

/-! ## What removals leave -/

section Removals

variable {ix left left' : Index}

theorem sublist_keys_unlink (members : Table Cell (List String)) (cell : Cell) (driverId : String) :
    (unlink members cell driverId).keys.Sublist members.keys := by
  unfold unlink
  split
  · exact .refl _
  · rename_i ids hids
    dsimp only
    split
    · rw [Table.keys_erase]
      exact List.filter_sublist
    · rw [Table.keys_insert, if_pos (Table.mem_keys_iff.mpr ⟨ids, hids⟩)]

/-- Whoever stays and whatever list stays, stays in the same order. -/
theorem sublist_keys_foldl_remove (ix : Index) (ids : List String) :
    (ids.foldl remove ix).drivers.keys.Sublist ix.drivers.keys ∧
      (ids.foldl remove ix).members.keys.Sublist ix.members.keys := by
  induction ids generalizing ix with
  | nil => exact ⟨.refl _, .refl _⟩
  | cons id ids ih =>
    obtain ⟨hdrivers, hmembers⟩ := ih (ix.remove id)
    suffices hstep : (ix.remove id).drivers.keys.Sublist ix.drivers.keys ∧
        (ix.remove id).members.keys.Sublist ix.members.keys from
      ⟨hdrivers.trans hstep.1, hmembers.trans hstep.2⟩
    unfold remove
    split
    · exact ⟨.refl _, .refl _⟩
    · refine ⟨?_, sublist_keys_unlink ..⟩
      rw [Table.keys_erase]
      exact List.filter_sublist

/-- In a consistent index the list of a cell is found, unless it is empty. -/
theorem Consistent.get?_members (h : ix.Consistent) (cell : Cell) :
    ix.members.get? cell = if ix.driversIn cell = [] then none else some (ix.driversIn cell) := by
  cases hcell : ix.members.get? cell with
  | none =>
    have hnil : ix.driversIn cell = [] := by rw [driversIn, hcell]; rfl
    rw [if_pos hnil]
  | some ids =>
    have hids : ix.driversIn cell = ids := by rw [driversIn, hcell]; rfl
    rw [hids, if_neg (h.occupied cell ids hcell)]

/-- **What removals leave depends on who is removed,** and neither on the order nor on how often. -/
theorem Consistent.foldl_remove_eq (h : ix.Consistent) {ids ids' : List String}
    (hids : ∀ id, id ∈ ids' ↔ id ∈ ids) :
    ids'.foldl Index.remove ix = ids.foldl Index.remove ix := by
  have hs := (Alike.refl ix).foldl_remove h h hids
  have hpart := ix.sublist_keys_foldl_remove ids
  have hpart' := ix.sublist_keys_foldl_remove ids'
  have hleft := h.foldl_remove ids
  have hleft' := h.foldl_remove ids'
  generalize ids.foldl Index.remove ix = left at *
  generalize ids'.foldl Index.remove ix = left' at *
  have hdrivers : left'.drivers = left.drivers :=
    Table.eq_of_sublist hpart'.1 hpart.1 hs.drivers_eq
  have hmembers : left'.members = left.members :=
    Table.eq_of_sublist hpart'.2 hpart.2 fun cell => by
      rw [hleft'.get?_members, hleft.get?_members, hs.driversIn_eq]
  obtain ⟨config, trigonometry, drivers, members⟩ := left
  obtain ⟨config', trigonometry', drivers', members'⟩ := left'
  obtain rfl : config' = config := hs.config_eq
  obtain rfl : trigonometry' = trigonometry := hs.trigonometry_eq
  obtain rfl : drivers' = drivers := hdrivers
  obtain rfl : members' = members := hmembers
  rfl

end Removals

/-! ## Sweeps -/

section Sweeps

variable {ix : Index} {now later : Timestamp} {limit : Duration}

/-- What is counted and what is left is all that there was. -/
theorem sweep_add_size (ix : Index) (now : Timestamp) (limit : Duration) :
    (ix.sweep now limit).1 + (ix.sweep now limit).2.size = ix.size := by
  obtain ⟨hcount, hleft⟩ := sightings_sweepIn ix .arrival now limit
  have hcount : (ix.sweep now limit).1 = _ := hcount
  have hleft : (ix.sweep now limit).2.sightings = _ := hleft
  rw [hcount, size_eq_card, hleft, size_eq_card]
  have hboth := Finset.card_filter_add_card_filter_not (s := ix.sightings.bindings)
    fun b => Sightings.isStale now limit b
  simpa [Sightings.drop] using hboth

/-- A sweep that is not going to drop anybody changes nothing. -/
theorem sweep_eq_self (hnone : ∀ d x, ix.lookup d = some x → ¬x.isStale now limit) :
    ix.sweep now limit = (0, ix) := by
  have hstale : ix.stale now limit = [] := by
    rw [List.eq_nil_iff_forall_not_mem]
    intro d hd
    obtain ⟨x, hx, hstale⟩ := mem_stale.mp hd
    exact hnone d x hx hstale
  rw [sweep, hstale]
  rfl

/-- Who is left is not too old. -/
theorem not_isStale_of_lookup_sweep {d : String} {x : Position}
    (hx : (ix.sweep now limit).2.lookup d = some x) :
    ix.lookup d = some x ∧ ¬x.isStale now limit := by
  rw [lookup_sweep, Option.filter_eq_some_iff] at hx
  rw [Position.isStale_eq, hx.2]
  exact ⟨hx.1, Bool.false_ne_true⟩

/-- Whom a sweep with the configured limit drops is reported as due. -/
theorem mem_stale_iff_reported {d : String} : d ∈ ix.stale now ix.config.staleTimeout ↔
    ∃ r ∈ ix.records now, r.driverId = d ∧ r.status = .stalePendingEviction := by
  simp only [stale, records, statusAt, List.mem_map, List.mem_filter, exists_exists_and_eq_and,
    ite_eq_left_iff, reduceCtorEq, imp_false, not_not]
  exact exists_congr fun e => and_assoc.trans (and_congr_right fun _ => and_comm)

variable (h : ix.Consistent)
include h

/-- **The order in which a sweep drops its drivers does not matter.** -/
theorem Consistent.sweepIn_eq (a : Arrangement) : ix.sweepIn a now limit = ix.sweep now limit := by
  have hperm := a.perm (ix.stale now limit)
  exact Prod.ext hperm.length_eq (h.foldl_remove_eq fun _ => hperm.mem_iff)

/-- What is left of the list of a cell keeps its order. -/
theorem Consistent.driversIn_sweep (cell : Cell) : (ix.sweep now limit).2.driversIn cell =
    (ix.driversIn cell).filter fun d => ((ix.sweep now limit).2.lookup d).isSome := by
  rw [sweep, h.driversIn_foldl_remove]
  refine List.filter_congr fun d hd => ?_
  obtain ⟨p, hp, -⟩ := h.mem_driversIn.mp hd
  have hfound : ix.lookup d = some p.position := by rw [lookup, hp]; rfl
  rw [lookup_foldl_remove, hfound]
  by_cases hgone : d ∈ ix.stale now limit <;> simp [hgone]

/-- **A sweep followed by a later one leaves what the later one alone would.**  Nobody grows
younger, so whoever the first one drops the second would have dropped. -/
theorem Consistent.sweep_sweep (hle : now ≤ later) :
    ((ix.sweep now limit).2.sweep later limit).2 = (ix.sweep later limit).2 := by
  show ((ix.sweep now limit).2.stale later limit).foldl Index.remove
      ((ix.stale now limit).foldl Index.remove ix) = _
  rw [← List.foldl_append]
  refine h.foldl_remove_eq fun d => ?_
  rw [List.mem_append, mem_stale, mem_stale, mem_stale]
  constructor
  · rintro (⟨x, hx, hstale⟩ | ⟨x, hx, hstale⟩)
    · exact ⟨x, hx, Position.isStale_mono hle hstale⟩
    · exact ⟨x, (not_isStale_of_lookup_sweep hx).1, hstale⟩
  · rintro ⟨x, hx, hstale⟩
    by_cases hnow : x.isStale now limit
    · exact .inl ⟨x, hx, hnow⟩
    · refine .inr ⟨x, ?_, hstale⟩
      rw [lookup_sweep, hx, Option.filter_some, if_pos (by simpa [Position.isStale_eq] using hnow)]

end Sweeps

/-- **A sweep is exact, and sweeps compose.**  In every state that an index can reach and for all
times: below the longest age a sweep drops the drivers whose age, as a plain number of nanoseconds,
exceeds the limit, and leaves the others their positions, their cells and their order in the lists;
from the longest age on it drops nobody.  It counts those that it drops, and the order in which it
does so leaves no trace.  A sweep with the configured limit drops whom the records report as due.
The same sweep again changes nothing, and a sweep before a later one neither changes what is left
after both nor how many are dropped by both together. -/
theorem sweep_exact (config : IndexConfig) (history : List Operation) (now later : Timestamp)
    (limit : Duration) :
    let ix := (new config).after history
    let left := (ix.sweep now limit).2
    (limit.nanos < Position.longestAge → ∀ d, left.drivers.get? d =
      (ix.drivers.get? d).filter fun p =>
        p.position.exactAge now * nanosPerMilli ≤ (limit.nanos : Int)) ∧
    (Position.longestAge ≤ limit.nanos → ix.sweep now limit = (0, ix)) ∧
    (ix.sweep now limit).1 + left.size = ix.size ∧
    (∀ cell, left.driversIn cell =
      (ix.driversIn cell).filter fun d => (left.lookup d).isSome) ∧
    (∀ a, ix.sweepIn a now limit = ix.sweep now limit) ∧
    (∀ d, (ix.sweepStale now).2.drivers.get? d =
      if ∃ r ∈ ix.records now, r.driverId = d ∧ r.status = .stalePendingEviction then none
      else ix.drivers.get? d) ∧
    left.sweep now limit = (0, left) ∧
    (now ≤ later →
      (left.sweep later limit).2 = (ix.sweep later limit).2 ∧
      (ix.sweep now limit).1 + (left.sweep later limit).1 = (ix.sweep later limit).1) := by
  intro ix left
  have h : ix.Consistent := consistent_after config history
  refine ⟨?exact, ?none, sweep_add_size .., h.driversIn_sweep, h.sweepIn_eq, ?reported, ?again,
    ?later⟩
  case exact =>
    intro hlimit d
    rw [drivers_sweep]
    refine congrArg (Option.filter · _) (funext fun p => ?_)
    rw [Bool.eq_iff_iff, decide_eq_true_iff, Position.isWithin_iff]
    exact or_iff_right (Nat.not_le.mpr hlimit)
  case none =>
    intro hlimit
    refine sweep_eq_self fun d x _ hstale => ?_
    exact Position.isStale_iff.mp hstale (Position.isWithin_iff.mpr (.inl hlimit))
  case reported =>
    intro d
    rw [sweepStale, sweep, drivers_foldl_remove]
    simp only [mem_stale_iff_reported]
  case again => exact sweep_eq_self fun d x hx => (not_isStale_of_lookup_sweep hx).2
  case later =>
    intro hle
    have hleft : (left.sweep later limit).2 = (ix.sweep later limit).2 := h.sweep_sweep hle
    refine ⟨hleft, ?_⟩
    have hfirst : _ + left.size = ix.size := ix.sweep_add_size now limit
    have hsecond := left.sweep_add_size later limit
    have hboth := ix.sweep_add_size later limit
    rw [← hleft] at hboth
    change _ + (left.sweep later limit).2.size = _ at hboth
    omega

/-- One driver's age is more than 64 bits can hold.  The other's is that of the limit, without its
last nanosecond, and a millisecond later it is too much. -/
theorem sweep_exact_of_two_drivers :
    let history : List Operation := [.update "old" 10 20 Int64.minValue, .update "new" 10 20 0]
    let ix := (new {}).after history
    let limit := Duration.ofNanos 30000000001
    let left := (ix.sweep 30000 limit).2
    left.lookup "old" = none ∧ left.lookup "new" = some ⟨10, 20, 0⟩ ∧
      ix.sweep 30000 .longest = (0, ix) ∧
      (left.sweep 30001 limit).2 = (ix.sweep 30001 limit).2 ∧
      (ix.sweep 30000 limit).1 + (left.sweep 30001 limit).1 = 2 := by
  intro history ix limit left
  obtain ⟨hexact, -, -, -, -, -, -, hlater⟩ := sweep_exact {} history 30000 30001 limit
  obtain ⟨-, hnone, -⟩ := sweep_exact {} history 30000 30001 .longest
  obtain ⟨hleft, hcount⟩ := hlater (by decide)
  have hget := hexact (by decide)
  have hold : left.lookup "old" = none :=
    (congrArg (Option.map Placement.position) (hget "old")).trans (by decide +kernel)
  have hnew : left.lookup "new" = some ⟨10, 20, 0⟩ :=
    (congrArg (Option.map Placement.position) (hget "new")).trans (by decide +kernel)
  exact ⟨hold, hnew, hnone (by decide), hleft, hcount.trans (by decide +kernel)⟩

end Index
end Fleet
