import Fleet.Proofs.Index.Consistency
import Mathlib.Data.Finset.Card
import Mathlib.Data.Finset.Image

/-!
# An index is a map from drivers to positions

For whoever only looks drivers up, an index is a finite map from drivers to last positions: the set
of its bindings is its `sightings`, and every change of the index is a change of that map
(`sightings_change`).  The tables hand out their entries in an order of their own, which decides in
which order a sweep drops its drivers; `Alike` states what no such order changes, and
`refines_sightings` puts the two together for every history.
-/

namespace Fleet

/-- **A map from drivers to last positions,** as the set of its bindings. -/
@[ext]
structure Sightings where
  bindings : Finset (String × Position)
  functional : ∀ d p q, (d, p) ∈ bindings → (d, q) ∈ bindings → p = q

namespace Index

/-- **A change of an index.** -/
inductive Change where
  | update (driverId : String) (latitude longitude : Float) (observedAt : Timestamp)
  | remove (driverId : String)
  | sweep (now : Timestamp) (limit : Duration)
  | sweepStale (now : Timestamp)

/-- The operation that makes a change. -/
def Change.operation : Change → Operation
  | .update driverId latitude longitude observedAt =>
    .update driverId latitude longitude observedAt
  | .remove driverId => .remove driverId
  | .sweep now limit => .sweep now limit
  | .sweepStale now => .sweepStale now

/-- The one driver that a change is about. -/
def Change.driverId? : Change → Option String
  | .update driverId _ _ _ => some driverId
  | .remove driverId => some driverId
  | .sweep _ _ => none
  | .sweepStale _ => none

end Index

/-! ## The map -/

namespace Sightings

/-- Nobody was seen. -/
def empty : Sightings := ⟨∅, fun _ _ _ h => absurd h (Finset.notMem_empty _)⟩

/-- The map without the bindings that a test picks. -/
def drop (s : Sightings) (test : String × Position → Bool) : Sightings where
  bindings := s.bindings.filter fun b => !test b
  functional d p q hp hq :=
    s.functional d p q (Finset.mem_of_mem_filter _ hp) (Finset.mem_of_mem_filter _ hq)

/-- The map with a driver unbound. -/
def unbind (s : Sightings) (driverId : String) : Sightings := s.drop fun b => b.1 = driverId

/-- The map with a driver bound to a position. -/
def bind (s : Sightings) (driverId : String) (position : Position) : Sightings where
  bindings := insert (driverId, position) (s.unbind driverId).bindings
  functional d p q hp hq := by
    simp only [unbind, drop, Finset.mem_insert, Finset.mem_filter, Prod.mk.injEq] at hp hq
    rcases hp with ⟨rfl, rfl⟩ | ⟨hp, hpd⟩ <;> rcases hq with ⟨hd, rfl⟩ | ⟨hq, hqd⟩
    · rfl
    · simp at hqd
    · simp [hd] at hpd
    · exact s.functional d p q hp hq

/-- Whether a driver is bound. -/
def contains (s : Sightings) (driverId : String) : Bool :=
  decide (∃ b ∈ s.bindings, b.1 = driverId)

/-- Whether a binding is older than a limit. -/
def isStale (now : Timestamp) (limit : Duration) (b : String × Position) : Bool :=
  b.2.isStale now limit

/-- **What a change answers, and the map after it.** -/
def change (config : IndexConfig) (s : Sightings) : Index.Change → Index.Answer × Sightings
  | .update driverId latitude longitude observedAt =>
    if driverId.isEmpty then (.updated (.error (.invalidInput .emptyDriverId)), s)
    else if Geo.isValid latitude longitude then
      (.updated (.ok ⟨latitude, longitude, observedAt⟩),
        s.bind driverId ⟨latitude, longitude, observedAt⟩)
    else (.updated (.error (.invalidCoordinate latitude longitude)), s)
  | .remove driverId => (.removed (s.contains driverId), s.unbind driverId)
  | .sweep now limit =>
    (.evicted (s.bindings.filter fun b => isStale now limit b).card, s.drop (isStale now limit))
  | .sweepStale now =>
    (.evicted (s.bindings.filter fun b => isStale now config.staleTimeout b).card,
      s.drop (isStale now config.staleTimeout))

/-- The map after a history of changes. -/
def after (config : IndexConfig) (history : List Index.Change) : Sightings :=
  history.foldl (fun s c => (s.change config c).2) empty

/-- The records of the drivers at the time `now`. -/
def records (config : IndexConfig) (s : Sightings) (now : Timestamp) : Finset DriverRecord :=
  s.bindings.image fun b => ⟨b.1, b.2,
    if b.2.isStale now config.staleTimeout then .stalePendingEviction else .active⟩

end Sightings

namespace Index

/-! ## Orders of eviction -/

/-- **An order in which a table may hand out the keys of some of its entries.** -/
structure Arrangement where
  order : List String → List String
  perm : ∀ ids, (order ids).Perm ids

/-- The order of arrival. -/
def Arrangement.arrival : Arrangement := ⟨id, fun _ => .rfl⟩

/-- The sweep that drops its drivers in a given order. -/
def sweepIn (ix : Index) (a : Arrangement) (now : Timestamp) (limit : Duration) : Nat × Index :=
  let gone := a.order (ix.stale now limit)
  (gone.length, gone.foldl remove ix)

/-- **What a change answers, and the index after it,** when the table of drivers is arranged in a
given way. -/
def change (ix : Index) (a : Arrangement) : Change → Answer × Index
  | .update driverId latitude longitude observedAt =>
    ix.run (.update driverId latitude longitude observedAt)
  | .remove driverId => ix.run (.remove driverId)
  | .sweep now limit => let (count, after) := ix.sweepIn a now limit; (.evicted count, after)
  | .sweepStale now =>
    let (count, after) := ix.sweepIn a now ix.config.staleTimeout; (.evicted count, after)

/-- In the order of arrival a change is an operation of the index. -/
theorem change_arrival (ix : Index) (c : Change) : ix.change .arrival c = ix.run c.operation := by
  cases c <;> rfl

/-- The index after a history of changes. -/
def changed (ix : Index) (history : List (Arrangement × Change)) : Index :=
  history.foldl (fun ix c => (ix.change c.1 c.2).2) ix

/-- **What an update does.** -/
theorem run_update (ix : Index) (driverId : String) (latitude longitude : Float)
    (observedAt : Timestamp) :
    ix.run (.update driverId latitude longitude observedAt) =
      if driverId.isEmpty then (.updated (.error (.invalidInput .emptyDriverId)), ix)
      else if Geo.isValid latitude longitude then
        (.updated (.ok ⟨latitude, longitude, observedAt⟩),
          ix.place driverId ⟨latitude, longitude, observedAt⟩)
      else (.updated (.error (.invalidCoordinate latitude longitude)), ix) := by
  rw [Index.run, update, Position.make, Geo.validate]
  cases driverId.isEmpty <;> cases Geo.isValid latitude longitude <;> rfl

/-! ## The map that an index shows -/

/-- **The map that an index shows.** -/
def sightings (ix : Index) : Sightings where
  bindings := (ix.drivers.entries.map fun e => (e.1, e.2.position)).toFinset
  functional d p q hp hq := by
    simp only [List.mem_toFinset, List.mem_map, Prod.mk.injEq] at hp hq
    obtain ⟨⟨d, p⟩, hp, rfl, rfl⟩ := hp
    obtain ⟨⟨d', q⟩, hq, hd, rfl⟩ := hq
    obtain rfl : d' = d := hd
    rw [Table.mem_entries_iff] at hp hq
    rw [Option.some.inj (hp.symm.trans hq)]

theorem mem_sightings {ix : Index} {d : String} {p : Position} :
    (d, p) ∈ ix.sightings.bindings ↔ ix.lookup d = some p := by
  simp only [sightings, List.mem_toFinset, List.mem_map, Prod.mk.injEq, lookup,
    Option.map_eq_some_iff, Prod.exists, Table.mem_entries_iff]
  constructor
  · rintro ⟨_, q, hq, rfl, rfl⟩
    exact ⟨q, hq, rfl⟩
  · rintro ⟨q, hq, rfl⟩
    exact ⟨d, q, hq, rfl, rfl⟩

theorem sightings_eq_iff {ix : Index} {s : Sightings} :
    ix.sightings = s ↔ ∀ d p, ix.lookup d = some p ↔ (d, p) ∈ s.bindings := by
  constructor
  · rintro rfl d p
    exact mem_sightings.symm
  · intro h
    ext ⟨d, p⟩
    rw [mem_sightings, h]

/-- The bindings are as many as the entries, for no driver has two. -/
theorem card_filter_sightings (ix : Index) (test : String × Position → Bool) :
    (ix.sightings.bindings.filter fun b => test b).card =
      (ix.drivers.entries.filter fun e => test (e.1, e.2.position)).length := by
  have hnodup : (ix.drivers.entries.map fun e => (e.1, e.2.position)).Nodup :=
    .of_map Prod.fst (by rw [List.map_map]; exact ix.drivers.distinct)
  have hfilter : ix.sightings.bindings.filter (fun b => test b) =
      ((ix.drivers.entries.map fun e => (e.1, e.2.position)).filter test).toFinset := by
    ext b
    simp [sightings]
  rw [hfilter, List.toFinset_card_of_nodup (hnodup.filter _), List.filter_map, List.length_map]
  rfl

theorem size_eq_card (ix : Index) : ix.size = ix.sightings.bindings.card := by
  have h := card_filter_sightings ix fun _ => true
  simp only [Finset.filter_true, List.filter_true] at h
  exact h.symm

/-! ## What is dropped -/

theorem drivers_foldl_remove (ix : Index) (ids : List String) (id : String) :
    (ids.foldl remove ix).drivers.get? id = if id ∈ ids then none else ix.drivers.get? id := by
  induction ids generalizing ix with
  | nil => simp
  | cons gone ids ih =>
    rw [List.foldl_cons, ih, drivers_remove]
    by_cases hgone : gone = id
    · simp [hgone]
    · simp [hgone, Ne.symm hgone]

theorem lookup_foldl_remove (ix : Index) (ids : List String) (id : String) :
    (ids.foldl remove ix).lookup id = if id ∈ ids then none else ix.lookup id := by
  rw [lookup, drivers_foldl_remove]
  split <;> rfl

theorem Consistent.driversIn_foldl_remove {ix : Index} (h : ix.Consistent) (ids : List String)
    (cell : Cell) :
    (ids.foldl Index.remove ix).driversIn cell = (ix.driversIn cell).filter (· ∉ ids) := by
  induction ids generalizing ix with
  | nil => simp
  | cons gone ids ih =>
    rw [List.foldl_cons, ih (h.remove gone), driversIn_remove h, List.filter_filter]
    congr 1
    funext id
    simp [Bool.and_comm]

theorem config_foldl_remove (ix : Index) (ids : List String) :
    (ids.foldl remove ix).config = ix.config := by
  induction ids generalizing ix with
  | nil => rfl
  | cons gone ids ih => rw [List.foldl_cons, ih, config_remove]

theorem trigonometry_foldl_remove (ix : Index) (ids : List String) :
    (ids.foldl remove ix).trigonometry = ix.trigonometry := by
  induction ids generalizing ix with
  | nil => rfl
  | cons gone ids ih => rw [List.foldl_cons, ih, trigonometry_remove]

/-- **What an operation does to a consistent index:** it sets the position of a driver, or drops
some drivers or none. -/
theorem Consistent.run_cases {ix : Index} (h : ix.Consistent) (op : Operation) :
    (∃ ids : List String, (ix.run op).2 = ids.foldl Index.remove ix) ∨
      ∃ (driverId : String) (x : Position),
        op = .update driverId x.latitude x.longitude x.observedAt ∧
        (driverId.isEmpty = false ∧ x.isValid = true) ∧
        (ix.run op).2 = ix.place driverId x := by
  have hnobody : ∃ ids : List String, ix = ids.foldl Index.remove ix := ⟨[], rfl⟩
  cases op with
  | update driverId latitude longitude observedAt =>
    rw [run_update]
    split
    · exact .inl hnobody
    · rename_i hid
      split
      · rename_i hvalid
        exact .inr ⟨driverId, ⟨latitude, longitude, observedAt⟩, rfl, ⟨by simpa using hid, hvalid⟩,
          rfl⟩
      · exact .inl hnobody
  | nearest latitude longitude limit => exact .inl ⟨[], h.afterNearest_eq latitude longitude limit⟩
  | sweep now limit => exact .inl ⟨ix.stale now limit, rfl⟩
  | sweepStale now => exact .inl ⟨ix.stale now ix.config.staleTimeout, rfl⟩
  | remove driverId => exact .inl ⟨[driverId], rfl⟩
  | lookup | driversIn | cellOf | records | stats | size => exact .inl hnobody

/-- No operation touches the configuration. -/
theorem config_after (config : IndexConfig) (history : List Operation) :
    ((new config).after history).config = config := by
  induction history using List.reverseRecOn with
  | nil => rfl
  | append_singleton history op ih =>
    rw [after, List.foldl_concat]
    rcases (consistent_after config history).run_cases op with ⟨ids, hrun⟩ | ⟨d, x, -, -, hrun⟩
    · exact (congrArg Index.config hrun).trans ((config_foldl_remove _ ids).trans ih)
    · exact (congrArg Index.config hrun).trans ih

theorem mem_stale {ix : Index} {now : Timestamp} {limit : Duration} {id : String} :
    id ∈ ix.stale now limit ↔ ∃ p, ix.lookup id = some p ∧ p.isStale now limit := by
  simp only [stale, List.mem_map, List.mem_filter, Prod.exists, exists_and_right, exists_eq_right,
    Table.mem_entries_iff, lookup, Option.map_eq_some_iff]
  constructor
  · rintro ⟨q, hq, hstale⟩
    exact ⟨q.position, ⟨q, hq, rfl⟩, hstale⟩
  · rintro ⟨p, ⟨q, hq, rfl⟩, hstale⟩
    exact ⟨q, hq, hstale⟩

/-- **A sweep unbinds exactly the stale bindings,** in whatever order. -/
theorem sightings_sweepIn (ix : Index) (a : Arrangement) (now : Timestamp) (limit : Duration) :
    (ix.sweepIn a now limit).1 =
        (ix.sightings.bindings.filter fun b => Sightings.isStale now limit b).card ∧
      (ix.sweepIn a now limit).2.sightings = ix.sightings.drop (Sightings.isStale now limit) := by
  have hperm := a.perm (ix.stale now limit)
  constructor
  · rw [card_filter_sightings]
    exact hperm.length_eq.trans (List.length_map ..)
  · rw [sightings_eq_iff]
    intro d p
    -- the order decides when a driver goes, not whether
    have hlookup : (ix.sweepIn a now limit).2.lookup d =
        if d ∈ ix.stale now limit then none else ix.lookup d := by
      rw [sweepIn, lookup_foldl_remove]
      simp only [hperm.mem_iff]
    simp only [hlookup, Sightings.drop, Finset.mem_filter, mem_sightings, mem_stale]
    by_cases hp : ix.lookup d = some p
    · simp [hp, Sightings.isStale]
    · simp only [hp, false_and, iff_false]
      split
      · exact Option.some_ne_none p ∘ Eq.symm
      · exact hp

theorem sightings_place (ix : Index) (driverId : String) (position : Position) :
    (ix.place driverId position).sightings = ix.sightings.bind driverId position := by
  rw [sightings_eq_iff]
  intro d p
  simp only [lookup_place, Sightings.bind, Sightings.unbind, Sightings.drop, Finset.mem_insert,
    Finset.mem_filter, Prod.mk.injEq, mem_sightings]
  by_cases hd : driverId = d
  · simp [hd, eq_comm]
  · simp [hd, Ne.symm hd]

theorem sightings_remove (ix : Index) (driverId : String) :
    (ix.remove driverId).sightings = ix.sightings.unbind driverId := by
  rw [sightings_eq_iff]
  intro d p
  simp only [lookup_remove, Sightings.unbind, Sightings.drop, Finset.mem_filter, mem_sightings]
  by_cases hd : driverId = d
  · simp [hd]
  · simp [hd, Ne.symm hd]

theorem contains_sightings (ix : Index) (driverId : String) :
    ix.sightings.contains driverId = ix.drivers.contains driverId := by
  rw [Bool.eq_iff_iff, Sightings.contains, decide_eq_true_iff, Table.contains,
    Option.isSome_iff_exists]
  constructor
  · rintro ⟨⟨d, p⟩, hp, rfl⟩
    obtain ⟨q, hq, -⟩ := Option.map_eq_some_iff.mp (mem_sightings.mp hp)
    exact ⟨q, hq⟩
  · rintro ⟨q, hq⟩
    exact ⟨(driverId, q.position), mem_sightings.mpr (by rw [lookup, hq]; rfl), rfl⟩

theorem config_change (ix : Index) (a : Arrangement) (c : Change) :
    (ix.change a c).2.config = ix.config := by
  cases c with
  | update driverId latitude longitude observedAt =>
    show (ix.run (.update driverId latitude longitude observedAt)).2.config = ix.config
    rw [run_update]
    split
    · rfl
    · split <;> rfl
  | remove driverId => exact config_remove driverId
  | sweep now limit => exact config_foldl_remove ix _
  | sweepStale now => exact config_foldl_remove ix _

theorem config_run (ix : Index) (c : Change) : (ix.run c.operation).2.config = ix.config := by
  rw [← change_arrival]
  exact config_change ..

/-- **Every change of an index is a change of the map that it shows.** -/
theorem sightings_change (ix : Index) (a : Arrangement) (c : Change) :
    (ix.change a c).1 = (ix.sightings.change ix.config c).1 ∧
      (ix.change a c).2.sightings = (ix.sightings.change ix.config c).2 := by
  cases c with
  | update driverId latitude longitude observedAt =>
    simp only [change, run_update, Sightings.change]
    split
    · exact ⟨rfl, rfl⟩
    · split
      · exact ⟨rfl, sightings_place ..⟩
      · exact ⟨rfl, rfl⟩
  | remove driverId =>
    exact ⟨congrArg Answer.removed (contains_sightings ..).symm, sightings_remove ..⟩
  | sweep now limit =>
    obtain ⟨hcount, hdropped⟩ := sightings_sweepIn ix a now limit
    exact ⟨congrArg Answer.evicted hcount, hdropped⟩
  | sweepStale now =>
    obtain ⟨hcount, hdropped⟩ := sightings_sweepIn ix a now ix.config.staleTimeout
    exact ⟨congrArg Answer.evicted hcount, hdropped⟩

/-! ## What arrangements do not change -/

/-- **Two indexes that differ in nothing but the arrangement of their tables.** -/
structure Alike (ix ix' : Index) : Prop where
  config_eq : ix'.config = ix.config
  trigonometry_eq : ix'.trigonometry = ix.trigonometry
  drivers_eq : ∀ id, ix'.drivers.get? id = ix.drivers.get? id
  driversIn_eq : ∀ cell, ix'.driversIn cell = ix.driversIn cell

namespace Alike

variable {ix ix' : Index} (hs : ix.Alike ix')

theorem refl (ix : Index) : ix.Alike ix := ⟨rfl, rfl, fun _ => rfl, fun _ => rfl⟩

include hs

theorem lookup_eq (d : String) : ix'.lookup d = ix.lookup d := by
  rw [lookup, lookup, hs.drivers_eq]

variable (h : ix.Consistent) (h' : ix'.Consistent)
include h h'

theorem place (driverId : String) (position : Position) :
    (ix.place driverId position).Alike (ix'.place driverId position) where
  config_eq := hs.config_eq
  trigonometry_eq := hs.trigonometry_eq
  drivers_eq id := by
    show (Table.insert ..).get? id = (Table.insert ..).get? id
    rw [Table.get?_insert, Table.get?_insert, hs.drivers_eq, cellOf, hs.config_eq]
    rfl
  driversIn_eq cell := by
    rw [driversIn_place h, driversIn_place h', homeOf, homeOf, hs.drivers_eq, hs.driversIn_eq,
      cellOf, hs.config_eq]
    rfl

theorem foldl_remove {ids ids' : List String} (hids : ∀ id, id ∈ ids' ↔ id ∈ ids) :
    (ids.foldl Index.remove ix).Alike (ids'.foldl Index.remove ix') where
  config_eq := by
    rw [config_foldl_remove, config_foldl_remove]
    exact hs.config_eq
  trigonometry_eq := by
    rw [trigonometry_foldl_remove, trigonometry_foldl_remove]
    exact hs.trigonometry_eq
  drivers_eq id := by
    simp only [drivers_foldl_remove, hids, hs.drivers_eq]
  driversIn_eq cell := by
    simp only [h.driversIn_foldl_remove, h'.driversIn_foldl_remove, hids, hs.driversIn_eq]

/-- Sweeps may go through the stale drivers in different orders. -/
theorem sweepIn (a a' : Arrangement) (now : Timestamp) (limit : Duration) :
    (ix.sweepIn a now limit).2.Alike (ix'.sweepIn a' now limit).2 := by
  refine hs.foldl_remove h h' fun id => ?_
  rw [(a.perm _).mem_iff, (a'.perm _).mem_iff, mem_stale, mem_stale, hs.lookup_eq]

/-- **Alike stays alike,** whatever the arrangements. -/
theorem change (a a' : Arrangement) (c : Change) :
    (ix.change a c).2.Alike (ix'.change a' c).2 := by
  cases c with
  | update driverId latitude longitude observedAt =>
    simp only [Index.change, run_update]
    split
    · exact hs
    · split
      · exact hs.place h h' driverId _
      · exact hs
  | remove driverId =>
    have hsame : ∀ id, id ∈ [driverId] ↔ id ∈ [driverId] := fun _ => Iff.rfl
    exact hs.foldl_remove h h' hsame
  | sweep now limit => exact hs.sweepIn h h' a a' now limit
  | sweepStale now =>
    show (ix.sweepIn a now ix.config.staleTimeout).2.Alike
      (ix'.sweepIn a' now ix'.config.staleTimeout).2
    rw [hs.config_eq]
    exact hs.sweepIn h h' a a' now _

end Alike

/-! ## Histories -/

theorem Consistent.change {ix : Index} (h : ix.Consistent) (a : Arrangement) (c : Change) :
    (ix.change a c).2.Consistent := by
  cases c with
  | update driverId latitude longitude observedAt => exact h.run _
  | remove driverId => exact h.run _
  | sweep now limit => exact h.foldl_remove _
  | sweepStale now => exact h.foldl_remove _

/-- After a history the index still shows the map, with whatever arrangements. -/
theorem sightings_changed (ix : Index) (history : List (Arrangement × Change)) :
    (ix.changed history).config = ix.config ∧
      (ix.changed history).sightings =
        (history.map Prod.snd).foldl (fun s c => (s.change ix.config c).2) ix.sightings := by
  induction history generalizing ix with
  | nil => exact ⟨rfl, rfl⟩
  | cons c history ih =>
    obtain ⟨hconfig, hsightings⟩ := ih (ix.change c.1 c.2).2
    -- no change touches the configuration, so the map always changes under the first one
    rw [config_change] at hconfig hsightings
    rw [(sightings_change ix c.1 c.2).2] at hsightings
    exact ⟨hconfig, hsightings⟩

/-- After a history the index is what its operations make of it in the order of arrival, but for
the arrangement of its tables. -/
theorem Alike.changed {ix ix' : Index} (hs : ix.Alike ix') (h : ix.Consistent)
    (h' : ix'.Consistent) (history : List (Arrangement × Change)) :
    (ix.after (history.map fun c => c.2.operation)).Alike (ix'.changed history) := by
  induction history generalizing ix ix' with
  | nil => exact hs
  | cons c history ih =>
    have hstep := hs.change h h' .arrival c.1 c.2
    rw [change_arrival] at hstep
    exact ih hstep (h.run c.2.operation) (h'.change c.1 c.2)

/-! ## What is seen of an index -/

theorem nodup_records (ix : Index) (now : Timestamp) : (ix.records now).Nodup := by
  refine .of_map DriverRecord.driverId ?_
  rw [records, List.map_map]
  exact ix.drivers.distinct

theorem toFinset_records (ix : Index) (now : Timestamp) :
    (ix.records now).toFinset = ix.sightings.records ix.config now := by
  ext r
  simp only [records, Sightings.records, sightings, List.mem_toFinset, List.mem_map,
    Finset.mem_image, exists_exists_and_eq_and]
  rfl

/-- A change of one driver leaves the positions of the others alone. -/
theorem lookup_change {ix : Index} (a : Arrangement) {c : Change} {d other : String}
    (hd : c.driverId? = some d) (hother : other ≠ d) :
    (ix.change a c).2.lookup other = ix.lookup other := by
  cases c with
  | update driverId latitude longitude observedAt =>
    obtain rfl : driverId = d := Option.some.inj hd
    simp only [change, run_update]
    split
    · rfl
    · split
      · rw [lookup_place, if_neg hother.symm]
      · rfl
  | remove driverId =>
    obtain rfl : driverId = d := Option.some.inj hd
    show (ix.remove driverId).lookup other = ix.lookup other
    rw [lookup_remove, if_neg hother.symm]
  | sweep now limit => cases hd
  | sweepStale now => cases hd

/-- An update that is refused changes nothing. -/
theorem change_of_refused {ix : Index} {a : Arrangement} {c : Change} {e : FleetError}
    (h : (ix.change a c).1 = .updated (.error e)) : (ix.change a c).2 = ix := by
  cases c with
  | update driverId latitude longitude observedAt =>
    simp only [change, run_update] at h ⊢
    split
    · rfl
    · split
      · rename_i hid hvalid
        rw [if_neg hid, if_pos hvalid] at h
        cases h
      · rfl
  | remove driverId => cases h
  | sweep now limit => cases h
  | sweepStale now => cases h

/-- **An index refines a map from drivers to last positions.**  After every history of updates,
removals and sweeps, with the tables arranged in any way at every sweep, look-ups, counts and
records are those of the map; the next change, whatever it is, answers as it does on the map,
leaves the index as it is if it is refused, and does not move a driver that it is not about.  The
arrangements leave no trace: the drivers, their positions and the lists of all cells are as if the
table of drivers had always been in the order of arrival. -/
theorem refines_sightings (config : IndexConfig) (history : List (Arrangement × Change)) :
    let ix := (new config).changed history
    let s := Sightings.after config (history.map Prod.snd)
    (∀ d p, ix.lookup d = some p ↔ (d, p) ∈ s.bindings) ∧
    ix.size = s.bindings.card ∧
    (ix.isEmpty ↔ s.bindings = ∅) ∧
    ix.stats.drivers = s.bindings.card ∧
    (∀ now, (ix.records now).Nodup ∧ (ix.records now).toFinset = s.records config now) ∧
    (∀ a c, (ix.change a c).1 = (s.change config c).1 ∧
      (∀ e, (ix.change a c).1 = .updated (.error e) → (ix.change a c).2 = ix) ∧
      ∀ d other, c.driverId? = some d → other ≠ d →
        (ix.change a c).2.lookup other = ix.lookup other) ∧
    ((new config).after (history.map fun c => c.2.operation)).Alike ix := by
  intro ix s
  obtain ⟨hconfig, hsightings⟩ := sightings_changed (new config) history
  have hs : ix.sightings = s := hsightings
  have hsize : ix.size = s.bindings.card := by rw [size_eq_card, hs]
  refine ⟨sightings_eq_iff.mp hs, hsize, ?_, hsize, fun now => ⟨ix.nodup_records now, ?_⟩,
    fun a c => ⟨?_, fun _ => change_of_refused, fun d other => lookup_change a⟩,
    (Alike.refl _).changed (consistent_new config) (consistent_new config) history⟩
  · rw [isEmpty, decide_eq_true_iff, hsize, Finset.card_eq_zero]
  · rw [toFinset_records, hs, hconfig]
    rfl
  · rw [(sightings_change ix a c).1, hs, hconfig]
    rfl

end Index
end Fleet
