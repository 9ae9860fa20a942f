import Fleet.Proofs.Index.Staleness

/-!
# Drivers stand in the order in which they entered

Drivers move between cells, are dropped and come back, and a list that becomes empty is given up.
What the list of a cell keeps of all this is the order in which the drivers in it last entered.  The
moment of an entry is read off the positions alone (`EnteredAt`), and the operations alone tell it,
too (`BroughtIn`).  An operation takes drivers off a list without moving the others and puts at most
one driver at its end (`Consistent.driversIn_run`), so lists are in the order of these moments:
`driversIn_by_entry`.
-/

namespace Fleet
namespace Index

/-! ## Where drivers are -/

/-- The cell of a driver's last known position. -/
def whereabouts (ix : Index) (driverId : String) : Option Cell :=
  (ix.lookup driverId).map fun x => ix.cellOf x.latitude x.longitude

section Operations

variable {ix : Index} {cell : Cell} {d : String} {op : Operation}

theorem whereabouts_place (driverId : String) (position : Position) :
    (ix.place driverId position).whereabouts d =
      if driverId = d then some (ix.cellOf position.latitude position.longitude)
      else ix.whereabouts d := by
  rw [whereabouts, lookup_place]
  split <;> rfl

theorem whereabouts_foldl_remove (ids : List String) :
    (ids.foldl remove ix).whereabouts d = if d ∈ ids then none else ix.whereabouts d := by
  simp only [whereabouts, lookup_foldl_remove, cellOf, config_foldl_remove]
  split <;> rfl

variable (h : ix.Consistent)
include h

/-- The cell kept with a driver is the one in which the driver is. -/
theorem Consistent.homeOf_eq (d : String) : ix.homeOf d = ix.whereabouts d := by
  rw [homeOf, whereabouts, lookup, Option.map_map]
  cases hd : ix.drivers.get? d with
  | none => rfl
  | some p => exact congrArg some (h.cell_eq hd)

/-- A cell lists the drivers that are in it. -/
theorem Consistent.mem_iff_whereabouts : d ∈ ix.driversIn cell ↔ ix.whereabouts d = some cell := by
  rw [h.mem_iff_homeOf, h.homeOf_eq]

/-- **What an operation does to the list of a cell:** whoever leaves the cell goes, and at most one
driver, who was not there before, is put at the end. -/
theorem Consistent.driversIn_run (op : Operation) (cell : Cell) :
    ∃ entrant : Option String, (∀ d ∈ entrant, d ∉ ix.driversIn cell) ∧
      (ix.run op).2.driversIn cell =
        ((ix.driversIn cell).filter fun d => (ix.run op).2.whereabouts d = some cell) ++
          entrant.toList := by
  have hstays (ids : List String) : (ids.foldl Index.remove ix).driversIn cell =
      (ix.driversIn cell).filter fun d =>
        (ids.foldl Index.remove ix).whereabouts d = some cell := by
    rw [h.driversIn_foldl_remove]
    refine List.filter_congr fun d hd => ?_
    rw [whereabouts_foldl_remove, h.mem_iff_whereabouts.mp hd]
    by_cases hgone : d ∈ ids <;> simp [hgone]
  rcases h.run_cases op with ⟨ids, hrun⟩ | ⟨driverId, x, -, -, hrun⟩
  · rw [hrun, hstays]
    exact ⟨none, nofun, (List.append_nil _).symm⟩
  · rw [hrun, driversIn_place h, h.homeOf_eq]
    simp only [whereabouts_place]
    split
    · -- within one cell nobody moves
      rename_i hhome
      refine ⟨none, nofun, ?_⟩
      rw [Option.toList_none, List.append_nil]
      refine (List.filter_eq_self.mpr fun d hd => ?_).symm
      have hcell := h.mem_iff_whereabouts.mp hd
      by_cases hd : driverId = d
      · subst hd
        simpa [hhome] using hcell
      · simpa [hd] using hcell
    · rename_i hhome
      have hothers : ((ix.driversIn cell).filter fun d => d ≠ driverId) =
          (ix.driversIn cell).filter fun d =>
            (if driverId = d then some (ix.cellOf x.latitude x.longitude)
              else ix.whereabouts d) = some cell := by
        refine List.filter_congr fun d hd => ?_
        have hcell := h.mem_iff_whereabouts.mp hd
        by_cases hd : driverId = d
        · subst hd
          rw [hcell] at hhome
          simpa [eq_comm] using hhome
        · simp [hd, Ne.symm hd, hcell]
      rw [hothers]
      by_cases hcell : ix.cellOf x.latitude x.longitude = cell
      · refine ⟨some driverId, ?_, by rw [if_pos hcell]; rfl⟩
        rintro _ ⟨⟩ hd
        exact hhome (hcell ▸ h.mem_iff_whereabouts.mp hd)
      · exact ⟨none, nofun, by rw [if_neg hcell]; rfl⟩

/-- **Only an accepted update of the driver itself brings a driver into a cell.** -/
theorem Consistent.update_of_enters (hbefore : ix.whereabouts d ≠ some cell)
    (hafter : (ix.run op).2.whereabouts d = some cell) :
    ∃ latitude longitude observedAt, op = .update d latitude longitude observedAt ∧
      d.isEmpty = false ∧ Geo.isValid latitude longitude = true ∧
      ix.cellOf latitude longitude = cell := by
  rcases h.run_cases op with ⟨ids, hrun⟩ | ⟨driverId, x, hop, haccepted, hrun⟩
  · rw [hrun, whereabouts_foldl_remove] at hafter
    split at hafter
    · cases hafter
    · exact absurd hafter hbefore
  · rw [hrun, whereabouts_place] at hafter
    split at hafter
    · rename_i hd
      subst hd
      exact ⟨_, _, _, hop, haccepted.1, haccepted.2, Option.some.inj hafter⟩
    · exact absurd hafter hbefore

/-- **Whoever is in a cell before and after an operation** stands in the same order. -/
theorem Consistent.order_run (op : Operation) (cell : Cell) :
    ((ix.run op).2.driversIn cell).filter (· ∈ ix.driversIn cell) =
      (ix.driversIn cell).filter (· ∈ (ix.run op).2.driversIn cell) := by
  obtain ⟨entrant, hnew, hlist⟩ := h.driversIn_run op cell
  have hstays : ((ix.driversIn cell).filter (· ∈ (ix.run op).2.driversIn cell)) =
      (ix.driversIn cell).filter fun d => (ix.run op).2.whereabouts d = some cell := by
    simp only [(h.run op).mem_iff_whereabouts]
  have hnone : (entrant.toList.filter (· ∈ ix.driversIn cell)) = [] :=
    List.filter_eq_nil_iff.mpr fun d hd => by simpa using hnew d (Option.mem_toList.mp hd)
  rw [hstays, hlist, List.filter_append, hnone, List.append_nil, List.filter_filter]
  refine List.filter_congr fun d hd => ?_
  rw [decide_eq_true hd, Bool.true_and]

/-- An update that is refused or stays within a cell moves nobody on any list. -/
theorem Consistent.driversIn_update_eq {latitude longitude : Float} (observedAt : Timestamp)
    (hstays : d.isEmpty = true ∨ Geo.isValid latitude longitude = false ∨
      ix.whereabouts d = some (ix.cellOf latitude longitude)) (cell : Cell) :
    (ix.run (.update d latitude longitude observedAt)).2.driversIn cell = ix.driversIn cell := by
  rw [run_update]
  split
  · rfl
  · rename_i hid
    split
    · rename_i hvalid
      have hsame := (hstays.resolve_left hid).resolve_left (by simp [hvalid])
      exact (driversIn_place h d _ cell).trans (if_pos ((h.homeOf_eq d).trans hsame))
    · rfl

end Operations

/-! ## Moments of entry -/

/-- **The moment of a driver's last entry into a cell,** as the number of operations that came
before it.  The driver was not in the cell then, and has been there since. -/
structure EnteredAt (config : IndexConfig) (history : List Operation) (cell : Cell) (d : String)
    (n : Nat) : Prop where
  lt : n < history.length
  outside : ((new config).after (history.take n)).whereabouts d ≠ some cell
  inside : ∀ m, n < m → m ≤ history.length →
    ((new config).after (history.take m)).whereabouts d = some cell

section Entries

variable {config : IndexConfig} {history : List Operation} {op : Operation} {cell : Cell}
  {d : String} {m n : Nat}

theorem after_concat (ix : Index) (history : List Operation) (op : Operation) :
    ix.after (history ++ [op]) = ((ix.after history).run op).2 := List.foldl_concat ..

theorem EnteredAt.current (he : EnteredAt config history cell d n) :
    ((new config).after history).whereabouts d = some cell := by
  have hend := he.inside history.length he.lt (Nat.le_refl _)
  rwa [List.take_length] at hend

theorem EnteredAt.unique (hm : EnteredAt config history cell d m)
    (hn : EnteredAt config history cell d n) : m = n := by
  rcases Nat.lt_trichotomy m n with hlt | heq | hlt
  · exact absurd (hm.inside n hlt (Nat.le_of_lt hn.lt)) hn.outside
  · exact heq
  · exact absurd (hn.inside m hlt (Nat.le_of_lt hm.lt)) hm.outside

/-- **One more operation** leaves the last entry of whoever stays in the cell as it was. -/
theorem enteredAt_concat : EnteredAt config (history ++ [op]) cell d n ↔
    ((new config).after (history ++ [op])).whereabouts d = some cell ∧
      if ((new config).after history).whereabouts d = some cell then
        EnteredAt config history cell d n
      else n = history.length := by
  have htake {k : Nat} (hk : k ≤ history.length) : (history ++ [op]).take k = history.take k :=
    List.take_append_of_le_length hk
  have hend : (history ++ [op]).length = history.length + 1 := List.length_append
  constructor
  · intro he
    refine ⟨he.current, ?_⟩
    have hlt := he.lt
    split
    · rename_i hstays
      have hbefore : n < history.length := by
        refine Nat.lt_of_le_of_ne (by omega) ?_
        rintro rfl
        apply he.outside
        rwa [htake (Nat.le_refl _), List.take_length]
      refine ⟨hbefore, ?_, fun k hk hle => ?_⟩
      · rw [← htake (Nat.le_of_lt hbefore)]
        exact he.outside
      · rw [← htake hle]
        exact he.inside k hk (by omega)
    · rename_i hnew
      refine Nat.le_antisymm (by omega) (Nat.not_lt.mp fun hlt => hnew ?_)
      have hinside := he.inside history.length hlt (by omega)
      rwa [htake (Nat.le_refl _), List.take_length] at hinside
  · rintro ⟨hcurrent, hentry⟩
    have hlast : ((new config).after ((history ++ [op]).take (history.length + 1))).whereabouts d =
        some cell := by rwa [← hend, List.take_length]
    split at hentry
    · refine ⟨by have := hentry.lt; omega, ?_, fun k hk hle => ?_⟩
      · rw [htake (Nat.le_of_lt hentry.lt)]
        exact hentry.outside
      · rcases Nat.lt_or_ge history.length k with hlt | hle'
        · obtain rfl : k = history.length + 1 := by omega
          exact hlast
        · rw [htake hle']
          exact hentry.inside k hk hle'
    · rename_i hnew
      subst hentry
      refine ⟨by omega, ?_, fun k hk hle => ?_⟩
      · rwa [htake (Nat.le_refl _), List.take_length]
      · obtain rfl : k = history.length + 1 := by omega
        exact hlast

/-- Whoever is in a cell entered it at some moment, for nobody was there at first. -/
theorem exists_enteredAt (hin : ((new config).after history).whereabouts d = some cell) :
    ∃ n, EnteredAt config history cell d n := by
  induction history using List.reverseRecOn with
  | nil => cases hin
  | append_singleton history op ih =>
    by_cases hstays : ((new config).after history).whereabouts d = some cell
    · obtain ⟨n, hn⟩ := ih hstays
      exact ⟨n, enteredAt_concat.mpr ⟨hin, by rwa [if_pos hstays]⟩⟩
    · exact ⟨history.length, enteredAt_concat.mpr ⟨hin, by rw [if_neg hstays]⟩⟩

/-- **The operation at the moment of an entry** is an accepted update of the driver into the
cell. -/
theorem EnteredAt.update (he : EnteredAt config history cell d n) :
    ∃ latitude longitude observedAt,
      history[n]? = some (.update d latitude longitude observedAt) ∧ d.isEmpty = false ∧
        Geo.isValid latitude longitude = true ∧
        Cell.of latitude longitude config.cellSize = cell := by
  have hlt := he.lt
  have hstep : history.take (n + 1) = history.take n ++ [history[n]] :=
    (List.take_append_getElem hlt).symm
  have hafter := he.inside (n + 1) (Nat.lt_succ_self n) hlt
  rw [hstep, after_concat] at hafter
  obtain ⟨latitude, longitude, observedAt, hop, hid, hvalid, hcell⟩ :=
    (consistent_after config (history.take n)).update_of_enters he.outside hafter
  refine ⟨latitude, longitude, observedAt, ?_, hid, hvalid, ?_⟩
  · rw [List.getElem?_eq_getElem hlt, hop]
  · rwa [cellOf, config_after] at hcell

/-! ## Entries as the operations tell them -/

/-- **The position that an operation leaves a driver** who was last seen at some position. -/
def Operation.sights (config : IndexConfig) (d : String) (seen : Option Position) :
    Operation → Option Position
  | .update driverId latitude longitude observedAt =>
    if driverId = d ∧ d.isEmpty = false ∧ Geo.isValid latitude longitude = true then
      some ⟨latitude, longitude, observedAt⟩
    else seen
  | .remove driverId => if driverId = d then none else seen
  | .sweep now limit => seen.filter (·.isWithin now limit)
  | .sweepStale now => seen.filter (·.isWithin now config.staleTimeout)
  | .lookup _ | .nearest .. | .driversIn _ | .cellOf .. | .records _ | .stats | .size => seen

/-- Where a driver was last seen, as a history of operations tells it. -/
def lastSeen (config : IndexConfig) (d : String) (history : List Operation) : Option Position :=
  history.foldl (Operation.sights config d) none

/-- Whether an operation takes a driver, who was last seen at a position, out of a cell. -/
def Operation.Departs (config : IndexConfig) (cell : Cell) (d : String) (x : Position) :
    Operation → Prop
  | .update driverId latitude longitude _ =>
    driverId = d ∧ Geo.isValid latitude longitude = true ∧
      Cell.of latitude longitude config.cellSize ≠ cell
  | .remove driverId => driverId = d
  | .sweep now limit => ¬x.isWithin now limit
  | .sweepStale now => ¬x.isWithin now config.staleTimeout
  | .lookup _ | .nearest .. | .driversIn _ | .cellOf .. | .records _ | .stats | .size => False

/-- **An entry of a driver that lasts,** as the operations tell it: an accepted update brought the
driver into the cell from elsewhere or from nowhere, and no later operation took it out again. -/
structure BroughtIn (config : IndexConfig) (history : List Operation) (cell : Cell) (d : String)
    (n : Nat) : Prop where
  update : ∃ latitude longitude observedAt,
    history[n]? = some (.update d latitude longitude observedAt) ∧ d.isEmpty = false ∧
      Geo.isValid latitude longitude = true ∧ Cell.of latitude longitude config.cellSize = cell
  elsewhere : ∀ x, lastSeen config d (history.take n) = some x →
    Cell.of x.latitude x.longitude config.cellSize ≠ cell
  stays : ∀ m op x, n < m → history[m]? = some op →
    lastSeen config d (history.take m) = some x → ¬op.Departs config cell d x

/-- An operation leaves a driver the position that it tells. -/
theorem Consistent.lookup_run {ix : Index} (h : ix.Consistent) (op : Operation) (d : String) :
    (ix.run op).2.lookup d = op.sights ix.config d (ix.lookup d) := by
  cases op with
  | update driverId latitude longitude observedAt =>
    rw [run_update, Operation.sights]
    by_cases hd : driverId = d
    · subst hd
      by_cases hid : driverId.isEmpty
      · simp [hid]
      · by_cases hvalid : Geo.isValid latitude longitude
        · simp [hid, hvalid, lookup_place]
        · simp [hid, hvalid]
    · rw [if_neg (mt And.left hd), apply_ite Prod.snd, apply_ite Prod.snd]
      split
      · rfl
      · split
        · rw [lookup_place, if_neg hd]
        · rfl
  | nearest latitude longitude limit =>
    exact congrArg (Index.lookup · d) (h.afterNearest_eq latitude longitude limit)
  | sweep now limit => exact lookup_sweep ix now limit d
  | sweepStale now => exact lookup_sweep ix now ix.config.staleTimeout d
  | remove driverId =>
    show (ix.remove driverId).lookup d = if driverId = d then none else ix.lookup d
    rw [lookup_remove]
  | lookup | driversIn | cellOf | records | stats | size => rfl

/-- **The operations tell where everybody was last seen.** -/
theorem lookup_after (config : IndexConfig) (history : List Operation) (d : String) :
    ((new config).after history).lookup d = lastSeen config d history := by
  induction history using List.reverseRecOn with
  | nil => rfl
  | append_singleton history op ih =>
    rw [after_concat, (consistent_after config history).lookup_run, ih, config_after, lastSeen,
      lastSeen, List.foldl_concat]

theorem whereabouts_after (config : IndexConfig) (history : List Operation) (d : String) :
    ((new config).after history).whereabouts d =
      (lastSeen config d history).map fun x => Cell.of x.latitude x.longitude config.cellSize := by
  rw [whereabouts, lookup_after]
  simp only [cellOf, config_after]

/-- Only an operation that takes a driver out of a cell ends the stay. -/
theorem Operation.departs_iff {x : Position} (hd : d.isEmpty = false)
    (hx : Cell.of x.latitude x.longitude config.cellSize = cell) (op : Operation) :
    op.Departs config cell d x ↔ (op.sights config d (some x)).map
      (fun y => Cell.of y.latitude y.longitude config.cellSize) ≠ some cell := by
  have hfilter (test : Position → Bool) : ¬test x ↔ ((some x).filter test).map
      (fun y => Cell.of y.latitude y.longitude config.cellSize) ≠ some cell := by
    rw [Option.filter_some]
    split <;> simp [*]
  cases op with
  | update driverId latitude longitude observedAt =>
    rw [Operation.Departs, Operation.sights]
    split
    · rename_i haccepted
      simp [haccepted.1, haccepted.2.2]
    · rename_i hrefused
      refine iff_of_false (fun hdeparts => hrefused ⟨hdeparts.1, hd, hdeparts.2.1⟩) ?_
      rw [not_not, Option.map_some, hx]
  | remove driverId =>
    rw [Operation.Departs, Operation.sights]
    by_cases hdriver : driverId = d <;> simp [hdriver, hx]
  | sweep now limit => exact hfilter (·.isWithin now limit)
  | sweepStale now => exact hfilter (·.isWithin now config.staleTimeout)
  | lookup | nearest | driversIn | cellOf | records | stats | size =>
    exact iff_of_false id (not_not_intro (congrArg some hx))

/-- One more operation of a history tells where the driver is then. -/
theorem lastSeen_take_succ (hop : history[m]? = some op) :
    lastSeen config d (history.take (m + 1)) =
      op.sights config d (lastSeen config d (history.take m)) := by
  rw [List.take_add_one, hop, lastSeen, Option.toList_some, List.foldl_concat]
  rfl

/-- **Operations and positions tell the same entries.** -/
theorem enteredAt_iff_broughtIn :
    EnteredAt config history cell d n ↔ BroughtIn config history cell d n := by
  constructor
  · intro he
    have hupdate := he.update
    obtain ⟨-, -, -, -, hd, -⟩ := he.update
    refine ⟨hupdate, fun x hx hcell => he.outside ?_, fun m op x hm hop hx => ?_⟩
    · rw [whereabouts_after, hx, Option.map_some, hcell]
    · have hlt : m < history.length := (List.getElem?_eq_some_iff.mp hop).1
      have hbefore := he.inside m hm (Nat.le_of_lt hlt)
      have hafter := he.inside (m + 1) (Nat.lt_succ_of_lt hm) hlt
      rw [whereabouts_after, hx, Option.map_some] at hbefore
      rw [whereabouts_after, lastSeen_take_succ hop, hx] at hafter
      have hout := Operation.departs_iff hd (Option.some.inj hbefore) op
      exact fun hdeparts => hout.mp hdeparts hafter
  · intro hb
    obtain ⟨latitude, longitude, observedAt, hop, hd, hvalid, hcell⟩ := hb.update
    have hlt : n < history.length := (List.getElem?_eq_some_iff.mp hop).1
    refine ⟨hlt, fun hin => ?_, fun m hm hle => ?_⟩
    · rw [whereabouts_after] at hin
      obtain ⟨x, hx, hsame⟩ := Option.map_eq_some_iff.mp hin
      exact hb.elsewhere x hx hsame
    · rw [whereabouts_after]
      induction m, hm using Nat.le_induction with
      | base =>
        rw [lastSeen_take_succ hop, Operation.sights, if_pos ⟨rfl, hd, hvalid⟩, Option.map_some,
          hcell]
      | succ m hm ih =>
        obtain ⟨x, hx, hin⟩ := Option.map_eq_some_iff.mp (ih (Nat.le_of_succ_le hle))
        have hnext : history[m]? = some history[m] := List.getElem?_eq_getElem hle
        rw [lastSeen_take_succ hnext, hx]
        exact not_not.mp fun hout => hb.stays m _ x hm hnext hx
          ((Operation.departs_iff hd hin _).mpr hout)

/-- **Lists are in the order of entry,** after every history. -/
theorem pairwise_driversIn (config : IndexConfig) (history : List Operation) (cell : Cell) :
    (((new config).after history).driversIn cell).Pairwise fun d e =>
      ∀ m n, EnteredAt config history cell d m → EnteredAt config history cell e n → m < n := by
  induction history using List.reverseRecOn with
  | nil => exact List.Pairwise.nil
  | append_singleton history op ih =>
    have h := consistent_after config history
    obtain ⟨entrant, hnew, hlist⟩ := h.driversIn_run op cell
    rw [after_concat, hlist]
    -- whoever was on the list before is there since the same moment
    have hold {e : String} {k : Nat} (hin : e ∈ ((new config).after history).driversIn cell)
        (he : EnteredAt config (history ++ [op]) cell e k) : EnteredAt config history cell e k := by
      have hkept := (enteredAt_concat.mp he).2
      rwa [if_pos (h.mem_iff_whereabouts.mp hin)] at hkept
    refine List.pairwise_append.mpr ⟨?_, ?_, ?_⟩
    · refine (ih.filter _).imp_of_mem fun {d e} hd he hlt m n hm hn => ?_
      exact hlt m n (hold (List.mem_of_mem_filter hd) hm) (hold (List.mem_of_mem_filter he) hn)
    · cases entrant with
      | none => exact List.Pairwise.nil
      | some e => exact List.pairwise_singleton _ _
    · intro d hd e he m n hm hn
      have hentry := (enteredAt_concat.mp hn).2
      rw [if_neg (mt h.mem_iff_whereabouts.mpr (hnew e (Option.mem_toList.mp he)))] at hentry
      exact hentry ▸ (hold (List.mem_of_mem_filter hd) hm).lt

end Entries

/-- **A cell lists the drivers in it in the order in which they last entered it.**  After every
history a driver is on the list of a cell exactly if its last known position lies there; it is there
since one moment, at which an accepted update brought it in from elsewhere or from nowhere; and
whoever stands before another entered before it.  Where a driver is and when it entered is what the
operations tell: an accepted update from elsewhere is the entry if no later operation took the
driver out.  The next operation, whatever it is, does not change the order of those who stay, and an
update that is refused or stays within a cell changes no list. -/
theorem driversIn_by_entry (config : IndexConfig) (history : List Operation) (cell : Cell) :
    let ix := (new config).after history
    (∀ d, d ∈ ix.driversIn cell ↔
      ∃ x, ix.lookup d = some x ∧ Cell.of x.latitude x.longitude config.cellSize = cell) ∧
    (ix.driversIn cell).Nodup ∧
    (∀ d ∈ ix.driversIn cell, ∃! n, EnteredAt config history cell d n) ∧
    (∀ d n, EnteredAt config history cell d n →
      d ∈ ix.driversIn cell ∧ ∃ latitude longitude observedAt,
        history[n]? = some (.update d latitude longitude observedAt) ∧ d.isEmpty = false ∧
          Geo.isValid latitude longitude = true ∧
          Cell.of latitude longitude config.cellSize = cell) ∧
    ((ix.driversIn cell).Pairwise fun d e =>
      ∀ m n, EnteredAt config history cell d m → EnteredAt config history cell e n → m < n) ∧
    (∀ d, ix.lookup d = lastSeen config d history) ∧
    (∀ d n, EnteredAt config history cell d n ↔ BroughtIn config history cell d n) ∧
    (∀ op, ((ix.run op).2.driversIn cell).filter (· ∈ ix.driversIn cell) =
      (ix.driversIn cell).filter (· ∈ (ix.run op).2.driversIn cell)) ∧
    ∀ d latitude longitude observedAt,
      (d.isEmpty = true ∨ Geo.isValid latitude longitude = false ∨
        ix.whereabouts d = some (ix.cellOf latitude longitude)) →
      (ix.run (.update d latitude longitude observedAt)).2.driversIn cell = ix.driversIn cell := by
  intro ix
  have h : ix.Consistent := consistent_after config history
  refine ⟨fun d => ?_, h.nodup_driversIn cell, fun d hd => ?_, fun d n he => ⟨?_, he.update⟩,
    pairwise_driversIn config history cell, fun d => lookup_after config history d,
    fun d n => enteredAt_iff_broughtIn, fun op => h.order_run op cell,
    fun d latitude longitude observedAt hstays => h.driversIn_update_eq observedAt hstays cell⟩
  · rw [h.mem_iff_whereabouts, whereabouts, Option.map_eq_some_iff]
    simp only [cellOf, ix, config_after]
  · obtain ⟨n, hn⟩ := exists_enteredAt (h.mem_iff_whereabouts.mp hd)
    exact ⟨n, hn, fun m hm => hm.unique hn⟩
  · exact h.mem_iff_whereabouts.mpr he.current

/-- Of three drivers the first one leaves and comes back, and the second one is dropped and comes
back before it. -/
example :
    let here (d : String) : Operation := .update d 10 20 0
    ((new {}).after [here "a", here "b", here "c", .update "a" 50 20 0, .remove "b", here "c",
      here "b", here "a"]).driversIn (Cell.of 10 20 0.01) = ["c", "b", "a"] := by
  decide +kernel

end Index
end Fleet
