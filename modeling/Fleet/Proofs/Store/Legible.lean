import Fleet.Proofs.Geo.Distance
import Fleet.Proofs.Store.Assured

/-!
# Operations on legible records

An operation fails on records that cannot be read back, such as those of points and analyses that
hold a number that is not finite.  `TrackPolicy.Legible` excludes them, and then no operation under
a lease fails where the backend does not, and each leaves its slot clean.  Main statements:
`appendLeased_assures` and `currentAnalysis_assures`.
-/

namespace Fleet

open TrackPolicy (pointsKey analysisKey)

/-! ## Records that can be read back -/

/-- **Points are legible** if they can be read back once they are written, and what is then analyzed
of them can be read back as well. -/
structure TrackPolicy.Legible (p : TrackPolicy) (d : String) (points : List TrackPoint) :
    Prop where
  point : ∀ q ∈ points, ∃ r : TrackPoint, Wire.read? (Wire.write q) = some r
  analysis : ∀ (window : List TrackPoint) (computedAt : Timestamp),
    window.length ≤ p.windowSize →
    (∀ r ∈ window, ∃ q ∈ points, Wire.read? (Wire.write q) = some r) →
    ∃ a : TrackAnalysis,
      Wire.read? (Wire.write (p.analyze d window computedAt)) = some a

/-- What is read back of points that were written. -/
def Restored (points : List TrackPoint) (r : TrackPoint) : Prop :=
  ∃ q ∈ points, Wire.read? (Wire.write q) = some r

/-- **What is analyzed of valid points can be read back** under a valid speed limit, if the
functions of angles stay within their ranges. -/
theorem TrackPolicy.exists_read?_analyze {p : TrackPolicy} {points : List TrackPoint}
    (hlimit : Config.isPositive p.speedLimit = true) (hwindow : p.windowSize < 2 ^ 64)
    (hvalid : ∀ q ∈ points, q.position.isValid = true)
    (ht : p.trigonometry.IsBounded)
    (d : String) (window : List TrackPoint) (computedAt : Timestamp)
    (hlength : window.length ≤ p.windowSize) (hrestored : ∀ r ∈ window, Restored points r) :
    ∃ a : TrackAnalysis,
      Wire.read? (Wire.write (p.analyze d window computedAt)) = some a := by
  have hmoderate : ∀ r ∈ window, r.position.IsModerate := by
    intro r hr
    obtain ⟨q, hq, hread⟩ := hrestored r hr
    rw [Wire.read?_write] at hread
    exact Wire.isModerate_of_ofJson? (hvalid q hq) (Wire.position_of_ofJson? hread)
  have hsound : Track.IsSound p.trigonometry.distanceKm window := by
    refine ⟨fun r hr => ?_, hmoderate, fun r hr r' hr' _ =>
      ht.isDistance_distanceKm (hmoderate r hr) (hmoderate r' hr')⟩
    obtain ⟨q, -, hread⟩ := hrestored r hr
    rw [Wire.read?_write] at hread
    exact Wire.isFinite_point_of_ofJson? hread
  have hfinite : (p.analyze d window computedAt).IsFinite :=
    Track.isFinite_analyzeWith hsound (Config.isAbove_of_isPositive hlimit)
      (hlength.trans hwindow.le) d computedAt
  have hcount : (p.analyze d window computedAt).anomalyCount < 2 ^ 64 :=
    calc (p.analyze d window computedAt).anomalyCount
        ≤ window.length := Track.anomalyCount_analyzeWith_le _ _ _ _ _
      _ ≤ p.windowSize := hlength
      _ < 2 ^ 64 := hwindow
  exact Wire.exists_read?_analysis hfinite hcount

/-- **Valid points of finite numbers are legible** under a valid speed limit. -/
theorem TrackPolicy.legible_of_isFinite {p : TrackPolicy} {d : String} {points : List TrackPoint}
    (hlimit : Config.isPositive p.speedLimit = true) (hwindow : p.windowSize < 2 ^ 64)
    (hpoints : ∀ q ∈ points, q.IsFinite ∧ q.position.isValid = true)
    (ht : p.trigonometry.IsBounded) :
    p.Legible d points where
  point q hq := by
    rw [Wire.read?_write]
    exact Wire.exists_ofJson?_point (hpoints q hq).1
  analysis := p.exists_read?_analyze hlimit hwindow (fun q hq => (hpoints q hq).2) ht d

/-- **What is held of a driver is legible:** its log consists of points that were written, and its
stored analysis can be read and covers no more points than have arrived. -/
structure Holding.Legible (points : List TrackPoint) (h : Holding) : Prop where
  log : ∀ value ∈ h.log, ∃ q ∈ points, value = Wire.write q
  stored : ∀ e, h.stored = some e → ∃ a : TrackAnalysis, Wire.read? e.value = some a ∧
    (h.lapsed = false → a.sequence.toNat ≤ h.arrivals.length)

theorem mem_of_mapM {α β : Type} {f : α → Option β} {l : List α} {l' : List β}
    (h : l.mapM f = some l') : l'.length = l.length ∧ ∀ b ∈ l', ∃ a ∈ l, f a = some b := by
  induction l generalizing l' with
  | nil =>
    cases h
    exact ⟨rfl, fun _ hb => nomatch hb⟩
  | cons a l ih =>
    rw [List.mapM_cons] at h
    simp only [Option.bind_eq_bind, Option.bind_eq_some_iff, Option.pure_def,
      Option.some.injEq] at h
    obtain ⟨b, hb, rest, hrest, rfl⟩ := h
    obtain ⟨hlength, hmem⟩ := ih hrest
    refine ⟨congrArg (· + 1) hlength, fun c hc => ?_⟩
    rcases List.mem_cons.mp hc with rfl | hc
    · exact ⟨a, List.mem_cons_self, hb⟩
    · obtain ⟨a', ha', hread⟩ := hmem c hc
      exact ⟨a', List.mem_cons_of_mem _ ha', hread⟩

/-- Where analyses of restored windows can be read back, an analysis of a log of such points can. -/
theorem TrackPolicy.exists_read?_of_reflects {p : TrackPolicy} {d : String}
    {points : List TrackPoint}
    (hanalysis : ∀ (window : List TrackPoint) (computedAt : Timestamp),
      window.length ≤ p.windowSize → (∀ r ∈ window, Restored points r) →
      ∃ a : TrackAnalysis,
        Wire.read? (Wire.write (p.analyze d window computedAt)) = some a)
    {log : List Bytes} (hlog : ∀ value ∈ log, ∃ q ∈ points, value = Wire.write q)
    {a : TrackAnalysis} (ha : p.Reflects d log a) :
    ∃ b : TrackAnalysis, Wire.read? (Wire.write a) = some b := by
  obtain ⟨window, computedAt, hwindow, ha⟩ := ha
  obtain ⟨records, hrecords, rfl⟩ := Option.map_eq_some_iff.mp hwindow
  obtain ⟨hlength, hmem⟩ := mem_of_mapM hrecords
  have hshort : records.reverse.length ≤ p.windowSize := by
    rw [List.length_reverse, hlength]
    exact List.length_take_le _ _
  obtain ⟨b, hb⟩ := hanalysis records.reverse computedAt hshort fun r hr => by
    obtain ⟨value, hvalue, hread⟩ := hmem r (List.mem_reverse.mp hr)
    obtain ⟨q, hq, rfl⟩ := hlog value (List.mem_of_mem_take hvalue)
    exact ⟨q, hq, hread⟩
  -- the sequence number plays no part in reading
  have hstamped := Wire.read?_write_stamped
    (p.analyze d records.reverse computedAt)
    (p.analyze d records.reverse computedAt).computedAt a.sequence
  rw [hb] at hstamped
  rw [ha]
  exact ⟨_, hstamped⟩

variable {p : TrackPolicy} {d : String} {points : List TrackPoint} {h : Holding}

theorem Holding.legible_empty (points : List TrackPoint) : ({} : Holding).Legible points where
  log _ hvalue := nomatch hvalue
  stored _ he := nomatch he

namespace Holding.Legible

theorem lapse (hl : h.Legible points) :
    { h with stored := none, lapsed := true }.Legible points where
  log := hl.log
  stored _ he := nomatch he

theorem push (hl : h.Legible points) {q : TrackPoint} (hq : q ∈ points) :
    { h with log := Wire.write q :: h.log, arrivals := Wire.write q :: h.arrivals }.Legible
      points where
  log value hvalue := by
    rcases List.mem_cons.mp hvalue with rfl | hvalue
    · exact ⟨q, hq, rfl⟩
    · exact hl.log value hvalue
  stored e he := by
    obtain ⟨a, hread, hle⟩ := hl.stored e he
    exact ⟨a, hread, fun hlapsed => Nat.le_succ_of_le (hle hlapsed)⟩

theorem trim (hl : h.Legible points) (keep : Nat) :
    { h with log := h.log.take keep }.Legible points where
  log value hvalue := hl.log value (List.mem_of_mem_take hvalue)
  stored := hl.stored

/-- The log can be read, up to any number of points. -/
theorem reads (hl : h.Legible points) (hp : p.Legible d points) (count : Nat) :
    ∃ records : List TrackPoint, (h.log.take count).mapM Wire.read? = some records := by
  refine Wire.mapM_of_forall fun value hvalue => ?_
  obtain ⟨q, hq, rfl⟩ := hl.log value (List.mem_of_mem_take hvalue)
  exact hp.point q hq

/-- An analysis of a legible log can be read back. -/
theorem reflects (hl : h.Legible points) (hp : p.Legible d points) {a : TrackAnalysis}
    (ha : p.Reflects d h.log a) : ∃ b : TrackAnalysis, Wire.read? (Wire.write a) = some b :=
  TrackPolicy.exists_read?_of_reflects hp.analysis hl.log ha

end Holding.Legible

namespace Fits

variable {a : TrackAnalysis} {s : Slot}

/-- A fitting analysis can be stored: that takes nothing back and leaves the record legible. -/
theorem store_legible (hs : Fits p d a s h) (hl : h.Legible points) (hp : p.Legible d points)
    (hnewest : ∀ b, h.Finds (some b) → b.sequence ≤ a.sequence) (expiresAt : Option Duration) :
    h.Advances { h with stored := some ⟨Wire.write a, expiresAt⟩ } ∧
      { h with stored := some ⟨Wire.write a, expiresAt⟩ }.Legible points := by
  obtain ⟨b, hb⟩ := hl.reflects hp hs.reflects
  have hsequence : b.sequence = a.sequence := Wire.sequence_of_read? hb
  refine ⟨⟨id, fun _ e he => ?_, fun _ c hc => ⟨b, ?_, ?_⟩⟩, hl.log, fun e he => ?_⟩
  · cases he
    exact ⟨b, hb⟩
  · exact congrArg some hb
  · rw [hsequence]
    exact hnewest c hc
  · cases he
    refine ⟨b, hb, fun hlapsed => ?_⟩
    rw [hsequence, hs.sequence_eq_ofNat hlapsed, UInt64.toNat_ofNat']
    exact Nat.mod_le _ _

/-- What is stored covers no more points than a fitting analysis. -/
theorem newest (hs : Fits p d a s h) (hl : h.Legible points)
    (hcount : h.arrivals.length < 2 ^ 64) (hlapsed : h.lapsed = false) {b : TrackAnalysis}
    (hb : h.Finds (some b)) : b.sequence ≤ a.sequence := by
  obtain ⟨e, he, hread⟩ := hb.eq_some
  obtain ⟨c, hc, hle⟩ := hl.stored e he
  obtain rfl : b = c := Option.some.inj (hread.symm.trans hc)
  rw [UInt64.le_iff_toNat_le, hs.sequence_eq_ofNat hlapsed, UInt64.toNat_ofNat',
    Nat.mod_eq_of_lt hcount]
  exact hle hlapsed

end Fits

namespace TrackPolicy

open Query (Assures)

variable {σ : Type} (hp : p.Legible d points)

/-! ## Look-ups -/

/-- A legible analysis is found. -/
theorem latestAnalysis_assures (known : σ → Holding → Prop)
    (hlapse : ∀ s h, known s h → known s { h with stored := none, lapsed := true }) :
    (latestAnalysis d).Assures (fun s h => known s h ∧ h.Legible points)
      (fun found s h => (known s h ∧ h.Legible points) ∧ h.Finds found) := by
  have hget : (Query.request (.get (analysisKey d)) : Query σ _).Assures
      (fun s h => known s h ∧ h.Legible points)
      (fun (record : Option Bytes) _ _ => ∀ bytes, record = some bytes →
        ∃ a : TrackAnalysis, Wire.read? bytes = some a) := by
    refine Assures.request rfl fun s g hs now bytes hbytes => ?_
    rw [Holding.perform] at hbytes
    split at hbytes
    · cases hbytes
    · obtain ⟨e, he, rfl⟩ := Option.map_eq_some_iff.mp hbytes
      obtain ⟨a, ha, -⟩ := hs.2.stored e he
      exact ⟨a, ha⟩
  have hread : (latestAnalysis d : Query σ _).Assures
      (fun s h => known s h ∧ h.Legible points) fun _ _ _ => True := by
    refine Assures.bind hget fun record => ?_
    cases record with
    | none => exact Assures.pure fun _ _ _ => trivial
    | some bytes =>
      have hreadable : (readable (Wire.read? bytes) : Query σ TrackAnalysis).Assures
          (fun _ _ => ∀ bytes', some bytes = some bytes' →
            ∃ a : TrackAnalysis, Wire.read? bytes' = some a) fun _ _ _ => True :=
        Assures.orFail (fun _ _ hs => Option.isSome_iff_exists.mpr (hs bytes rfl))
          fun _ _ _ _ _ => trivial
      exact hreadable.bind fun a => Assures.pure fun _ _ _ => trivial
  refine (hread.and_leads (latestAnalysis_asks.mono fun _ hr => hr.1) fun fates =>
    latestAnalysis_leads fates d (fun s h => known s h ∧ h.Legible points)
      fun s h hs => ⟨hlapse s h hs.1, hs.2.lapse⟩).weaken (fun _ _ hs => hs) fun _ _ _ hs => hs.2

/-- A loaded slot counts the points. -/
theorem load_assures (older : List Bytes) :
    (load d).Assures (fun s h => (InStep p d s h ∧ h.Legible points) ∧ h.arrivals = older)
      (fun _ s h => (Ready p d s h ∧ h.Legible points) ∧ h.arrivals = older) := by
  have hlegible : (load d).Assures
      (fun s h => (InStep p d s h ∧ h.Legible points) ∧ h.arrivals = older)
      (fun _ _ h => h.Legible points) := by
    have hget : (get : Query Slot Slot).Assures
        (fun s h => (InStep p d s h ∧ h.Legible points) ∧ h.arrivals = older)
        (fun _ _ h => h.Legible points) := Assures.get fun _ _ hs => hs.1.2
    refine Assures.bind hget fun slot => Assures.ite ?_ ?_
    · exact fun _ => Assures.pure fun _ _ hs => hs
    · intro _
      have hfound : (latestAnalysis d).Assures (fun (_ : Slot) h => h.Legible points)
          (fun _ _ h => h.Legible points) :=
        (latestAnalysis_assures (fun _ _ => True) fun _ _ _ => trivial).weaken
          (fun _ _ hs => ⟨trivial, hs⟩) fun _ _ _ hs => hs.1.2
      exact hfound.bind fun _ => Assures.modify fun _ _ hs => hs
  have hload (fates : Nat → Fate) : Query.Leads fates d
      (fun s h => (InStep p d s h ∧ h.Legible points) ∧ h.arrivals = older) (load d)
      (fun _ s h => Ready p d s h ∧ h.arrivals = older)
      (fun s h => InStep p d s h ∧ h.arrivals = older) :=
    ((load_leads fates p d).frame load_asks fun _ arrivals => arrivals = older).weaken_pre
      fun s f hs => ⟨hs.1.1, hs.2⟩
  refine (hlegible.and_leads (load_asks.mono fun _ hr => hr.1) hload).weaken
    (fun _ _ hs => hs) ?_
  rintro _ s h ⟨hl, hs, harrivals⟩
  exact ⟨⟨hs, hl⟩, harrivals⟩

include hp

/-- The window of a legible log is analyzed. -/
theorem analyzeWindow_assures (known : σ → Holding → Prop) (now : Timestamp) (sequence : UInt64) :
    (p.analyzeWindow now d sequence).Assures (fun s h => known s h ∧ h.Legible points)
      (fun a s h => (known s h ∧ h.Legible points) ∧ p.Reflects d h.log a ∧
        a.sequence = sequence) := by
  have hrange : (Query.request (.range (pointsKey d) p.windowSize) : Query σ _).Assures
      (fun s h => known s h ∧ h.Legible points)
      (fun (records : List Bytes) _ _ =>
        ∃ window : List TrackPoint, records.mapM Wire.read? = some window) :=
    Assures.request rfl fun _ _ hs _ => hs.2.reads hp p.windowSize
  have hpoints : (recentPoints d p.windowSize : Query σ _).Assures
      (fun s h => known s h ∧ h.Legible points) fun _ _ _ => True := by
    refine Assures.bind hrange fun records => ?_
    have hreadable : (readable (records.mapM Wire.read?) : Query σ (List TrackPoint)).Assures
        (fun _ _ => ∃ window : List TrackPoint, records.mapM Wire.read? = some window)
        fun _ _ _ => True :=
      Assures.orFail (fun _ _ hs => Option.isSome_iff_exists.mpr hs) fun _ _ _ _ _ => trivial
    exact hreadable.bind fun _ => Assures.pure fun _ _ _ => trivial
  have hwindow : (p.analyzeWindow now d sequence : Query σ _).Assures
      (fun s h => known s h ∧ h.Legible points) fun _ _ _ => True :=
    hpoints.bind fun _ => Assures.pure fun _ _ _ => trivial
  refine (hwindow.and_leads ?_ fun fates => analyzeWindow_leads fates p d
    (fun s h => known s h ∧ h.Legible points) now sequence).weaken (fun _ _ hs => hs)
    fun _ _ _ hs => hs.2
  exact ((recentPoints_asks p.windowSize).mono fun _ hr => hr.1).bind fun _ => Query.Asks.pure _

/-! ## Steps of operations -/

/-- **A fitting analysis of legible points is stored,** for none that is stored covers more. -/
theorem storeAnalysis_assures {a : TrackAnalysis} (ha : a.driverId = d) {older : List Bytes}
    (hcount : older.length < 2 ^ 64) :
    (p.storeAnalysis a).Assures
      (fun s h => (Fits p d a s h ∧ h.Legible points) ∧ h.arrivals = older)
      (fun done s h => ((Fits p d a s h ∧ h.Legible points) ∧ h.arrivals = older) ∧
        (h.lapsed = false → done = true) ∧
        (done = true → ∃ e, h.stored = some e ∧ e.value = Wire.write a)) := by
  obtain rfl := ha
  have hset : (do
      Query.request (.set (analysisKey a.driverId) (Wire.write a) (some p.analysisTtl))
      return true : Query Slot Bool).Assures
      (fun s h => ((Fits p a.driverId a s h ∧ h.arrivals = older) ∧ h.Legible points) ∧
        ∀ b, h.Finds (some b) → b.sequence ≤ a.sequence)
      (fun done _ h => h.Legible points ∧ h.arrivals = older ∧
        (h.lapsed = false → done = true)) := by
    have hrequest : (Query.request
        (.set (analysisKey a.driverId) (Wire.write a) (some p.analysisTtl)) : Query Slot _).Assures
        (fun s h => ((Fits p a.driverId a s h ∧ h.arrivals = older) ∧ h.Legible points) ∧
          ∀ b, h.Finds (some b) → b.sequence ≤ a.sequence)
        (fun (_ : Unit) _ h => h.Legible points ∧ h.arrivals = older) := by
      refine Assures.set fun s h hs expiresAt => ?_
      obtain ⟨⟨⟨hfits, harrivals⟩, hl⟩, hnewest⟩ := hs
      obtain ⟨hadvances, hlegible⟩ := hfits.store_legible hl hp hnewest expiresAt
      exact ⟨hadvances, hlegible, harrivals⟩
    exact hrequest.bind fun _ => Assures.pure fun _ _ hs => ⟨hs.1, hs.2, fun _ => rfl⟩
  have hfound : (latestAnalysis a.driverId).Assures
      (fun s h => (Fits p a.driverId a s h ∧ h.Legible points) ∧ h.arrivals = older)
      (fun found s h => ((Fits p a.driverId a s h ∧ h.arrivals = older) ∧ h.Legible points) ∧
        h.Finds found) :=
    (latestAnalysis_assures (fun s h => Fits p a.driverId a s h ∧ h.arrivals = older)
      fun s h hs => ⟨hs.1.lapse, hs.2⟩).weaken_pre fun _ _ hs => ⟨⟨hs.1.1, hs.2⟩, hs.1.2⟩
  have hstore : (p.storeAnalysis a).Assures
      (fun s h => (Fits p a.driverId a s h ∧ h.Legible points) ∧ h.arrivals = older)
      (fun done _ h => h.Legible points ∧ h.arrivals = older ∧
        (h.lapsed = false → done = true)) := by
    refine hfound.bind fun found => ?_
    cases found with
    | none =>
      refine hset.weaken_pre fun s h hs => ⟨hs.1, fun b hb => ?_⟩
      obtain ⟨e, he, -⟩ := hb.eq_some
      rw [hs.2.eq_none] at he
      cases he
    | some stored =>
      refine Assures.ite (fun hnewer => ?_) fun hnewest => ?_
      · -- only after an expiry can the stored analysis be ahead of the slot
        refine Assures.pure fun s h hs => ⟨hs.1.2, hs.1.1.2, fun hlapsed => ?_⟩
        have hbound : h.arrivals.length < 2 ^ 64 := by
          rw [hs.1.1.2]
          exact hcount
        exact absurd (hs.1.1.1.newest hs.1.2 hbound hlapsed hs.2) (UInt64.not_le.mpr hnewer)
      · refine hset.weaken_pre fun s h hs => ⟨hs.1, fun b hb => ?_⟩
        obtain ⟨e, he, hread⟩ := hb.eq_some
        obtain ⟨e', he', hread'⟩ := hs.2.eq_some
        obtain rfl := Option.some.inj (he.symm.trans he')
        obtain rfl := Option.some.inj (hread.symm.trans hread')
        exact UInt64.not_lt.mp hnewest
  have hleads (fates : Nat → Fate) : Query.Leads fates a.driverId
      (fun s h => (Fits p a.driverId a s h ∧ h.Legible points) ∧ h.arrivals = older)
      (p.storeAnalysis a)
      (fun done s h => Fits p a.driverId a s h ∧
        (done = true → ∃ e, h.stored = some e ∧ e.value = Wire.write a)) (InStep p a.driverId) :=
    (storeAnalysis_leads fates p a.driverId rfl).weaken_pre fun _ _ hs => hs.1.1
  refine (hstore.and_leads ((storeAnalysis_asks rfl).mono fun _ hr => hr.1) hleads).weaken
    (fun _ _ hs => hs) ?_
  rintro done s h ⟨⟨hl, harrivals, hdone⟩, hfits, hstored⟩
  exact ⟨⟨⟨hfits, hl⟩, harrivals⟩, hdone, hstored⟩

/-- **The window is analyzed and the analysis saved,** which leaves the slot clean. -/
theorem analyzeAndSave_assures (now : Timestamp) (sequence : UInt64) {older : List Bytes}
    (hcount : older.length < 2 ^ 64) :
    (do
      let analysis ← p.analyzeWindow now d sequence
      p.saveFresh analysis
      return analysis : Query Slot TrackAnalysis).Assures
      (fun s h => ((Ready p d s h ∧ s.sequence = sequence) ∧ h.arrivals = older) ∧
        h.Legible points)
      (fun a s h => ((Fits p d a s h ∧ h.Legible points) ∧ h.arrivals = older) ∧
        (h.lapsed = false → s.isDirty = false)) := by
  have hwindow : (p.analyzeWindow now d sequence : Query Slot _).Assures
      (fun s h => ((Ready p d s h ∧ s.sequence = sequence) ∧ h.arrivals = older) ∧
        h.Legible points)
      (fun a s h => (Fits p d a s h ∧ h.Legible points) ∧ h.arrivals = older) := by
    refine (analyzeWindow_assures hp (fun s h => (Ready p d s h ∧ s.sequence = sequence) ∧
      h.arrivals = older) now sequence).weaken (fun _ _ hs => hs) ?_
    rintro a s h ⟨⟨⟨⟨hs, hsequence⟩, harrivals⟩, hl⟩, hreflects, ha⟩
    exact ⟨⟨⟨hs, hreflects, ha.trans hsequence.symm⟩, hl⟩, harrivals⟩
  refine hwindow.bind fun a =>
    Assures.assume (fun _ _ hs => hs.1.1.reflects.driverId_eq) fun ha => ?_
  have hsave : (p.saveFresh a).Assures
      (fun s h => (Fits p d a s h ∧ h.Legible points) ∧ h.arrivals = older)
      (fun _ s h => ((Fits p d a s h ∧ h.Legible points) ∧ h.arrivals = older) ∧
        (h.lapsed = false → s.isDirty = false)) := by
    refine (storeAnalysis_assures hp ha hcount).bind fun done => Assures.ite ?_ ?_
    · intro hdone
      apply Assures.modify
      rintro s h ⟨⟨⟨hfits, hl⟩, harrivals⟩, -, hstored⟩
      obtain ⟨e, he, hvalue⟩ := hstored hdone
      exact ⟨⟨⟨hfits.clean he hvalue, hl⟩, harrivals⟩, fun _ => rfl⟩
    · intro hfailed
      exact Assures.pure fun s h hs => ⟨hs.1, fun hlapsed => absurd (hs.2.1 hlapsed) hfailed⟩
  exact hsave.bind fun _ => Assures.pure fun _ _ hs => hs

/-! ## Appends and reads -/

/-- **An append of a legible point succeeds:** it leaves the slot clean, and what it answers covers
every point that has arrived. -/
theorem appendLeased_assures (now : Timestamp) {point : TrackPoint} (hd : point.driverId = d)
    (hpoint : point ∈ points) {older : List Bytes} (hcount : older.length + 1 < 2 ^ 64) :
    (p.appendLeased now point).Assures
      (fun s h => (InStep p d s h ∧ h.Legible points) ∧ h.arrivals = older)
      (fun a s h => ((Fits p d a s h ∧ h.Legible points) ∧
        h.arrivals = Wire.write point :: older) ∧ (h.lapsed = false → s.isDirty = false)) := by
  rw [appendLeased, hd]
  have hpush : (Query.request (.pushFront (pointsKey d) (Wire.write point)) :
      Query Slot _).Assures
      (fun s h => (Ready p d s h ∧ h.Legible points) ∧ h.arrivals = older)
      (fun (_ : Nat) s h =>
        (Ready p d { s with sequence := s.sequence + 1, isDirty := true } h ∧
          h.Legible points) ∧ h.arrivals = Wire.write point :: older) := by
    refine Assures.request rfl fun s h hs _ => ?_
    obtain ⟨⟨hready, hl⟩, rfl⟩ := hs
    exact ⟨⟨hready.push _, hl.push hpoint⟩, rfl⟩
  have hrest : (do
      let slot ← get
      let analysis ← p.analyzeWindow now d slot.sequence
      p.saveFresh analysis
      return analysis : Query Slot TrackAnalysis).Assures
      (fun s h => (Ready p d s h ∧ h.Legible points) ∧ h.arrivals = Wire.write point :: older)
      (fun a s h => ((Fits p d a s h ∧ h.Legible points) ∧
        h.arrivals = Wire.write point :: older) ∧ (h.lapsed = false → s.isDirty = false)) := by
    have hget : (get : Query Slot Slot).Assures
        (fun s h => (Ready p d s h ∧ h.Legible points) ∧ h.arrivals = Wire.write point :: older)
        (fun slot s h => ((Ready p d s h ∧ s.sequence = slot.sequence) ∧
          h.arrivals = Wire.write point :: older) ∧ h.Legible points) :=
      Assures.get fun s h hs => ⟨⟨⟨hs.1.1, rfl⟩, hs.2⟩, hs.1.2⟩
    exact hget.bind fun slot => analyzeAndSave_assures hp now slot.sequence hcount
  refine (load_assures older).bind fun _ => Assures.bind hpush fun count => ?_
  have hcounted : (modify fun slot : Slot =>
      { slot with sequence := slot.sequence + 1, isDirty := true } : Query Slot _).Assures
      (fun s h => (Ready p d { s with sequence := s.sequence + 1, isDirty := true } h ∧
        h.Legible points) ∧ h.arrivals = Wire.write point :: older)
      (fun _ s h => ((Ready p d s h ∧ s.isDirty = true) ∧ h.Legible points) ∧
        h.arrivals = Wire.write point :: older) :=
    Assures.modify fun s h hs => ⟨⟨⟨hs.1.1, rfl⟩, hs.1.2⟩, hs.2⟩
  refine hcounted.bind fun _ => Assures.ite (fun _ => ?_) fun _ => ?_
  · have htrim : (Query.request (.trim (pointsKey d) p.maxPointsRetained) :
        Query Slot _).Assures
        (fun s h => ((Ready p d s h ∧ s.isDirty = true) ∧ h.Legible points) ∧
          h.arrivals = Wire.write point :: older)
        (fun (_ : Nat) s h => (Ready p d s h ∧ h.Legible points) ∧
          h.arrivals = Wire.write point :: older) := by
      refine Assures.request rfl fun s h hs _ => ?_
      obtain ⟨⟨⟨hready, hdirty⟩, hl⟩, harrivals⟩ := hs
      exact ⟨⟨⟨hready.inStep.trim hdirty, hready.isLoaded⟩, hl.trim _⟩, harrivals⟩
    exact htrim.bind fun _ => hrest
  · exact hrest.weaken_pre fun s h hs => ⟨⟨hs.1.1.1, hs.1.2⟩, hs.2⟩

/-- **A read of a legible track succeeds** and leaves the slot clean. -/
theorem currentAnalysis_assures (now : Timestamp) {older : List Bytes}
    (hcount : older.length < 2 ^ 64) :
    (p.currentAnalysis now d).Assures
      (fun s h => (InStep p d s h ∧ h.Legible points) ∧ h.arrivals = older)
      (fun _ s h => ((InStep p d s h ∧ h.Legible points) ∧ h.arrivals = older) ∧
        (h.lapsed = false → s.isDirty = false)) := by
  have hfound : (latestAnalysis d).Assures
      (fun s h => (Ready p d s h ∧ h.Legible points) ∧ h.arrivals = older)
      (fun _ s h => (Ready p d s h ∧ h.arrivals = older) ∧ h.Legible points) :=
    (latestAnalysis_assures (fun s h => Ready p d s h ∧ h.arrivals = older)
      fun s h hs => ⟨⟨hs.1.inStep.lapse, hs.1.isLoaded⟩, hs.2⟩).weaken
      (fun _ _ hs => ⟨⟨hs.1.1, hs.2⟩, hs.1.2⟩) fun _ _ _ hs => hs.1
  refine (load_assures older).bind fun _ => hfound.bind fun stored => ?_
  have hget : (get : Query Slot Slot).Assures
      (fun s h => (Ready p d s h ∧ h.arrivals = older) ∧ h.Legible points)
      (fun slot s h => ((Ready p d s h ∧ h.arrivals = older) ∧ h.Legible points) ∧ s = slot) :=
    Assures.get fun _ _ hs => ⟨hs, rfl⟩
  refine Assures.bind hget fun slot => ?_
  split
  · -- the stored analysis is used for a clean slot only
    rename_i a hcurrent
    obtain ⟨rfl, hclean⟩ := Option.filter_eq_some_iff.mp hcurrent
    simp only [Bool.and_eq_true, Bool.not_eq_true'] at hclean
    apply Assures.pure
    rintro s h ⟨⟨⟨hready, harrivals⟩, hl⟩, rfl⟩
    exact ⟨⟨⟨hready.inStep, hl⟩, harrivals⟩, fun _ => hclean.1⟩
  · refine (analyzeAndSave_assures hp now slot.sequence hcount).weaken ?_ ?_
    · rintro s h ⟨⟨⟨hready, harrivals⟩, hl⟩, rfl⟩
      exact ⟨⟨⟨hready, rfl⟩, harrivals⟩, hl⟩
    · rintro a s h ⟨⟨⟨hfits, hl⟩, harrivals⟩, hclean⟩
      exact ⟨⟨⟨hfits.inStep, hl⟩, harrivals⟩, hclean⟩

end TrackPolicy

end Fleet
