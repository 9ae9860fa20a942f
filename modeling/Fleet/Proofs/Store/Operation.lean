import Fleet.Proofs.Store.InStep

/-!
# Operations keep slots and tracks in step

One lemma for each operation on a driver's track says what it leads to when it starts with slot and
track in step, whatever the fates of its requests are.  If it ends without a result, slot and track
are in step again.  Main statements: `appendLeased_leads` and `currentAnalysis_leads`.
-/

namespace Fleet

namespace TrackPolicy

open Query (Ensures Leads Asks)

/-! ## What operations ask for -/

section Asking

variable {σ : Type} {p : TrackPolicy} {d : String}

theorem latestAnalysis_asks : (latestAnalysis d : Query σ _).Asks (Request.SparesLog d) := by
  refine Asks.bind (Asks.request ⟨rfl, trivial⟩) fun record => ?_
  cases record with
  | none => exact Asks.pure none
  | some bytes => exact (Asks.orFail _ _).bind fun a => Asks.pure _

theorem recentPoints_asks (count : Nat) :
    (recentPoints d count : Query σ _).Asks (Request.SparesLog d) :=
  Asks.bind (Asks.request ⟨rfl, trivial⟩) fun _ => (Asks.orFail _ _).bind fun _ => Asks.pure _

theorem load_asks : (load d).Asks (Request.SparesLog d) :=
  Asks.get.bind fun _ => (Asks.pure _).ite (latestAnalysis_asks.bind fun _ => Asks.modify _)

theorem storeAnalysis_asks {a : TrackAnalysis} (ha : a.driverId = d) :
    (p.storeAnalysis a : Query σ _).Asks (Request.SparesLog d) := by
  obtain rfl := ha
  have hset : (do
      Query.request (.set (analysisKey a.driverId) (Wire.write a) (some p.analysisTtl))
      return true : Query σ Bool).Asks (Request.SparesLog a.driverId) :=
    Asks.bind (Asks.request ⟨rfl, trivial⟩) fun _ => Asks.pure _
  refine latestAnalysis_asks.bind fun found => ?_
  cases found with
  | none => exact hset
  | some stored => exact (Asks.pure _).ite hset

theorem saveFresh_asks {a : TrackAnalysis} (ha : a.driverId = d) :
    (p.saveFresh a).Asks (Request.SparesLog d) :=
  (storeAnalysis_asks ha).bind fun _ => (Asks.modify _).ite (Asks.pure _)

/-- The analysis that is saved is one of the driver whose window was analyzed. -/
theorem analyzeAndSave_asks (now : Timestamp) (sequence : UInt64) :
    (do
      let analysis ← p.analyzeWindow now d sequence
      p.saveFresh analysis
      return analysis : Query Slot TrackAnalysis).Asks (Request.SparesLog d) := by
  rw [analyzeWindow, bind_assoc]
  refine (recentPoints_asks p.windowSize).bind fun window => ?_
  rw [pure_bind]
  refine Asks.bind (saveFresh_asks ?_) fun _ => Asks.pure _
  exact p.driverId_analyze d window now

theorem currentAnalysis_asks (now : Timestamp) :
    (p.currentAnalysis now d).Asks (Request.SparesLog d) := by
  refine load_asks.bind fun _ => latestAnalysis_asks.bind fun stored => Asks.get.bind fun slot => ?_
  split
  · exact Asks.pure _
  · exact analyzeAndSave_asks now slot.sequence

theorem appendLeased_asks (now : Timestamp) (point : TrackPoint) :
    (p.appendLeased now point).Asks (Request.About point.driverId) := by
  have hrest : (do
      let slot ← get
      let analysis ← p.analyzeWindow now point.driverId slot.sequence
      p.saveFresh analysis
      return analysis : Query Slot TrackAnalysis).Asks (Request.About point.driverId) :=
    Asks.get.bind fun slot => (analyzeAndSave_asks now slot.sequence).mono fun _ hr => hr.1
  refine (load_asks.mono fun _ hr => hr.1).bind fun _ => ?_
  refine Asks.bind (Asks.request rfl) fun count => (Asks.modify _).bind fun _ => Asks.ite ?_ hrest
  exact Asks.bind (Asks.request rfl) fun _ => hrest

/-- **An append makes at most one entry.** -/
theorem appendLeased_pushes (now : Timestamp) (point : TrackPoint) :
    (p.appendLeased now point).PushesAtMost 1 := by
  have hrest : (do
      let slot ← get
      let analysis ← p.analyzeWindow now point.driverId slot.sequence
      p.saveFresh analysis
      return analysis : Query Slot TrackAnalysis).Asks fun r => r.isPush = false :=
    Asks.get.bind fun slot =>
      (analyzeAndSave_asks now slot.sequence).mono fun _ hr => hr.2.isPush_eq
  have hload : (load point.driverId).PushesAtMost 0 :=
    (load_asks.mono fun _ hr => hr.2.isPush_eq).pushesAtMost
  refine hload.bind (n := 1) fun _ =>
    Query.PushesAtMost.bind (n := 0) (Query.PushesAtMost.request _) fun (count : Nat) => ?_
  apply Asks.pushesAtMost
  refine (Asks.modify _).bind fun _ => Asks.ite ?_ hrest
  exact Asks.bind (Asks.request rfl) fun _ => hrest

end Asking

variable {σ : Type} (fates : Nat → Fate) (p : TrackPolicy) (d : String)

/-! ## Look-ups -/

section Lookups

variable {fates d} in
/-- A record that was found is read. -/
theorem latestAnalysis_of_get {pre known stop : σ → Faulty → Prop}
    (hget : (Query.request (.get (analysisKey d))).Ensures (Faulty.serve fates) pre
      (fun (record : Option Bytes) s f =>
        known s f ∧ (f.holding d).stored.map Expiring.value = record) stop)
    (hstop : ∀ s f, known s f → stop s f) :
    (latestAnalysis d).Ensures (Faulty.serve fates) pre
      (fun found s f => known s f ∧ (f.holding d).Finds found) stop := by
  refine Ensures.bind hget fun record => ?_
  cases record with
  | none =>
    refine Ensures.pure fun s f hs => ⟨hs.1, ?_⟩
    rw [Holding.Finds, Option.map_eq_none_iff.mp hs.2]
    rfl
  | some bytes =>
    have hread : (readable (Wire.read? bytes)).Ensures (Faulty.serve fates)
        (fun s f => known s f ∧ (f.holding d).stored.map Expiring.value = some bytes)
        (fun (a : TrackAnalysis) s f => known s f ∧ (f.holding d).Finds (some a)) stop := by
      refine Ensures.orFail (fun a ha s f hs => ⟨hs.1, ?_⟩) fun s f hs => hstop s f hs.1
      obtain ⟨e, he, rfl⟩ := Option.map_eq_some_iff.mp hs.2
      rw [Holding.Finds, he, Option.map_some, ha]
      rfl
    exact hread.bind fun a => Ensures.pure fun _ _ hs => hs

variable (known : σ → Holding → Prop)

/-- What is looked up is the stored analysis, and only an expiry changes anything. -/
theorem latestAnalysis_leads
    (hlapse : ∀ s h, known s h → known s { h with stored := none, lapsed := true }) :
    Leads fates d known (latestAnalysis d) (fun found s h => known s h ∧ h.Finds found) known := by
  have hget : Leads fates d known (Query.request (.get (analysisKey d)))
      (fun (record : Option Bytes) s h => known s h ∧ h.stored.map Expiring.value = record) known :=
    Leads.get (fun _ _ hs => hs) (fun _ _ hs => ⟨hs, rfl⟩) fun s h hs => ⟨hlapse s h hs, rfl⟩
  exact latestAnalysis_of_get hget fun _ _ hs => hs

theorem recentPoints_leads (count : Nat) :
    Leads fates d known (recentPoints d count)
      (fun points s h => known s h ∧ (h.log.take count).mapM Wire.read? = some points.reverse)
      known := by
  have hrange : Leads fates d known (Query.request (.range (pointsKey d) count))
      (fun (records : List Bytes) s h => known s h ∧ h.log.take count = records) known :=
    Leads.range (fun _ _ hs => hs) fun _ _ hs => ⟨hs, rfl⟩
  refine Ensures.bind hrange fun records => ?_
  have hread : Leads fates d (fun s h => known s h ∧ h.log.take count = records)
      (readable (records.mapM Wire.read?))
      (fun (points : List TrackPoint) s h =>
        known s h ∧ (h.log.take count).mapM Wire.read? = some points) known := by
    refine Ensures.orFail (fun points hpoints s f hs => ⟨hs.1, ?_⟩) fun _ _ hs => hs.1
    rw [hs.2, hpoints]
  refine hread.bind fun points => Ensures.pure fun s f hs => ⟨hs.1, ?_⟩
  rw [List.reverse_reverse]
  exact hs.2

/-- A fresh analysis reflects the log. -/
theorem analyzeWindow_leads (now : Timestamp) (sequence : UInt64) :
    Leads fates d known (p.analyzeWindow now d sequence)
      (fun a s h => known s h ∧ p.Reflects d h.log a ∧ a.sequence = sequence) known := by
  refine (recentPoints_leads fates d known p.windowSize).bind fun window =>
    Ensures.pure fun s f hs => ⟨hs.1, ⟨window, now, ?_, rfl⟩, rfl⟩
  rw [window?, hs.2, Option.map_some, List.reverse_reverse]

end Lookups

/-! ## Steps of operations -/

/-- A loaded slot counts the points. -/
theorem load_leads : Leads fates d (InStep p d) (load d) (fun _ => Ready p d) (InStep p d) := by
  have hget : Leads fates d (InStep p d) get (fun slot s h => InStep p d s h ∧ s = slot)
      (InStep p d) := Ensures.get fun _ _ hs => ⟨hs, rfl⟩
  refine Ensures.bind hget fun slot => Ensures.ite (fun hloaded => ?_) fun hblank => ?_
  · apply Ensures.pure
    rintro s f ⟨hs, rfl⟩
    exact ⟨hs, hloaded⟩
  · have hfound : Leads fates d (fun s h => InStep p d s h ∧ s = slot) (latestAnalysis d)
        (fun found s h => (InStep p d s h ∧ s = slot) ∧ h.Finds found) (InStep p d) :=
      (latestAnalysis_leads fates d (fun s h => InStep p d s h ∧ s = slot)
        fun s h hs => ⟨hs.1.lapse, hs.2⟩).weaken_stop fun _ _ hs => hs.1
    refine hfound.bind fun found => Ensures.modify ?_
    rintro s f ⟨⟨hs, rfl⟩, hf⟩
    exact ⟨hs.load (by simpa using hblank) hf, rfl⟩

/-- A fitting analysis is stored unless the store refuses it or the backend fails. -/
theorem storeAnalysis_leads {a : TrackAnalysis} (ha : a.driverId = d) :
    Leads fates d (Fits p d a) (p.storeAnalysis a)
      (fun done s h => Fits p d a s h ∧
        (done = true → ∃ e, h.stored = some e ∧ e.value = Wire.write a)) (InStep p d) := by
  obtain rfl := ha
  have hrequest : Leads fates a.driverId (Fits p a.driverId a)
      (Query.request (.set (analysisKey a.driverId) (Wire.write a) (some p.analysisTtl)))
      (fun _ s h => Fits p a.driverId a s h ∧ ∃ e, h.stored = some e ∧ e.value = Wire.write a)
      (InStep p a.driverId) :=
    Leads.set (fun _ _ hs => hs.inStep) fun t s h hs => ⟨hs.store t, _, rfl, rfl⟩
  have hset : Leads fates a.driverId (Fits p a.driverId a)
      (do
        Query.request (.set (analysisKey a.driverId) (Wire.write a) (some p.analysisTtl))
        return true)
      (fun done s h => Fits p a.driverId a s h ∧
        (done = true → ∃ e, h.stored = some e ∧ e.value = Wire.write a))
      (InStep p a.driverId) :=
    hrequest.bind fun _ => Ensures.pure fun s f hs => ⟨hs.1, fun _ => hs.2⟩
  have hfound : Leads fates a.driverId (Fits p a.driverId a) (latestAnalysis a.driverId)
      (fun _ => Fits p a.driverId a) (InStep p a.driverId) :=
    (latestAnalysis_leads fates a.driverId (Fits p a.driverId a) fun _ _ hs => hs.lapse).weaken
      (fun _ _ hs => hs) (fun _ _ _ hs => hs.1) fun _ _ hs => hs.inStep
  refine hfound.bind fun found => ?_
  cases found with
  | none => exact hset
  | some stored =>
    refine Ensures.ite (fun _ => ?_) fun _ => hset
    exact Ensures.pure fun s f hs => ⟨hs, fun hdone => by cases hdone⟩

/-- The slot is clean if the analysis is stored, and as it was if not. -/
theorem saveFresh_leads {a : TrackAnalysis} (ha : a.driverId = d) :
    Leads fates d (Fits p d a) (p.saveFresh a) (fun _ => Fits p d a) (InStep p d) := by
  refine (storeAnalysis_leads fates p d ha).bind fun done =>
    Ensures.ite (fun hdone => ?_) fun _ => ?_
  · apply Ensures.modify
    rintro s f ⟨hs, hstored⟩
    obtain ⟨e, he, hvalue⟩ := hstored hdone
    exact hs.clean he hvalue
  · exact Ensures.pure fun s f hs => hs.1

/-- The window is analyzed on behalf of a loaded slot, and the analysis is saved. -/
theorem analyzeAndSave_leads (now : Timestamp) (sequence : UInt64) :
    Leads fates d (fun s h => Ready p d s h ∧ s.sequence = sequence)
      (do
        let analysis ← p.analyzeWindow now d sequence
        p.saveFresh analysis
        return analysis)
      (fun a => Fits p d a) (InStep p d) := by
  have hwindow : Leads fates d (fun s h => Ready p d s h ∧ s.sequence = sequence)
      (p.analyzeWindow now d sequence) (fun a => Fits p d a) (InStep p d) := by
    refine (analyzeWindow_leads fates p d (fun s h => Ready p d s h ∧ s.sequence = sequence) now
      sequence).weaken (fun _ _ hs => hs) ?_ fun _ _ hs => hs.1.inStep
    rintro a s f ⟨⟨hs, hsequence⟩, hreflects, ha⟩
    exact ⟨hs, hreflects, ha.trans hsequence.symm⟩
  refine hwindow.bind fun a => Ensures.assume (fun _ _ hs => hs.reflects.driverId_eq) fun ha => ?_
  exact (saveFresh_leads fates p d ha).bind fun _ => Ensures.pure fun _ _ hs => hs

/-- The end of an append leads to an analysis that fits.  What is known of the log stays known. -/
theorem analyzeLoaded_leads (now : Timestamp) (known : List Bytes → List Bytes → Prop) :
    Leads fates d (fun s h => Ready p d s h ∧ known h.log h.arrivals)
      (do
        let slot ← get
        let analysis ← p.analyzeWindow now d slot.sequence
        p.saveFresh analysis
        return analysis)
      (fun a s h => Fits p d a s h ∧ known h.log h.arrivals)
      (fun s h => InStep p d s h ∧ known h.log h.arrivals) := by
  have hget : Leads fates d (fun s h => Ready p d s h ∧ known h.log h.arrivals) get
      (fun slot s h => (Ready p d s h ∧ s.sequence = slot.sequence) ∧ known h.log h.arrivals)
      (fun s h => InStep p d s h ∧ known h.log h.arrivals) :=
    Ensures.get fun s f hs => ⟨⟨hs.1, rfl⟩, hs.2⟩
  exact hget.bind fun slot => (analyzeAndSave_leads fates p d now slot.sequence).frame
    (analyzeAndSave_asks now slot.sequence) known

/-! ## Appends and reads -/

/-- **An append leads to slot and track in step again.**  With a result, the point has arrived, the
log is no longer than allowed, and the result is an analysis that fits; without one, the point may
have arrived or not. -/
theorem appendLeased_leads (now : Timestamp) {point : TrackPoint} (hd : point.driverId = d)
    (older : List Bytes) :
    Leads fates d (fun s h => InStep p d s h ∧ h.arrivals = older) (p.appendLeased now point)
      (fun a s h => Fits p d a s h ∧
        h.log.length ≤ p.maxPointsRetained ∧ h.arrivals = Wire.write point :: older)
      (fun s h => InStep p d s h ∧
        (h.arrivals = older ∨ h.arrivals = Wire.write point :: older)) := by
  rw [appendLeased, hd]
  have hload := (load_leads fates p d).frame load_asks fun _ arrivals => arrivals = older
  -- between the push and the count the slot lags one point behind, but no request is made there
  have hpush : Leads fates d (fun s h => Ready p d s h ∧ h.arrivals = older)
      (Query.request (.pushFront (pointsKey d) (Wire.write point)))
      (fun (count : Nat) s h =>
        Ready p d { s with sequence := s.sequence + 1, isDirty := true } h ∧
        h.log.length = count ∧ h.arrivals = Wire.write point :: older)
      (fun s h => InStep p d s h ∧ h.arrivals = older) := by
    apply Leads.pushFront (fun s h hs => ⟨hs.1.inStep, hs.2⟩)
    rintro s h ⟨hs, rfl⟩
    exact ⟨hs.push _, rfl, rfl⟩
  refine (hload.weaken_stop fun _ _ hs => ⟨hs.1, Or.inl hs.2⟩).bind fun _ => ?_
  refine Ensures.bind (hpush.weaken_stop fun _ _ hs => ⟨hs.1, Or.inl hs.2⟩) fun count => ?_
  have hcount : Leads fates d
      (fun s h => Ready p d { s with sequence := s.sequence + 1, isDirty := true } h ∧
        h.log.length = count ∧ h.arrivals = Wire.write point :: older)
      (modify fun slot => { slot with sequence := slot.sequence + 1, isDirty := true })
      (fun _ s h => Ready p d s h ∧ s.isDirty = true ∧
        h.log.length = count ∧ h.arrivals = Wire.write point :: older)
      (fun s h => InStep p d s h ∧
        (h.arrivals = older ∨ h.arrivals = Wire.write point :: older)) :=
    Ensures.modify fun s f hs => ⟨hs.1, rfl, hs.2⟩
  have hrest := (analyzeLoaded_leads fates p d now fun log arrivals =>
    log.length ≤ p.maxPointsRetained ∧ arrivals = Wire.write point :: older).weaken_stop
    fun s f hs => And.intro hs.1 (Or.inr (a := (f.holding d).arrivals = older) hs.2.2)
  refine hcount.bind fun _ => Ensures.ite (fun hlong => ?_) fun hshort => ?_
  · -- the slot is dirty, so no stored analysis is taken to cover what is cut off
    have htrim : Leads fates d
        (fun s h => Ready p d s h ∧ s.isDirty = true ∧
          h.log.length = count ∧ h.arrivals = Wire.write point :: older)
        (Query.request (.trim (pointsKey d) p.maxPointsRetained))
        (fun (_ : Nat) s h => Ready p d s h ∧
          h.log.length ≤ p.maxPointsRetained ∧ h.arrivals = Wire.write point :: older)
        (fun s h => InStep p d s h ∧
          (h.arrivals = older ∨ h.arrivals = Wire.write point :: older)) := by
      apply Leads.trim (fun s h hs => ⟨hs.1.inStep, Or.inr hs.2.2.2⟩)
      rintro - s h ⟨hs, hdirty, -, harrivals⟩
      exact ⟨⟨hs.inStep.trim hdirty, hs.isLoaded⟩, List.length_take_le _ _, harrivals⟩
    exact htrim.bind fun _ => hrest
  · apply hrest.weaken_pre
    rintro s f ⟨hs, -, hlength, harrivals⟩
    refine ⟨hs, ?_, harrivals⟩
    rw [hlength]
    exact Nat.le_of_not_lt hshort

/-- **A read leads to an analysis of the log as it is,** fresh or read back. -/
theorem currentAnalysis_leads (now : Timestamp) :
    Leads fates d (InStep p d) (p.currentAnalysis now d)
      (fun a s h => InStep p d s h ∧
        ∃ b, p.Reflects d h.log b ∧ (a = b ∨ Wire.read? (Wire.write b) = some a))
      (InStep p d) := by
  have hfound : Leads fates d (Ready p d) (latestAnalysis d)
      (fun stored s h => Ready p d s h ∧ h.Finds stored) (InStep p d) :=
    (latestAnalysis_leads fates d (Ready p d) fun s h hs =>
      ⟨hs.inStep.lapse, hs.isLoaded⟩).weaken_stop fun _ _ hs => hs.inStep
  refine (load_leads fates p d).bind fun _ => hfound.bind fun stored => ?_
  have hget : Leads fates d (fun s h => Ready p d s h ∧ h.Finds stored) get
      (fun slot s h => (Ready p d s h ∧ h.Finds stored) ∧ s = slot) (InStep p d) :=
    Ensures.get fun s f hs => ⟨hs, rfl⟩
  refine Ensures.bind hget fun slot => ?_
  split
  · -- the stored analysis is used, and the slot is clean
    rename_i a hcurrent
    obtain ⟨rfl, hclean⟩ := Option.filter_eq_some_iff.mp hcurrent
    simp only [Bool.and_eq_true, Bool.not_eq_true'] at hclean
    apply Ensures.pure
    rintro s f ⟨⟨hs, hf⟩, rfl⟩
    obtain ⟨e, he, hread⟩ := hf.eq_some
    obtain ⟨b, hvalue, hreflects, -⟩ := hs.inStep.covered hclean.1 e he
    exact ⟨hs.inStep, b, hreflects, Or.inr (hvalue ▸ hread)⟩
  · refine (analyzeAndSave_leads fates p d now slot.sequence).weaken ?_ ?_ fun _ _ hs => hs
    · rintro s f ⟨⟨hs, -⟩, rfl⟩
      exact ⟨hs, rfl⟩
    · rintro a s f hs
      exact ⟨hs.inStep, a, hs.reflects, Or.inl rfl⟩

end TrackPolicy

end Fleet
