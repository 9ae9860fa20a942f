import Fleet.Proofs.Store.Rejection
import Fleet.Proofs.Store.Latest
import Fleet.Proofs.Store.Freshness
import Fleet.Proofs.Wire.Stable

/-!
# What is found after an append

What an append has stored is what the next look-ups find.  The stored analysis gives way, because
no slot and no stored analysis counts more points than have arrived (`invariant_countsArrived`) and
the new analysis counts them all.  But whatever is found was written and read: `append_is_retrieved`
says that every number in it is what its digits are read as, so the analysis and the point are found
as they were exactly if each of their numbers is read as itself.  Not every number is:
`retrieved_position_drifts`.
-/

namespace Fleet

open TrackPolicy (pointsKey analysisKey)
open Query (Ensures Leads)

/-! ## Counts and arrivals -/

/-- **No more points are counted than have arrived,** neither by a driver's slot nor by the stored
analysis. -/
structure CountsArrived (s : Slot) (h : Holding) : Prop where
  slot : s.sequence.toNat ≤ h.arrivals.length
  stored : (storedSequence h.stored).toNat ≤ h.arrivals.length

namespace CountsArrived

variable {s : Slot} {h : Holding}

theorem forget (hs : CountsArrived s h) : CountsArrived {} h where
  slot := Nat.zero_le _
  stored := hs.stored

theorem lapse (hs : CountsArrived s h) :
    CountsArrived s { h with stored := none, lapsed := true } where
  slot := hs.slot
  stored := Nat.zero_le _

/-- A slot takes the stored analysis into account. -/
theorem load (hs : CountsArrived s h) {found : Option TrackAnalysis} (hfound : h.Finds found) :
    CountsArrived
      { s with
        sequence := found.elim s.sequence fun a => max s.sequence a.sequence
        isLoaded := true } h where
  slot := by
    cases found with
    | none => exact hs.slot
    | some a =>
      have ha : a.sequence.toNat ≤ h.arrivals.length := by
        have hstored := hs.stored
        rw [storedSequence, hfound.storedAnalysis_eq] at hstored
        exact hstored
      show (max s.sequence a.sequence).toNat ≤ _
      rw [UInt64.max_def]
      split
      · exact ha
      · exact hs.slot
  stored := hs.stored

/-- An analysis is stored that counts no more points than have arrived. -/
theorem store (hs : CountsArrived s h) {a : TrackAnalysis}
    (ha : a.sequence.toNat ≤ h.arrivals.length) (expiresAt : Option Duration) :
    CountsArrived s { h with stored := some ⟨Wire.write a, expiresAt⟩ } where
  slot := hs.slot
  stored := le_trans (UInt64.le_iff_toNat_le.mp (storedSequence_write_le a expiresAt)) ha

end CountsArrived

theorem toNat_succ_le (n : UInt64) : (n + 1).toNat ≤ n.toNat + 1 := by
  rw [UInt64.toNat_add, UInt64.toNat_one]
  exact Nat.mod_le _ _

namespace TrackPolicy

variable {fates : Nat → Fate} {p : TrackPolicy} {d : String}

theorem load_countsArrived :
    Leads fates d CountsArrived (load d) (fun _ => CountsArrived) CountsArrived := by
  have hget : Leads fates d CountsArrived get (fun slot s h => CountsArrived s h ∧ s = slot)
      CountsArrived := Ensures.get fun _ _ hs => ⟨hs, rfl⟩
  refine Ensures.bind hget fun slot =>
    Ensures.ite (fun _ => Ensures.pure fun _ _ hs => hs.1) fun _ => ?_
  have hfound := latestAnalysis_leads fates d CountsArrived fun _ _ hs => hs.lapse
  exact (hfound.weaken_pre fun _ _ hs => hs.1).bind fun found =>
    Ensures.modify fun _ _ hs => hs.1.load hs.2

/-- An analysis that counts no more points than have arrived is stored, or a newer one is kept. -/
theorem storeAnalysis_countsArrived {a : TrackAnalysis} (ha : a.driverId = d) :
    Leads fates d (fun s h => CountsArrived s h ∧ a.sequence.toNat ≤ h.arrivals.length)
      (p.storeAnalysis a) (fun _ => CountsArrived) CountsArrived := by
  obtain rfl := ha
  have hrequest : Leads fates a.driverId
      (fun s h => CountsArrived s h ∧ a.sequence.toNat ≤ h.arrivals.length)
      (Query.request (.set (analysisKey a.driverId) (Wire.write a) (some p.analysisTtl)))
      (fun _ => CountsArrived) CountsArrived :=
    Leads.set (fun _ _ hs => hs.1) fun t _ _ hs => hs.1.store hs.2 t
  have hset : Leads fates a.driverId
      (fun s h => CountsArrived s h ∧ a.sequence.toNat ≤ h.arrivals.length)
      (do
        Query.request (.set (analysisKey a.driverId) (Wire.write a) (some p.analysisTtl))
        return true)
      (fun (_ : Bool) => CountsArrived) CountsArrived :=
    hrequest.bind fun _ => Ensures.pure fun _ _ hs => hs
  have hfound := (latestAnalysis_leads fates a.driverId
    (fun s h => CountsArrived s h ∧ a.sequence.toNat ≤ h.arrivals.length)
    fun _ _ hs => ⟨hs.1.lapse, hs.2⟩).weaken_stop fun _ _ hs => hs.1
  refine hfound.bind fun found => ?_
  cases found with
  | none => exact hset.weaken_pre fun _ _ hs => hs.1
  | some stored =>
    exact Ensures.ite (fun _ => Ensures.pure fun _ _ hs => hs.1.1) fun _ =>
      hset.weaken_pre fun _ _ hs => hs.1

/-- The window is analyzed under the number of the slot, and the analysis is saved. -/
theorem analyzeAndSave_countsArrived (now : Timestamp) (slot : Slot) :
    Leads fates d (fun s h => CountsArrived s h ∧ s = slot)
      (do
        let analysis ← p.analyzeWindow now d slot.sequence
        p.saveFresh analysis
        return analysis)
      (fun _ => CountsArrived) CountsArrived := by
  have hwindow := (analyzeWindow_leads fates p d (fun s h => CountsArrived s h ∧ s = slot) now
    slot.sequence).weaken_stop fun _ _ hs => hs.1
  refine hwindow.bind fun a => Ensures.assume (fun _ _ hs => hs.2.1.driverId_eq) fun ha => ?_
  have hsave : Leads fates d (fun s h => CountsArrived s h ∧ a.sequence.toNat ≤ h.arrivals.length)
      (p.saveFresh a) (fun _ => CountsArrived) CountsArrived :=
    (storeAnalysis_countsArrived ha).bind fun _ =>
      Ensures.ite (fun _ => Ensures.modify fun _ _ hs => ⟨hs.slot, hs.stored⟩) fun _ =>
        Ensures.pure fun _ _ hs => hs
  refine (hsave.weaken_pre ?_).bind fun _ => Ensures.pure fun _ _ hs => hs
  rintro s f ⟨⟨hs, rfl⟩, -, hsequence⟩
  rw [hsequence]
  exact ⟨hs, hs.slot⟩

theorem appendLeased_countsArrived (now : Timestamp) {point : TrackPoint}
    (hd : point.driverId = d) :
    Leads fates d CountsArrived (p.appendLeased now point) (fun _ => CountsArrived)
      CountsArrived := by
  rw [appendLeased, hd]
  -- when the point has arrived, there is room for one more count
  have hpush : Leads fates d CountsArrived
      (Query.request (.pushFront (pointsKey d) (Wire.write point)))
      (fun (_ : Nat) s h => CountsArrived s h ∧ s.sequence.toNat + 1 ≤ h.arrivals.length)
      CountsArrived := by
    refine Leads.pushFront (fun _ _ hs => hs) fun s h hs => ?_
    exact ⟨⟨Nat.le_succ_of_le hs.slot, Nat.le_succ_of_le hs.stored⟩, Nat.succ_le_succ hs.slot⟩
  have hcount : Leads fates d
      (fun s h => CountsArrived s h ∧ s.sequence.toNat + 1 ≤ h.arrivals.length)
      (modify fun slot : Slot => { slot with sequence := slot.sequence + 1, isDirty := true })
      (fun _ => CountsArrived) CountsArrived :=
    Ensures.modify fun _ _ hs => ⟨(toNat_succ_le _).trans hs.2, hs.1.stored⟩
  have htrim : Leads fates d CountsArrived
      (Query.request (.trim (pointsKey d) p.maxPointsRetained)) (fun (_ : Nat) => CountsArrived)
      CountsArrived := Leads.trim (fun _ _ hs => hs) fun _ _ _ hs => ⟨hs.slot, hs.stored⟩
  have hget : Leads fates d CountsArrived get (fun slot s h => CountsArrived s h ∧ s = slot)
      CountsArrived := Ensures.get fun _ _ hs => ⟨hs, rfl⟩
  have hrest := hget.bind fun slot => analyzeAndSave_countsArrived (p := p) now slot
  exact load_countsArrived.bind fun _ => Ensures.bind hpush fun count => hcount.bind fun _ =>
    Ensures.ite (fun _ => Ensures.bind htrim fun _ => hrest) fun _ => hrest

theorem currentAnalysis_countsArrived (now : Timestamp) :
    Leads fates d CountsArrived (p.currentAnalysis now d) (fun _ => CountsArrived)
      CountsArrived := by
  have hfound := (latestAnalysis_leads fates d CountsArrived fun _ _ hs => hs.lapse).weaken
    (fun _ _ hs => hs) (fun _ _ _ hs => hs.1) fun _ _ hs => hs
  have hget : Leads fates d CountsArrived get (fun slot s h => CountsArrived s h ∧ s = slot)
      CountsArrived := Ensures.get fun _ _ hs => ⟨hs, rfl⟩
  refine load_countsArrived.bind fun _ => hfound.bind fun stored => Ensures.bind hget fun slot => ?_
  split
  · exact Ensures.pure fun _ _ hs => hs.1
  · exact analyzeAndSave_countsArrived now slot

end TrackPolicy

/-- The parts of a configuration without a fault that tracks rest on. -/
theorem Config.trackPolicy_of_fault? {c : Config} (h : c.fault? = none) (t : Trigonometry) :
    isPositive (c.trackPolicy t).speedLimit = true ∧ 0 < (c.trackPolicy t).windowSize ∧
      (c.trackPolicy t).windowSize ≤ (c.trackPolicy t).maxPointsRetained := by
  rw [fault?] at h
  split at h
  · cases h
  split at h
  · cases h
  rename_i hlimit
  split at h
  · cases h
  rename_i hwindow
  split at h
  · cases h
  rename_i hretained
  have hpositive : isPositive c.maxReasonableSpeed = true := by simpa using hlimit
  exact ⟨hpositive, Nat.pos_of_ne_zero hwindow, Nat.le_of_not_lt hretained⟩

namespace TrackStore

variable {p : TrackPolicy} {fates : Nat → Fate} {st : TrackStore} {f : Faulty} {d : String}
  {points : List TrackPoint}

/-- **That no more points are counted than have arrived is an invariant,** whatever becomes of the
requests. -/
theorem invariant_countsArrived (p : TrackPolicy) (fates : Nat → Fate) :
    Invariant p fates (fun _ _ _ => True) (fun a _ h => a.sequence.toNat ≤ h.arrivals.length)
      fun _ => CountsArrived where
  forget hs := hs.forget
  lapse hs := hs.lapse
  append now _ := (TrackPolicy.appendLeased_countsArrived now rfl).weaken_pre fun _ _ hs => hs.2.1
  read now _ := (TrackPolicy.currentAnalysis_countsArrived now).weaken_pre fun _ _ hs => hs.2
  save _ := (TrackPolicy.storeAnalysis_countsArrived rfl).weaken_pre fun _ _ hs => hs.2

/-! ## Histories of calls -/

/-- A call as an incident. -/
def Incident.ofCall (c : Timestamp × Call) : Incident := .act c.1 (.call c.2)

theorem Incident.after_map_ofCall {β : Type} (serve : Server β) (s : TrackStore × β)
    (history : List (Timestamp × Call)) :
    Incident.after serve s (history.map ofCall) = Call.after serve s history :=
  List.foldl_map

/-- Calls offer no analyses. -/
theorem Incident.allAdmitted_map_ofCall {offers : TrackAnalysis → Slot → Holding → Prop}
    (s : TrackStore × Faulty) (history : List (Timestamp × Call)) :
    AllAdmitted fates (fun _ _ _ => True) offers s (history.map ofCall) := by
  induction history generalizing s with
  | nil => trivial
  | cons c history ih => exact ⟨fun _ _ _ => trivial, ih _⟩

theorem countsArrived_after (p : TrackPolicy) (fates : Nat → Fate)
    (history : List (Timestamp × Call)) :
    Obeys p (fun _ => CountsArrived) (Call.after (Faulty.serve fates) (new p, {}) history) := by
  rw [← Incident.after_map_ofCall]
  refine (invariant_countsArrived p fates).after ?_ (Incident.allAdmitted_map_ofCall _ _)
  exact obeys_new p fun _ => ⟨Nat.le_refl _, Nat.le_refl _⟩

/-- After any calls the log of a driver holds points that were offered for it. -/
theorem meets_after_calls (fates : Nat → Fate) {history : List (Timestamp × Call)}
    (htaken : ∀ c ∈ history, ∀ q, c.2.point? = some q → q.isAcceptable = true → q.driverId = d →
      q ∈ points) :
    Obeys p (fun e _ h => e = d → h.Meets (WritesOf points) fun _ => True)
      (Call.after (Faulty.serve fates) (new p, {}) history) := by
  rw [← Incident.after_map_ofCall]
  refine meets_after (fun _ _ _ _ _ => trivial) fates ?_ fun _ _ _ _ _ => trivial
  intro i hi q hq
  obtain ⟨c, hc, rfl⟩ := List.mem_map.mp hi
  exact htaken c hc q hq

/-! ## Recent points -/

/-- **The newest points are found** as they are read. -/
theorem recent_of_served {t : Duration} (hserved : fates f.asked = .served t) {count : Nat}
    {records : List TrackPoint}
    (hrecords : ((f.holding d).log.take count).mapM Wire.read? = some records) (now : Timestamp) :
    ((Call.recent d count).run (Faulty.serve fates) now (st, f)).1 =
      .points (.ok records.reverse) := by
  have hrange : (Query.request (.range (pointsKey d) count) : Query Unit _).Ensures
      (Faulty.serve fates) (fun _ g => g = f)
      (fun (found : List Bytes) _ _ => found = (f.holding d).log.take count)
      fun _ _ => False := by
    apply Ensures.request
    rintro - g rfl
    unfold Faulty.serve
    rw [hserved]
    exact rfl
  have hfound : (TrackPolicy.recentPoints d count : Query Unit _).Ensures (Faulty.serve fates)
      (fun _ g => g = f) (fun found _ _ => found = records.reverse) fun _ _ => False := by
    refine Ensures.bind hrange fun found => Ensures.assume (fun _ _ hfound => hfound) ?_
    rintro rfl
    rw [hrecords]
    exact Ensures.pure fun _ _ _ => rfl
  have hphase : (TrackPolicy.recent d count).Ensures (Faulty.serve fates) (fun _ g => g = f)
      (fun phase _ => PhaseSettles (Faulty.serve fates) st
        (fun found _ _ => found = records.reverse) (fun _ _ => False) phase) fun _ _ => False :=
    hfound.map fun _ _ _ hs => hs
  have hend : Settles (fun found (_ : TrackStore) (_ : Faulty) => found = records.reverse)
      (fun _ _ => False) (st.run (Faulty.serve fates) f (TrackPolicy.recent d count)) :=
    settles_run (hphase () f rfl)
  rcases hend.ok_or_stop with ⟨found, hfinished, rfl⟩ | hfalse
  · exact congrArg (Depot.answerBy .points none) hfinished
  · exact hfalse.elim

theorem finished_of_points {outcome : Outcome (List TrackPoint)} {found : List TrackPoint}
    (h : Depot.answerBy .points none outcome = .points (.ok found)) :
    outcome = .finished (.ok found) := by
  cases outcome with
  | finished result =>
    cases h
    rfl
  | stalled => cases h

/-- Points that are found were read. -/
theorem mapM_of_recent {count : Nat} {now : Timestamp} {found : List TrackPoint}
    (hok : ((Call.recent d count).run (Faulty.serve fates) now (st, f)).1 =
      .points (.ok found)) :
    ((f.holding d).log.take count).mapM Wire.read? = some found.reverse := by
  have hfinished : (st.run (Faulty.serve fates) f (TrackPolicy.recent d count)).1 =
      .finished (.ok found) := finished_of_points hok
  have hreads := TrackPolicy.recentPoints_leads fates d
    (fun (_ : Unit) h => h = f.holding d) count
  obtain ⟨-, hlog, hread⟩ := (settles_lookUp hreads rfl).of_ok hfinished
  rw [← hlog]
  exact hread

theorem exists_of_mapM {α β : Type} {f : α → Option β} {l : List α} {l' : List β}
    (h : l.mapM f = some l') {a : α} (ha : a ∈ l) : ∃ b, f a = some b := by
  have hitems := forall₂_of_mapM h
  clear h
  induction hitems with
  | nil => cases ha
  | cons hab _ ih =>
    rcases List.mem_cons.mp ha with rfl | ha
    · exact ⟨_, hab⟩
    · exact ih ha

/-- The newest of some points that are read is the first of their records. -/
theorem getLast?_of_mapM {value : Bytes} {rest : List Bytes} {count : Nat} (hcount : 0 < count)
    {found : List TrackPoint}
    (h : ((value :: rest).take count).mapM Wire.read? = some found.reverse) :
    ∃ q : TrackPoint, Wire.read? value = some q ∧ found.getLast? = some q := by
  obtain ⟨k, rfl⟩ := Nat.exists_eq_succ_of_ne_zero (Nat.ne_of_gt hcount)
  rw [List.take_succ_cons, List.mapM_cons] at h
  simp only [Option.bind_eq_bind, Option.bind_eq_some_iff, Option.pure_def,
    Option.some.injEq] at h
  obtain ⟨q, hq, older, -, hfound⟩ := h
  refine ⟨q, hq, ?_⟩
  rw [List.getLast?_eq_head?_reverse, ← hfound]
  rfl

/-- The newest of some points is the last appended one, as it is read. -/
theorem getLast?_eq_reread {point : TrackPoint} {rest : List Bytes} {count : Nat}
    (hcount : 0 < count) {found : List TrackPoint}
    (h : ((Wire.write point :: rest).take count).mapM Wire.read? = some found.reverse) :
    found.getLast? = some point.reread ∧
      Wire.ofJson? (Wire.toJson point) = some point.reread := by
  obtain ⟨q, hq, hlast⟩ := getLast?_of_mapM hcount h
  rw [Wire.read?_write] at hq
  obtain rfl := TrackPoint.eq_reread hq
  exact ⟨hlast, hq⟩

/-! ## What is found -/

/-- **The analysis of an append takes the place of the stored one,** where no more points are
counted than have arrived. -/
theorem stored_of_append (hsound : st.Sound p f) (hfree : st.held = none)
    (hcounts : CountsArrived (st.slotOf d) (f.holding d)) {now : Timestamp} {point : TrackPoint}
    (hd : point.driverId = d) {a : TrackAnalysis}
    (hok : (st.run (Faulty.serve fates) f (p.append now point)).1 = .finished (.ok a))
    {after : Holding}
    (hafter : (st.run (Faulty.serve fates) f (p.append now point)).2.2.holding d = after)
    (hlapsed : after.lapsed = false) (hroom : after.arrivals.length < 2 ^ 64) :
    ∃ expiresAt, after.stored = some ⟨Wire.write a, expiresAt⟩ := by
  subst hafter
  obtain ⟨-, hgained, happended⟩ := (hsound.append fates now point).of_ok hok
  rw [hd] at happended
  have harrivals : ((st.run (Faulty.serve fates) f (p.append now point)).2.2.holding d).arrivals =
      Wire.write point :: (f.holding d).arrivals := by
    rw [hgained d, List.filter_cons_of_pos (by simp [hd]), List.filter_nil]
    rfl
  have hsequence : a.sequence.toNat = (f.holding d).arrivals.length + 1 := by
    rw [harrivals, List.length_cons] at hroom
    rw [happended.sequence_eq hlapsed, harrivals, List.length_cons, UInt64.toNat_ofNat_of_lt' hroom]
  obtain ⟨-, -, hsaved⟩ := append_saves hfree hd hok hlapsed
  refine (hsaved.resolve_right fun hkept => ?_).2
  have hless := UInt64.lt_iff_toNat_lt.mp hkept.1
  have hstored := hcounts.stored
  omega

/-- **What an append has stored is found at once, with every number as its digits are read.**

The store has a valid configuration and was reached by any calls, whatever became of their requests,
and an append on it is answered with an analysis.  No analysis has been found expired, and fewer
than `2^64` points of the driver have arrived.  Then a look-up that is carried out next finds the
analysis read back.  Recent points can be asked for, at least as many as an analysis covers, and the
newest of those that are found is the appended point read back.  What is found is what was answered
and appended exactly if all numbers in it are read as themselves. -/
theorem append_is_retrieved {config : Config} (hconfig : config.fault? = none)
    {trigonometry : Trigonometry} (ht : trigonometry.IsBounded)
    (hp : p = config.trackPolicy trigonometry) (hwindow : p.windowSize < 2 ^ 64)
    (hvalid : ∀ q ∈ points, q.position.isValid = true) (fates : Nat → Fate)
    (history : List (Timestamp × Call))
    (htaken : ∀ c ∈ history, ∀ q, c.2.point? = some q → q.isAcceptable = true → q.driverId = d →
      q ∈ points)
    (now : Timestamp) {point : TrackPoint} (hd : point.driverId = d) (hpoint : point ∈ points)
    {a : TrackAnalysis} :
    let serve := Faulty.serve fates
    let s := Call.after serve (new p, {}) history
    let x := (Call.append point).run serve now s
    let held := x.2.2.holding d
    x.1 = .appended (.ok a) → held.lapsed = false → held.arrivals.length < 2 ^ 64 →
    ∀ t, fates x.2.2.asked = .served t →
      ((∀ e, held.stored = some e → Memory.isExpired t e = false) → ∀ later,
        ((Call.latest d).run serve later x.2).1 = .latest (.ok (some a.reread))) ∧
      (a.reread = a ↔ a.IsStable) ∧
      (∀ later count, count ≤ p.windowSize →
        ∃ found, ((Call.recent d count).run serve later x.2).1 = .points (.ok found)) ∧
      (∀ later count found, 0 < count →
        ((Call.recent d count).run serve later x.2).1 = .points (.ok found) →
        found.getLast? = some point.reread) ∧
      (point.reread = point ↔ point.IsStable) := by
  intro serve s x held hanswer hlapsed hroom t hserved
  obtain ⟨hlimit, hpositive, hretained⟩ := Config.trackPolicy_of_fault? hconfig trigonometry
  rw [← hp] at hlimit hpositive hretained
  have ht : p.trigonometry.IsBounded := hp ▸ ht
  have hcounts : Obeys p (fun _ => CountsArrived) s := countsArrived_after p fates history
  have hmeets : Obeys p (fun e _ h => e = d → h.Meets (WritesOf points) fun _ => True) s :=
    meets_after_calls fates htaken
  have hfree : s.1.held = none := hcounts.atRest.free
  have hrun : s.1.run serve s.2 (p.append now point) = (.finished (.ok a), x.2) :=
    run_append_of_appended hcounts.policy_eq hanswer
  have hok := congrArg Prod.fst hrun
  obtain ⟨hlog, hfronts, hreflects⟩ := append_reflects (fun _ _ _ _ _ => trivial) hfree hd
    (fun _ => ⟨point, hpoint, rfl⟩) (hmeets.each d rfl) hok
  rw [hrun] at hlog hfronts hreflects
  obtain ⟨rest, hfront⟩ : ∃ rest, held.log = Wire.write point :: rest :=
    hfronts (hpositive.trans_le hretained)
  obtain ⟨expiresAt, hstored⟩ := stored_of_append (sound_after p fates history) hfree
    (hcounts.each d) hd hok (congrArg (fun y => y.2.2.holding d) hrun) hlapsed hroom
  -- the analysis can be read back, and so could all points that it covers
  obtain ⟨b, hb⟩ := TrackPolicy.exists_read?_of_reflects
    (TrackPolicy.exists_read?_analyze hlimit hwindow hvalid ht d) hlog.log hreflects
  obtain ⟨window, -, hread, -⟩ := hreflects
  obtain ⟨records, hrecords, -⟩ := Option.map_eq_some_iff.mp hread
  refine ⟨fun hfresh later => ?_, TrackAnalysis.reread_eq_iff hb, fun later count hcount => ?_,
    fun later count found hcount hfound => ?_, ?_⟩
  · rw [← TrackAnalysis.eq_reread hb]
    exact latest_of_served hserved hstored (hfresh _ hstored) hb later
  · obtain ⟨found, hfound⟩ := Wire.mapM_of_forall (l := (x.2.2.holding d).log.take count)
      fun value hvalue => exists_of_mapM hrecords (List.take_subset_take_left _ hcount hvalue)
    exact ⟨_, recent_of_served hserved hfound later⟩
  · have hnewest : (held.log.take count).mapM Wire.read? = some found.reverse :=
      mapM_of_recent hfound
    rw [hfront] at hnewest
    exact (getLast?_eq_reread hcount hnewest).1
  · have hall : (held.log.take p.windowSize).mapM Wire.read? = some records.reverse.reverse :=
      hrecords.trans (congrArg some (List.reverse_reverse records).symm)
    rw [hfront] at hall
    exact TrackPoint.reread_eq_iff (getLast?_eq_reread hpositive hall).2

open Crowd (standstill onTheWay smallScale)

/-- The second append of a driver that is on its way. -/
theorem append_is_retrieved_on_the_way :
    let serve := Faulty.serve (.answering fun _ => .zero)
    let x := (Call.append onTheWay).run serve 1
      (Call.after serve (new smallScale, {}) [(0, .append standstill)])
    ∃ a, x.1 = .appended (.ok a) ∧
      ((Call.latest "d").run serve 2 x.2).1 = .latest (.ok (some a)) ∧
      ∃ found, ((Call.recent "d" 2).run serve 2 x.2).1 = .points (.ok found) ∧
        found.getLast? = some onTheWay := by
  intro serve x
  let config : Config := { store := { windowSize := 3 } }
  have hconfig : config.fault? = none := by decide +kernel
  have hp : smallScale = config.trackPolicy .ofSmallAngles := rfl
  have hwindow : smallScale.windowSize < 2 ^ 64 := by decide
  have hvalid : ∀ q ∈ [standstill, onTheWay], q.position.isValid = true := by decide +kernel
  have htaken : ∀ c ∈ [((0 : Timestamp), Call.append standstill)], ∀ q, c.2.point? = some q →
      q.isAcceptable = true → q.driverId = "d" → q ∈ [standstill, onTheWay] := by
    intro c hc q hq _ _
    obtain rfl := List.mem_singleton.mp hc
    obtain rfl := Option.some.inj hq
    exact List.mem_cons_self
  obtain ⟨a, ha⟩ : ∃ a, x.1 = .appended (.ok a) := Call.exists_appended (by decide +kernel)
  have hlapsed : (x.2.2.holding "d").lapsed = false := by decide +kernel
  have hroom : (x.2.2.holding "d").arrivals.length < 2 ^ 64 := by decide +kernel
  obtain ⟨hlatest, -, hrecent, hnewest, -⟩ := append_is_retrieved hconfig
    Trigonometry.isBounded_ofSmallAngles hp hwindow hvalid (.answering fun _ => .zero) _ htaken 1
    rfl (List.mem_cons_of_mem _ (List.mem_singleton_self _)) ha hlapsed hroom .zero rfl
  have hfresh : (x.2.2.holding "d").stored.any (Memory.isExpired .zero) = false := by
    decide +kernel
  -- all numbers of this track are read as themselves
  have hstable : x.1.heldAnalysis?.map TrackAnalysis.reread = x.1.heldAnalysis? := by
    decide +kernel
  have hkept : onTheWay.reread = onTheWay := by decide +kernel
  rw [ha] at hstable
  have hsame : a.reread = a := Option.some.inj hstable
  obtain ⟨found, hfound⟩ := hrecent 2 2 (by decide)
  refine ⟨a, ha, ?_, found, hfound, ?_⟩
  · rw [hsame] at hlatest
    refine hlatest (fun e he => ?_) 2
    have hstored : (x.2.2.holding "d").stored = some e := he
    rw [hstored] at hfresh
    exact hfresh
  · rw [hkept] at hnewest
    exact hnewest 2 2 found (by decide) hfound

/-- **Numbers drift when they are stored.**  Under the default configuration a point of valid
coordinates is appended to a new store.  Either coordinate is read as another number, the longitude
as yet another one when it is written once more.  So the newest recent point is not the one that was
appended, and the latest analysis is not the one that was answered. -/
theorem retrieved_position_drifts :
    let config : Config := {}
    let point : TrackPoint :=
      { driverId := "d", position := ⟨10.000015838047513, 1.2345678907174043e-7, 0⟩ }
    let serve := Faulty.serve (.answering fun _ => .zero)
    let x := (Call.append point).run serve 0 (new config.trackPolicy, {})
    let drifted : Position := ⟨10.000015838047512, 1.2345678907174046e-7, 0⟩
    config.fault? = none ∧ point.position.isValid = true ∧ point.position ≠ drifted ∧
      x.1.heldAnalysis?.map (fun a => a.points.map TrackPoint.position) = some [drifted] ∧
      ((Call.latest "d").run serve 0 x.2).1.heldAnalysis?.map
        (fun a => a.points.map TrackPoint.position) =
          some [⟨10.000015838047512, 1.2345678907174048e-7, 0⟩] ∧
      ((Call.recent "d" 1).run serve 0 x.2).1.points? = some [{ point with position := drifted }] ∧
      ((Call.latest "d").run serve 0 x.2).1.heldAnalysis? ≠ x.1.heldAnalysis? := by
  decide +kernel

end TrackStore

end Fleet
