import Fleet.Proofs.Store.Invariant

/-!
# Properties of what is held that operations keep

Operations change what is held of a driver in few ways, whatever the fates of their requests: a
point is put in front of the log, the log is trimmed, the stored analysis expires, or an analysis is
stored.  The last is done by one conditional store, to which appends, reads and saves all come, and
it looks before it writes.  So a property is kept by all operations if it outlasts these changes,
and what was found may be used where an analysis is stored: `invariant_of_outlasts`.  Nothing need
be known of slots.
-/

namespace Fleet

open TrackPolicy (pointsKey analysisKey)
open Query (Ensures Leads)

/-- **A property of what is held of a driver outlasts** the trims of the log and the expiry of the
stored analysis. -/
structure Outlasts (known : Holding → Prop) : Prop where
  trim : ∀ {h : Holding}, known h → ∀ keep, known { h with log := h.log.take keep }
  lapse : ∀ {h : Holding}, known h → known { h with stored := none, lapsed := true }

/-- The property outlasts a value that is put in front of the log. -/
def OutlastsPush (known : Holding → Prop) (value : Bytes) : Prop :=
  ∀ h : Holding, known h →
    known { h with log := value :: h.log, arrivals := value :: h.arrivals }

/-- **The property outlasts an analysis** that is stored where none was found, or one of no higher
number. -/
def OutlastsStore (known : Holding → Prop) (a : TrackAnalysis) : Prop :=
  ∀ (h : Holding) (found : Option TrackAnalysis), known h → h.Finds found →
    (∀ b, found = some b → b.sequence ≤ a.sequence) →
    ∀ expiresAt, known { h with stored := some ⟨Wire.write a, expiresAt⟩ }

namespace TrackPolicy

variable {σ : Type} {fates : Nat → Fate} {p : TrackPolicy} {d : String} {known : Holding → Prop}

/-- An append of a value leaves it in front of the log, if the log keeps anything. -/
def Fronts (p : TrackPolicy) (value : Bytes) (log : List Bytes) : Prop :=
  0 < p.maxPointsRetained → ∃ rest, log = value :: rest

theorem Fronts.trim {value : Bytes} {log : List Bytes} (h : p.Fronts value log) :
    p.Fronts value (log.take p.maxPointsRetained) := by
  intro hretained
  obtain ⟨rest, rfl⟩ := h hretained
  obtain ⟨keep, hkeep⟩ := Nat.exists_eq_succ_of_ne_zero (Nat.ne_of_gt hretained)
  rw [hkeep]
  exact ⟨rest.take keep, rfl⟩

/-! ## Operations under their lease -/

theorem recentPoints_keeps (count : Nat) : Leads fates d (fun (_ : σ) => known)
    (recentPoints d count) (fun _ _ => known) fun _ => known :=
  (recentPoints_leads fates d (fun _ => known) count).weaken (fun _ _ hs => hs)
    (fun _ _ _ hs => hs.1) fun _ _ hs => hs

section Outlasting

variable (hknown : Outlasts known)
include hknown

/-- A look-up tells what is stored. -/
theorem latestAnalysis_finds : Leads fates d (fun (_ : σ) => known) (latestAnalysis d)
    (fun found _ h => known h ∧ h.Finds found) fun _ => known :=
  latestAnalysis_leads fates d (fun _ => known) fun _ _ hs => hknown.lapse hs

theorem latestAnalysis_keeps : Leads fates d (fun (_ : σ) => known) (latestAnalysis d)
    (fun _ _ => known) fun _ => known :=
  (latestAnalysis_finds hknown).weaken (fun _ _ hs => hs) (fun _ _ _ hs => hs.1) fun _ _ hs => hs

theorem load_keeps : Leads fates d (fun _ => known) (load d) (fun _ _ => known)
    fun _ => known := by
  have hget : Leads fates d (fun _ => known) get (fun (_ : Slot) _ => known) fun _ => known :=
    Ensures.get fun _ _ hs => hs
  exact Ensures.bind hget fun slot => Ensures.ite (fun _ => Ensures.pure fun _ _ hs => hs) fun _ =>
    (latestAnalysis_keeps hknown).bind fun _ => Ensures.modify fun _ _ hs => hs

/-- **The conditional store** keeps what outlasts its analysis: what it replaces is no newer. -/
theorem storeAnalysis_keeps {a : TrackAnalysis} (ha : a.driverId = d)
    (hstore : OutlastsStore known a) :
    Leads fates d (fun (_ : σ) => known) (p.storeAnalysis a) (fun _ _ => known)
      fun _ => known := by
  obtain rfl := ha
  have hset (found : Option TrackAnalysis) (hold : ∀ b, found = some b → b.sequence ≤ a.sequence) :
      Leads fates a.driverId (fun (_ : σ) h => known h ∧ h.Finds found)
        (do
          Query.request (.set (analysisKey a.driverId) (Wire.write a) (some p.analysisTtl))
          return true)
        (fun (_ : Bool) _ => known) fun _ => known := by
    have hrequest : Leads fates a.driverId (fun (_ : σ) h => known h ∧ h.Finds found)
        (Query.request (.set (analysisKey a.driverId) (Wire.write a) (some p.analysisTtl)))
        (fun _ _ => known) fun _ => known :=
      Leads.set (fun _ _ hs => hs.1) fun t _ h hs => hstore h found hs.1 hs.2 hold t
    exact hrequest.bind fun _ => Ensures.pure fun _ _ hs => hs
  refine (latestAnalysis_finds hknown).bind fun found => ?_
  cases found with
  | none => exact hset none fun b hb => nomatch hb
  | some stored =>
    refine Ensures.ite (fun _ => Ensures.pure fun _ _ hs => hs.1) fun hnewest => hset _ ?_
    rintro b ⟨⟩
    exact UInt64.not_lt.mp hnewest

theorem saveFresh_keeps {a : TrackAnalysis} (ha : a.driverId = d)
    (hstore : OutlastsStore known a) :
    Leads fates d (fun _ => known) (p.saveFresh a) (fun _ _ => known) fun _ => known :=
  (storeAnalysis_keeps hknown ha hstore).bind fun _ => Ensures.ite
    (fun _ => Ensures.modify fun _ _ hs => hs) fun _ => Ensures.pure fun _ _ hs => hs

variable (hanalyzed : ∀ d h a, known h → p.Reflects d h.log a → OutlastsStore known a)
include hanalyzed

/-- The window is analyzed and saved.  What is known of the log stays known. -/
theorem analyzeAndSave_keeps (now : Timestamp) (sequence : UInt64) (front : List Bytes → Prop) :
    Leads fates d (fun _ h => known h ∧ front h.log)
      (do
        let analysis ← p.analyzeWindow now d sequence
        p.saveFresh analysis
        return analysis)
      (fun a _ h => known h ∧ front h.log ∧ p.Reflects d h.log a) fun _ => known := by
  have hwindow := (analyzeWindow_leads fates p d (fun (_ : Slot) h => known h ∧ front h.log) now
    sequence).weaken_stop fun _ _ hs => hs.1
  refine hwindow.bind fun a => Ensures.assume (fun _ _ hs => hs.2.1.driverId_eq) fun ha =>
    Ensures.assume (fun _ _ hs => hanalyzed d _ a hs.1.1 hs.2.1) fun hstore => ?_
  have hsave : Leads fates d (fun _ => known) (p.saveFresh a) (fun _ _ => known) fun _ => known :=
    saveFresh_keeps hknown ha hstore
  have hframed := (hsave.frame (saveFresh_asks ha) fun log _ =>
    front log ∧ p.Reflects d log a).weaken_stop fun _ _ hs => hs.1
  refine (hframed.weaken_pre ?_).bind fun _ => Ensures.pure fun _ _ hs => hs
  rintro s f ⟨⟨hs, hfront⟩, hreflects, -⟩
  exact ⟨hs, hfront, hreflects⟩

/-- **An append** keeps what outlasts its point.  What it answers is an analysis of the log with the
point in front. -/
theorem appendLeased_keeps (now : Timestamp) {point : TrackPoint} (hd : point.driverId = d)
    (hpoint : OutlastsPush known (Wire.write point)) :
    Leads fates d (fun _ => known) (p.appendLeased now point)
      (fun a _ h => known h ∧ p.Fronts (Wire.write point) h.log ∧ p.Reflects d h.log a)
      fun _ => known := by
  rw [appendLeased, hd]
  have hpush : Leads fates d (fun (_ : Slot) => known)
      (Query.request (.pushFront (pointsKey d) (Wire.write point)))
      (fun (_ : Nat) _ h => known h ∧ p.Fronts (Wire.write point) h.log) fun _ => known :=
    Leads.pushFront (fun _ _ hs => hs) fun _ h hs => ⟨hpoint h hs, fun _ => ⟨h.log, rfl⟩⟩
  have htrim : Leads fates d (fun (_ : Slot) h => known h ∧ p.Fronts (Wire.write point) h.log)
      (Query.request (.trim (pointsKey d) p.maxPointsRetained))
      (fun (_ : Nat) _ h => known h ∧ p.Fronts (Wire.write point) h.log) fun _ => known :=
    Leads.trim (fun _ _ hs => hs.1) fun _ _ _ hs => ⟨hknown.trim hs.1 _, hs.2.trim⟩
  have hget : Leads fates d (fun (_ : Slot) h => known h ∧ p.Fronts (Wire.write point) h.log) get
      (fun _ _ h => known h ∧ p.Fronts (Wire.write point) h.log) fun _ => known :=
    Ensures.get fun _ _ hs => hs
  have hcount : Leads fates d (fun _ h => known h ∧ p.Fronts (Wire.write point) h.log)
      (modify fun slot : Slot => { slot with sequence := slot.sequence + 1, isDirty := true })
      (fun _ _ h => known h ∧ p.Fronts (Wire.write point) h.log) fun _ => known :=
    Ensures.modify fun _ _ hs => hs
  have hrest := hget.bind fun slot =>
    analyzeAndSave_keeps hknown hanalyzed now slot.sequence (p.Fronts (Wire.write point))
  exact (load_keeps hknown).bind fun _ => Ensures.bind hpush fun count => hcount.bind fun _ =>
    Ensures.ite (fun _ => Ensures.bind htrim fun _ => hrest) fun _ => hrest

theorem currentAnalysis_keeps (now : Timestamp) :
    Leads fates d (fun _ => known) (p.currentAnalysis now d) (fun _ _ => known)
      fun _ => known := by
  refine (load_keeps hknown).bind fun _ => (latestAnalysis_keeps hknown).bind fun stored => ?_
  have hget : Leads fates d (fun (_ : Slot) => known) get (fun _ _ => known) fun _ => known :=
    Ensures.get fun _ _ hs => hs
  refine Ensures.bind hget fun slot => ?_
  split
  · exact Ensures.pure fun _ _ hs => hs
  · exact (analyzeAndSave_keeps hknown hanalyzed now slot.sequence fun _ => True).weaken
      (fun _ _ hs => ⟨hs, trivial⟩) (fun _ _ _ hs => hs.1) fun _ _ hs => hs

end Outlasting

end TrackPolicy

namespace TrackStore

variable {p : TrackPolicy} {known : Holding → Prop}

/-- **What outlasts its analyses is an invariant,** as long as it outlasts the points that are
appended and the analyses that are offered. -/
theorem invariant_of_outlasts (hknown : Outlasts known)
    (hanalyzed : ∀ d h a, known h → p.Reflects d h.log a → OutlastsStore known a)
    (fates : Nat → Fate) :
    Invariant p fates (fun q _ _ => OutlastsPush known (Wire.write q))
      (fun a _ _ => OutlastsStore known a) fun _ _ => known where
  forget hs := hs
  lapse hs := hknown.lapse hs
  append now point := by
    refine Ensures.assume (fun _ _ hs => hs.2.2) fun hpoint => ?_
    exact (TrackPolicy.appendLeased_keeps hknown hanalyzed now rfl hpoint).weaken
      (fun _ _ hs => hs.2.1) (fun _ _ _ hs => hs.1) fun _ _ hs => hs
  read now d :=
    (TrackPolicy.currentAnalysis_keeps hknown hanalyzed now).weaken_pre fun _ _ hs => hs.2
  save a := by
    refine Ensures.assume (fun _ _ hs => hs.2.2) fun hoffer => ?_
    exact (TrackPolicy.storeAnalysis_keeps hknown rfl hoffer).weaken_pre fun _ _ hs => hs.2.1

end TrackStore

end Fleet
