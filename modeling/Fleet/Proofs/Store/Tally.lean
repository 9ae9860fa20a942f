import Fleet.Proofs.Backend.Expiry
import Fleet.Proofs.Store.Locality

/-!
# What a slot counts

A slot's count survives in the stored analysis alone once the slot is clean, and that analysis
expires.  On a backend that serves every request at once, `Tallied` says of a driver what its slot
and its stored analysis count: the points that arrived since the count was last forgotten.
`Current` adds that nothing has expired unnoticed; then an operation can start.  There is one lemma
for each step of an operation, and one for each operation under its lease:
`appendLeased_tallied` and `currentAnalysis_tallied`.
-/

namespace Fleet

open TrackPolicy (pointsKey analysisKey)

/-! ## Counts -/

/-- **What has become of a driver's count.** -/
structure Account where
  /-- When an append of the driver was last answered with an analysis. -/
  since : Duration := .zero
  /-- How many points of the driver had arrived when their count was last forgotten. -/
  forgotten : Nat := 0

/-- How many points of a driver are counted; wraps at `2^64`. -/
def Account.count (k : Account) (h : Holding) : UInt64 :=
  UInt64.ofNat (h.arrivals.length - k.forgotten)

/-- **A driver's slot and stored analysis count its points,** at the time `now`, with analyses that
live for `ttl`. -/
structure Tallied (ttl now : Duration) (k : Account) (s : Slot) (h : Holding) : Prop where
  forgotten_le : k.forgotten ≤ h.arrivals.length
  since_le : k.since.nanos ≤ now.nanos
  blank : s.isLoaded = false → s = {}
  counted : s.isLoaded = true → s.sequence = k.count h
  absent : s.isDirty = false → h.stored = none → h.arrivals.length = k.forgotten
  covered : s.isDirty = false → ∀ e, h.stored = some e → Memory.isExpired now e = false →
    ∃ a : TrackAnalysis, e.value = Wire.write a ∧ a.sequence = k.count h
  /-- The analysis was stored no sooner than the last append was answered. -/
  lasting : s.isDirty = false → ∀ e, h.stored = some e → ∀ expiry, e.expiresAt = some expiry →
    k.since.nanos + ttl.nanos ≤ expiry.nanos

/-- The slot and the stored analysis count a driver's points, and a count whose analysis has expired
is forgotten. -/
structure Current (ttl now : Duration) (k : Account) (s : Slot) (h : Holding) : Prop
    extends Tallied ttl now k s h where
  expired : s.isDirty = false → h.hasExpired now = true → h.arrivals.length = k.forgotten

/-- A slot that is loaded is ready to count. -/
structure Loaded (ttl now : Duration) (k : Account) (s : Slot) (h : Holding) : Prop
    extends Current ttl now k s h where
  isLoaded : s.isLoaded = true

/-- An analysis carries the slot's count and can be stored. -/
structure Offered (ttl now : Duration) (k : Account) (a : TrackAnalysis) (s : Slot) (h : Holding) :
    Prop extends Loaded ttl now k s h where
  sequence_eq : a.sequence = s.sequence

/-- An analysis tells how many points are counted. -/
structure Reported (ttl now : Duration) (k : Account) (a : TrackAnalysis) (s : Slot)
    (h : Holding) : Prop extends Tallied ttl now k s h where
  sequence_eq : a.sequence = k.count h

/-- A driver's count is forgotten when its analysis has expired and its slot is clean. -/
def Account.settle (now : Duration) (k : Account) (s : Slot) (h : Holding) : Account :=
  if !s.isDirty && h.hasExpired now then { k with forgotten := h.arrivals.length } else k

theorem Holding.hasExpired_of_stored {h : Holding} {e : Expiring} (he : h.stored = some e)
    (now : Duration) : h.hasExpired now = Memory.isExpired now e := by
  rw [hasExpired, he, Option.any_some]

theorem Account.since_settle (now : Duration) (k : Account) (s : Slot) (h : Holding) :
    (k.settle now s h).since = k.since := by
  unfold settle
  split <;> rfl

variable {ttl now : Duration} {k : Account} {s : Slot} {h : Holding}

theorem current_empty (ttl now : Duration) : Current ttl now {} {} {} where
  forgotten_le := Nat.le_refl 0
  since_le := Nat.zero_le _
  blank _ := rfl
  counted hloaded := by cases hloaded
  absent _ _ := rfl
  covered _ e he := by cases he
  lasting _ e he := by cases he
  expired _ hexpired := by cases hexpired

namespace Tallied

/-- What a clean slot knows can be forgotten. -/
theorem forget (hs : Tallied ttl now k s h) (hclean : s.isDirty = false) :
    Tallied ttl now k {} h where
  forgotten_le := hs.forgotten_le
  since_le := hs.since_le
  blank _ := rfl
  counted hloaded := by cases hloaded
  absent _ := hs.absent hclean
  covered _ := hs.covered hclean
  lasting _ := hs.lasting hclean

/-- Time passes. -/
theorem later (hs : Tallied ttl now k s h) {later : Duration} (hle : now.nanos ≤ later.nanos) :
    Tallied ttl later k s h :=
  { hs with
    since_le := Nat.le_trans hs.since_le hle
    covered := fun hclean e he hfresh => hs.covered hclean e he (Memory.isExpired_mono hle hfresh) }

/-- An append answered earlier is a weaker claim. -/
theorem earlier {since : Duration} (hs : Tallied ttl now { k with since } s h)
    (hle : k.since.nanos ≤ since.nanos) : Tallied ttl now k s h :=
  { hs with
    since_le := Nat.le_trans hle hs.since_le
    lasting := fun hclean e he expiry hexpiry =>
      Nat.le_trans (Nat.add_le_add_right hle _) (hs.lasting hclean e he expiry hexpiry) }

/-- Between operations a clean slot is blank, so its count can be taken for forgotten as soon as the
stored analysis expires. -/
theorem settle (hs : Tallied ttl now k s h) (hrest : s.isDirty = false → s = {}) :
    Current ttl now (k.settle now s h) s h := by
  unfold Account.settle
  split
  · rename_i hforget
    obtain ⟨hclean, hexpired⟩ := Bool.and_eq_true_iff.mp hforget
    rw [Bool.not_eq_true'] at hclean
    -- nothing is counted any more, and of an expired analysis nothing is asked
    exact
      { hs with
        forgotten_le := Nat.le_refl _
        counted := fun hloaded => by
          rw [hrest hclean] at hloaded
          cases hloaded
        absent := fun _ _ => rfl
        covered := fun _ e he hfresh => by
          rw [Holding.hasExpired_of_stored he, hfresh] at hexpired
          cases hexpired
        expired := fun _ _ => rfl }
  · rename_i hkeep
    exact
      { hs with
        expired := fun hclean hexpired => absurd (by rw [hclean, hexpired]; rfl) hkeep }

/-- No count shrinks. -/
theorem forgotten_settle_le (hs : Tallied ttl now k s h) :
    k.forgotten ≤ (k.settle now s h).forgotten := by
  unfold Account.settle
  split
  · exact hs.forgotten_le
  · exact Nat.le_refl _

/-- **A count is forgotten no sooner than an analysis expires** that was stored when the last append
was answered. -/
theorem forgotten_settle (hs : Tallied ttl now k s h) :
    (k.settle now s h).forgotten = k.forgotten ∨ k.since.nanos + ttl.nanos ≤ now.nanos := by
  unfold Account.settle
  split
  · rename_i hforget
    obtain ⟨hclean, hexpired⟩ := Bool.and_eq_true_iff.mp hforget
    rw [Bool.not_eq_true'] at hclean
    obtain ⟨e, he, hlapsed⟩ := (Option.any_eq_true _ _).mp hexpired
    obtain ⟨expiry, hexpiry, hle⟩ := Memory.expiry_of_isExpired hlapsed
    exact Or.inr (Nat.le_trans (hs.lasting hclean e he expiry hexpiry) hle)
  · exact Or.inl rfl

end Tallied

namespace Current

/-- The stored analysis is found expired. -/
theorem lapse (hs : Current ttl now k s h) (hexpired : h.hasExpired now = true) :
    Current ttl now k s { h with stored := none, lapsed := true } where
  forgotten_le := hs.forgotten_le
  since_le := hs.since_le
  blank := hs.blank
  counted := hs.counted
  absent hclean _ := hs.expired hclean hexpired
  covered _ e he := by cases he
  lasting _ e he := by cases he
  expired hclean _ := hs.expired hclean hexpired

/-- A slot takes the stored analysis into account. -/
theorem load (hs : Current ttl now k s h) (hblank : s.isLoaded = false)
    {found : Option TrackAnalysis} (hfound : h.Finds found) (hfresh : h.hasExpired now = false) :
    Loaded ttl now k
      { s with
        sequence := found.elim s.sequence fun a => max s.sequence a.sequence
        isLoaded := true } h := by
  obtain rfl := hs.blank hblank
  -- a blank slot starts from zero, so the maximum is the stored count
  have hcounted : (found.elim 0 fun a => max 0 a.sequence) = k.count h := by
    cases found with
    | none =>
      rw [Account.count, hs.absent rfl hfound.eq_none, Nat.sub_self]
      rfl
    | some a =>
      obtain ⟨e, he, hread⟩ := hfound.eq_some
      rw [Holding.hasExpired_of_stored he] at hfresh
      obtain ⟨b, hb, hsequence⟩ := hs.covered rfl e he hfresh
      rw [hb] at hread
      show max 0 a.sequence = _
      rw [Wire.sequence_of_read? hread, hsequence]
      exact if_pos UInt64.zero_le
  exact { hs with
    blank := fun hloaded => by cases hloaded
    counted := fun _ => hcounted
    isLoaded := rfl }

end Current

/-- A point arrives and is counted.  As long as the slot is dirty nothing is asked of the stored
analysis, so it may be the time of the append from which its life is reckoned. -/
theorem Loaded.push (hs : Loaded ttl now k s h) (value : Bytes) :
    Loaded ttl now { k with since := now } { s with sequence := s.sequence + 1, isDirty := true }
      { h with log := value :: h.log, arrivals := value :: h.arrivals } where
  forgotten_le := Nat.le_succ_of_le hs.forgotten_le
  since_le := Nat.le_refl _
  isLoaded := hs.isLoaded
  blank hblank := by
    rw [hs.isLoaded] at hblank
    cases hblank
  counted _ := by
    show s.sequence + 1 = UInt64.ofNat (h.arrivals.length + 1 - k.forgotten)
    rw [hs.counted hs.isLoaded, Nat.sub_add_comm hs.forgotten_le, UInt64.ofNat_add]
    rfl
  absent hclean := by cases hclean
  covered hclean := by cases hclean
  lasting hclean := by cases hclean
  expired hclean := by cases hclean

/-- Nothing is asked of the log. -/
theorem Loaded.trim (hs : Loaded ttl now k s h) (log : List Bytes) :
    Loaded ttl now k s { h with log } := { hs with }

variable {a : TrackAnalysis}

namespace Offered

theorem lapse (hs : Offered ttl now k a s h) (hexpired : h.hasExpired now = true) :
    Offered ttl now k a s { h with stored := none, lapsed := true } :=
  { hs with toCurrent := hs.toCurrent.lapse hexpired }

theorem reported (hs : Offered ttl now k a s h) : Reported ttl now k a s h :=
  { hs with sequence_eq := hs.sequence_eq.trans (hs.counted hs.isLoaded) }

/-- An analysis with the slot's count is stored, and the slot is clean then. -/
theorem store (hs : Offered ttl now k a s h) :
    Reported ttl now k a { s with isDirty := false }
      { h with stored := some ⟨Wire.write a, (some ttl).bind now.add?⟩ } where
  forgotten_le := hs.forgotten_le
  since_le := hs.since_le
  blank hblank := by
    rw [hs.isLoaded] at hblank
    cases hblank
  counted := hs.counted
  sequence_eq := hs.reported.sequence_eq
  absent _ hnone := by cases hnone
  covered := by
    rintro - e ⟨⟩ -
    exact ⟨a, rfl, hs.reported.sequence_eq⟩
  lasting := by
    rintro - e ⟨⟩ expiry hexpiry
    have hsum : expiry.nanos = now.nanos + ttl.nanos := Duration.nanos_of_add? hexpiry
    have hsince := hs.since_le
    omega

end Offered

/-! ## Operations under their lease -/

open Query (Ensures Leads Asks)

/-- A request that is carried out at the time `now` does what is asked to the driver's holding. -/
theorem Query.Leads.served {σ : Type} {d : String} {r : Request} (hr : r.About d)
    {pre stop : σ → Holding → Prop} {post : r.Reply → σ → Holding → Prop}
    (h : ∀ s g, pre s g → post (g.perform now r).1 s (g.perform now r).2) :
    Leads (fun _ => .served now) d pre (Query.request r) post stop :=
  Leads.answered hr fun s g _ hs => h s g hs

namespace TrackPolicy

variable (now) (p : TrackPolicy) (d : String) (k : Account)

/-- What is looked up is the stored analysis as it is then, not expired. -/
theorem latestAnalysis_served {σ : Type} (known : σ → Holding → Prop)
    (hlapse : ∀ s h, known s h → h.hasExpired now = true →
      known s { h with stored := none, lapsed := true }) :
    Leads (fun _ => .served now) d known (latestAnalysis d)
      (fun found s h => (known s h ∧ h.hasExpired now = false) ∧ h.Finds found) known := by
  have habout : (Request.get (analysisKey d)).About d := rfl
  have hget : Leads (fun _ => .served now) d known (Query.request (.get (analysisKey d)))
      (fun (record : Option Bytes) s h =>
        (known s h ∧ h.hasExpired now = false) ∧ h.stored.map Expiring.value = record) known := by
    refine Leads.served habout fun s h hs => ?_
    rw [Holding.perform]
    split
    · rename_i hexpired
      exact ⟨⟨hlapse s h hs hexpired, rfl⟩, rfl⟩
    · rename_i hfresh
      exact ⟨⟨hs, Bool.not_eq_true _ ▸ hfresh⟩, rfl⟩
  exact latestAnalysis_of_get hget fun _ _ hs => hs.1

/-- A loaded slot counts the points. -/
theorem load_tallied :
    Leads (fun _ => .served now) d (Current p.analysisTtl now k) (load d)
      (fun _ => Loaded p.analysisTtl now k) (Tallied p.analysisTtl now k) := by
  have hget : Leads (fun _ => .served now) d (Current p.analysisTtl now k) get
      (fun slot s h => Current p.analysisTtl now k s h ∧ s = slot)
      (Tallied p.analysisTtl now k) := Ensures.get fun _ _ hs => ⟨hs, rfl⟩
  refine Ensures.bind hget fun slot => Ensures.ite (fun hloaded => ?_) fun hblank => ?_
  · apply Ensures.pure
    rintro s f ⟨hs, rfl⟩
    exact ⟨hs, hloaded⟩
  · have hfound := latestAnalysis_served now d
      (fun s h => Current p.analysisTtl now k s h ∧ s = slot)
      fun s h hs hexpired => ⟨hs.1.lapse hexpired, hs.2⟩
    refine (hfound.weaken_stop fun s f hs => hs.1.toTallied).bind fun found => Ensures.modify ?_
    rintro s f ⟨⟨⟨hs, rfl⟩, hfresh⟩, hf⟩
    exact hs.load (by simpa using hblank) hf hfresh

/-- An analysis with the slot's count is stored or refused, and the slot may be clean if it is
stored. -/
theorem storeAnalysis_tallied {a : TrackAnalysis} (ha : a.driverId = d) :
    Leads (fun _ => .served now) d (Offered p.analysisTtl now k a) (p.storeAnalysis a)
      (fun done s => Reported p.analysisTtl now k a { s with isDirty := !done && s.isDirty })
      (Tallied p.analysisTtl now k) := by
  obtain rfl := ha
  have habout : (Request.set (analysisKey a.driverId) (Wire.write a) (some p.analysisTtl)).About
      a.driverId := rfl
  have hrequest : Leads (fun _ => .served now) a.driverId (Offered p.analysisTtl now k a)
      (Query.request (.set (analysisKey a.driverId) (Wire.write a) (some p.analysisTtl)))
      (fun _ s => Reported p.analysisTtl now k a { s with isDirty := false })
      (Tallied p.analysisTtl now k) := Leads.served habout fun _ _ hs => hs.store
  have hset : Leads (fun _ => .served now) a.driverId
      (fun s h => Offered p.analysisTtl now k a s h ∧ h.hasExpired now = false)
      (do
        Query.request (.set (analysisKey a.driverId) (Wire.write a) (some p.analysisTtl))
        return true)
      (fun done s => Reported p.analysisTtl now k a { s with isDirty := !done && s.isDirty })
      (Tallied p.analysisTtl now k) :=
    Ensures.weaken_pre (hrequest.bind fun _ => Ensures.pure fun _ _ hs => hs) fun _ _ hs => hs.1
  have hfound := (latestAnalysis_served now a.driverId (Offered p.analysisTtl now k a)
    fun _ _ hs => hs.lapse).weaken_stop fun s f hs => hs.toTallied
  refine hfound.bind fun found => ?_
  cases found with
  | none => exact hset.weaken_pre fun _ _ hs => hs.1
  | some stored =>
    refine Ensures.ite (fun _ => ?_) fun _ => hset.weaken_pre fun _ _ hs => hs.1
    exact Ensures.pure fun s f hs => hs.1.1.reported

theorem saveFresh_tallied {a : TrackAnalysis} (ha : a.driverId = d) :
    Leads (fun _ => .served now) d (Offered p.analysisTtl now k a) (p.saveFresh a)
      (fun _ => Reported p.analysisTtl now k a) (Tallied p.analysisTtl now k) := by
  refine (storeAnalysis_tallied now p d k ha).bind fun done =>
    Ensures.ite (fun hdone => ?_) fun hrefused => ?_
  · subst hdone
    exact Ensures.modify fun _ _ hs => hs
  · obtain rfl : done = false := by simpa using hrefused
    exact Ensures.pure fun _ _ hs => hs

/-- The window is analyzed on behalf of a loaded slot, and the analysis is saved. -/
theorem analyzeAndSave_tallied (computedAt : Timestamp) (sequence : UInt64) :
    Leads (fun _ => .served now) d
      (fun s h => Loaded p.analysisTtl now k s h ∧ s.sequence = sequence)
      (do
        let analysis ← p.analyzeWindow computedAt d sequence
        p.saveFresh analysis
        return analysis)
      (fun a => Reported p.analysisTtl now k a) (Tallied p.analysisTtl now k) := by
  have hwindow : Leads (fun _ => .served now) d
      (fun s h => Loaded p.analysisTtl now k s h ∧ s.sequence = sequence)
      (p.analyzeWindow computedAt d sequence)
      (fun a s h => a.driverId = d ∧ Offered p.analysisTtl now k a s h)
      (Tallied p.analysisTtl now k) := by
    refine (analyzeWindow_leads (fun _ => .served now) p d
      (fun s h => Loaded p.analysisTtl now k s h ∧ s.sequence = sequence) computedAt
      sequence).weaken (fun _ _ hs => hs) ?_ fun _ _ hs => hs.1.toTallied
    rintro a s f ⟨⟨hs, hsequence⟩, hreflects, ha⟩
    exact ⟨hreflects.driverId_eq, hs, ha.trans hsequence.symm⟩
  refine hwindow.bind fun a => Ensures.assume (fun _ _ hs => hs.1) fun ha => ?_
  refine Ensures.bind ((saveFresh_tallied now p d k ha).weaken_pre fun _ _ hs => hs.2) fun _ => ?_
  exact Ensures.pure fun _ _ hs => hs

/-- **An append reports one more point,** counted from the last time that the count was
forgotten. -/
theorem appendLeased_tallied (computedAt : Timestamp) {point : TrackPoint}
    (hd : point.driverId = d) (older : List Bytes) :
    Leads (fun _ => .served now) d
      (fun s h => Current p.analysisTtl now k s h ∧ h.arrivals = older)
      (p.appendLeased computedAt point)
      (fun a s h => Reported p.analysisTtl now { k with since := now } a s h ∧
        h.arrivals = Wire.write point :: older)
      (Tallied p.analysisTtl now k) := by
  rw [appendLeased, hd]
  refine Ensures.assume (fun _ _ hs => hs.1.since_le) fun hsince => ?_
  have hload := ((load_tallied now p d k).frame load_asks fun _ arrivals =>
    arrivals = older).weaken_stop fun _ _ hs => hs.1
  -- from the push on, the time of the append is the one that counts
  let pushed (s : Slot) (h : Holding) : Prop :=
    Loaded p.analysisTtl now { k with since := now } s h ∧ h.arrivals = Wire.write point :: older
  have hpushAbout : (Request.pushFront (pointsKey d) (Wire.write point)).About d := rfl
  have hpush : Leads (fun _ => .served now) d
      (fun s h => Loaded p.analysisTtl now k s h ∧ h.arrivals = older)
      (Query.request (.pushFront (pointsKey d) (Wire.write point)))
      (fun (_ : Nat) s => pushed { s with sequence := s.sequence + 1, isDirty := true })
      (Tallied p.analysisTtl now k) := by
    refine Leads.served hpushAbout ?_
    rintro s h ⟨hs, rfl⟩
    exact ⟨hs.push _, rfl⟩
  have hcount : Leads (fun _ => .served now) d
      (fun s => pushed { s with sequence := s.sequence + 1, isDirty := true })
      (modify fun slot => { slot with sequence := slot.sequence + 1, isDirty := true })
      (fun _ => pushed) (Tallied p.analysisTtl now k) := Ensures.modify fun _ _ hs => hs
  have htrimAbout : (Request.trim (pointsKey d) p.maxPointsRetained).About d := rfl
  have htrim : Leads (fun _ => .served now) d pushed
      (Query.request (.trim (pointsKey d) p.maxPointsRetained)) (fun (_ : Nat) => pushed)
      (Tallied p.analysisTtl now k) :=
    Leads.served htrimAbout fun s h hs => ⟨hs.1.trim _, hs.2⟩
  have hget : Leads (fun _ => .served now) d pushed get
      (fun slot s h => (Loaded p.analysisTtl now { k with since := now } s h ∧
        s.sequence = slot.sequence) ∧ h.arrivals = Wire.write point :: older)
      (Tallied p.analysisTtl now k) := Ensures.get fun s f hs => ⟨⟨hs.1, rfl⟩, hs.2⟩
  have hrest := hget.bind fun slot =>
    ((analyzeAndSave_tallied now p d { k with since := now } computedAt slot.sequence).frame
      (analyzeAndSave_asks computedAt slot.sequence)
      fun _ arrivals => arrivals = Wire.write point :: older).weaken_stop
      fun _ _ hs => hs.1.earlier hsince
  exact hload.bind fun _ => Ensures.bind hpush fun count => hcount.bind fun _ =>
    Ensures.ite (fun _ => Ensures.bind htrim fun _ => hrest) fun _ => hrest

/-- **A read counts nothing** and may store what is counted. -/
theorem currentAnalysis_tallied (computedAt : Timestamp) :
    Leads (fun _ => .served now) d (Current p.analysisTtl now k) (p.currentAnalysis computedAt d)
      (fun _ => Tallied p.analysisTtl now k) (Tallied p.analysisTtl now k) := by
  have hfound := (latestAnalysis_served now d (Loaded p.analysisTtl now k) fun s h hs hexpired =>
    ⟨hs.toCurrent.lapse hexpired, hs.isLoaded⟩).weaken_stop fun s f hs => hs.toTallied
  refine (load_tallied now p d k).bind fun _ => hfound.bind fun stored => ?_
  have hget : Leads (fun _ => .served now) d
      (fun s h => (Loaded p.analysisTtl now k s h ∧ h.hasExpired now = false) ∧ h.Finds stored) get
      (fun slot s h => Loaded p.analysisTtl now k s h ∧ s.sequence = slot.sequence)
      (Tallied p.analysisTtl now k) := Ensures.get fun s f hs => ⟨hs.1.1, rfl⟩
  refine Ensures.bind hget fun slot => ?_
  split
  · exact Ensures.pure fun s f hs => hs.1.toTallied
  · exact (analyzeAndSave_tallied now p d k computedAt slot.sequence).weaken
      (fun _ _ hs => hs) (fun _ _ _ hs => hs.toTallied) fun _ _ hs => hs

end TrackPolicy

end Fleet
