import Fleet.Proofs.Store.Invariant

/-!
# What a slot counts and what is stored

Each operation is described by what it does to the slot and to the stored analysis, as long as no
analysis is found expired: a slot takes the stored analysis into account once (`Slot.loaded`), an
append counts its point (`Slot.counted`), and an analysis takes the place of the stored one unless
that one has a higher number (`AfterSave`).  Main statement: `appendLeased_unlapsed`.

A dirty slot is ahead of the stored analysis, as long as numbers do not wrap and no analysis is
saved that is ahead of the slot: `TrackStore.invariant_isAhead`.
-/

namespace Fleet

open TrackPolicy (pointsKey analysisKey)
open Query (Ensures Leads)

/-- The analysis that is stored, if it can be read. -/
def storedAnalysis (stored : Option Expiring) : Option TrackAnalysis :=
  stored.bind fun e => Wire.read? e.value

/-- The number of the stored analysis, zero if there is none. -/
def storedSequence (stored : Option Expiring) : UInt64 :=
  (storedAnalysis stored).elim 0 TrackAnalysis.sequence

theorem Holding.Finds.storedAnalysis_eq {h : Holding} {found : Option TrackAnalysis}
    (hf : h.Finds found) : storedAnalysis h.stored = found := by
  cases found with
  | none =>
    rw [hf.eq_none]
    rfl
  | some a =>
    obtain ⟨e, he, hread⟩ := hf.eq_some
    rw [he]
    exact hread

/-- An analysis that is written keeps its number, if it can be read back. -/
theorem storedSequence_write_le (a : TrackAnalysis) (expiresAt : Option Duration) :
    storedSequence (some ⟨Wire.write a, expiresAt⟩) ≤ a.sequence := by
  show (Option.elim (Wire.read? (Wire.write a)) 0 TrackAnalysis.sequence : UInt64) ≤ a.sequence
  cases hread : (Wire.read? (Wire.write a) : Option TrackAnalysis) with
  | none => exact UInt64.zero_le
  | some b => exact UInt64.le_of_eq (Wire.sequence_of_read? hread)

namespace Slot

/-- A slot that takes the stored analysis into account. -/
def loaded (s : Slot) (stored : Option Expiring) : Slot :=
  if s.isLoaded then s
  else
    { s with
      sequence := (storedAnalysis stored).elim s.sequence fun a => max s.sequence a.sequence
      isLoaded := true }

/-- A slot that counts one more point. -/
def counted (s : Slot) (stored : Option Expiring) : Slot :=
  { s.loaded stored with sequence := (s.loaded stored).sequence + 1, isDirty := true }

theorem loaded_of_isLoaded {s : Slot} (h : s.isLoaded = true) (stored : Option Expiring) :
    s.loaded stored = s := if_pos h

@[simp] theorem isLoaded_loaded (s : Slot) (stored : Option Expiring) :
    (s.loaded stored).isLoaded = true := by
  unfold loaded
  split
  · assumption
  · rfl

/-- A new slot counts what the stored analysis does. -/
theorem sequence_loaded_new (stored : Option Expiring) :
    (({} : Slot).loaded stored).sequence = storedSequence stored := by
  show (storedAnalysis stored).elim 0 (fun a => max 0 a.sequence) =
    (storedAnalysis stored).elim 0 TrackAnalysis.sequence
  cases storedAnalysis stored with
  | none => rfl
  | some a =>
    show max 0 a.sequence = a.sequence
    exact if_pos UInt64.zero_le

end Slot

section Steps

variable (known : Slot → Option Expiring → Prop)

/-- A slot of which something is known takes the stored analysis into account. -/
def AfterLoad (s' : Slot) (stored : Option Expiring) : Prop :=
  ∃ s, known s stored ∧ s' = s.loaded stored

/-- It then counts one more point. -/
def AfterCount (s' : Slot) (stored : Option Expiring) : Prop :=
  ∃ s, known s stored ∧ s' = s.counted stored

/-- **An analysis is saved on behalf of the slot.**  It takes the place of the stored one, which
leaves the slot clean, or is refused because the stored one has a higher number. -/
def AfterSave (a : TrackAnalysis) (s' : Slot) (stored' : Option Expiring) : Prop :=
  ∃ s stored, known s stored ∧
    ((storedSequence stored ≤ a.sequence ∧ s' = { s with isDirty := false } ∧
      ∃ expiresAt, stored' = some ⟨Wire.write a, expiresAt⟩) ∨
    (a.sequence < storedSequence stored ∧ s' = s ∧ stored' = stored))

end Steps

/-- What is known of the query's state and of the stored analysis, as long as no analysis was found
expired. -/
def Unlapsed {σ : Type} (known : σ → Option Expiring → Prop) (s : σ) (h : Holding) : Prop :=
  h.lapsed = false → known s h.stored

namespace Unlapsed

variable {σ : Type} {known known' : σ → Option Expiring → Prop} {s : σ} {h : Holding}

theorem lapse : Unlapsed known s { h with stored := none, lapsed := true } :=
  fun hlapsed => nomatch hlapsed

theorem imp (hs : Unlapsed known s h) (hknown : ∀ s stored, known s stored → known' s stored) :
    Unlapsed known' s h := fun hlapsed => hknown s _ (hs hlapsed)

end Unlapsed

namespace TrackPolicy

variable {σ : Type} {fates : Nat → Fate} {p : TrackPolicy} {d : String}
  {known : σ → Option Expiring → Prop}

/-! ## Steps of operations -/

theorem latestAnalysis_unlapsed : Leads fates d (Unlapsed known) (latestAnalysis d)
    (fun found => Unlapsed fun s stored => known s stored ∧ storedAnalysis stored = found)
    (Unlapsed known) :=
  (latestAnalysis_leads fates d (Unlapsed known) fun _ _ _ => Unlapsed.lapse).weaken
    (fun _ _ hs => hs) (fun _ _ _ hs hlapsed => ⟨hs.1 hlapsed, hs.2.storedAnalysis_eq⟩)
    fun _ _ hs => hs

/-- **An analysis is stored** unless the stored one has a higher number. -/
theorem storeAnalysis_unlapsed {a : TrackAnalysis} (ha : a.driverId = d) :
    Leads fates d (Unlapsed known) (p.storeAnalysis a)
      (fun done => Unlapsed fun s stored' => ∃ stored, known s stored ∧
        if done then storedSequence stored ≤ a.sequence ∧
          ∃ expiresAt, stored' = some ⟨Wire.write a, expiresAt⟩
        else a.sequence < storedSequence stored ∧ stored' = stored)
      (Unlapsed known) := by
  obtain rfl := ha
  have hset : Leads fates a.driverId
      (Unlapsed fun s stored => known s stored ∧ storedSequence stored ≤ a.sequence)
      (do
        Query.request (.set (analysisKey a.driverId) (Wire.write a) (some p.analysisTtl))
        return true)
      (fun done => Unlapsed fun s stored' => ∃ stored, known s stored ∧
        if done then storedSequence stored ≤ a.sequence ∧
          ∃ expiresAt, stored' = some ⟨Wire.write a, expiresAt⟩
        else a.sequence < storedSequence stored ∧ stored' = stored)
      (Unlapsed known) := by
    have hrequest : Leads fates a.driverId
        (Unlapsed fun s stored => known s stored ∧ storedSequence stored ≤ a.sequence)
        (Query.request (.set (analysisKey a.driverId) (Wire.write a) (some p.analysisTtl)))
        (fun _ => Unlapsed fun s stored' => ∃ stored, known s stored ∧
          storedSequence stored ≤ a.sequence ∧
            ∃ expiresAt, stored' = some ⟨Wire.write a, expiresAt⟩)
        (Unlapsed known) :=
      Leads.set (fun _ _ hs => hs.imp fun _ _ hk => hk.1) fun t _ h hs hlapsed =>
        ⟨h.stored, (hs hlapsed).1, (hs hlapsed).2, t, rfl⟩
    exact hrequest.bind fun _ => Ensures.pure fun _ _ hs => hs
  refine latestAnalysis_unlapsed.bind fun found => ?_
  cases found with
  | none =>
    refine hset.weaken_pre fun s f hs => hs.imp fun _ stored hk => ⟨hk.1, ?_⟩
    rw [storedSequence, hk.2]
    exact UInt64.zero_le
  | some b =>
    refine Ensures.ite (fun hnewer => ?_) fun hnewest => ?_
    · refine Ensures.pure fun s f hs => hs.imp fun _ stored hk => ⟨stored, hk.1, ?_⟩
      rw [storedSequence, hk.2]
      exact ⟨hnewer, rfl⟩
    · refine hset.weaken_pre fun s f hs => hs.imp fun _ stored hk => ⟨hk.1, ?_⟩
      rw [storedSequence, hk.2]
      exact UInt64.not_lt.mp hnewest

section Leased

variable {known : Slot → Option Expiring → Prop}

theorem load_unlapsed : Leads fates d (Unlapsed known) (load d)
    (fun _ => Unlapsed (AfterLoad known)) (Unlapsed known) := by
  have hget : Leads fates d (Unlapsed known) get (fun slot s h => Unlapsed known s h ∧ s = slot)
      (Unlapsed known) := Ensures.get fun _ _ hs => ⟨hs, rfl⟩
  refine Ensures.bind hget fun slot => Ensures.ite (fun hloaded => ?_) fun hblank => ?_
  · apply Ensures.pure
    rintro s f ⟨hs, rfl⟩ hlapsed
    exact ⟨s, hs hlapsed, (Slot.loaded_of_isLoaded hloaded _).symm⟩
  · have hfound : Leads fates d (fun s h => Unlapsed known s h ∧ s = slot) (latestAnalysis d)
        (fun found => Unlapsed fun s stored =>
          (known s stored ∧ s = slot) ∧ storedAnalysis stored = found) (Unlapsed known) :=
      latestAnalysis_unlapsed.weaken (fun _ _ hs hlapsed => ⟨hs.1 hlapsed, hs.2⟩)
        (fun _ _ _ hs => hs) fun _ _ hs => hs.imp fun _ _ hk => hk.1
    refine hfound.bind fun found => Ensures.modify fun s f hs hlapsed => ?_
    obtain ⟨⟨hk, rfl⟩, hstored⟩ := hs hlapsed
    refine ⟨s, hk, ?_⟩
    rw [Slot.loaded, if_neg hblank, hstored]

theorem saveFresh_unlapsed {a : TrackAnalysis} (ha : a.driverId = d) :
    Leads fates d (Unlapsed known) (p.saveFresh a) (fun _ => Unlapsed (AfterSave known a))
      (Unlapsed known) := by
  refine (storeAnalysis_unlapsed ha).bind fun done => Ensures.ite (fun hdone => ?_) fun hdone => ?_
  · refine Ensures.modify fun s f hs hlapsed => ?_
    obtain ⟨stored, hk, hstored⟩ := hs hlapsed
    rw [if_pos hdone] at hstored
    exact ⟨s, stored, hk, .inl ⟨hstored.1, rfl, hstored.2⟩⟩
  · refine Ensures.pure fun s f hs hlapsed => ?_
    obtain ⟨stored, hk, hstored⟩ := hs hlapsed
    rw [if_neg hdone] at hstored
    exact ⟨s, stored, hk, .inr ⟨hstored.1, rfl, hstored.2⟩⟩

/-- The window is analyzed under the number of the slot, and the analysis is saved. -/
theorem analyzeAndSave_unlapsed (now : Timestamp) (slot : Slot) :
    Leads fates d (fun s h => Unlapsed known s h ∧ s = slot)
      (do
        let analysis ← p.analyzeWindow now d slot.sequence
        p.saveFresh analysis
        return analysis)
      (fun a => Unlapsed (AfterSave (fun s stored => known s stored ∧ a.sequence = s.sequence) a))
      (Unlapsed known) := by
  have hwindow := (analyzeWindow_leads fates p d (fun s h => Unlapsed known s h ∧ s = slot) now
    slot.sequence).weaken_stop fun _ _ hs => hs.1
  refine hwindow.bind fun a => Ensures.assume (fun _ _ hs => hs.2.1.driverId_eq) fun ha => ?_
  have hsave : Leads fates d (Unlapsed fun s stored => known s stored ∧ a.sequence = s.sequence)
      (p.saveFresh a)
      (fun _ => Unlapsed (AfterSave (fun s stored => known s stored ∧ a.sequence = s.sequence) a))
      (Unlapsed known) :=
    (saveFresh_unlapsed ha).weaken_stop fun _ _ hs => hs.imp fun _ _ hk => hk.1
  refine (hsave.weaken_pre ?_).bind fun _ => Ensures.pure fun _ _ hs => hs
  rintro s f ⟨⟨hs, rfl⟩, -, hsequence⟩ hlapsed
  exact ⟨hs hlapsed, hsequence⟩

/-! ## Appends and reads -/

/-- **An append** counts its point and saves an analysis under that number.  One that fails leaves
the stored analysis as it is. -/
theorem appendLeased_unlapsed (now : Timestamp) {point : TrackPoint} (hd : point.driverId = d) :
    Leads fates d (Unlapsed known) (p.appendLeased now point)
      (fun a => Unlapsed
        (AfterSave (fun s stored => AfterCount known s stored ∧ a.sequence = s.sequence) a))
      (Unlapsed fun s stored =>
        known s stored ∨ AfterLoad known s stored ∨ AfterCount known s stored) := by
  rw [appendLeased, hd]
  have hstopped : ∀ s h, Unlapsed (AfterCount known) s h → Unlapsed (fun s stored =>
      known s stored ∨ AfterLoad known s stored ∨ AfterCount known s stored) s h :=
    fun _ _ hs => hs.imp fun _ _ hk => .inr (.inr hk)
  have hload : Leads fates d (Unlapsed known) (load d) (fun _ => Unlapsed (AfterLoad known))
      (Unlapsed fun s stored =>
        known s stored ∨ AfterLoad known s stored ∨ AfterCount known s stored) :=
    load_unlapsed.weaken_stop fun _ _ hs => hs.imp fun _ _ hk => .inl hk
  have hpush : Leads fates d (Unlapsed (AfterLoad known))
      (Query.request (.pushFront (pointsKey d) (Wire.write point)))
      (fun (_ : Nat) => Unlapsed (AfterLoad known))
      (Unlapsed fun s stored =>
        known s stored ∨ AfterLoad known s stored ∨ AfterCount known s stored) :=
    Leads.pushFront (fun _ _ hs => hs.imp fun _ _ hk => .inr (.inl hk)) fun _ _ hs => hs
  have hcount : Leads fates d (Unlapsed (AfterLoad known))
      (modify fun slot : Slot => { slot with sequence := slot.sequence + 1, isDirty := true })
      (fun _ => Unlapsed (AfterCount known))
      (Unlapsed fun s stored =>
        known s stored ∨ AfterLoad known s stored ∨ AfterCount known s stored) := by
    refine Ensures.modify fun s' f hs hlapsed => ?_
    obtain ⟨s, hk, rfl⟩ := hs hlapsed
    exact ⟨s, hk, rfl⟩
  have htrim : Leads fates d (Unlapsed (AfterCount known))
      (Query.request (.trim (pointsKey d) p.maxPointsRetained))
      (fun (_ : Nat) => Unlapsed (AfterCount known))
      (Unlapsed fun s stored =>
        known s stored ∨ AfterLoad known s stored ∨ AfterCount known s stored) :=
    Leads.trim hstopped fun _ _ _ hs => hs
  have hget : Leads fates d (Unlapsed (AfterCount known)) get
      (fun slot s h => Unlapsed (AfterCount known) s h ∧ s = slot)
      (Unlapsed fun s stored =>
        known s stored ∨ AfterLoad known s stored ∨ AfterCount known s stored) :=
    Ensures.get fun _ _ hs => ⟨hs, rfl⟩
  have hrest := hget.bind fun slot =>
    (analyzeAndSave_unlapsed (p := p) now slot).weaken_stop fun s f => hstopped s (f.holding d)
  exact hload.bind fun _ => Ensures.bind hpush fun count => hcount.bind fun _ =>
    Ensures.ite (fun _ => Ensures.bind htrim fun _ => hrest) fun _ => hrest

/-- **A read** leaves the stored analysis as it is, or saves another one. -/
theorem currentAnalysis_unlapsed (now : Timestamp) :
    Leads fates d (Unlapsed known) (p.currentAnalysis now d)
      (fun _ => Unlapsed fun s stored =>
        AfterLoad known s stored ∨ ∃ a, AfterSave (AfterLoad known) a s stored)
      (Unlapsed fun s stored => known s stored ∨ AfterLoad known s stored) := by
  have hload : Leads fates d (Unlapsed known) (load d) (fun _ => Unlapsed (AfterLoad known))
      (Unlapsed fun s stored => known s stored ∨ AfterLoad known s stored) :=
    load_unlapsed.weaken_stop fun _ _ hs => hs.imp fun _ _ hk => .inl hk
  have hstopped : ∀ s h, Unlapsed (AfterLoad known) s h → Unlapsed (fun s stored =>
      known s stored ∨ AfterLoad known s stored) s h :=
    fun _ _ hs => hs.imp fun _ _ hk => .inr hk
  have hfound : Leads fates d (Unlapsed (AfterLoad known)) (latestAnalysis d)
      (fun _ => Unlapsed (AfterLoad known))
      (Unlapsed fun s stored => known s stored ∨ AfterLoad known s stored) :=
    latestAnalysis_unlapsed.weaken (fun _ _ hs => hs) (fun _ _ _ hs => hs.imp fun _ _ hk => hk.1)
      fun s f => hstopped s (f.holding d)
  refine hload.bind fun _ => hfound.bind fun stored => ?_
  have hget : Leads fates d (Unlapsed (AfterLoad known)) get
      (fun slot s h => Unlapsed (AfterLoad known) s h ∧ s = slot)
      (Unlapsed fun s stored => known s stored ∨ AfterLoad known s stored) :=
    Ensures.get fun _ _ hs => ⟨hs, rfl⟩
  refine Ensures.bind hget fun slot => ?_
  split
  · exact Ensures.pure fun _ _ hs => hs.1.imp fun _ _ hk => .inl hk
  · refine (analyzeAndSave_unlapsed now slot).weaken (fun _ _ hs => hs)
      (fun a _ _ hs => hs.imp ?_) fun s f => hstopped s (f.holding d)
    rintro s' stored' ⟨s, stored, ⟨hk, -⟩, hsaved⟩
    exact .inr ⟨a, s, stored, hk, hsaved⟩

end Leased

end TrackPolicy

/-! ## A dirty slot is ahead -/

/-- **A dirty slot is ahead of the stored analysis:** it took it into account, and counts no
less. -/
def Slot.IsAhead (s : Slot) (stored : Option Expiring) : Prop :=
  s.isDirty = true → s.isLoaded = true ∧ storedSequence stored ≤ s.sequence

namespace Slot.IsAhead

variable {s : Slot} {stored : Option Expiring}

theorem of_clean (hclean : s.isDirty = false) : s.IsAhead stored := by
  intro hdirty
  rw [hclean] at hdirty
  cases hdirty

/-- **A slot that is kept counts no less than the stored analysis** once it is loaded: a clean one
is new, and counts just that much. -/
theorem le_loaded (hs : s.IsAhead stored) (hkept : s.IsKept) :
    storedSequence stored ≤ (s.loaded stored).sequence := by
  cases hdirty : s.isDirty with
  | false =>
    rw [hkept hdirty, Slot.sequence_loaded_new]
    exact UInt64.le_refl _
  | true =>
    obtain ⟨hloaded, hle⟩ := hs hdirty
    rw [Slot.loaded_of_isLoaded hloaded]
    exact hle

theorem loaded (hs : s.IsAhead stored) (hkept : s.IsKept) : (s.loaded stored).IsAhead stored :=
  fun _ => ⟨Slot.isLoaded_loaded s stored, hs.le_loaded hkept⟩

theorem counted (hs : s.IsAhead stored) (hkept : s.IsKept)
    (hroom : (s.loaded stored).sequence.toNat + 1 < 2 ^ 64) :
    (s.counted stored).IsAhead stored := by
  refine fun _ => ⟨Slot.isLoaded_loaded s stored, ?_⟩
  have hle := UInt64.le_iff_toNat_le.mp (hs.le_loaded hkept)
  rw [UInt64.le_iff_toNat_le]
  show _ ≤ ((s.loaded stored).sequence + 1).toNat
  rw [UInt64.toNat_add, UInt64.toNat_one, Nat.mod_eq_of_lt hroom]
  omega

end Slot.IsAhead

/-- Saving an analysis on behalf of a slot that is ahead leaves it ahead. -/
theorem AfterSave.isAhead {known : Slot → Option Expiring → Prop} {a : TrackAnalysis} {s : Slot}
    {stored : Option Expiring} (h : AfterSave known a s stored)
    (hknown : ∀ s stored, known s stored → s.IsAhead stored) : s.IsAhead stored := by
  obtain ⟨s, stored, hk, ⟨-, rfl, -⟩ | ⟨-, rfl, rfl⟩⟩ := h
  · exact Slot.IsAhead.of_clean rfl
  · exact hknown _ _ hk

namespace TrackStore

/-- **That a dirty slot is ahead of the stored analysis is an invariant,** if counts do not wrap and
no analysis is saved that is ahead of a dirty slot. -/
theorem invariant_isAhead (p : TrackPolicy) (fates : Nat → Fate) :
    Invariant p fates (fun _ s h => (s.loaded h.stored).sequence.toNat + 1 < 2 ^ 64)
      (fun a s _ => s.isDirty = true → a.sequence ≤ s.sequence)
      fun _ => Unlapsed Slot.IsAhead where
  forget _ _ := Slot.IsAhead.of_clean rfl
  lapse _ := Unlapsed.lapse
  append now point := by
    have hcounted : ∀ s stored, AfterCount (fun s stored => s.IsKept ∧ s.IsAhead stored ∧
        (s.loaded stored).sequence.toNat + 1 < 2 ^ 64) s stored → s.IsAhead stored := by
      rintro - stored ⟨s, ⟨hkept, hs, hroom⟩, rfl⟩
      exact hs.counted hkept hroom
    refine (TrackPolicy.appendLeased_unlapsed now rfl).weaken
      (fun s f hs hlapsed => ⟨hs.1, hs.2.1 hlapsed, hs.2.2⟩)
      (fun a _ _ hs => hs.imp fun _ _ hsaved =>
        hsaved.isAhead fun s stored hk => hcounted s stored hk.1)
      fun _ _ hs => hs.imp ?_
    rintro s stored (⟨-, hs, -⟩ | ⟨s, ⟨hkept, hs, -⟩, rfl⟩ | hk)
    · exact hs
    · exact hs.loaded hkept
    · exact hcounted s stored hk
  read now d := by
    have hloaded : ∀ s stored, AfterLoad (fun s stored => s.IsKept ∧ s.IsAhead stored) s stored →
        s.IsAhead stored := by
      rintro - stored ⟨s, ⟨hkept, hs⟩, rfl⟩
      exact hs.loaded hkept
    have hread : Leads fates d (Unlapsed fun s stored => s.IsKept ∧ s.IsAhead stored)
        (p.currentAnalysis now d) (fun _ => Unlapsed Slot.IsAhead) (Unlapsed Slot.IsAhead) := by
      refine (TrackPolicy.currentAnalysis_unlapsed now).weaken (fun _ _ hs => hs)
        (fun _ _ _ hs => hs.imp ?_) fun _ _ hs => hs.imp ?_
      · rintro s stored (hk | ⟨a, hsaved⟩)
        · exact hloaded s stored hk
        · exact hsaved.isAhead hloaded
      · rintro s stored (⟨-, hs⟩ | hk)
        · exact hs
        · exact hloaded s stored hk
    exact hread.weaken_pre fun s f hs hlapsed => ⟨hs.1, hs.2 hlapsed⟩
  save a := by
    have hstore : Leads fates a.driverId
        (Unlapsed fun s stored => s.IsAhead stored ∧ (s.isDirty = true → a.sequence ≤ s.sequence))
        (p.storeAnalysis a) (fun _ => Unlapsed Slot.IsAhead) (Unlapsed Slot.IsAhead) := by
      refine (TrackPolicy.storeAnalysis_unlapsed rfl).weaken (fun _ _ hs => hs)
        (fun done _ _ hs => hs.imp ?_) fun _ _ hs => hs.imp fun _ _ hk => hk.1
      rintro s stored' ⟨stored, ⟨hs, hoffer⟩, hstored⟩
      split at hstored
      · obtain ⟨-, expiresAt, rfl⟩ := hstored
        exact fun hdirty => ⟨(hs hdirty).1,
          UInt64.le_trans (storedSequence_write_le a expiresAt) (hoffer hdirty)⟩
      · obtain ⟨-, rfl⟩ := hstored
        exact hs
    exact hstore.weaken_pre fun s f hs hlapsed => ⟨hs.2.1 hlapsed, hs.2.2⟩

end TrackStore

end Fleet
