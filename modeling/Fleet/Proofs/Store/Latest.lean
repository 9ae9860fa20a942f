import Fleet.Proofs.Store.Contents
import Fleet.Proofs.Store.Count
import Fleet.Proofs.Store.Serial
import Fleet.Proofs.Track.Verdicts
import Fleet.Proofs.Wire.Reread

/-!
# The analysis of a successful append is the latest

An append that succeeds answers with an analysis of a higher number than the stored one, and that
analysis takes its place and is what the next look-up finds, unless the stored one is ahead of what
the driver's slot counts (`append_is_latest`).  A slot that lags behind is one that an earlier
append left dirty and that was passed by when an analysis of a higher number was saved.  The store
does not give up the newer analysis for an older one, and keeps the slot dirty:
`append_keeps_newer`.
-/

namespace Fleet

open TrackPolicy (analysisKey)
open Query (Ensures Leads)

/-! ## The last point of an analysis -/

/-- **An analysis ends with a point** if that is its last one, under whatever verdict. -/
def TrackAnalysis.EndsWith (a : TrackAnalysis) (q : TrackPoint) : Prop :=
  ∃ r, a.points.getLast? = some r ∧ r.driverId = q.driverId ∧ r.position = q.position

theorem exists_getLast?_of_forall₂ {α β : Type} {R : α → β → Prop} {l : List α} {l' : List β}
    (h : List.Forall₂ R l l') {a : α} (ha : l.getLast? = some a) :
    ∃ b, l'.getLast? = some b ∧ R a b := by
  have hreverse := List.forall₂_reverse_iff.mpr h
  rw [← List.head?_reverse] at ha ⊢
  generalize l.reverse = m at hreverse ha
  generalize l'.reverse = m' at hreverse
  cases hreverse with
  | nil => cases ha
  | cons hab _ =>
    cases ha
    exact ⟨_, rfl, hab⟩

/-- An analysis of a log ends with the newest point. -/
theorem TrackPolicy.Reflects.endsWith {p : TrackPolicy} {d : String} {point : TrackPoint}
    {rest : List Bytes} {a : TrackAnalysis} (hwindow : 0 < p.windowSize)
    (ha : p.Reflects d (Wire.write point :: rest) a) :
    ∃ q : TrackPoint, Wire.read? (Wire.write point) = some q ∧ a.EndsWith q := by
  obtain ⟨window, computedAt, hread, ha⟩ := ha
  obtain ⟨k, hk⟩ := Nat.exists_eq_succ_of_ne_zero (Nat.ne_of_gt hwindow)
  rw [window?, hk, List.take_succ_cons, List.mapM_cons] at hread
  simp only [Option.bind_eq_bind, Option.pure_def, Option.map_eq_some_iff,
    Option.bind_eq_some_iff, Option.some.injEq] at hread
  obtain ⟨_, ⟨q, hq, older, -, rfl⟩, rfl⟩ := hread
  have hlast : (q :: older).reverse.getLast? = some q := by
    rw [List.reverse_cons, List.getLast?_concat]
  obtain ⟨r, hr, hfix⟩ := exists_getLast?_of_forall₂
    (Track.forall₂_points_analyzeWith _ p.speedLimit d computedAt) hlast
  rw [ha]
  exact ⟨q, hq, r, hr, hfix⟩

/-- An analysis that is read back ends with the point that it ended with, read back. -/
theorem TrackAnalysis.EndsWith.reread {a b : TrackAnalysis} {q : TrackPoint} (ha : a.EndsWith q)
    (hq : q.IsFinite) (hread : Wire.read? (Wire.write a) = some b) :
    ∃ q' : TrackPoint, Wire.read? (Wire.write q) = some q' ∧ b.EndsWith q' := by
  obtain ⟨r, hr, hdriver, hposition⟩ := ha
  obtain ⟨r', hr', hreread⟩ := exists_getLast?_of_forall₂ (Wire.points_of_write hread) hr
  obtain ⟨q', hq'⟩ := Wire.exists_ofJson?_point hq
  refine ⟨q', (Wire.read?_write q).trans hq', r', hr', ?_, ?_⟩
  · rw [(Wire.point_of_ofJson? hreread).1, (Wire.point_of_ofJson? hq').1, hdriver]
  · have hsame := Wire.position_of_ofJson? hreread
    rw [hposition, Wire.position_of_ofJson? hq'] at hsame
    exact (Option.some.inj hsame).symm

/-- What is read back of an analysis of a log ends with the newest point, as it is read twice. -/
theorem TrackPolicy.Reflects.endsWith_reread {p : TrackPolicy} {d : String} {point : TrackPoint}
    {rest : List Bytes} {a b : TrackAnalysis} (hwindow : 0 < p.windowSize)
    (ha : p.Reflects d (Wire.write point :: rest) a) (hread : Wire.read? (Wire.write a) = some b) :
    ∃ q q' : TrackPoint, Wire.read? (Wire.write point) = some q ∧ a.EndsWith q ∧
      Wire.read? (Wire.write q) = some q' ∧ b.EndsWith q' := by
  obtain ⟨q, hq, hends⟩ := ha.endsWith hwindow
  have hfinite : q.IsFinite := by
    rw [Wire.read?_write] at hq
    exact Wire.isFinite_point_of_ofJson? hq
  obtain ⟨q', hq', hends'⟩ := hends.reread hfinite hread
  exact ⟨q, q', hq, hends, hq', hends'⟩

namespace TrackStore

variable {p : TrackPolicy} {fates : Nat → Fate} {st : TrackStore} {f : Faulty} {d : String}
  {points : List TrackPoint}

/-! ## Look-ups -/

/-- **A stored analysis is found** by a look-up that is carried out before it expires. -/
theorem latest_of_served {t : Duration} (hserved : fates f.asked = .served t) {e : Expiring}
    (he : (f.holding d).stored = some e) (hfresh : Memory.isExpired t e = false)
    {b : TrackAnalysis} (hread : Wire.read? e.value = some b) (now : Timestamp) :
    ((Call.latest d).run (Faulty.serve fates) now (st, f)).1 = .latest (.ok (some b)) := by
  have hreply : (f.memory.perform t (.get (analysisKey d))).1 = some e.value := by
    have hvalue : f.memory.values.get? (analysisKey d) = some e := he
    simp only [Memory.perform, hvalue, hfresh, Bool.false_eq_true, if_false]
    rfl
  have hget : (Query.request (.get (analysisKey d)) : Query Unit _).Ensures (Faulty.serve fates)
      (fun _ g => g = f) (fun (record : Option Bytes) _ _ => record = some e.value)
      fun _ _ => False := by
    apply Ensures.request
    rintro - g rfl
    unfold Faulty.serve
    rw [hserved]
    exact hreply
  have hfound : (TrackPolicy.latestAnalysis d : Query Unit _).Ensures (Faulty.serve fates)
      (fun _ g => g = f) (fun found _ _ => found = some b) fun _ _ => False := by
    refine Ensures.bind hget fun record => Ensures.assume (fun _ _ hrecord => hrecord) ?_
    rintro rfl
    dsimp only
    rw [hread]
    exact Ensures.pure fun _ _ _ => rfl
  have hphase : (TrackPolicy.latest d).Ensures (Faulty.serve fates) (fun _ g => g = f)
      (fun phase _ => PhaseSettles (Faulty.serve fates) st (fun found _ _ => found = some b)
        (fun _ _ => False) phase) fun _ _ => False :=
    hfound.map fun _ _ _ hs => hs
  have hend : Settles (fun found (_ : TrackStore) (_ : Faulty) => found = some b)
      (fun _ _ => False) (st.run (Faulty.serve fates) f (TrackPolicy.latest d)) :=
    settles_run (hphase () f rfl)
  rcases hend.ok_or_stop with ⟨found, hfinished, rfl⟩ | hfalse
  · exact congrArg (Depot.answerBy .latest none) hfinished
  · exact hfalse.elim

/-! ## Appends -/

/-- **What an append that succeeds does** to a driver's slot and to the stored analysis.  The
analysis that it answers takes the place of the stored one, or is refused because that one is
newer. -/
structure Saves (slot : Slot) (before : Holding) (a : TrackAnalysis) (slot' : Slot)
    (after : Holding) : Prop where
  lapsed : before.lapsed = false
  /-- The answer is numbered by the slot. -/
  sequence_eq : a.sequence = (slot.loaded before.stored).sequence + 1
  stored : (storedSequence before.stored ≤ a.sequence ∧
      ∃ expiresAt, after.stored = some ⟨Wire.write a, expiresAt⟩) ∨
    (a.sequence < storedSequence before.stored ∧ after.stored = before.stored ∧
      slot'.isDirty = true)

theorem appendLeased_saves (now : Timestamp) {point : TrackPoint} (hd : point.driverId = d)
    (slot : Slot) (before : Holding) :
    Leads fates d (fun s h => s = slot ∧ h = before) (p.appendLeased now point)
      (fun a s h => h.lapsed = false → Saves slot before a s h) fun _ _ => True := by
  let known (s : Slot) (stored : Option Expiring) : Prop :=
    s = slot ∧ stored = before.stored ∧ before.lapsed = false
  have happend : Leads fates d (Unlapsed known) (p.appendLeased now point)
      (fun a => Unlapsed
        (AfterSave (fun s stored => AfterCount known s stored ∧ a.sequence = s.sequence) a))
      (Unlapsed fun s stored =>
        known s stored ∨ AfterLoad known s stored ∨ AfterCount known s stored) :=
    TrackPolicy.appendLeased_unlapsed now hd
  refine happend.weaken ?_ (fun a s f hs hlapsed => ?_) fun _ _ _ => trivial
  · rintro s f ⟨rfl, hbefore⟩ hlapsed
    rw [hbefore] at hlapsed ⊢
    exact ⟨rfl, rfl, hlapsed⟩
  · obtain ⟨_, _, ⟨⟨s, ⟨rfl, rfl, hbefore⟩, rfl⟩, ha⟩, hsaved⟩ := hs hlapsed
    refine ⟨hbefore, ha, hsaved.imp (fun h => ⟨h.1, h.2.2⟩) fun h => ⟨h.1, h.2.2, ?_⟩⟩
    rw [h.2.1]
    rfl

/-- An append that answers an analysis is carried out, and nothing happens after it. -/
theorem run_append_of_appended (hpolicy : st.policy = p) {now : Timestamp} {point : TrackPoint}
    {a : TrackAnalysis}
    (h : ((Call.append point).run (Faulty.serve fates) now (st, f)).1 = .appended (.ok a)) :
    st.run (Faulty.serve fates) f (p.append now point) =
      (.finished (.ok a), ((Call.append point).run (Faulty.serve fates) now (st, f)).2) := by
  subst hpolicy
  exact Prod.ext ((tells_answerBy none _).appended a h) rfl

/-- **An append that succeeds saves its analysis,** or finds a newer one. -/
theorem append_saves (hfree : st.held = none) {now : Timestamp} {point : TrackPoint}
    (hd : point.driverId = d) {a : TrackAnalysis}
    (hok : (st.run (Faulty.serve fates) f (p.append now point)).1 = .finished (.ok a))
    (hlapsed :
      ((st.run (Faulty.serve fates) f (p.append now point)).2.2.holding d).lapsed = false) :
    Saves (st.slotOf d) (f.holding d) a
      ((st.run (Faulty.serve fates) f (p.append now point)).2.1.slotOf d)
      ((st.run (Faulty.serve fates) f (p.append now point)).2.2.holding d) := by
  obtain ⟨-, hleased⟩ := append_eq_of_ok hd hok
  rw [hleased] at hok hlapsed ⊢
  obtain ⟨slot, hslot, hsaves⟩ := (settles_leased
    (appendLeased_saves now hd (st.slotOf d) (f.holding d)) ⟨rfl, rfl⟩ hfree).of_ok hok
  refine { hsaves hlapsed with stored := (hsaves hlapsed).stored.imp_right fun hkept => ?_ }
  refine ⟨hkept.1, hkept.2.1, ?_⟩
  -- a dirty slot is not dropped when it is given back
  rw [hslot, slotOf_release, if_pos rfl, if_pos hkept.2.2]
  exact hkept.2.2

/-- **What follows a number is higher,** unless the number is the largest and wraps. -/
theorem lt_add_one_iff {m n : UInt64} (h : m ≤ n) : m < n + 1 ↔ n ≠ 18446744073709551615 := by
  constructor
  · rintro hless rfl
    exact absurd hless (Nat.not_lt_zero _)
  · intro hne
    have hroom : n.toNat + 1 < 2 ^ 64 := by
      have hlt := n.toNat_lt
      have hnat : n.toNat ≠ 18446744073709551615 := fun heq => hne (UInt64.toNat_inj.mp heq)
      omega
    rw [UInt64.lt_iff_toNat_lt, UInt64.toNat_add, UInt64.toNat_one, Nat.mod_eq_of_lt hroom]
    exact Nat.lt_succ_of_le (UInt64.le_iff_toNat_le.mp h)

/-- **The analysis of a successful append is the latest,** after every history and whatever became
of its requests, as long as no analysis was found expired.

It is numbered next to what the driver's slot counts.  A clean slot counts no less than the stored
analysis, and so does every slot if counts do not wrap and no analysis was saved that was ahead of a
dirty one.  Then the number is higher than the stored one exactly if the count was not the largest
number of 64 bits.  Where the number is not below the stored one, a look-up that is carried out at
once finds the analysis, which ends with the appended point.

Where the stored analysis is ahead even of the new one, it is kept, and the slot stays dirty. -/
theorem append_is_latest (hlimit : Config.isPositive p.speedLimit = true)
    (hpositive : 0 < p.windowSize) (hwindow : p.windowSize < 2 ^ 64)
    (hretained : 0 < p.maxPointsRetained) (hvalid : ∀ q ∈ points, q.position.isValid = true)
    (ht : p.trigonometry.IsBounded)
    (fates : Nat → Fate) (history : List Incident)
    (htaken : ∀ i ∈ history, ∀ q, i.point? = some q → q.isAcceptable = true → q.driverId = d →
      q ∈ points)
    (now : Timestamp) {point : TrackPoint} (hd : point.driverId = d) (hpoint : point ∈ points)
    {a : TrackAnalysis} :
    let serve := Faulty.serve fates
    let s := Incident.after serve (new p, {}) history
    let x := (Call.append point).run serve now s
    let stored := (s.2.holding d).stored
    let count := ((s.1.slotOf d).loaded stored).sequence
    x.1 = .appended (.ok a) → (x.2.2.holding d).lapsed = false →
      a.sequence = count + 1 ∧
      ((s.1.slotOf d).isDirty = false ∨
        Incident.AllAdmitted fates
          (fun q s h => q.driverId = d → (s.loaded h.stored).sequence.toNat + 1 < 2 ^ 64)
          (fun b s _ => b.driverId = d → s.isDirty = true → b.sequence ≤ s.sequence)
          (new p, {}) history →
        storedSequence stored ≤ count) ∧
      (storedSequence stored ≤ count →
        (storedSequence stored < a.sequence ↔ count ≠ 18446744073709551615)) ∧
      (storedSequence stored ≤ a.sequence → ∀ later t, fates x.2.2.asked = .served t →
        (∀ e, (x.2.2.holding d).stored = some e → Memory.isExpired t e = false) →
        ∃ b, ((Call.latest d).run serve later x.2).1 = .latest (.ok (some b)) ∧
          b.sequence = a.sequence ∧
          ∃ q q' : TrackPoint, Wire.read? (Wire.write point) = some q ∧ a.EndsWith q ∧
            Wire.read? (Wire.write q) = some q' ∧ b.EndsWith q') ∧
      (a.sequence < storedSequence stored →
        (x.2.2.holding d).stored = stored ∧ (x.2.1.slotOf d).isDirty = true) := by
  intro serve s x stored count hanswer hlapsed
  have hs : Obeys p (fun e _ h => e = d → h.Meets (WritesOf points) fun _ => True) s :=
    meets_after (fun _ _ _ _ _ => trivial) fates htaken fun _ _ _ _ _ => trivial
  have hrun : s.1.run serve s.2 (p.append now point) = (.finished (.ok a), x.2) :=
    run_append_of_appended hs.policy_eq hanswer
  have hok := congrArg Prod.fst hrun
  obtain ⟨hmeets, hfronts, hreflects⟩ := append_reflects (fun _ _ _ _ _ => trivial)
    hs.atRest.free hd (fun _ => ⟨point, hpoint, rfl⟩) (hs.each d rfl) hok
  have hsaves := append_saves hs.atRest.free hd hok (hrun ▸ hlapsed)
  rw [hrun] at hmeets hfronts hreflects hsaves
  obtain ⟨hbefore, hsequence, hsaved⟩ := hsaves
  refine ⟨hsequence, fun hterms => ?_, fun hahead => ?_,
    fun hnewer later t hserved hfresh => ?_, fun holder => ?_⟩
  · have hahead : (s.1.slotOf d).IsAhead stored := by
      rcases hterms with hclean | hadmitted
      · exact Slot.IsAhead.of_clean hclean
      · have hobeys := ((invariant_isAhead p fates).only d).after
          (obeys_new p fun _ _ _ => Slot.IsAhead.of_clean rfl) hadmitted
        exact hobeys.each d rfl hbefore
    exact hahead.le_loaded (hs.atRest.kept d)
  · rw [hsequence]
    exact lt_add_one_iff hahead
  · obtain ⟨-, expiresAt, hstored⟩ := hsaved.resolve_right fun h => UInt64.not_lt.mpr hnewer h.1
    obtain ⟨b, hb⟩ := TrackPolicy.exists_read?_of_reflects
      (TrackPolicy.exists_read?_analyze hlimit hwindow hvalid ht d) hmeets.log hreflects
    obtain ⟨rest, hlog⟩ := hfronts hretained
    rw [hlog] at hreflects
    exact ⟨b, latest_of_served hserved hstored (hfresh _ hstored) hb later,
      Wire.sequence_of_read? hb, hreflects.endsWith_reread hpositive hb⟩
  · exact (hsaved.resolve_left fun h => UInt64.not_lt.mpr h.1 holder).2

open Crowd (standstill onTheWay smallWindow smallScale)

/-- An append, a saved analysis of the number 7, and an append of the next fix that is numbered
8. -/
theorem append_is_latest_after_save :
    let serve := Faulty.serve fun _ => .served .zero
    let offered : TrackAnalysis := { TrackAnalysis.insufficient "d" [] 0 with sequence := 7 }
    let history : List Incident := [.act 0 (.call (.append standstill)), .act 1 (.save offered)]
    let s := Incident.after serve (new smallScale, {}) history
    let x := (Call.append onTheWay).run serve 2 s
    ∃ a b, x.1 = .appended (.ok a) ∧ storedSequence (s.2.holding "d").stored < a.sequence ∧
      ((Call.latest "d").run serve 3 x.2).1 = .latest (.ok (some b)) ∧
      a.sequence = 8 ∧ b.sequence = 8 := by
  intro serve offered history s x
  have hlimit : Config.isPositive smallScale.speedLimit = true := by decide +kernel
  have hvalid : ∀ q ∈ [standstill, onTheWay], q.position.isValid = true := by decide +kernel
  have htaken : ∀ i ∈ history, ∀ q, i.point? = some q → q.isAcceptable = true →
      q.driverId = "d" → q ∈ [standstill, onTheWay] := by
    intro i hi q hq _ _
    have hoffered : q ∈ history.filterMap Incident.point? := List.mem_filterMap.mpr ⟨i, hi, hq⟩
    have hpoints : history.filterMap Incident.point? = [standstill] := rfl
    rw [hpoints] at hoffered
    exact List.mem_cons.mpr (.inl (List.mem_singleton.mp hoffered))
  obtain ⟨a, ha⟩ : ∃ a, x.1 = .appended (.ok a) := Call.exists_appended (by decide +kernel)
  have hwindow : smallScale.windowSize < 2 ^ 64 := by decide
  have hlapsed : (x.2.2.holding "d").lapsed = false := by decide +kernel
  obtain ⟨hsequence, hahead, hless, hfound, -⟩ := append_is_latest (d := "d") hlimit (by decide)
    hwindow (by decide) hvalid Trigonometry.isBounded_ofSmallAngles (fun _ => .served .zero)
    history htaken 2 rfl (List.mem_cons_of_mem _ (List.mem_singleton_self _)) ha hlapsed
  have hcount : ((s.1.slotOf "d").loaded (s.2.holding "d").stored).sequence = 7 := by
    decide +kernel
  have hclean : (s.1.slotOf "d").isDirty = false := by decide +kernel
  have hnewer : storedSequence (s.2.holding "d").stored < a.sequence := by
    refine (hless (hahead (.inl hclean))).mpr ?_
    rw [hcount]
    decide
  have hfresh : (x.2.2.holding "d").stored.any (Memory.isExpired .zero) = false := by
    decide +kernel
  obtain ⟨b, hb, hsame, -⟩ := hfound (UInt64.le_of_lt hnewer) 3 .zero rfl fun e he => by
    rw [he] at hfresh
    exact hfresh
  have height : a.sequence = 8 := by
    rw [hsequence, hcount]
    rfl
  exact ⟨a, b, ha, hnewer, hb, height, hsame.trans height⟩

/-- **Counts wrap.**  An analysis of the largest number is saved for a driver that has no slot.  The
append after it succeeds with the number zero; its analysis is refused in favour of the older one,
and the next look-up finds that. -/
theorem append_wraps_count :
    let serve := Faulty.serve fun _ => .served .zero
    let offered : TrackAnalysis :=
      { TrackAnalysis.insufficient "d" [] 0 with sequence := 18446744073709551615 }
    let s := Incident.after serve (new smallWindow, {}) [.act 0 (.save offered)]
    let x := (Call.append standstill).run serve 1 s
    (s.1.slotOf "d").isDirty = false ∧
      storedSequence (s.2.holding "d").stored = 18446744073709551615 ∧
      x.1.heldAnalysis?.map TrackAnalysis.sequence = some 0 ∧
      (x.2.2.holding "d").lapsed = false ∧
      ((Call.latest "d").run serve 2 x.2).1.heldAnalysis? = some offered := by
  decide +kernel

/-- An append does not replace a newer analysis.  The analysis of the first append could not be
saved, and then one of the number 100 was.  The second append is numbered 2 by the dirty slot, and
the next look-up finds the other analysis. -/
example :
    let serve := Faulty.serve fun n => if n = 4 then .failed (.storage "full") else .served .zero
    let offered : TrackAnalysis := { TrackAnalysis.insufficient "d" [] 0 with sequence := 100 }
    let s := Incident.after serve (new smallWindow, {})
      [.act 0 (.call (.append standstill)), .act 1 (.save offered)]
    let x := (Call.append standstill).run serve 2 s
    x.1.heldAnalysis?.map TrackAnalysis.sequence = some 2 ∧
      storedSequence (s.2.holding "d").stored = 100 ∧ (x.2.2.holding "d").lapsed = false ∧
      ((Call.latest "d").run serve 3 x.2).1.heldAnalysis? = some offered := by
  decide +kernel

end TrackStore

end Fleet
