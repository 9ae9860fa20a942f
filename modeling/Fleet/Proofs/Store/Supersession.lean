import Fleet.Proofs.Store.Latest
import Fleet.Proofs.Backend.Expiry

/-!
# Newer analyses stay

A stored analysis gives way to one that is no older, or it expires.  That its number has reached a
given one outlasts every store, until a request finds the analysis expired (`invariant_atLeast`).
The record of such requests is never read, so it can be begun at any time (`Incident.after_map`,
`Faulty.serve_remember`), and what holds until the first expiry holds between any two.

What a single save comes to is told by the analysis that is live when it looks:
`storeAnalysis_ensures`.  All of this together is `newer_stays`.
-/

namespace Fleet

open TrackPolicy (analysisKey)
open Query (Ensures)

/-! ## Numbers of stored analyses -/

/-- A stored value has a number. -/
def Wire.IsNumbered (value : Bytes) : Prop := ∃ n, sequence? value = some n

theorem Wire.isNumbered_write (a : TrackAnalysis) : IsNumbered (write a) :=
  ⟨a.sequence, sequence?_write a⟩

namespace Holding

/-- **Unless it was found expired, an analysis is stored whose number is at least `n`.** -/
def AtLeast (n : UInt64) (h : Holding) : Prop :=
  h.lapsed = false →
    ∃ e m, h.stored = some e ∧ Wire.sequence? e.value = some m ∧ n ≤ m

theorem outlasts_atLeast (n : UInt64) : Outlasts (AtLeast n) where
  trim hs _ := hs
  lapse _ hlapsed := nomatch hlapsed

/-- **A number that is reached is kept:** an analysis is stored only where the one that is there was
found, and has no higher number. -/
theorem atLeast_outlastsStore (n : UInt64) (a : TrackAnalysis) :
    OutlastsStore (AtLeast n) a := by
  intro h found hs hfound hnewest expiresAt hlapsed
  obtain ⟨e, m, he, hm, hle⟩ := hs hlapsed
  refine ⟨⟨Wire.write a, expiresAt⟩, a.sequence, rfl, Wire.sequence?_write a, ?_⟩
  cases found with
  | none => exact nomatch he.symm.trans hfound.eq_none
  | some b =>
    obtain ⟨e', he', hread⟩ := hfound.eq_some
    obtain rfl := Option.some.inj (he.symm.trans he')
    obtain rfl := Option.some.inj (hm.symm.trans (Wire.sequence?_of_read? hread))
    exact UInt64.le_trans hle (hnewest b rfl)

end Holding

/-! ## The record of expiries -/

namespace Faulty

/-- The backend with an older record of expiries behind its own. -/
def remember (old : List String) (f : Faulty) : Faulty := { f with lapsed := f.lapsed ++ old }

/-- The record is not read. -/
theorem serve_remember (fates : Nat → Fate) (old : List String) (f : Faulty) (r : Request) :
    serve fates (f.remember old) r =
      ((serve fates f r).1, (serve fates f r).2.remember old) := by
  have hasked : (f.remember old).asked = f.asked := rfl
  rw [serve, serve, hasked]
  cases fates f.asked with
  | failed cause => rfl
  | stalled => rfl
  | served now =>
    cases r with
    | get key =>
      have hmemory : (f.remember old).memory = f.memory := rfl
      simp only [carryOut, note, hmemory]
      split <;> rfl
    | _ => rfl

end Faulty

namespace TrackStore

variable {p : TrackPolicy} {fates : Nat → Fate}

/-- **Stored analyses have numbers** after every history, whether or not they can be read. -/
theorem numbered_after (p : TrackPolicy) (fates : Nat → Fate) (history : List Incident) :
    Obeys p (fun _ _ h => h.Meets (fun _ => True) Wire.IsNumbered)
      (Incident.after (Faulty.serve fates) (new p, {}) history) :=
  (invariant_meets (fun _ _ a _ _ => Wire.isNumbered_write a) fates).after
    (obeys_new p fun _ => Holding.Meets.empty _ _)
    (Incident.allAdmitted_of_forall (fun _ _ _ _ _ => trivial)
      (fun _ _ a _ => Wire.isNumbered_write a) _)

/-- A number that is reached is kept by everything that can happen. -/
theorem invariant_atLeast (n : UInt64) (p : TrackPolicy) (fates : Nat → Fate) :
    Invariant p fates (fun _ _ _ => True) (fun _ _ _ => True) fun _ _ => Holding.AtLeast n :=
  (invariant_of_outlasts (Holding.outlasts_atLeast n)
      (fun _ _ a _ _ => Holding.atLeast_outlastsStore n a) fates).restrict
    (fun _ _ _ _ _ hs => hs) fun a _ _ _ => Holding.atLeast_outlastsStore n a

/-- **Between two expiries the number of a stored analysis does not fall.** -/
theorem sequence_le_after {s : TrackStore × Faulty}
    (hs : Obeys p (fun _ _ h => h.Meets (fun _ => True) Wire.IsNumbered) s)
    (history : List Incident) (d : String) :
    ∃ found, (Incident.after (Faulty.serve fates) s history).2.lapsed = found ++ s.2.lapsed ∧
      (analysisKey d ∉ found → ∀ e, (s.2.holding d).stored = some e → ∃ n e' n',
        Wire.sequence? e.value = some n ∧
        ((Incident.after (Faulty.serve fates) s history).2.holding d).stored = some e' ∧
        Wire.sequence? e'.value = some n' ∧ n ≤ n') := by
  -- the record is begun anew, so that it tells only what the history finds expired
  let fresh : TrackStore × Faulty := (s.1, { s.2 with lapsed := [] })
  have hmap : Incident.after (Faulty.serve fates) s history =
      ((Incident.after (Faulty.serve fates) fresh history).1,
        (Incident.after (Faulty.serve fates) fresh history).2.remember s.2.lapsed) :=
    Incident.after_map (Faulty.serve_remember fates s.2.lapsed) fresh history
  rw [hmap]
  refine ⟨(Incident.after (Faulty.serve fates) fresh history).2.lapsed, rfl, ?_⟩
  intro hfound e he
  obtain ⟨n, hn⟩ := (hs.each d).stored e he
  have hstart : Obeys p (fun d' _ h => d' = d → h.AtLeast n) fresh := by
    refine ⟨hs.policy_eq, hs.atRest, ?_⟩
    rintro d' rfl -
    exact ⟨e, n, he, hn, UInt64.le_refl n⟩
  have hadmitted : Incident.AllAdmitted fates (fun q _ _ => q.driverId = d → True)
      (fun a _ _ => a.driverId = d → True) fresh history :=
    Incident.allAdmitted_of_forall (by intros; trivial) (by intros; trivial) fresh
  have hend := ((invariant_atLeast n p fates).only d).after hstart hadmitted
  obtain ⟨e', n', he', hn', hle⟩ := hend.each d rfl (by simpa [Faulty.holding] using hfound)
  exact ⟨n, e', n', hn, he', hn', hle⟩

end TrackStore

/-! ## One save -/

/-- **Nothing was stored for a driver:** the stored analysis is as it was, or the next request found
it expired. -/
def Faulty.Unstored (fates : Nat → Fate) (d : String) (f g : Faulty) : Prop :=
  (g.holding d).stored = (f.holding d).stored ∨
    ∃ t, fates f.asked = .served t ∧ (g.holding d).stored = f.memory.live t (analysisKey d)

/-- **The next request looked up the driver's analysis** at the time `t`, and left what was live. -/
structure Faulty.LooksUp (fates : Nat → Fate) (d : String) (f : Faulty) (t : Duration)
    (g : Faulty) : Prop where
  served : fates f.asked = .served t
  asked_eq : g.asked = f.asked + 1
  stored_eq : (g.holding d).stored = f.memory.live t (analysisKey d)

theorem Faulty.LooksUp.unstored {fates : Nat → Fate} {d : String} {f g : Faulty} {t : Duration}
    (h : f.LooksUp fates d t g) : f.Unstored fates d g := .inr ⟨t, h.served, h.stored_eq⟩

/-- At the time `t` no analysis is live that has a higher number than `a`. -/
def Faulty.GivesWay (f : Faulty) (t : Duration) (a : TrackAnalysis) : Prop :=
  ∀ e, f.memory.live t (analysisKey a.driverId) = some e →
    ∃ n, Wire.sequence? e.value = some n ∧ n ≤ a.sequence

/-- **A conditional store was decided.**  The analysis `a` takes the place of the one that is live
when it is looked up, if that one gives way.  Else all stays as it is. -/
def Faulty.Decided (fates : Nat → Fate) (p : TrackPolicy) (a : TrackAnalysis) (f : Faulty)
    (done : Bool) (g : Faulty) : Prop :=
  ∃ t, fates f.asked = .served t ∧ (done = true ↔ f.GivesWay t a) ∧
    if done then ∃ written, fates (f.asked + 1) = .served written ∧
      (g.holding a.driverId).stored = some ⟨Wire.write a, written.add? p.analysisTtl⟩
    else (g.holding a.driverId).stored = (f.holding a.driverId).stored

/-- A look-up that is carried out leaves the analysis that is live. -/
theorem Faulty.stored_get (t : Duration) (f : Faulty) (d : String) :
    ((f.carryOut t (.get (analysisKey d))).holding d).stored =
      f.memory.live t (analysisKey d) := by
  have hafter := congrArg Prod.snd (perform_get t f d)
  have hlive : f.memory.live t (analysisKey d) =
      (f.holding d).stored.filter fun e => !Memory.isExpired t e := rfl
  dsimp only at hafter
  rw [hafter, hlive, Holding.perform, Holding.hasExpired]
  cases hstored : (f.holding d).stored with
  | none => simp [hstored]
  | some e => cases hexpired : Memory.isExpired t e <;> simp [hstored, hexpired, Option.filter_some]

namespace TrackPolicy

variable {σ : Type} (fates : Nat → Fate) (p : TrackPolicy) (f : Faulty)

/-- What a look-up comes to, told by what is live when it is carried out. -/
theorem latestAnalysis_ensures (d : String) :
    (latestAnalysis d).Ensures (Faulty.serve fates) (fun (_ : σ) g => g = f)
      (fun found _ g => (∃ t, f.LooksUp fates d t g) ∧ (g.holding d).Finds found)
      fun _ g => f.Unstored fates d g := by
  have hget : (Query.request (.get (analysisKey d))).Ensures (Faulty.serve fates)
      (fun (_ : σ) g => g = f)
      (fun (record : Option Bytes) _ g =>
        (∃ t, f.LooksUp fates d t g) ∧ (g.holding d).stored.map Expiring.value = record)
      fun _ g => f.Unstored fates d g := by
    apply Ensures.request
    rintro - g rfl
    unfold Faulty.serve
    cases hfate : fates g.asked with
    | failed cause => exact .inl rfl
    | stalled => exact .inl rfl
    | served t =>
      refine ⟨⟨t, hfate, rfl, g.stored_get t d⟩, ?_⟩
      rw [Faulty.stored_get]
      exact (g.memory.perform_get (analysisKey d)).symm
  exact latestAnalysis_of_get hget fun _ _ ⟨_, hlook⟩ => hlook.unstored

/-- **What the conditional store comes to,** whatever the fates of its requests. -/
theorem storeAnalysis_ensures (a : TrackAnalysis) :
    (p.storeAnalysis a).Ensures (Faulty.serve fates) (fun (_ : σ) g => g = f)
      (fun done _ g => f.Decided fates p a done g)
      fun _ g => f.Unstored fates a.driverId g := by
  have hset : (do
        Query.request (.set (analysisKey a.driverId) (Wire.write a) (some p.analysisTtl))
        return true : Query σ Bool).Ensures (Faulty.serve fates)
      (fun _ g => ∃ t, f.LooksUp fates a.driverId t g ∧ f.GivesWay t a)
      (fun done _ g => f.Decided fates p a done g)
      fun _ g => f.Unstored fates a.driverId g := by
    have hrequest : (Query.request
        (.set (analysisKey a.driverId) (Wire.write a) (some p.analysisTtl))).Ensures
        (Faulty.serve fates)
        (fun (_ : σ) g => ∃ t, f.LooksUp fates a.driverId t g ∧ f.GivesWay t a)
        (fun _ _ g => f.Decided fates p a true g) fun _ g => f.Unstored fates a.driverId g := by
      apply Ensures.request
      rintro - g ⟨t, hlook, hgives⟩
      unfold Faulty.serve
      cases hfate : fates g.asked with
      | failed cause => exact hlook.unstored
      | stalled => exact hlook.unstored
      | served written =>
        refine ⟨t, hlook.served, iff_of_true rfl hgives, written, hlook.asked_eq ▸ hfate, ?_⟩
        rw [Faulty.holding_set]
        rfl
    exact hrequest.bind fun _ => Ensures.pure fun _ _ hs => hs
  refine (latestAnalysis_ensures fates f a.driverId).bind fun found => ?_
  cases found with
  | none =>
    refine hset.weaken_pre fun _ g ⟨⟨t, hlook⟩, hfinds⟩ => ⟨t, hlook, fun e he => ?_⟩
    rw [← hlook.stored_eq, hfinds.eq_none] at he
    cases he
  | some b =>
    refine Ensures.ite (fun hnewer => ?_) fun hnewest => ?_
    · refine Ensures.pure fun _ g ⟨⟨t, hlook⟩, hfinds⟩ => ⟨t, hlook.served, ?_, ?_⟩
      · obtain ⟨e, he, hread⟩ := hfinds.eq_some
        refine iff_of_false nofun fun hgives => ?_
        obtain ⟨n, hn, hle⟩ := hgives e (hlook.stored_eq ▸ he)
        obtain rfl := Option.some.inj (hn.symm.trans (Wire.sequence?_of_read? hread))
        exact UInt64.not_lt.mpr hle hnewer
      · obtain ⟨e, he, -⟩ := hfinds.eq_some
        -- what is live is what is stored
        have hlive : ((f.holding a.driverId).stored.filter fun e => !Memory.isExpired t e) =
            some e := hlook.stored_eq.symm.trans he
        exact he.trans (Option.filter_eq_some_iff.mp hlive).1.symm
    · refine hset.weaken_pre fun _ g ⟨⟨t, hlook⟩, hfinds⟩ => ⟨t, hlook, fun e he => ?_⟩
      obtain ⟨e', he', hread⟩ := hfinds.eq_some
      obtain rfl := Option.some.inj ((hlook.stored_eq ▸ he').symm.trans he)
      exact ⟨b.sequence, Wire.sequence?_of_read? hread, UInt64.not_lt.mp hnewest⟩

end TrackPolicy

theorem Duration.pos_of_ne_zero {d : Duration} (h : d ≠ .zero) : 0 < d.nanos := by
  obtain ⟨_ | n, _⟩ := d
  · exact absurd rfl h
  · exact Nat.succ_pos n

/-- A value that was set for a time is not expired before that time is over. -/
theorem Memory.isExpired_of_lt {written ttl u : Duration} (h : u.nanos < written.nanos + ttl.nanos)
    (value : Bytes) : Memory.isExpired u ⟨value, written.add? ttl⟩ = false := by
  unfold Memory.isExpired Duration.add?
  split_ifs
  · exact decide_eq_false (Nat.not_le.mpr h)
  · rfl

/-- Whether an analysis that was offered was stored. -/
def Depot.Answer.decision? : Depot.Answer → Option Bool
  | .saved (.ok done) => some done
  | _ => none

theorem Depot.Answer.eq_saved {x : Depot.Answer} {done : Bool} (h : x.decision? = some done) :
    x = .saved (.ok done) := by
  unfold decision? at h
  split at h
  · rw [Option.some.inj h]
  · cases h

namespace TrackStore

variable {p : TrackPolicy}

/-- A save is answered once it is decided, or nothing was stored. -/
theorem save_decided {st : TrackStore} {f : Faulty} (fates : Nat → Fate) (hfree : st.held = none)
    (now : Timestamp) (a : TrackAnalysis) :
    let x := (Act.save a).run (Faulty.serve fates) now (st, f)
    (∃ done, x.1 = .saved (.ok done) ∧ f.Decided fates st.policy a done x.2.2) ∨
      (∀ done, x.1 ≠ .saved (.ok done)) ∧ f.Unstored fates a.driverId x.2.2 := by
  have hsave : Settles (fun done _ g => f.Decided fates st.policy a done g)
      (fun _ g => f.Unstored fates a.driverId g)
      (st.run (Faulty.serve fates) f (st.policy.save a)) := by
    apply settles_run_of_free hfree
    exact TrackPolicy.storeAnalysis_ensures fates st.policy f a (st.slotOf a.driverId) f rfl
  simp only [Act.run]
  generalize st.run (Faulty.serve fates) f (st.policy.save a) = y at hsave ⊢
  obtain ⟨⟨e | done⟩ | _, st', g⟩ := y
  · exact .inr ⟨fun done hdone => (by cases hdone), hsave⟩
  · exact .inl ⟨done, rfl, hsave⟩
  · exact .inr ⟨fun done hdone => (by cases hdone), hsave⟩

/-- **A newer analysis stays.**  After every history of a store on a backend in memory, restarts
included, whatever the fates of the requests:

* From there on, until a request finds the driver's analysis expired, the number of the stored
  analysis does not fall.
* A save that is answered stores its analysis exactly if none is live when it looks, or the one that
  is live has no higher number.
* A stored analysis of finite numbers is read back, as it was written, by a look-up that is carried
  out while it lives.
* A save that stores nothing leaves what is stored as it is, except that it may drop an analysis
  that has expired. -/
theorem newer_stays (httl : p.analysisTtl ≠ .zero) (fates : Nat → Fate)
    (earlier later : List Incident) (d : String) (now : Timestamp) {a : TrackAnalysis}
    (ha : a.IsFinite) (hcount : a.anomalyCount < 2 ^ 64) :
    let serve := Faulty.serve fates
    let s := Incident.after serve (new p, {}) earlier
    let s' := Incident.after serve s later
    let x := (Act.save a).run serve now s
    let before := (s.2.holding a.driverId).stored
    let stored := (x.2.2.holding a.driverId).stored
    (∃ found, s'.2.lapsed = found ++ s.2.lapsed ∧
      (analysisKey d ∉ found → ∀ e, (s.2.holding d).stored = some e → ∃ n e' n',
        Wire.sequence? e.value = some n ∧ (s'.2.holding d).stored = some e' ∧
          Wire.sequence? e'.value = some n' ∧ n ≤ n')) ∧
    (∀ done, x.1 = .saved (.ok done) → ∃ t, fates s.2.asked = .served t ∧
      (done = true ↔ ∀ e, s.2.memory.live t (analysisKey a.driverId) = some e →
        ∃ n, Wire.sequence? e.value = some n ∧ n ≤ a.sequence)) ∧
    (x.1 = .saved (.ok true) → ∃ b written, Wire.read? (Wire.write a) = some b ∧
      fates (s.2.asked + 1) = .served written ∧
      stored = some ⟨Wire.write a, written.add? p.analysisTtl⟩ ∧
      ∀ moment u, fates x.2.2.asked = .served u →
        u = written ∨ u.nanos < written.nanos + p.analysisTtl.nanos →
        ((Call.latest a.driverId).run serve moment x.2).1 = .latest (.ok (some b))) ∧
    (x.1 = .saved (.ok false) → stored = before) ∧
    (x.1 ≠ .saved (.ok true) → stored = before ∨
      ∃ t, fates s.2.asked = .served t ∧
        stored = s.2.memory.live t (analysisKey a.driverId)) := by
  intro serve s s' x before stored
  have hs : Obeys p (fun _ _ h => h.Meets (fun _ => True) Wire.IsNumbered) s :=
    numbered_after p fates earlier
  have hsave := save_decided fates hs.atRest.free now (f := s.2) a
  rw [hs.policy_eq] at hsave
  have hdecided : ∀ done, x.1 = .saved (.ok done) → s.2.Decided fates p a done x.2.2 := by
    intro done hdone
    obtain ⟨done', hanswer, hdecided⟩ | ⟨hnone, -⟩ := hsave
    · cases hanswer.symm.trans hdone
      exact hdecided
    · exact absurd hdone (hnone done)
  refine ⟨sequence_le_after hs later d, fun done hdone => ?_, fun hdone => ?_, fun hdone => ?_,
    fun hnone => ?_⟩
  · obtain ⟨t, hserved, hiff, -⟩ := hdecided done hdone
    exact ⟨t, hserved, hiff⟩
  · obtain ⟨-, -, -, written, hwritten, hstored⟩ := hdecided true hdone
    obtain ⟨b, hb⟩ := Wire.exists_read?_analysis ha hcount
    refine ⟨b, written, hb, hwritten, hstored, fun moment u hserved hu => ?_⟩
    have hlives : u.nanos < written.nanos + p.analysisTtl.nanos := by
      rcases hu with rfl | hu
      · exact Nat.lt_add_of_pos_right (Duration.pos_of_ne_zero httl)
      · exact hu
    exact latest_of_served hserved hstored (Memory.isExpired_of_lt hlives _) hb moment
  · obtain ⟨-, -, -, hkept⟩ := hdecided false hdone
    exact hkept
  · rcases hsave with ⟨done, hanswer, -, -, -, hkept⟩ | ⟨-, hunstored⟩
    · cases done with
      | false => exact .inl hkept
      | true => exact absurd hanswer hnone
    · exact hunstored

open Crowd (standstill smallWindow)

/-- After an append an analysis with number 7 is saved, and then one with number 3 is offered. -/
theorem newer_stays_after_append :
    let serve := Faulty.serve fun _ => .served .zero
    let offered : TrackAnalysis := { TrackAnalysis.insufficient "d" [] 0 with sequence := 7 }
    let s := Incident.after serve (new smallWindow, {}) [.act 0 (.call (.append standstill))]
    let x := (Act.save offered).run serve 1 s
    let s' := Incident.after serve s
      [.act 1 (.save offered), .restart, .act 2 (.save { offered with sequence := 3 })]
    x.1 = .saved (.ok true) ∧
      (∃ b, Wire.read? (Wire.write offered) = some b ∧
        ((Call.latest "d").run serve 2 x.2).1 = .latest (.ok (some b))) ∧
      ∃ e n e' n', (s.2.holding "d").stored = some e ∧ Wire.sequence? e.value = some n ∧
        (s'.2.holding "d").stored = some e' ∧ Wire.sequence? e'.value = some n' ∧ n ≤ n' := by
  intro serve offered s x s'
  have hempty : (TrackAnalysis.insufficient "d" [] 0).IsFinite :=
    TrackAnalysis.isFinite_insufficient fun _ hq => nomatch hq
  have hfinite : offered.IsFinite := { hempty with }
  have hcount : offered.anomalyCount < 2 ^ 64 := by decide
  have httl : smallWindow.analysisTtl ≠ .zero := by decide
  obtain ⟨⟨found, hlapsed, hnumbers⟩, -, hread, -, -⟩ := newer_stays (p := smallWindow) httl
    (fun _ => .served .zero) [.act 0 (.call (.append standstill))]
    [.act 1 (.save offered), .restart, .act 2 (.save { offered with sequence := 3 })] "d" 1
    hfinite hcount
  have hsaved : x.1 = .saved (.ok true) := Depot.Answer.eq_saved (by decide +kernel)
  obtain ⟨b, written, hb, hwritten, -, hlatest⟩ := hread hsaved
  have hnever : found ++ s.2.lapsed = [] := hlapsed.symm.trans (by decide +kernel)
  have hnone : analysisKey "d" ∉ found := by
    rw [(List.append_eq_nil_iff.mp hnever).1]
    exact List.not_mem_nil
  obtain ⟨e, he⟩ : ∃ e, (s.2.holding "d").stored = some e :=
    Option.isSome_iff_exists.mp (by decide +kernel)
  obtain ⟨n, e', n', hn, he', hn', hle⟩ := hnumbers hnone e he
  refine ⟨hsaved, ⟨b, hb, hlatest 2 .zero rfl (.inl ?_)⟩, e, n, e', n', he, hn, he', hn', hle⟩
  cases hwritten
  rfl

/-- The older analysis is refused. -/
example :
    let serve := Faulty.serve fun _ => .served .zero
    let offered : TrackAnalysis := { TrackAnalysis.insufficient "d" [] 0 with sequence := 7 }
    let s := Incident.after serve (new smallWindow, {}) [.act 0 (.save offered)]
    ((Act.save { offered with sequence := 3 }).run serve 1 s).1.decision? = some false := by
  decide +kernel

end TrackStore

end Fleet
