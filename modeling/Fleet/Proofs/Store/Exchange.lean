import Fleet.Proofs.Store.Assured

/-!
# Operations and what they leave uncovered

The requests to a backend and what became of them are written down, exchange by exchange
(`recording`), and `Behind` reads off that record which drivers have points that no stored analysis
covers.  Under a lease the slot is dirty just if its driver is behind, wherever the operation ends:
at a failure, at a request that is never answered, or at its result.  One lemma for each operation
says so, for backends of any kind: `appendLeased_settles`, `currentAnalysis_settles` and
`storeAnalysis_settles`.
-/

namespace Fleet

open TrackPolicy (pointsKey analysisKey)
open Query (Ensures)

/-! ## The record of exchanges -/

namespace Request

/-- The list that a push is for. -/
def pushedKey? : Request → Option String
  | .pushFront key _ => some key
  | _ => none

/-- The key whose value a request sets. -/
def setKey? : Request → Option String
  | .set key _ _ => some key
  | _ => none

theorem pushedKey?_eq_none {r : Request} (h : r.isPush = false) : r.pushedKey? = none := by
  cases r <;> first | rfl | cases h

theorem setKey?_eq_none {r : Request} (h : r.isSet = false) : r.setKey? = none := by
  cases r <;> first | rfl | cases h

/-- A request about a driver pushes to no list but the driver's, and sets no analysis but its. -/
theorem About.keys {d : String} {r : Request} (h : r.About d) :
    (∀ key, r.pushedKey? = some key → key = pointsKey d) ∧
      ∀ key, r.setKey? = some key → key = analysisKey d := by
  cases r with
  | pushFront key value =>
    refine ⟨fun key' hkey => ?_, nofun⟩
    cases hkey
    exact h
  | set key value ttl =>
    refine ⟨nofun, fun key' hkey => ?_⟩
    cases hkey
    exact h
  | _ => exact ⟨nofun, nofun⟩

end Request

/-- **A request and what became of it.** -/
structure Exchange where
  /-- Whether it was made for an analysis that is offered to be stored. -/
  isSave : Bool
  request : Request
  /-- Whether the backend answered that it carried the request out. -/
  isCarriedOut : Bool

namespace Exchange

variable {d d' : String} {e : Exchange}

/-- A point was put in front of a driver's log. -/
def Pushes (d : String) (e : Exchange) : Prop :=
  e.isCarriedOut = true ∧ e.request.pushedKey? = some (pointsKey d)

/-- An analysis of a driver was stored by an append or a read. -/
def Covers (d : String) (e : Exchange) : Prop :=
  e.isCarriedOut = true ∧ e.isSave = false ∧ e.request.setKey? = some (analysisKey d)

instance : Decidable (e.Pushes d) := inferInstanceAs (Decidable (_ ∧ _))

instance : Decidable (e.Covers d) := inferInstanceAs (Decidable (_ ∧ _))

theorem not_pushes_of_isPush (h : e.request.isPush = false) : ¬e.Pushes d := fun hpushes =>
  nomatch (Request.pushedKey?_eq_none h).symm.trans hpushes.2

theorem not_covers_of_isSet (h : e.request.isSet = false) : ¬e.Covers d := fun hcovers =>
  nomatch (Request.setKey?_eq_none h).symm.trans hcovers.2.2

/-- An exchange about a driver is nothing to the others. -/
theorem not_of_about (h : e.request.About d) (hne : d ≠ d') : ¬e.Pushes d' ∧ ¬e.Covers d' :=
  ⟨fun hpushes => hne (pointsKey_inj.mp (h.keys.1 _ hpushes.2)).symm,
    fun hcovers => hne (analysisKey_inj.mp (h.keys.2 _ hcovers.2.2)).symm⟩

end Exchange

/-- **A driver is behind** if a point reached its log, and no analysis of it was stored by an append
or a read since.  The newest exchange comes first. -/
def Behind (d : String) (exchanges : List Exchange) : Prop :=
  ∃ later e earlier, exchanges = later ++ e :: earlier ∧ e.Pushes d ∧ ∀ e' ∈ later, ¬e'.Covers d

theorem not_behind_nil (d : String) : ¬Behind d [] := by
  rintro ⟨later, e, earlier, hempty, -⟩
  cases later <;> cases hempty

theorem behind_cons {d : String} {e : Exchange} {exchanges : List Exchange} :
    Behind d (e :: exchanges) ↔ e.Pushes d ∨ ¬e.Covers d ∧ Behind d exchanges := by
  constructor
  · rintro ⟨later, e', earlier, heq, hpushes, hlater⟩
    cases later with
    | nil =>
      cases heq
      exact .inl hpushes
    | cons e'' later =>
      cases heq
      exact .inr ⟨hlater _ List.mem_cons_self, later, e', earlier, rfl, hpushes,
        fun x hx => hlater x (List.mem_cons_of_mem _ hx)⟩
  · rintro (hpushes | ⟨hcovers, later, e', earlier, rfl, hpushes, hlater⟩)
    · exact ⟨[], e, exchanges, rfl, hpushes, nofun⟩
    · exact ⟨e :: later, e', earlier, rfl, hpushes, List.forall_mem_cons.mpr ⟨hcovers, hlater⟩⟩

/-- A driver is behind as it was after an exchange that is nothing to it. -/
theorem behind_cons_of_not {d : String} {e : Exchange} {exchanges : List Exchange}
    (hpushes : ¬e.Pushes d) (hcovers : ¬e.Covers d) :
    Behind d (e :: exchanges) ↔ Behind d exchanges :=
  behind_cons.trans ((or_iff_right hpushes).trans (and_iff_right hcovers))

instance (d : String) : (exchanges : List Exchange) → Decidable (Behind d exchanges)
  | [] => isFalse (not_behind_nil d)
  | _ :: exchanges =>
    have := instDecidableBehind d exchanges
    decidable_of_iff' _ behind_cons

/-- A driver whose points never reached its log is not behind. -/
theorem not_behind_of_no_push {d : String} {exchanges : List Exchange}
    (h : ∀ e ∈ exchanges, ¬e.Pushes d) : ¬Behind d exchanges := by
  rintro ⟨later, e, earlier, rfl, hpushes, -⟩
  exact h e (by simp) hpushes

/-- **A backend whose exchanges are written down.** -/
structure Recorded (β : Type) where
  backend : β
  /-- Whether an analysis is offered to be stored. -/
  isSave : Bool := false
  /-- The exchanges, newest first. -/
  exchanges : List Exchange := []

section Recording

variable {β σ : Type} {serve : Server β}

/-- An exchange is written down. -/
def Recorded.note (x : Recorded β) (r : Request) (isCarriedOut : Bool) (after : β) : Recorded β :=
  { x with backend := after, exchanges := ⟨x.isSave, r, isCarriedOut⟩ :: x.exchanges }

/-- Whether a request was answered, and not with a failure. -/
def isServed {r : Request} : Option r.Result → Bool
  | some (.ok _) => true
  | _ => false

/-- **Serves as another server does,** and writes the exchange down. -/
def recording (serve : Server β) : Server (Recorded β) := fun x r =>
  ((serve x.backend r).1, x.note r (isServed (serve x.backend r).1) (serve x.backend r).2)

theorem serves_recording {r : Request} {x : Recorded β} {post : r.Reply → Recorded β → Prop}
    {stop : Recorded β → Prop} (hserved : ∀ reply after, post reply (x.note r true after))
    (hnot : ∀ after, stop (x.note r false after)) : Serves post stop (recording serve x r) := by
  unfold recording
  rcases serve x.backend r with ⟨_ | _ | reply, after⟩
  · exact hnot after
  · exact hnot after
  · exact hserved reply after

/-! ## Queries that only look things up -/

/-- **A property outlasts exchanges without effect:** those that were not carried out, look-ups and
trims. -/
def OutlastsIdle (known : σ → Recorded β → Prop) : Prop :=
  ∀ s x, known s x → ∀ (r : Request) isCarriedOut after,
    (isCarriedOut = true → r.isPush = false ∧ r.isSet = false) →
      known s (x.note r isCarriedOut after)

variable {known : σ → Recorded β → Prop} (hknown : OutlastsIdle known)
include hknown

/-- What was not carried out is without effect, whatever was asked. -/
theorem OutlastsIdle.unserved {s : σ} {x : Recorded β} (h : known s x) (r : Request) (after : β) :
    known s (x.note r false after) :=
  hknown s x h r false after fun hdone => absurd hdone Bool.false_ne_true

theorem Query.request_idle {r : Request} (hpush : r.isPush = false) (hset : r.isSet = false) :
    Ensures (recording serve) known (Query.request r) (fun _ => known) known :=
  Ensures.request fun _ _ hs => serves_recording
    (fun _ _ => hknown _ _ hs r true _ fun _ => ⟨hpush, hset⟩) fun after =>
      hknown.unserved hs r after

namespace TrackPolicy

variable {p : TrackPolicy} {d : String}

theorem latestAnalysis_idle :
    Ensures (recording serve) known (latestAnalysis d) (fun _ => known) known := by
  refine Ensures.bind (Query.request_idle hknown rfl rfl) fun record => ?_
  cases record with
  | none => exact Ensures.pure fun _ _ hs => hs
  | some bytes =>
    have hread : Ensures (recording serve) known (readable (Wire.read? bytes))
        (fun (_ : TrackAnalysis) => known) known :=
      Ensures.orFail (fun _ _ _ _ hs => hs) fun _ _ hs => hs
    exact hread.bind fun _ => Ensures.pure fun _ _ hs => hs

theorem recentPoints_idle (count : Nat) :
    Ensures (recording serve) known (recentPoints d count) (fun _ => known) known := by
  refine Ensures.bind (Query.request_idle hknown rfl rfl) fun records => ?_
  have hread : Ensures (recording serve) known (readable (records.mapM Wire.read?))
      (fun (_ : List TrackPoint) => known) known :=
    Ensures.orFail (fun _ _ _ _ hs => hs) fun _ _ hs => hs
  exact hread.bind fun _ => Ensures.pure fun _ _ hs => hs

theorem analyzeWindow_idle (now : Timestamp) (sequence : UInt64) :
    Ensures (recording serve) known (p.analyzeWindow now d sequence)
      (fun a s x => known s x ∧ a.driverId = d) known :=
  (recentPoints_idle hknown p.windowSize).bind fun window => Ensures.pure fun _ _ hs =>
    ⟨hs, p.driverId_analyze d window now⟩

/-- **The conditional store** has an effect only where it is done. -/
theorem storeAnalysis_records {stored : σ → Recorded β → Prop} {a : TrackAnalysis}
    (ha : a.driverId = d) (hstored : ∀ s x value ttl after, known s x →
      stored s (x.note (.set (analysisKey d) value ttl) true after)) :
    Ensures (recording serve) known (p.storeAnalysis a)
      (fun done s x => if done then stored s x else known s x) known := by
  subst ha
  have hrequest : Ensures (recording serve) known
      (Query.request (.set (analysisKey a.driverId) (Wire.write a) (some p.analysisTtl)))
      (fun _ => stored) known :=
    Ensures.request fun s x hs => serves_recording (fun _ after => hstored s x _ _ after hs)
      fun after => hknown.unserved hs _ after
  have hset : Ensures (recording serve) known
      (do
        Query.request (.set (analysisKey a.driverId) (Wire.write a) (some p.analysisTtl))
        return true)
      (fun (done : Bool) s x => if done then stored s x else known s x) known :=
    hrequest.bind fun _ => Ensures.pure fun _ _ hs => hs
  refine (latestAnalysis_idle hknown).bind fun found => ?_
  cases found with
  | none => exact hset
  | some stored => exact Ensures.ite (fun _ => Ensures.pure fun _ _ hs => hs) fun _ => hset

end TrackPolicy

end Recording

/-! ## Operations under their lease -/

section Leases

variable {β : Type} {d : String} {old : List Exchange} {isSave : Bool} {slot : Slot}
  {x : Recorded β}

/-- **An operation has not stored an analysis yet,** or it is one that does not count.  The slot is
dirty just if the driver is behind. -/
structure Open (d : String) (old : List Exchange) (isSave : Bool) (slot : Slot) (x : Recorded β) :
    Prop where
  isSave_eq : x.isSave = isSave
  isDirty_iff : slot.isDirty = true ↔ Behind d x.exchanges
  uncovered : ∃ new, x.exchanges = new ++ old ∧ ∀ e ∈ new, ¬e.Covers d

/-- **An operation has ended:** the slot is dirty just if the driver is behind, and clean if the
operation stored an analysis. -/
structure Settled (d : String) (old : List Exchange) (slot : Slot) (x : Recorded β) : Prop where
  isDirty_iff : slot.isDirty = true ↔ Behind d x.exchanges
  covered : ∃ new, x.exchanges = new ++ old ∧ ((∃ e ∈ new, e.Covers d) → slot.isDirty = false)

theorem Open.settled (h : Open d old isSave slot x) : Settled d old slot x := by
  obtain ⟨new, hnew, huncovered⟩ := h.uncovered
  exact ⟨h.isDirty_iff, new, hnew, fun ⟨e, he, hcovers⟩ => absurd hcovers (huncovered e he)⟩

/-- An exchange that is nothing to the driver changes nothing. -/
theorem Open.note (h : Open d old isSave slot x) {r : Request} {isCarriedOut : Bool}
    (hpushes : ¬Exchange.Pushes d ⟨x.isSave, r, isCarriedOut⟩)
    (hcovers : ¬Exchange.Covers d ⟨x.isSave, r, isCarriedOut⟩) (after : β) :
    Open d old isSave slot (x.note r isCarriedOut after) where
  isSave_eq := h.isSave_eq
  isDirty_iff := h.isDirty_iff.trans (behind_cons_of_not hpushes hcovers).symm
  uncovered := by
    obtain ⟨new, hnew, huncovered⟩ := h.uncovered
    exact ⟨_ :: new, congrArg (List.cons _) hnew, List.forall_mem_cons.mpr ⟨hcovers, huncovered⟩⟩

theorem outlastsIdle_open :
    OutlastsIdle (Open d old isSave : Slot → Recorded β → Prop) := by
  intro slot x h r isCarriedOut after hidle
  cases isCarriedOut with
  | false => exact h.note (fun ⟨hdone, _⟩ => nomatch hdone) (fun ⟨hdone, _⟩ => nomatch hdone) after
  | true =>
    obtain ⟨hpush, hset⟩ := hidle rfl
    exact h.note (Exchange.not_pushes_of_isPush hpush) (Exchange.not_covers_of_isSet hset) after

namespace TrackPolicy

variable {serve : Server β} {p : TrackPolicy}

/-- A slot is read. -/
theorem get_settles : Ensures (recording serve) (Open d old isSave) get
    (fun (_ : Slot) => Open d old isSave) (Settled d old) :=
  Ensures.get fun _ _ hs => hs

/-- Only the count of a slot is loaded. -/
theorem load_settles : Ensures (recording serve) (Open d old isSave) (load d)
    (fun _ => Open d old isSave) (Settled d old) := by
  have hcount : Ensures (recording serve) (Open d old isSave) (latestAnalysis d)
      (fun _ => Open d old isSave) (Settled d old) :=
    (latestAnalysis_idle outlastsIdle_open).weaken_stop fun _ _ hs => hs.settled
  refine Ensures.bind get_settles fun slot =>
    Ensures.ite (fun _ => Ensures.pure fun _ _ hs => hs) fun _ => ?_
  exact hcount.bind fun _ => Ensures.modify fun _ _ hs =>
    ⟨hs.isSave_eq, hs.isDirty_iff, hs.uncovered⟩

/-- **A fresh analysis that is stored leaves the slot clean** and the driver no longer behind. -/
theorem saveFresh_settles {a : TrackAnalysis} (ha : a.driverId = d) :
    Ensures (recording serve) (Open d old false) (p.saveFresh a) (fun _ => Settled d old)
      (Settled d old) := by
  have hstore : Ensures (recording serve) (Open d old false) (p.storeAnalysis a)
      (fun done (slot : Slot) x =>
        if done then ¬Behind d x.exchanges ∧ ∃ new, x.exchanges = new ++ old
        else Open d old false slot x)
      (Open d old false) := by
    refine storeAnalysis_records outlastsIdle_open ha fun slot x value ttl after h => ?_
    obtain ⟨new, hnew, -⟩ := h.uncovered
    refine ⟨fun hbehind => ?_, _ :: new, congrArg (List.cons _) hnew⟩
    obtain hpushes | ⟨hcovers, -⟩ := behind_cons.mp hbehind
    · exact Exchange.not_pushes_of_isPush rfl hpushes
    · exact hcovers ⟨rfl, h.isSave_eq, rfl⟩
  refine (hstore.weaken_stop fun _ _ hs => hs.settled).bind fun done =>
    Ensures.ite (fun hdone => ?_) fun hnot => ?_
  · subst hdone
    refine Ensures.modify fun slot x ⟨hcovered, new, hnew⟩ => ⟨?_, new, hnew, fun _ => rfl⟩
    exact ⟨nofun, fun hbehind => absurd hbehind hcovered⟩
  · rw [Bool.not_eq_true] at hnot
    subst hnot
    exact Ensures.pure fun _ _ hs => Open.settled hs

/-- The window is analyzed and the analysis saved. -/
theorem analyzeAndSave_settles (now : Timestamp) (sequence : UInt64) :
    Ensures (recording serve) (Open d old false)
      (do
        let analysis ← p.analyzeWindow now d sequence
        p.saveFresh analysis
        return analysis)
      (fun _ => Settled d old) (Settled d old) := by
  have hwindow : Ensures (recording serve) (Open d old false) (p.analyzeWindow now d sequence)
      (fun a (slot : Slot) x => Open d old false slot x ∧ a.driverId = d) (Open d old false) :=
    analyzeWindow_idle outlastsIdle_open now sequence
  refine (hwindow.weaken_stop fun _ _ hs => hs.settled).bind fun a =>
    Ensures.assume (fun _ _ hs => hs.2) fun ha => ?_
  exact ((saveFresh_settles ha).weaken_pre fun _ _ hs => hs.1).bind fun _ =>
    Ensures.pure fun _ _ hs => hs

/-- **An append** leaves a dirty slot just if its point was the last thing that counts. -/
theorem appendLeased_settles (now : Timestamp) {point : TrackPoint} (hd : point.driverId = d) :
    Ensures (recording serve) (Open d old false) (p.appendLeased now point)
      (fun _ => Settled d old) (Settled d old) := by
  rw [appendLeased, hd]
  -- between the push and the count the slot lags behind, but no request is made there
  have hpush : Ensures (recording serve) (Open d old false)
      (Query.request (.pushFront (pointsKey d) (Wire.write point)))
      (fun (_ : Nat) (slot : Slot) x => Open d old false { slot with isDirty := true } x)
      (Settled d old) := by
    refine Ensures.request fun slot x hs => serves_recording (fun _ after => ?_) fun after =>
      (outlastsIdle_open.unserved hs _ after).settled
    obtain ⟨new, hnew, huncovered⟩ := hs.uncovered
    refine ⟨hs.isSave_eq, ?_, _ :: new, congrArg (List.cons _) hnew,
      List.forall_mem_cons.mpr ⟨Exchange.not_covers_of_isSet rfl, huncovered⟩⟩
    exact ⟨fun _ => behind_cons.mpr (.inl ⟨rfl, rfl⟩), fun _ => rfl⟩
  have hcount : Ensures (recording serve)
      (fun (slot : Slot) (x : Recorded β) => Open d old false { slot with isDirty := true } x)
      (modify fun slot => { slot with sequence := slot.sequence + 1, isDirty := true })
      (fun _ => Open d old false) (Settled d old) :=
    Ensures.modify fun _ _ hs => ⟨hs.isSave_eq, hs.isDirty_iff, hs.uncovered⟩
  have hrest : Ensures (recording serve) (Open d old false)
      (do
        let slot ← get
        let analysis ← p.analyzeWindow now d slot.sequence
        p.saveFresh analysis
        return analysis)
      (fun _ => Settled d old) (Settled d old) :=
    Ensures.bind get_settles fun slot => analyzeAndSave_settles now slot.sequence
  have htrim : Ensures (recording serve) (Open d old false)
      (Query.request (.trim (pointsKey d) p.maxPointsRetained))
      (fun (_ : Nat) => Open d old false) (Settled d old : Slot → Recorded β → Prop) :=
    (Query.request_idle outlastsIdle_open rfl rfl).weaken_stop fun _ _ hs => hs.settled
  exact load_settles.bind fun _ => Ensures.bind hpush fun count => hcount.bind fun _ =>
    Ensures.ite (fun _ => Ensures.bind htrim fun _ => hrest) fun _ => hrest

/-- **A read** leaves a dirty slot just if it found one and stored nothing. -/
theorem currentAnalysis_settles (now : Timestamp) :
    Ensures (recording serve) (Open d old false) (p.currentAnalysis now d)
      (fun _ => Settled d old) (Settled d old) := by
  have hfound : Ensures (recording serve) (Open d old false) (latestAnalysis d)
      (fun _ => Open d old false) (Settled d old : Slot → Recorded β → Prop) :=
    (latestAnalysis_idle outlastsIdle_open).weaken_stop fun _ _ hs => hs.settled
  refine load_settles.bind fun _ => hfound.bind fun stored =>
    Ensures.bind get_settles fun slot => ?_
  split
  · exact Ensures.pure fun _ _ hs => hs.settled
  · exact analyzeAndSave_settles now slot.sequence

/-- **A save** stores what does not count: the slot stays as it is. -/
theorem storeAnalysis_settles {a : TrackAnalysis} (ha : a.driverId = d) :
    Ensures (recording serve) (Open d old true) (p.storeAnalysis a)
      (fun _ => Settled d old) (Settled d old : Slot → Recorded β → Prop) := by
  have hstore : Ensures (recording serve) (Open d old true) (p.storeAnalysis a)
      (fun done (slot : Slot) x => if done then Open d old true slot x else Open d old true slot x)
      (Open d old true) := by
    refine storeAnalysis_records outlastsIdle_open ha fun slot x value ttl after h => ?_
    refine h.note (Exchange.not_pushes_of_isPush rfl) ?_ after
    rintro ⟨-, hsave, -⟩
    rw [show x.isSave = true from h.isSave_eq] at hsave
    cases hsave
  refine hstore.weaken (fun _ _ hs => hs) (fun done _ _ hs => ?_) fun _ _ hs => hs.settled
  cases done <;> exact Open.settled hs

end TrackPolicy

end Leases

end Fleet
