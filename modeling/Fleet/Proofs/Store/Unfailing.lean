import Fleet.Proofs.Store.Rejection

/-!
# A depot whose backend never fails

On a backend in memory into which nothing is injected, every request is carried out at the time that
the clock shows, so a depot does what its store does where all requests are answered
(`Unfailing.alike`).  Where everything that was stored can be read back, a call of the depot is
refused with nothing changed or succeeds: `ingest_or_same` and `analyzed_or_same`.
-/

namespace Fleet

/-! ## Servers that answer alike -/

/-- **Two servers answer alike** if from related states they give the same answer and go on to
related states. -/
def AnswerAlike {β γ : Type} (serve : Server β) (serve' : Server γ) (R : β → γ → Prop) : Prop :=
  ∀ b c r, R b c → (serve b r).1 = (serve' c r).1 ∧ R (serve b r).2 (serve' c r).2

section Alike

variable {α β γ σ : Type} {serve : Server β} {serve' : Server γ} {R : β → γ → Prop}
  (halike : AnswerAlike serve serve' R) {b : β} {c : γ}
include halike

/-- A session is held alike with servers that answer alike. -/
theorem Session.run_alike (m : Session σ α) (h : R b c) :
    (m.run serve b).1 = (m.run serve' c).1 ∧ (m.run serve b).2.1 = (m.run serve' c).2.1 ∧
      R (m.run serve b).2.2 (m.run serve' c).2.2 := by
  induction m generalizing b c with
  | done state result => exact ⟨rfl, rfl, h⟩
  | ask state request resume ih =>
    obtain ⟨hanswer, hafter⟩ := halike b c request h
    rw [run, run]
    rcases hb : serve b request with ⟨_ | answer, b'⟩ <;>
      rcases hc : serve' c request with ⟨_ | answer', c'⟩ <;> rw [hb, hc] at hanswer hafter
    · exact ⟨rfl, rfl, hafter⟩
    · cases hanswer
    · cases hanswer
    · obtain rfl : answer = answer' := Option.some.inj hanswer
      exact ih answer hafter

/-- An operation is run alike against servers that answer alike. -/
theorem TrackStore.run_alike (st : TrackStore) (operation : Query Unit (Phase α)) (h : R b c) :
    (st.run serve b operation).1 = (st.run serve' c operation).1 ∧
      (st.run serve b operation).2.1 = (st.run serve' c operation).2.1 ∧
      R (st.run serve b operation).2.2 (st.run serve' c operation).2.2 := by
  obtain ⟨houtcome, -, hafter⟩ := (operation ()).run_alike halike h
  rw [run, run]
  rcases hb : (operation ()).run serve b with ⟨outcome, s, b'⟩
  rcases hc : (operation ()).run serve' c with ⟨outcome', s', c'⟩
  rw [hb, hc] at houtcome hafter
  obtain rfl : outcome = outcome' := houtcome
  rcases outcome with ⟨error | answer | ⟨driverId, rest⟩⟩ | _
  · exact ⟨rfl, rfl, hafter⟩
  · exact ⟨rfl, rfl, hafter⟩
  · dsimp only
    split
    · exact ⟨rfl, rfl, hafter⟩
    · obtain ⟨hresult, hslot, hend⟩ := (rest (st.slotOf driverId)).run_alike halike hafter
      exact ⟨hresult, congrArg (st.release driverId) hslot, hend⟩
  · exact ⟨rfl, rfl, hafter⟩

/-- A call leaves related states behind, and the same store. -/
theorem TrackStore.Call.run_alike (now : Timestamp) (st : TrackStore) (call : Call) (h : R b c) :
    (call.run serve now (st, b)).2.1 = (call.run serve' now (st, c)).2.1 ∧
      R (call.run serve now (st, b)).2.2 (call.run serve' now (st, c)).2.2 := by
  cases call with
  | append point => exact (st.run_alike halike _ h).2
  | ingest driverId point deadline => exact (st.run_alike halike _ h).2
  | recent driverId count => exact (st.run_alike halike _ h).2
  | latest driverId => exact (st.run_alike halike _ h).2
  | analyzed driverId count deadline => exact (st.run_alike halike _ h).2
  | deliver envelope =>
    simp only [Call.run, TrackStore.deliver]
    cases (Wire.read? envelope.payload : Option TrackPoint) with
    | none => exact ⟨rfl, h⟩
    | some point => exact (st.run_alike halike _ h).2

end Alike

/-! ## Backends that never fail -/

namespace Backend

/-- **A backend in memory into which nothing was injected,** with a record of what it did. -/
structure Unfailing (b : Backend) (f : Faulty) : Prop where
  storage_eq : b.storage = .memory f.memory
  running : b.stalled = false
  uninjected : ∀ m, b.pendingFailures m = 0
  available : f.memory.available = true

theorem unfailing_new : Unfailing { storage := .memory {} } {} where
  storage_eq := rfl
  running := rfl
  uninjected _ := rfl
  available := rfl

/-- **It serves every request at the time that the clock shows.** -/
theorem Unfailing.alike (clock : Clock) :
    AnswerAlike (serve clock) (Faulty.serve (.answering fun _ => clock.now)) Unfailing := by
  intro b f r h
  have havailable (m : Memory) (h : m.available = true) :
      (m.perform clock.now r).2.available = true := by
    cases r with
    | pushFront key value => exact h
    | range key count => exact h
    | set key value ttl => exact h
    | trim key keep =>
      simp only [Memory.perform]
      split <;> exact h
    | get key =>
      simp only [Memory.perform]
      split
      · exact h
      · split <;> exact h
  have hserve : b.serve clock r = (some (.ok (f.memory.perform clock.now r).1),
      { b with storage := .memory (f.memory.perform clock.now r).2 }) := by
    simp [serve, h.running, h.uninjected, h.storage_eq, Storage.serve, Memory.serve, h.available]
  rw [hserve]
  exact ⟨rfl, rfl, h.running, h.uninjected, havailable _ h.available⟩

end Backend

/-! ## Depots -/

namespace Depot

open TrackStore (Obeys Call HoldsAnalysis)

/-- **A depot that never fails,** and all that it holds are some points and readable analyses. -/
def Holds (p : TrackPolicy) (points : List TrackPoint) (d : Depot) : Prop :=
  ∃ f, d.backend.Unfailing f ∧
    Obeys p (fun _ _ h => h.Meets (WritesOf points) HoldsAnalysis) (d.store, f)

theorem holds_new (p : TrackPolicy) (points : List TrackPoint) :
    Holds p points { store := .new p, backend := { storage := .memory {} } } :=
  ⟨{}, Backend.unfailing_new, TrackStore.obeys_new p fun _ => Holding.Meets.empty _ _⟩

variable {p : TrackPolicy} {points : List TrackPoint} (hp : ∀ d, p.Legible d points) {d : Depot}
  (h : d.Holds p points) (clock : Clock)
include hp h

/-- **A call that brings nothing but these points** keeps the depot as it should be. -/
theorem Holds.run (call : Call)
    (hcall : ∀ q, call.point? = some q → q.isAcceptable = true → q ∈ points) :
    (d.run clock call.command).2.Holds p points := by
  obtain ⟨f, hf, hobeys⟩ := h
  obtain ⟨hstore, hafter⟩ := call.run_alike (Backend.Unfailing.alike clock) clock.timestamp
    d.store hf
  rw [Call.run_command]
  refine ⟨_, hafter, ?_⟩
  have hinvariant := TrackStore.invariant_meets (TrackStore.analyzes_of_legible hp)
    (.answering fun _ => clock.now)
  have hkept := hinvariant.run hobeys clock.timestamp (a := .call call)
    fun q hq haccepted => ⟨q, hcall q hq haccepted, rfl⟩
  dsimp only
  rw [hstore]
  exact hkept

omit hp in
/-- An operation has the outcome that it has where every request is answered. -/
theorem Holds.perform_eq {α : Type} {operation : Query Unit (Phase α)} {P : Outcome α → Prop}
    (hanswered : ∀ f, Obeys p (fun _ _ h => h.Meets (WritesOf points) HoldsAnalysis) (d.store, f) →
      P (d.store.run (Faulty.serve (.answering fun _ => clock.now)) f operation).1) :
    P (d.perform clock operation).1 := by
  obtain ⟨f, hf, hobeys⟩ := h
  have hrun := (d.store.run_alike (Backend.Unfailing.alike clock) operation hf).1
  show P (d.store.run (Backend.serve clock) d.backend operation).1
  rw [hrun]
  exact hanswered f hobeys

omit hp h in
/-- An operation that is refused at once leaves the depot as it is. -/
theorem perform_throw {α : Type} (d : Depot) (e : FleetError) :
    d.perform clock (throw e : Query Unit (Phase α)) = (.finished (.error e), d) := rfl

/-- **A point is taken in, or it is refused with nothing changed.** -/
theorem Holds.ingest_or_same {point : TrackPoint}
    (hpoint : point.isAcceptable = true → point ∈ points) :
    (∃ a, (d.ingest clock point.driverId point).1 = .finished (.ok a)) ∨
      ∃ e, d.ingest clock point.driverId point = (.finished (.error e), d) := by
  have hpolicy : d.store.policy = p := h.elim fun _ hf => hf.2.policy_eq
  rw [ingest, hpolicy]
  rcases p.ingest_cases clock.timestamp point.driverId point with ⟨e, hrefused⟩ | ⟨-, happend⟩
  · rw [hrefused]
    exact .inr ⟨e, perform_throw ..⟩
  · rw [happend]
    cases haccepted : point.isAcceptable with
    | false =>
      obtain ⟨e, hrefused⟩ := p.append_of_not_isAcceptable clock.timestamp haccepted
      rw [hrefused]
      exact .inr ⟨e, perform_throw ..⟩
    | true =>
      refine .inl (h.perform_eq clock (P := fun outcome => ∃ a, outcome = .finished (.ok a)) ?_)
      exact fun f hobeys => TrackStore.append_of_legible hp (hobeys.each _) hobeys.atRest.free
        clock.timestamp rfl haccepted (hpoint haccepted)

/-- **A track is read, or the read is refused with nothing changed.** -/
theorem Holds.analyzed_or_same (driverId : String) (count : Nat) :
    (∃ found, (d.analyzed clock driverId count).1 = .finished (.ok found)) ∨
      ∃ e, d.analyzed clock driverId count = (.finished (.error e), d) := by
  have hpolicy : d.store.policy = p := h.elim fun _ hf => hf.2.policy_eq
  rw [analyzed, hpolicy]
  rcases p.analyzed_refused_or clock.timestamp driverId count with ⟨e, hrefused⟩ | ⟨hd, hcount⟩
  · rw [hrefused]
    exact .inr ⟨e, perform_throw ..⟩
  · refine .inl (h.perform_eq clock
      (P := fun outcome => ∃ found, outcome = .finished (.ok found)) ?_)
    exact fun f hobeys => TrackStore.analyzed_of_legible hp (hobeys.each _) hobeys.atRest.free
      clock.timestamp hd hcount

end Depot

end Fleet
