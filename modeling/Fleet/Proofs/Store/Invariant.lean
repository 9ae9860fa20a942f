import Fleet.Proofs.Store.Isolation

/-!
# Invariants of drivers

What an operation leads to under the lease of a slot, said of the store after it, and what follows
for whole histories.  A property of a driver's slot and of what the backend holds of the driver is
an `Invariant` if it outlives the loss of the slot and the expiry of the stored analysis, and if
appends, reads and saves keep it under their lease, whatever the fates of their requests; points and
saved analyses may be restricted by the state that they meet.  An invariant holds of every driver
after every history, restarts included: `Invariant.after`.
-/

namespace Fleet

open Query (Ensures Leads)

/-- **A slot is kept** by a store between operations only if it is dirty.  Else it is a new one. -/
def Slot.IsKept (s : Slot) : Prop := s.isDirty = false → s = {}

namespace TrackStore

variable {p : TrackPolicy} {fates : Nat → Fate} {st : TrackStore} {f : Faulty} {d : String}

/-! ## Operations of a store -/

section Operations

variable {α : Type}

/-- What is left to show of an operation once its first part is over, where no slot is out on
lease. -/
def PhaseEnds {β : Type} (serve : Server β) (st : TrackStore) (post : α → TrackStore → β → Prop)
    (stop : TrackStore → β → Prop) : Phase α → β → Prop
  | .answered a, b => post a st b
  | .leased d rest, b =>
    Settles (fun a slot => post a (st.release d slot)) (fun slot => stop (st.release d slot))
      ((rest (st.slotOf d)).run serve b)

/-- An operation settles if its two parts do, where no slot is out on lease. -/
theorem settles_run_of_free {β : Type} {serve : Server β} {b : β}
    {operation : Query Unit (Phase α)} {post : α → TrackStore → β → Prop}
    {stop : TrackStore → β → Prop} (hfree : st.held = none)
    (h : Settles (fun phase _ b => PhaseEnds serve st post stop phase b) (fun _ => stop st)
      ((operation ()).run serve b)) :
    Settles post stop (st.run serve b operation) := by
  rw [run]
  rcases hrun : (operation ()).run serve b with ⟨⟨_ | answer | ⟨d, rest⟩⟩ | _, _, b'⟩ <;>
    rw [hrun] at h
  · exact h
  · exact h
  · have hnotHeld : st.held ≠ some d := by
      rw [hfree]
      intro hheld
      cases hheld
    show Settles post stop (if st.held = some d then _ else _)
    rw [if_neg hnotHeld]
    have hrest : Settles _ _ ((rest (st.slotOf d)).run serve b') := h
    rcases hend : (rest (st.slotOf d)).run serve b' with ⟨⟨_ | a⟩ | _, slot, b''⟩ <;>
      · rw [hend] at hrest
        exact hrest
  · exact h

/-- **The rule for leases.**  What a query on a driver leads to under the lease of its slot is what
store and backend have come to once the slot is given back. -/
theorem settles_leased {rest : Query Slot α} {pre stop : Slot → Holding → Prop}
    {post : α → Slot → Holding → Prop} (hrest : Leads fates d pre rest post stop)
    (h : pre (st.slotOf d) (f.holding d)) (hfree : st.held = none) :
    Settles (fun a st' f' => ∃ slot, st' = st.release d slot ∧ post a slot (f'.holding d))
      (fun st' f' => ∃ slot, st' = st.release d slot ∧ stop slot (f'.holding d))
      (st.run (Faulty.serve fates) f (pure (.leased d rest))) := by
  apply settles_run_of_free hfree
  show Settles _ _ ((rest (st.slotOf d)).run (Faulty.serve fates) f)
  exact (hrest (st.slotOf d) f h).imp (fun a slot f' hs => ⟨slot, rfl, hs⟩)
    fun slot f' hs => ⟨slot, rfl, hs⟩

/-- The rule for look-ups, which need no lease: the store stays as it is. -/
theorem settles_lookUp {q : Query Unit α} {pre stop : Holding → Prop} {post : α → Holding → Prop}
    (hq : Leads fates d (fun _ => pre) q (fun a _ => post a) fun _ => stop)
    (h : pre (f.holding d)) :
    Settles (fun a st' f' => st' = st ∧ post a (f'.holding d))
      (fun st' f' => st' = st ∧ stop (f'.holding d))
      (st.run (Faulty.serve fates) f (Phase.answered <$> q)) := by
  have hphase : (Phase.answered <$> q).Ensures (Faulty.serve fates) (fun _ f' => pre (f'.holding d))
      (fun phase _ => PhaseSettles (Faulty.serve fates) st
        (fun a st' f' => st' = st ∧ post a (f'.holding d))
        (fun st' f' => st' = st ∧ stop (f'.holding d)) phase)
      (fun _ f' => st = st ∧ stop (f'.holding d)) :=
    Ensures.map (hq.weaken_stop fun _ _ hs => ⟨rfl, hs⟩) fun _ _ _ hs => ⟨rfl, hs⟩
  exact settles_run (hphase () f h)

/-- An append that succeeds is carried out under the lease of its driver. -/
theorem append_eq_of_ok {β : Type} {serve : Server β} {b : β} {now : Timestamp} {point : TrackPoint}
    (hd : point.driverId = d) {a : TrackAnalysis}
    (hok : (st.run serve b (p.append now point)).1 = .finished (.ok a)) :
    point.isAcceptable = true ∧
      p.append now point = pure (.leased d (p.appendLeased now point)) := by
  cases haccepted : point.isAcceptable with
  | false =>
    obtain ⟨e, hrefused⟩ := p.append_of_not_isAcceptable now haccepted
    rw [hrefused] at hok
    cases hok
  | true => exact ⟨rfl, hd ▸ p.append_of_isAcceptable now haccepted⟩

end Operations

/-! ## Invariants -/

variable {takes : TrackPoint → Slot → Holding → Prop}
  {offers : TrackAnalysis → Slot → Holding → Prop} {I : String → Slot → Holding → Prop}

/-- **A property of a driver's slot and of what is held of the driver that every operation keeps.**
An operation starts with a slot that the store keeps.  Points are appended where `takes` holds, and
analyses are offered where `offers` holds. -/
structure Invariant (p : TrackPolicy) (fates : Nat → Fate)
    (takes : TrackPoint → Slot → Holding → Prop) (offers : TrackAnalysis → Slot → Holding → Prop)
    (I : String → Slot → Holding → Prop) : Prop where
  /-- A slot may be lost. -/
  forget : ∀ {d s h}, I d s h → I d {} h
  /-- A stored analysis may expire. -/
  lapse : ∀ {d s h}, I d s h → I d s { h with stored := none, lapsed := true }
  append : ∀ now point,
    Leads fates point.driverId
      (fun s h => s.IsKept ∧ I point.driverId s h ∧ takes point s h)
      (p.appendLeased now point) (fun _ => I point.driverId) (I point.driverId)
  read : ∀ now d, Leads fates d (fun s h => s.IsKept ∧ I d s h) (p.currentAnalysis now d)
    (fun _ => I d) (I d)
  save : ∀ a, Leads fates a.driverId (fun s h => s.IsKept ∧ I a.driverId s h ∧ offers a s h)
    (p.storeAnalysis a) (fun _ => I a.driverId) (I a.driverId)

/-- Fewer points and analyses may come. -/
theorem Invariant.restrict (hI : Invariant p fates takes offers I)
    {takes' : TrackPoint → Slot → Holding → Prop} {offers' : TrackAnalysis → Slot → Holding → Prop}
    (htakes : ∀ q s h, takes' q s h → takes q s h)
    (hoffers : ∀ a s h, offers' a s h → offers a s h) : Invariant p fates takes' offers' I where
  forget := hI.forget
  lapse := hI.lapse
  append now point := (hI.append now point).weaken_pre fun _ _ hs =>
    ⟨hs.1, hs.2.1, htakes _ _ _ hs.2.2⟩
  read := hI.read
  save a := (hI.save a).weaken_pre fun _ _ hs => ⟨hs.1, hs.2.1, hoffers _ _ _ hs.2.2⟩

/-- What is required for one driver only leads to what is kept for that driver. -/
theorem leads_only {α : Type} {d d' : String} {rest : Query Slot α}
    {pre post : Slot → Holding → Prop} (hrest : Leads fates d' pre rest (fun _ => post) post) :
    Leads fates d' (fun s h => d' = d → pre s h) rest (fun _ s h => d' = d → post s h)
      fun s h => d' = d → post s h := by
  by_cases hd : d' = d
  · exact hrest.weaken (fun _ _ hs => hs hd) (fun _ _ _ hs _ => hs) fun _ _ hs _ => hs
  · exact fun _ _ _ =>
      settles_always (fun s (f : Faulty) => d' = d → post s (f.holding d')) fun h => absurd h hd

/-- **What is an invariant of all drivers is one of each:** nothing need be known of the points and
analyses of the others. -/
theorem Invariant.only (hI : Invariant p fates takes offers I) (d : String) :
    Invariant p fates (fun q s h => q.driverId = d → takes q s h)
      (fun a s h => a.driverId = d → offers a s h) fun d' s h => d' = d → I d' s h where
  forget hs hd := hI.forget (hs hd)
  lapse hs hd := hI.lapse (hs hd)
  append now point := (leads_only (hI.append now point)).weaken_pre fun _ _ hs hd =>
    ⟨hs.1, hs.2.1 hd, hs.2.2 hd⟩
  read now d' := (leads_only (hI.read now d')).weaken_pre fun _ _ hs hd => ⟨hs.1, hs.2 hd⟩
  save a := (leads_only (hI.save a)).weaken_pre fun _ _ hs hd => ⟨hs.1, hs.2.1 hd, hs.2.2 hd⟩

/-- **Store and backend obey** if the property holds of every driver, between operations. -/
structure Obeys (p : TrackPolicy) (I : String → Slot → Holding → Prop) (s : TrackStore × Faulty) :
    Prop where
  policy_eq : s.1.policy = p
  atRest : s.1.AtRest
  each : ∀ d, I d (s.1.slotOf d) (s.2.holding d)

namespace Invariant

theorem kept_of_lookUp {α : Type} {q : Query Unit α}
    (hq : Leads fates d (fun _ => I d (st.slotOf d)) q (fun _ _ => I d (st.slotOf d))
      fun _ => I d (st.slotOf d)) (h : I d (st.slotOf d) (f.holding d)) :
    Settles (fun _ st' f' => I d (st'.slotOf d) (f'.holding d))
      (fun st' f' => I d (st'.slotOf d) (f'.holding d))
      (st.run (Faulty.serve fates) f (Phase.answered <$> q)) := by
  refine (settles_lookUp hq h).imp ?_ ?_
  · rintro a st' f' ⟨rfl, hkept⟩
    exact hkept
  · rintro st' f' ⟨rfl, hkept⟩
    exact hkept

variable (hI : Invariant p fates takes offers I)
include hI

/-- A slot is given back, and perhaps dropped. -/
theorem release {slot : Slot} {h : Holding} (hslot : I d slot h) :
    I d ((st.release d slot).slotOf d) h := by
  rw [slotOf_release, if_pos rfl]
  split
  · exact hslot
  · exact hI.forget hslot

theorem kept_of_leased {α : Type} {rest : Query Slot α} {pre : Slot → Holding → Prop}
    (hrest : Leads fates d pre rest (fun _ => I d) (I d)) (h : pre (st.slotOf d) (f.holding d))
    (hfree : st.held = none) :
    Settles (fun _ st' f' => I d (st'.slotOf d) (f'.holding d))
      (fun st' f' => I d (st'.slotOf d) (f'.holding d))
      (st.run (Faulty.serve fates) f (pure (.leased d rest))) := by
  refine (settles_leased hrest h hfree).imp ?_ ?_
  · rintro a st' f' ⟨slot, rfl, hslot⟩
    exact hI.release hslot
  · rintro st' f' ⟨slot, rfl, hslot⟩
    exact hI.release hslot

theorem kept_of_append (hrest : st.AtRest) (now : Timestamp) {point : TrackPoint}
    (hd : point.driverId = d) (h : I d (st.slotOf d) (f.holding d))
    (htakes : point.isAcceptable = true → takes point (st.slotOf d) (f.holding d)) :
    Settles (fun _ st' f' => I d (st'.slotOf d) (f'.holding d))
      (fun st' f' => I d (st'.slotOf d) (f'.holding d))
      (st.run (Faulty.serve fates) f (p.append now point)) := by
  cases haccepted : point.isAcceptable with
  | false =>
    obtain ⟨e, hrefused⟩ := p.append_of_not_isAcceptable now haccepted
    rw [hrefused]
    exact h
  | true =>
    subst hd
    rw [p.append_of_isAcceptable now haccepted]
    exact hI.kept_of_leased (hI.append now point) ⟨hrest.kept _, h, htakes haccepted⟩ hrest.free

theorem kept_of_ingest (hrest : st.AtRest) (now : Timestamp) {point : TrackPoint}
    (h : I d (st.slotOf d) (f.holding d))
    (htakes : point.isAcceptable = true → takes point (st.slotOf d) (f.holding d)) :
    Settles (fun _ st' f' => I d (st'.slotOf d) (f'.holding d))
      (fun st' f' => I d (st'.slotOf d) (f'.holding d))
      (st.run (Faulty.serve fates) f (p.ingest now d point)) := by
  rcases p.ingest_cases now d point with ⟨e, hrefused⟩ | ⟨hd, hown⟩
  · rw [hrefused]
    exact h
  · rw [hown]
    exact hI.kept_of_append hrest now hd h htakes

theorem kept_of_analyzed (hrest : st.AtRest) (now : Timestamp) (count : Nat)
    (h : I d (st.slotOf d) (f.holding d)) :
    Settles (fun _ st' f' => I d (st'.slotOf d) (f'.holding d))
      (fun st' f' => I d (st'.slotOf d) (f'.holding d))
      (st.run (Faulty.serve fates) f (p.analyzed now d count)) := by
  rcases p.analyzed_cases now d count with ⟨e, hrefused⟩ | hanalyzed
  · rw [hrefused]
    exact h
  · rw [hanalyzed]
    have hread : Leads fates d (fun s h => s.IsKept ∧ I d s h)
        (do return (← p.currentAnalysis now d).lastPoints (min count p.windowSize))
        (fun _ => I d) (I d) := (hI.read now d).bind fun _ => Ensures.pure fun _ _ hs => hs
    have hnewest : Leads fates d (fun (_ : Unit) => I d (st.slotOf d))
        (Query.request (.range (TrackPolicy.pointsKey d) 1))
        (fun (_ : List Bytes) _ => I d (st.slotOf d)) fun _ => I d (st.slotOf d) :=
      Leads.range (fun _ _ hs => hs) fun _ _ hs => hs
    refine settles_run ((Ensures.bind hnewest fun newest => ?_) () f h)
    refine Ensures.ite (fun _ => Ensures.pure fun _ _ hs => hs) fun _ =>
      Ensures.pure fun s g hs => ⟨hs, ?_⟩
    exact (hread (st.slotOf d) g ⟨hrest.kept d, hs⟩).imp (fun _ slot g' hs => hI.release hs)
      fun slot g' hs => hI.release hs

end Invariant

/-! ## What is done to a store -/

/-- An act is admitted if the point or the analysis that it offers may meet the driver's slot and
track as they are.  A point that is not acceptable may come at any time. -/
def Act.Admitted (takes : TrackPoint → Slot → Holding → Prop)
    (offers : TrackAnalysis → Slot → Holding → Prop) (s : TrackStore × Faulty) : Act → Prop
  | .call c => ∀ point, c.point? = some point → point.isAcceptable = true →
    takes point (s.1.slotOf c.driverId) (s.2.holding c.driverId)
  | .save a => offers a (s.1.slotOf a.driverId) (s.2.holding a.driverId)

/-- **What happens to a store:** an act, or it is replaced by a new one on the same backend. -/
inductive Incident where
  | act (now : Timestamp) (act : Act)
  | restart

namespace Incident

variable {β : Type}

/-- Store and backend after an incident. -/
def next (serve : Server β) (s : TrackStore × β) : Incident → TrackStore × β
  | act now a => (a.run serve now s).2
  | restart => (new s.1.policy, s.2)

/-- Store and backend after a history. -/
def after (serve : Server β) (s : TrackStore × β) (history : List Incident) : TrackStore × β :=
  history.foldl (next serve) s

/-- Whether an incident is an admitted act or a restart. -/
def Admitted (takes : TrackPoint → Slot → Holding → Prop)
    (offers : TrackAnalysis → Slot → Holding → Prop) (s : TrackStore × Faulty) : Incident → Prop
  | act _ a => a.Admitted takes offers s
  | restart => True

/-- Whether all acts of a history are admitted when their turn comes. -/
def AllAdmitted (fates : Nat → Fate) (takes : TrackPoint → Slot → Holding → Prop)
    (offers : TrackAnalysis → Slot → Holding → Prop) : TrackStore × Faulty → List Incident → Prop
  | _, [] => True
  | s, i :: history => i.Admitted takes offers s ∧
    AllAdmitted fates takes offers (i.next (Faulty.serve fates) s) history

/-- The point that an incident offers to the store, if it can be read. -/
def point? : Incident → Option TrackPoint
  | act _ (.call c) => c.point?
  | _ => none

/-- The analysis that an incident offers to be stored. -/
def offer? : Incident → Option TrackAnalysis
  | act _ (.save a) => some a
  | _ => none

/-- Terms that do not depend on the state are met by a history whose points and analyses meet
them. -/
theorem allAdmitted_of_forall {points : TrackPoint → Prop} {analyses : TrackAnalysis → Prop}
    {history : List Incident}
    (hpoints : ∀ i ∈ history, ∀ q, i.point? = some q → q.isAcceptable = true → points q)
    (hanalyses : ∀ i ∈ history, ∀ a, i.offer? = some a → analyses a) (s : TrackStore × Faulty) :
    AllAdmitted fates (fun q _ _ => points q) (fun a _ _ => analyses a) s history := by
  induction history generalizing s with
  | nil => trivial
  | cons i history ih =>
    refine ⟨?_, ih (fun j hj => hpoints j (List.mem_cons_of_mem _ hj))
      (fun j hj => hanalyses j (List.mem_cons_of_mem _ hj)) _⟩
    cases i with
    | restart => trivial
    | act now a =>
      cases a with
      | call c => exact hpoints _ List.mem_cons_self
      | save a => exact hanalyses _ List.mem_cons_self a rfl

end Incident

theorem obeys_new (policy : TrackPolicy) {f : Faulty} (h : ∀ d, I d {} (f.holding d)) :
    Obeys policy I (new policy, f) where
  policy_eq := rfl
  atRest := atRest_new policy
  each := h

namespace Invariant

variable (hI : Invariant p fates takes offers I) {s : TrackStore × Faulty}
include hI

/-- An act keeps the invariant for the driver that it names. -/
theorem kept_of_act (hs : Obeys p I s) (now : Timestamp) {a : Act}
    (ha : a.Admitted takes offers s) :
    I a.driverId ((a.run (Faulty.serve fates) now s).2.1.slotOf a.driverId)
      ((a.run (Faulty.serve fates) now s).2.2.holding a.driverId) := by
  obtain ⟨st, f⟩ := s
  obtain rfl : st.policy = p := hs.policy_eq
  have hrest : st.AtRest := hs.atRest
  cases a with
  | save a =>
    exact (hI.kept_of_leased (hI.save a) ⟨hrest.kept _, hs.each _, ha⟩ hrest.free).always
  | call c =>
    cases c with
    | append point => exact (hI.kept_of_append hrest now rfl (hs.each _) (ha point rfl)).always
    | ingest driverId point deadline =>
      exact (hI.kept_of_ingest hrest now (hs.each _) (ha point rfl)).always
    | deliver envelope =>
      show I envelope.driverId
        (((Call.deliver envelope).run (Faulty.serve fates) now (st, f)).2.1.slotOf _)
        (((Call.deliver envelope).run (Faulty.serve fates) now (st, f)).2.2.holding _)
      cases hread : (Wire.read? envelope.payload : Option TrackPoint) with
      | none =>
        simp only [Call.run, TrackStore.deliver, hread]
        exact hs.each _
      | some point =>
        simp only [Call.run, TrackStore.deliver, hread]
        exact (hI.kept_of_ingest hrest now (hs.each _) (ha point hread)).always
    | recent driverId count =>
      have hq := TrackPolicy.recentPoints_leads fates driverId
        (fun (_ : Unit) => I driverId (st.slotOf driverId)) count
      have hkept := kept_of_lookUp (hq.weaken (fun _ _ hs => hs) (fun _ _ _ hs => hs.1)
        fun _ _ hs => hs) (hs.each _)
      exact hkept.always
    | latest driverId =>
      have hq := TrackPolicy.latestAnalysis_leads fates driverId
        (fun (_ : Unit) => I driverId (st.slotOf driverId)) fun _ _ hs => hI.lapse hs
      have hkept := kept_of_lookUp (hq.weaken (fun _ _ hs => hs) (fun _ _ _ hs => hs.1)
        fun _ _ hs => hs) (hs.each _)
      exact hkept.always
    | analyzed driverId count deadline =>
      exact (hI.kept_of_analyzed hrest now count (hs.each _)).always

/-- **An admitted act keeps an invariant.** -/
theorem run (hs : Obeys p I s) (now : Timestamp) {a : Act} (ha : a.Admitted takes offers s) :
    Obeys p I (a.run (Faulty.serve fates) now s).2 := by
  have hdriver := hI.kept_of_act hs now ha
  obtain ⟨α, operation, answer, hconcerns, -, hrun⟩ := a.exists_operation p now
  rw [hrun _ s hs.policy_eq] at hdriver ⊢
  refine ⟨(policy_run _ _ _ _).trans hs.policy_eq, hs.atRest.run _ _ _, fun d => ?_⟩
  by_cases hd : a.driverId = d
  · subst hd
    exact hdriver
  · have hspares : Spares d s (s.1.run (Faulty.serve fates) s.2 operation).2 :=
      spares_run hconcerns hd s.1 s.2
    rw [hspares.slotOf_eq, hspares.holding_eq]
    exact hs.each d

theorem next (hs : Obeys p I s) {i : Incident} (hi : i.Admitted takes offers s) :
    Obeys p I (i.next (Faulty.serve fates) s) := by
  cases i with
  | act now a => exact hI.run hs now hi
  | restart =>
    obtain rfl := hs.policy_eq
    exact obeys_new _ fun d => hI.forget (hs.each d)

/-- **An invariant holds of every driver after every admitted history.** -/
theorem after (hs : Obeys p I s) {history : List Incident}
    (hhistory : Incident.AllAdmitted fates takes offers s history) :
    Obeys p I (Incident.after (Faulty.serve fates) s history) := by
  induction history generalizing s with
  | nil => exact hs
  | cons i history ih => exact ih (hI.next hs hhistory.1) hhistory.2

end Invariant

end TrackStore

/-! ## What sessions do not see -/

section Maps

variable {α β γ σ : Type} {serve : Server β} {serve' : Server γ} {φ : β → γ}

/-- **Sessions do not see** what makes no difference to the answer to any request. -/
theorem Session.run_map (hφ : ∀ b r, serve' (φ b) r = ((serve b r).1, φ (serve b r).2))
    (m : Session σ α) (b : β) :
    m.run serve' (φ b) = ((m.run serve b).1, (m.run serve b).2.1, φ (m.run serve b).2.2) := by
  induction m generalizing b with
  | done => rfl
  | ask s r resume ih =>
    rw [run, run, hφ]
    rcases serve b r with ⟨_ | answer, after⟩
    · rfl
    · exact ih answer after

namespace TrackStore

variable (hφ : ∀ b r, serve' (φ b) r = ((serve b r).1, φ (serve b r).2))
include hφ

theorem run_map (st : TrackStore) (b : β) (operation : Query Unit (Phase α)) :
    st.run serve' (φ b) operation = ((st.run serve b operation).1,
      (st.run serve b operation).2.1, φ (st.run serve b operation).2.2) := by
  rw [run, run, Session.run_map hφ]
  rcases (operation ()).run serve b with ⟨⟨_ | answer | ⟨d, rest⟩⟩ | _, _, after⟩
  · rfl
  · rfl
  · dsimp only
    split
    · rfl
    · rw [Session.run_map hφ]
  · rfl

theorem Act.run_map (a : Act) (now : Timestamp) (st : TrackStore) (b : β) :
    (a.run serve' now (st, φ b)).2 =
      ((a.run serve now (st, b)).2.1, φ (a.run serve now (st, b)).2.2) := by
  obtain ⟨α, operation, answer, -, -, hrun⟩ := a.exists_operation st.policy now
  rw [hrun serve' (st, φ b) rfl, hrun serve (st, b) rfl, TrackStore.run_map hφ]

/-- **Histories do not see it** either. -/
theorem Incident.after_map (s : TrackStore × β) (history : List Incident) :
    after serve' (s.1, φ s.2) history =
      ((after serve s history).1, φ (after serve s history).2) := by
  induction history generalizing s with
  | nil => rfl
  | cons i history ih =>
    have hnext : i.next serve' (s.1, φ s.2) = ((i.next serve s).1, φ (i.next serve s).2) := by
      cases i with
      | act now a => exact a.run_map hφ now s.1 s.2
      | restart => rfl
    show after serve' (i.next serve' (s.1, φ s.2)) history = _
    rw [hnext]
    exact ih (i.next serve s)

end TrackStore

end Maps

end Fleet
