import Fleet.Proofs.Store.Call
import Fleet.Proofs.Store.Progress

/-!
# A call that has the store for itself

A crowd in which all calls are over is a track store that keeps its slots in cells.  A call that
then comes, and takes all its steps before another comes, does what `TrackStore.run` does where
every request is answered: `Mirrors.run_alone`.
-/

namespace Fleet
namespace Crowd

/-- **A crowd has the slots of a store.** -/
structure Mirrors (c : Crowd) (st : TrackStore) : Prop where
  policy_eq : c.policy = st.policy
  slotOf_eq : ∀ d, c.slotOf d = st.slotOf d
  made : ∀ d cell, c.slots.get? d = some cell → cell < c.cells.length
  /-- No two drivers have the same cell. -/
  distinct : ∀ d e cell, c.slots.get? d = some cell → c.slots.get? e = some cell → d = e

variable {c : Crowd} {st : TrackStore} {d : String}

theorem mirrors_new (policy : TrackPolicy) : (new policy).Mirrors (TrackStore.new policy) where
  policy_eq := rfl
  slotOf_eq _ := rfl
  made _ _ h := nomatch h
  distinct _ _ _ h := nomatch h

/-- What a crowd mirrors depends neither on its calls nor on its backend. -/
theorem Mirrors.congr {c' : Crowd} (h : c.Mirrors st) (hpolicy : c'.policy = c.policy)
    (hcells : c'.cells = c.cells) (hslots : c'.slots = c.slots) : c'.Mirrors st := by
  obtain ⟨policy, cells, slots, tasks, backend⟩ := c
  obtain ⟨policy', cells', slots', tasks', backend'⟩ := c'
  obtain rfl : policy' = policy := hpolicy
  obtain rfl : cells' = cells := hcells
  obtain rfl : slots' = slots := hslots
  exact ⟨h.policy_eq, h.slotOf_eq, h.made, h.distinct⟩

/-! ## Leases -/

/-- Leasing a cell shows as little as that a driver without a slot has a blank one. -/
theorem Mirrors.checkOut (h : c.Mirrors st) (d : String) :
    (c.checkOut d).2.Mirrors st ∧ (c.checkOut d).1.driverId = d ∧
      (c.checkOut d).2.slots.get? d = some (c.checkOut d).1.cell := by
  rw [Crowd.checkOut]
  cases hget : c.slots.get? d with
  | some cell => exact ⟨h, rfl, hget⟩
  | none =>
    refine ⟨⟨h.policy_eq, fun e => ?_, fun e cell hcell => ?_, fun e f cell he hf => ?_⟩, rfl, ?_⟩
    · rw [← h.slotOf_eq e, slotOf, slotOf, Table.get?_insert]
      split
      · rename_i heq
        rw [← heq, hget]
        simp [Crowd.cell]
      · cases he : c.slots.get? e with
        | none => rfl
        | some cell =>
          simp only [Option.elim_some, Crowd.cell]
          rw [List.getElem?_append_left (h.made e cell he)]
    · rw [List.length_append]
      rw [Table.get?_insert] at hcell
      split at hcell
      · obtain rfl := Option.some.inj hcell
        exact Nat.lt_succ_self _
      · exact Nat.lt_succ_of_lt (h.made e cell hcell)
    · -- the new cell is no other driver's
      rw [Table.get?_insert] at he hf
      split at he <;> split at hf
      · exact ‹d = e›.symm.trans ‹d = f›
      · obtain rfl := Option.some.inj he
        exact absurd (h.made f _ hf) (Nat.lt_irrefl _)
      · obtain rfl := Option.some.inj hf
        exact absurd (h.made e _ he) (Nat.lt_irrefl _)
      · exact h.distinct e f cell he hf
    · rw [Table.get?_insert, if_pos rfl]

/-- The one call that has a lease gives it back. -/
theorem Mirrors.checkIn (h : c.Mirrors st) {lease : Lease} (slot : Slot)
    (hlisted : c.slots.get? lease.driverId = some lease.cell)
    (hleases : c.leases lease.cell = 1) (hlocked : c.isLocked lease.cell = false) :
    ({ c with cells := c.cells.set lease.cell slot }.checkIn lease).Mirrors
      (st.release lease.driverId slot) := by
  have hmade := h.made _ _ hlisted
  have hcell : cell { c with cells := c.cells.set lease.cell slot } lease.cell = slot := by
    rw [cell, List.getElem?_set_self hmade]
    rfl
  have hreferences :
      { c with cells := c.cells.set lease.cell slot }.references lease = 2 := by
    have hkept : { c with cells := c.cells.set lease.cell slot }.isListed lease = true :=
      decide_eq_true hlisted
    rw [references, hkept]
    exact congrArg (· + 1) hleases
  -- the cells of other drivers are not touched
  have hother (e : String) (hne : lease.driverId ≠ e) :
      slotOf { c with cells := c.cells.set lease.cell slot } e = st.slotOf e := by
    rw [← h.slotOf_eq e, slotOf, slotOf]
    cases he : c.slots.get? e with
    | none => rfl
    | some i =>
      have hi : lease.cell ≠ i := by
        rintro rfl
        exact hne (h.distinct _ _ _ hlisted he)
      simp only [Option.elim_some, cell]
      rw [List.getElem?_set_ne hi]
  have hmade' : ∀ e i, c.slots.get? e = some i → i < (c.cells.set lease.cell slot).length := by
    intro e i he
    rw [List.length_set]
    exact h.made e i he
  cases hdirty : slot.isDirty with
  | true =>
    rw [Crowd.checkIn, if_neg (by simp [hcell, hdirty])]
    refine ⟨h.policy_eq, fun e => ?_, hmade', h.distinct⟩
    rw [TrackStore.slotOf_release]
    by_cases he : lease.driverId = e
    · subst he
      rw [if_pos rfl, if_pos hdirty, slotOf, hlisted]
      exact hcell
    · rw [if_neg he]
      exact hother e he
  | false =>
    rw [Crowd.checkIn, if_pos ⟨hreferences, hlocked, by rw [hcell, hdirty], decide_eq_true hlisted⟩]
    have herased : ∀ e i, (c.slots.erase lease.driverId).get? e = some i →
        c.slots.get? e = some i := by
      intro e i he
      rw [Table.get?_erase] at he
      split at he
      · cases he
      · exact he
    refine ⟨h.policy_eq, fun e => ?_, fun e i he => hmade' e i (herased e i he),
      fun e f i he hf => h.distinct e f i (herased e i he) (herased f i hf)⟩
    rw [TrackStore.slotOf_release]
    by_cases he : lease.driverId = e
    · subst he
      rw [if_pos rfl, if_neg (by simp [hdirty]), slotOf, Table.get?_erase, if_pos rfl]
      rfl
    · rw [if_neg he, ← hother e he, slotOf, slotOf, Table.get?_erase, if_neg he]
      rfl

/-! ## All steps of one call -/

/-- Steps of one call lead from a crowd to another. -/
def Leads (n : Nat) (c c' : Crowd) : Prop :=
  ∃ times : List Duration, c.after (times.map (.act n)) = c'

theorem Leads.refl (n : Nat) (c : Crowd) : c.Leads n c := ⟨[], rfl⟩

theorem Leads.trans {n : Nat} {c c' c'' : Crowd} (h : c.Leads n c') (h' : c'.Leads n c'') :
    c.Leads n c'' := by
  obtain ⟨times, rfl⟩ := h
  obtain ⟨times', rfl⟩ := h'
  refine ⟨times ++ times', ?_⟩
  rw [List.map_append]
  exact List.foldl_append

theorem Leads.step {n : Nat} {c c' : Crowd} (now : Duration) (h : c.act n now = c') :
    c.Leads n c' := ⟨[now], h⟩

/-- The last call moves on. -/
theorem move_last (c : Crowd) {old : List Task} {t : Task} (htasks : c.tasks = old ++ [t])
    (v : Visit) (stage : Standing) :
    c.move old.length v stage = { c with tasks := old ++ [⟨v, stage⟩] } := by
  rw [move, htasks, List.set_append_right _ _ (Nat.le_refl _), Nat.sub_self]
  rfl

/-- **The last call asks until it has all answers,** as a session that is held with the backend. -/
theorem exists_leads {σ α : Type} (standing : Session σ α → Standing) {v : Visit}
    {old : List Task} {fates : Nat → Fate} (hserved : ∀ n, ∃ now, fates n = .served now)
    (hact : ∀ (c : Crowd) (now : Duration) s r (resume : r.Result → Session σ α),
      c.tasks = old ++ [⟨v, standing (.ask s r resume)⟩] → c.act old.length now =
        (c.serve now r).move old.length v
          (standing (resume (.ok (c.backend.memory.perform now r).1))))
    (m : Session σ α) (hc : c.tasks = old ++ [⟨v, standing m⟩]) :
    ∃ result s c', m.run (Faulty.serve fates) c.backend = (.finished result, s, c'.backend) ∧
      c.Leads old.length c' ∧ c'.tasks = old ++ [⟨v, standing (.done s result)⟩] ∧
      c'.policy = c.policy ∧ c'.cells = c.cells ∧ c'.slots = c.slots := by
  induction m generalizing c with
  | done s result => exact ⟨result, s, c, rfl, Leads.refl _ c, hc, rfl, rfl, rfl⟩
  | ask s r resume ih =>
    obtain ⟨now, hnow⟩ := hserved c.backend.asked
    have hstep := hact c now s r resume hc
    rw [move_last (c.serve now r) hc] at hstep
    obtain ⟨result, s', c', hrun, hleads, htasks, hsame⟩ :=
      ih (.ok (c.backend.memory.perform now r).1)
        (c := { c.serve now r with
          tasks := old ++ [⟨v, standing (resume (.ok (c.backend.memory.perform now r).1))⟩] }) rfl
    refine ⟨result, s', c', ?_, (Leads.step now hstep).trans hleads, htasks, hsame⟩
    rw [Session.run, Faulty.serve_of_served hnow]
    exact hrun

/-- Beside calls that are over, the last call is the only one that can have a lease. -/
theorem leases_last {old : List Task} (hquiet : old.all fun t => t.stage.isFinished)
    {v : Visit} {stage : Standing} {lease : Lease} (hlease : stage.lease? = some lease)
    (hc : c.tasks = old ++ [⟨v, stage⟩]) : c.leases lease.cell = 1 := by
  have hold : (old.countP fun t => t.stage.lease?.map Lease.cell = some lease.cell) = 0 := by
    refine List.countP_eq_zero.mpr fun t ht hleased => ?_
    obtain ⟨result, hresult⟩ := Standing.exists_result (List.all_eq_true.mp hquiet t ht)
    rw [hresult] at hleased
    cases of_decide_eq_true hleased
  rw [leases, hc, List.countP_append, hold]
  simp [hlease]

/-- Nobody has a lock where all calls but the last are over. -/
theorem isLocked_last {old : List Task} (hquiet : old.all fun t => t.stage.isFinished)
    {v : Visit} {stage : Standing} (hlocked : stage.locked? = none)
    (hc : c.tasks = old ++ [⟨v, stage⟩]) (cell : Nat) : c.isLocked cell = false := by
  rw [isLocked, hc, List.any_append, Bool.or_eq_false_iff]
  constructor
  · refine List.any_eq_false.mpr fun t ht hlock => ?_
    obtain ⟨result, hresult⟩ := Standing.exists_result (List.all_eq_true.mp hquiet t ht)
    rw [hresult] at hlock
    cases of_decide_eq_true hlock
  · simp [hlocked]

theorem getElem?_last {old : List Task} {t : Task} (hc : c.tasks = old ++ [t]) :
    c.tasks[old.length]? = some t := by
  rw [hc, List.getElem?_concat_length]

section Leased

variable {old : List Task} (hquiet : old.all fun t => t.stage.isFinished) {v : Visit}

include hquiet

/-- The last call leases a cell and takes its lock. -/
theorem Mirrors.takes_lock (h : c.Mirrors st) {s : Unit} {rest : Query Slot Visit.Reply}
    (hc : c.tasks = old ++ [⟨v, .asking (.done s (.ok (.leased d rest)))⟩]) :
    ∃ lease c', c.Leads old.length c' ∧ c'.Mirrors st ∧ c'.backend = c.backend ∧
      lease.driverId = d ∧ c'.slots.get? d = some lease.cell ∧
      c'.tasks = old ++ [⟨v, .working lease (rest (st.slotOf d))⟩] := by
  obtain ⟨hmirrors, hd, hlisted⟩ := h.checkOut d
  have hleases : c.act old.length .zero = { (c.checkOut d).2 with
      tasks := old ++ [⟨v, .waiting (c.checkOut d).1 rest⟩] } := by
    rw [act, getElem?_last hc]
    exact move_last _ ((tasks_checkOut c d).trans hc) v _
  have hbackend := backend_checkOut c d
  generalize c.checkOut d = leased at hmirrors hd hlisted hleases hbackend
  obtain ⟨lease, c'⟩ := leased
  have hslot : c'.cell lease.cell = st.slotOf d := by
    rw [← hmirrors.slotOf_eq, slotOf, hlisted]
    rfl
  have hlocks : act { c' with tasks := old ++ [⟨v, .waiting lease rest⟩] } old.length .zero =
      { c' with tasks := old ++ [⟨v, .working lease (rest (st.slotOf d))⟩] } := by
    have hunlocked := isLocked_last (c := { c' with tasks := old ++ [⟨v, .waiting lease rest⟩] })
      hquiet rfl rfl lease.cell
    rw [act, getElem?_last rfl]
    dsimp only
    rw [hunlocked, if_neg Bool.false_ne_true, ← hslot]
    exact move_last _ rfl v _
  exact ⟨lease, _, (Leads.step .zero hleases).trans (Leads.step .zero hlocks),
    hmirrors.congr rfl rfl rfl, hbackend, hd, hlisted, rfl⟩

/-- The last call gives back its lock and its lease. -/
theorem Mirrors.gives_back (h : c.Mirrors st) {lease : Lease} {slot : Slot}
    {result : Except FleetError Visit.Reply}
    (hlisted : c.slots.get? lease.driverId = some lease.cell)
    (hc : c.tasks = old ++ [⟨v, .working lease (.done slot result)⟩]) :
    ∃ c', c.Leads old.length c' ∧ c'.Mirrors (st.release lease.driverId slot) ∧
      c'.backend = c.backend ∧ c'.tasks = old ++ [⟨v, .finished result⟩] := by
  have hunlocks : c.act old.length .zero = { c with
      cells := c.cells.set lease.cell slot
      tasks := old ++ [⟨v, .leaving lease result⟩] } := by
    rw [act, getElem?_last hc]
    exact move_last { c with cells := c.cells.set lease.cell slot } hc v _
  have hleaving : Mirrors { c with tasks := old ++ [⟨v, .leaving lease result⟩] } st :=
    h.congr rfl rfl rfl
  have hmirrors := hleaving.checkIn slot hlisted (leases_last hquiet rfl rfl)
    (isLocked_last hquiet rfl rfl _)
  have hleaves : act { c with
      cells := c.cells.set lease.cell slot
      tasks := old ++ [⟨v, .leaving lease result⟩] } old.length .zero =
      { Crowd.checkIn { c with
          cells := c.cells.set lease.cell slot
          tasks := old ++ [⟨v, .leaving lease result⟩] } lease with
        tasks := old ++ [⟨v, .finished result⟩] } := by
    rw [act, getElem?_last rfl]
    exact move_last _ (tasks_checkIn _ lease) v _
  exact ⟨_, (Leads.step .zero hunlocks).trans (Leads.step .zero hleaves),
    hmirrors.congr rfl rfl rfl, backend_checkIn _ lease, rfl⟩

end Leased

/-- **A call that has a store for itself does what the store does.** -/
theorem Mirrors.run_alone (h : c.Mirrors st) (hquiet : c.isQuiet = true) (hfree : st.held = none)
    {fates : Nat → Fate} (hserved : ∀ n, ∃ now, fates n = .served now) (v : Visit) :
    ∃ result st' c', st.run (Faulty.serve fates) c.backend (v.operation st.policy) =
        (.finished result, st', c'.backend) ∧
      (c.next (.join v)).Leads c.tasks.length c' ∧ c'.Mirrors st' ∧
      c'.tasks = c.tasks ++ [⟨v, .finished result⟩] := by
  rw [← h.policy_eq]
  obtain ⟨answer, s, c₁, hasked, hjoined, htasks, hpolicy, hcells, hslots⟩ :=
    exists_leads (c := c.next (.join v)) .asking hserved
      (fun c' now s r resume hc' => by rw [act, getElem?_last hc']) (v.operation c.policy ()) rfl
  have hmirrors : c₁.Mirrors st := h.congr hpolicy hcells hslots
  replace hasked : (v.operation c.policy ()).run (Faulty.serve fates) c.backend =
    (.finished answer, s, c₁.backend) := hasked
  rw [TrackStore.run, hasked]
  rcases answer with e | reply | ⟨d, rest⟩
  · refine ⟨.error e, st, { c₁ with tasks := c.tasks ++ [⟨v, .finished (.error e)⟩] }, rfl,
      hjoined.trans (Leads.step .zero ?_), hmirrors.congr rfl rfl rfl, rfl⟩
    rw [act, getElem?_last htasks]
    exact move_last c₁ htasks v _
  · refine ⟨.ok reply, st, { c₁ with tasks := c.tasks ++ [⟨v, .finished (.ok reply)⟩] }, rfl,
      hjoined.trans (Leads.step .zero ?_), hmirrors.congr rfl rfl rfl, rfl⟩
    rw [act, getElem?_last htasks]
    exact move_last c₁ htasks v _
  · obtain ⟨lease, c₂, hlocks, hmirrors₂, hbackend, rfl, hlisted, htasks₂⟩ :=
      hmirrors.takes_lock hquiet htasks
    obtain ⟨result, slot, c₃, hworked, hworks, htasks₃, hpolicy₃, hcells₃, hslots₃⟩ :=
      exists_leads (.working lease) hserved
        (fun c' now s r resume hc' => by rw [act, getElem?_last hc']) _ htasks₂
    obtain ⟨c₄, hgives, hmirrors₄, hbackend₄, htasks₄⟩ :=
      (hmirrors₂.congr hpolicy₃ hcells₃ hslots₃).gives_back hquiet (hslots₃ ▸ hlisted) htasks₃
    refine ⟨result, _, c₄, ?_, ((hjoined.trans hlocks).trans hworks).trans hgives, hmirrors₄,
      htasks₄⟩
    have hlease : st.held ≠ some lease.driverId := by
      rw [hfree]
      intro hheld
      cases hheld
    dsimp only
    rw [if_neg hlease, ← hbackend, hworked, hbackend₄]

end Crowd
end Fleet
