import Fleet.Proofs.Store.Freshness
import Fleet.Proofs.Store.Locality

/-!
# Restarts

A restart replaces the store by a new one on the same backend, and with the store its slots are
lost.  A clean slot knows nothing that the backend does not hold, so a restart at which the slot of
a driver is clean changes nothing for that driver, whatever happens to others
(`restart_transparent`).  A dirty slot is the only record of points that the stored analysis does
not cover, and after a restart they stay hidden from reads: `restart_hides_unsaved_point`.
-/

namespace Fleet

namespace TrackStore

/-- **What happens to a store:** a call, whose requests have fates of their own, or a restart. -/
inductive Turn where
  | call (now : Timestamp) (fates : Nat → Fate) (call : Call)
  | restart

namespace Turn

/-- Store and backend after a turn. -/
def next (s : TrackStore × Faulty) : Turn → TrackStore × Faulty
  | .call now fates c => (c.run (Faulty.serve fates) now (s.1, s.2.rewind)).2
  | .restart => (new s.1.policy, s.2)

/-- What a call that names a driver answers. -/
def answer? (d : String) (s : TrackStore × Faulty) : Turn → Option Depot.Answer
  | .call now fates c =>
    if c.driverId = d then some (c.run (Faulty.serve fates) now (s.1, s.2.rewind)).1 else none
  | .restart => none

def isCall : Turn → Bool
  | .call _ _ _ => true
  | .restart => false

/-- Store and backend after some turns. -/
def after (s : TrackStore × Faulty) (turns : List Turn) : TrackStore × Faulty :=
  turns.foldl next s

/-- The answers to the calls that name a driver, in order. -/
def answers (d : String) : TrackStore × Faulty → List Turn → List Depot.Answer
  | _, [] => []
  | s, turn :: turns => (turn.answer? d s).toList ++ answers d (turn.next s) turns

/-- Whether the slot of a driver is clean whenever the store is restarted. -/
def restartsClean (d : String) : TrackStore × Faulty → List Turn → Bool
  | _, [] => true
  | s, turn :: turns =>
    (turn.isCall || !(s.1.slotOf d).isDirty) && restartsClean d (turn.next s) turns

end Turn

variable {p : TrackPolicy} {d : String}

theorem AtRest.next {s : TrackStore × Faulty} (h : s.1.AtRest) (turn : Turn) :
    (turn.next s).1.AtRest := by
  cases turn with
  | call now fates c =>
    have hrewound : (s.1, s.2.rewind).1.AtRest := h
    exact c.run_atRest fates now hrewound
  | restart => exact atRest_new _

/-! ## Two runs, one with restarts -/

/-- Calls keep two states the same for a driver, whether they name it or not. -/
theorem SameFor.call {s s' : TrackStore × Faulty} (h : SameFor d s s') (now : Timestamp)
    (fates : Nat → Fate) (c : Call) :
    (Turn.call now fates c).answer? d s = (Turn.call now fates c).answer? d s' ∧
      SameFor d ((Turn.call now fates c).next s) ((Turn.call now fates c).next s') := by
  have hrewound : SameFor d (s.1, s.2.rewind) (s'.1, s'.2.rewind) := { h with }
  by_cases hd : c.driverId = d
  · subst hd
    obtain ⟨hanswer, hafter⟩ := c.run_sameFor fates now hrewound rfl
    exact ⟨congrArg (fun a => if c.driverId = c.driverId then some a else none) hanswer, hafter⟩
  · -- the call names another driver, so on both sides this one is as it was
    have hspares := c.run_spares fates hd now (s.1, s.2.rewind)
    have hspares' := c.run_spares fates hd now (s'.1, s'.2.rewind)
    have hfixed := c.run_fixed fates now (s.1, s.2.rewind)
    have hfixed' := c.run_fixed fates now (s'.1, s'.2.rewind)
    refine ⟨(if_neg hd).trans (if_neg hd).symm, ?_, ?_, ?_, ?_⟩
    · exact hfixed.1.trans (h.policy_eq.trans hfixed'.1.symm)
    · exact hfixed.2.trans (h.held_eq.trans hfixed'.2.symm)
    · exact hspares.slotOf_eq.trans (h.slotOf_eq.trans hspares'.slotOf_eq.symm)
    · exact hspares.holding_eq.trans (h.holding_eq.trans hspares'.holding_eq.symm)

/-- A restart with a clean slot leaves everything the same for its driver. -/
theorem SameFor.restart {s s' : TrackStore × Faulty} (h : SameFor d s s') (hrest : s.1.AtRest)
    (hclean : (s.1.slotOf d).isDirty = false) : SameFor d (Turn.restart.next s) s' where
  policy_eq := h.policy_eq
  held_eq := hrest.free.symm.trans h.held_eq
  slotOf_eq := (hrest.kept d hclean).symm.trans h.slotOf_eq
  holding_eq := h.holding_eq

/-- **Two runs in step:** without the restarts a driver's calls answer the same, if its slot is
clean whenever there is one. -/
theorem SameFor.turns {s s' : TrackStore × Faulty} (h : SameFor d s s') (hrest : s.1.AtRest)
    {turns : List Turn} (hclean : Turn.restartsClean d s turns = true) :
    Turn.answers d s turns = Turn.answers d s' (turns.filter Turn.isCall) ∧
      SameFor d (Turn.after s turns) (Turn.after s' (turns.filter Turn.isCall)) := by
  induction turns generalizing s s' with
  | nil => exact ⟨rfl, h⟩
  | cons turn turns ih =>
    rw [Turn.restartsClean, Bool.and_eq_true] at hclean
    cases turn with
    | call now fates c =>
      obtain ⟨hanswer, hnext⟩ := h.call now fates c
      obtain ⟨hanswers, hafter⟩ := ih hnext (hrest.next _) hclean.2
      rw [List.filter_cons_of_pos rfl, Turn.answers, Turn.answers, hanswer, hanswers]
      exact ⟨rfl, hafter⟩
    | restart =>
      have hslot : (s.1.slotOf d).isDirty = false := by simpa [Turn.isCall] using hclean.1
      rw [List.filter_cons_of_neg (by decide)]
      exact ih (h.restart hrest hslot) (hrest.next .restart) hclean.2

/-! ## Restarts and reads -/

theorem Sound.turns {s : TrackStore × Faulty} (h : s.1.Sound p s.2) {turns : List Turn}
    (hcalls : ∀ turn ∈ turns, turn.isCall = true) :
    (Turn.after s turns).1.Sound p (Turn.after s turns).2 := by
  induction turns generalizing s with
  | nil => exact h
  | cons turn turns ih =>
    rw [List.forall_mem_cons] at hcalls
    cases turn with
    | call now fates c =>
      have hrewound : s.1.Sound p s.2.rewind := h.congr fun _ => rfl
      exact ih (hrewound.run now c).1 hcalls.2
    | restart => cases hcalls.1

/-- **Clean restarts are transparent.**  However often the store is restarted between calls whose
requests meet any fates: if a driver's slot is clean at each restart, every call that names the
driver answers what it answers without the restarts, and a read after them that shows points shows
the driver's log as it is. -/
theorem restart_transparent (policy : TrackPolicy) (d : String) (turns : List Turn)
    (hclean : Turn.restartsClean d (new policy, {}) turns = true) :
    Turn.answers d (new policy, {}) turns =
        Turn.answers d (new policy, {}) (turns.filter Turn.isCall) ∧
      let s := Turn.after (new policy, {}) turns
      ∀ now fates count deadline points,
        (Turn.call now fates (.analyzed d count deadline)).answer? d s =
            some (.points (.ok points)) →
          Shows policy d (s.2.memory.list (TrackPolicy.pointsKey d))
            (min count policy.windowSize) points := by
  have hstart : SameFor d (new policy, {}) (new policy, {}) := ⟨rfl, rfl, rfl, rfl⟩
  obtain ⟨hanswers, hsame⟩ := hstart.turns (atRest_new policy) hclean
  refine ⟨hanswers, ?_⟩
  intro s now fates count deadline points hread
  have hsound : (Turn.after (new policy, {}) (turns.filter Turn.isCall)).1.Sound policy
      (Turn.after (new policy, {}) (turns.filter Turn.isCall)).2.rewind :=
    ((sound_new policy).turns fun _ hturn => (List.mem_filter.mp hturn).2).congr fun _ => rfl
  -- the read answers the same without the restarts, and there the store is sound
  have hname : (Call.analyzed d count deadline).driverId = d := rfl
  rw [(hsame.call now fates _).1, Turn.answer?, if_pos hname] at hread
  have hshows := hsound.shows (Option.some.inj hread)
  have hlog : s.2.memory.list (TrackPolicy.pointsKey d) = _ :=
    congrArg Holding.log hsame.holding_eq
  rw [hlog]
  exact hshows

/-- The restart between two appends of one driver comes while another driver's slot is dirty. -/
theorem restart_transparent_between_appends :
    let policy : TrackPolicy := { speedLimit := 200 }
    let served (_ : Nat) : Fate := .served .zero
    let failing (n : Nat) : Fate := if n = 4 then .failed (.storage "full") else .served .zero
    let point (d : String) : TrackPoint := { driverId := d, position := ⟨0, 0, 0⟩ }
    let turns : List Turn :=
      [.call 0 served (.append (point "d")), .call 0 failing (.append (point "e")), .restart,
        .call 0 served (.append (point "d"))]
    Turn.restartsClean "d" (new policy, {}) turns = true ∧
      Turn.restartsClean "e" (new policy, {}) turns = false ∧
      Turn.answers "d" (new policy, {}) turns =
        Turn.answers "d" (new policy, {}) (turns.filter Turn.isCall) := by
  intro policy served failing point turns
  have hclean : Turn.restartsClean "d" (new policy, {}) turns = true := by decide +kernel
  exact ⟨hclean, by decide +kernel, (restart_transparent policy "d" turns hclean).1⟩

/-- **A restart with a dirty slot hides a point.**  The analysis of the second append could not be
saved.  Without a restart the next read shows both points; after one it shows the first alone,
though the backend holds both. -/
theorem restart_hides_unsaved_point :
    let policy : TrackPolicy := { speedLimit := 200 }
    let served (_ : Nat) : Fate := .served .zero
    let failing (n : Nat) : Fate := if n = 4 then .failed (.storage "full") else .served .zero
    let first : TrackPoint := { driverId := "d", position := ⟨0, 0, 0⟩ }
    let second : TrackPoint := { driverId := "d", position := ⟨1, 1, 0⟩ }
    let turns : List Turn :=
      [.call 0 served (.append first), .call 0 failing (.append second), .restart,
        .call 0 served (.analyzed "d" 2 none)]
    let shown (turns : List Turn) : List (List TrackPoint) :=
      (Turn.answers "d" (new policy, {}) turns).filterMap Depot.Answer.points?
    shown turns = [[first]] ∧ shown (turns.filter Turn.isCall) = [[first, second]] ∧
      Turn.answers "d" (new policy, {}) turns ≠
        Turn.answers "d" (new policy, {}) (turns.filter Turn.isCall) := by
  intro policy served failing first second turns shown
  have hwith : shown turns = [[first]] := by decide +kernel
  have hwithout : shown (turns.filter Turn.isCall) = [[first, second]] := by decide +kernel
  refine ⟨hwith, hwithout, fun hsame => ?_⟩
  have hshown : [[first]] = [[first, second]] :=
    hwith.symm.trans ((congrArg (List.filterMap Depot.Answer.points?) hsame).trans hwithout)
  exact absurd (congrArg List.length (List.cons.inj hshown).1) (by decide)

end TrackStore

end Fleet
