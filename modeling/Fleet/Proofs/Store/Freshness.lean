import Fleet.Proofs.Store.Call

/-!
# Reads are never stale

A read answers with a stored analysis only if a new one would show the same points, after every
history of calls and whatever becomes of their requests.
-/

namespace Fleet

/-- The points that an answer shows. -/
def Depot.Answer.points? : Depot.Answer → Option (List TrackPoint)
  | .points (.ok shown) => some shown
  | _ => none

theorem Depot.Answer.eq_of_points? {answer : Depot.Answer} {points : List TrackPoint}
    (h : answer.points? = some points) : answer = .points (.ok points) := by
  unfold points? at h
  split at h
  · cases h
    rfl
  · cases h

namespace TrackStore

/-- A log is shown as an analysis made now would show it, or as that one read back. -/
theorem Shows.eq_lastPoints {p : TrackPolicy} {d : String} {log : List Bytes} {count : Nat}
    {points : List TrackPoint} (h : Shows p d log count points) (now : Timestamp) :
    ∃ window, p.window? log = some window ∧
      (points = (p.analyze d window now).lastPoints count ∨
        ∃ reread : TrackAnalysis,
          Wire.read? (Wire.write (p.analyze d window now)) = some reread ∧
            points = reread.lastPoints count) := by
  obtain ⟨a, ⟨window, computedAt, hwindow, ha⟩, hpoints⟩ := h
  rw [p.analyze_computedAt d window now computedAt] at ha
  refine ⟨window, hwindow, hpoints.imp ?_ ?_⟩
  · rintro rfl
    rw [ha]
    rfl
  · rintro ⟨b, hread, rfl⟩
    rw [ha, Wire.read?_write_stamped (p.analyze d window now)] at hread
    obtain ⟨reread, hreread, rfl⟩ := Option.map_eq_some_iff.mp hread
    exact ⟨reread, hreread, rfl⟩

/-- Of an empty log no points are shown. -/
theorem Shows.eq_nil {p : TrackPolicy} {d : String} {count : Nat} {points : List TrackPoint}
    (h : Shows p d [] count points) : points = [] := by
  obtain ⟨window, hwindow, hpoints⟩ := h.eq_lastPoints 0
  rw [TrackPolicy.window?, List.take_nil] at hwindow
  obtain rfl : [] = window := Option.some.inj hwindow
  rcases hpoints with rfl | ⟨reread, hreread, rfl⟩
  · exact List.drop_nil
  · have hnil : some [] = some reread.points := Wire.points_of_read? hreread
    rw [TrackAnalysis.lastPoints, ← Option.some.inj hnil, List.drop_nil]

/-- A read that answers with points shows the log as it was when the read began. -/
theorem Sound.shows {p : TrackPolicy} {fates : Nat → Fate} {st : TrackStore} {f : Faulty}
    (hst : st.Sound p f) {now : Timestamp} {d : String} {count : Nat}
    {deadline : Option Duration} {points : List TrackPoint}
    (h : ((Call.analyzed d count deadline).run (Faulty.serve fates) now (st, f)).1 =
      .points (.ok points)) :
    Shows p d (f.memory.list (TrackPolicy.pointsKey d)) (min count p.windowSize) points := by
  obtain rfl := hst.policy_eq
  have hread := hst.analyzed fates now d count
  change Depot.answerBy .points deadline
    (st.run (Faulty.serve fates) f (st.policy.analyzed now d count)).1 = _ at h
  generalize st.run (Faulty.serve fates) f (st.policy.analyzed now d count) = x at hread h
  obtain ⟨outcome, st', f'⟩ := x
  obtain rfl : outcome = .finished (.ok points) := by
    rcases outcome with ⟨_ | shown⟩ | _ <;> cases deadline <;> cases h <;> rfl
  obtain ⟨⟨-, hlogs⟩, hshows⟩ := hread
  rw [(hlogs d).1] at hshows
  exact hshows

/-- **Reads are never stale.**  After every history of calls, whatever the fates of their requests,
a read that shows points shows the last ones of the analysis of the log as it is now, or of that
analysis written and read back. -/
theorem reads_fresh (policy : TrackPolicy) (fates : Nat → Fate)
    (history : List (Timestamp × Call)) (now : Timestamp) (driverId : String) (count : Nat)
    (deadline : Option Duration) (points : List TrackPoint) :
    let before := Call.after (Faulty.serve fates) (new policy, {}) history
    let log := before.2.memory.list (TrackPolicy.pointsKey driverId)
    ((Call.analyzed driverId count deadline).run (Faulty.serve fates) now before).1 =
        .points (.ok points) →
      ∃ window, policy.window? log = some window ∧ (log = [] → points = []) ∧
        let fresh := policy.analyze driverId window now
        points = fresh.lastPoints (min count policy.windowSize) ∨
          ∃ reread : TrackAnalysis, Wire.read? (Wire.write fresh) = some reread ∧
            points = reread.lastPoints (min count policy.windowSize) := by
  intro before log hanswer
  have hshows := (sound_after policy fates history).shows hanswer
  obtain ⟨window, hwindow, hpoints⟩ := hshows.eq_lastPoints now
  refine ⟨window, hwindow, fun hempty => ?_, hpoints⟩
  rw [show before.2.memory.list (TrackPolicy.pointsKey driverId) = [] from hempty] at hshows
  exact hshows.eq_nil

/-- A read after an append whose analysis could not be saved and a read that made up for it: the
stored analysis covers both points. -/
theorem reads_fresh_after_failed_save :
    let policy : TrackPolicy := { speedLimit := 200 }
    let fates (n : Nat) : Fate := if n = 9 then .failed (.storage "full") else .served .zero
    let first : TrackPoint := { driverId := "d", position := ⟨0, 0, 0⟩ }
    let second : TrackPoint := { driverId := "d", position := ⟨1, 1, 0⟩ }
    let before := Call.after (Faulty.serve fates) (new policy, {})
      [(0, .append first), (0, .append second), (0, .analyzed "d" 1 none)]
    ((Call.analyzed "d" 2 none).run (Faulty.serve fates) 0 before).1 =
        .points (.ok [first, second]) ∧
      ∃ window,
        policy.window? (before.2.memory.list (TrackPolicy.pointsKey "d")) = some window ∧
        (before.2.memory.list (TrackPolicy.pointsKey "d") = [] → [first, second] = []) ∧
        let fresh := policy.analyze "d" window 0
        [first, second] = fresh.lastPoints (min 2 policy.windowSize) ∨
          ∃ reread : TrackAnalysis, Wire.read? (Wire.write fresh) = some reread ∧
            [first, second] = reread.lastPoints (min 2 policy.windowSize) := by
  intro policy fates first second before
  have hanswer : ((Call.analyzed "d" 2 none).run (Faulty.serve fates) 0 before).1 =
      .points (.ok [first, second]) := Depot.Answer.eq_of_points? (by decide +kernel)
  exact ⟨hanswer, reads_fresh policy fates _ 0 "d" 2 none _ hanswer⟩

end TrackStore

end Fleet
