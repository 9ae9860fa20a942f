import Fleet.Proofs.Store.Call

/-!
# Logs lose nothing and repeat nothing

Whatever becomes of the requests, the log of a driver consists of the points that the backend took
in, newest first, without the oldest ones if there are more than may be kept.  A call adds its own
point or nothing, and as long as no stored analysis expires, the sequence number of an analysis is
the number of points that arrived.
-/

namespace Fleet

/-- The log consists of the newest of the points that arrived, and of at least `retained` if there
are as many. -/
def Holding.KeepsNewest (h : Holding) (retained : Nat) : Prop :=
  ∃ m, min h.arrivals.length retained ≤ m ∧ m ≤ h.arrivals.length ∧ h.log = h.arrivals.take m

theorem InStep.keepsNewest {p : TrackPolicy} {d : String} {s : Slot} {h : Holding}
    (hs : InStep p d s h) : h.KeepsNewest p.maxPointsRetained :=
  ⟨h.log.length, hs.retained, hs.newest.length_le, List.prefix_iff_eq_take.mp hs.newest⟩

namespace TrackStore

/-- **Log integrity under faults.**  After every history of calls, whatever the fates of their
requests, every driver's log consists of the newest points that arrived; and the next call, whatever
it answers, has the effect on the logs that its answer tells. -/
theorem log_integrity (policy : TrackPolicy) (fates : Nat → Fate)
    (history : List (Timestamp × Call)) (now : Timestamp) (call : Call) :
    let before := Call.after (Faulty.serve fates) (new policy, {}) history
    let step := call.run (Faulty.serve fates) now before
    (∀ d, (before.2.holding d).KeepsNewest policy.maxPointsRetained) ∧
      call.Effect policy step.1 before.2 step.2.2 := by
  intro before step
  have hsound : before.1.Sound policy before.2 := sound_after policy fates history
  exact ⟨fun d => (hsound.inStep d).keepsNewest, (hsound.run now call).2⟩

end TrackStore

end Fleet
