import Fleet.Proofs.Store.Orderly
import Fleet.Proofs.Store.Progress

/-!
# Appends that go on at the same time

Main statement: `Crowd.appends_serialize`.  Appends and reads of one driver, in progress at once
and interleaved in any way, work one at a time.  The appends bring the sequence numbers that follow
those of the points before them, each once, and what is left at the end is as if one call had come
after the other: the stored analysis covers all points, and the store keeps no slot.
-/

namespace Fleet
namespace Crowd

open TrackPolicy (pointsKey)

variable {p : TrackPolicy} {d : String} {points : List TrackPoint} {c : Crowd}

/-! ## Runs -/

theorem appends_eq (c : Crowd) : c.appends = (c.tasks.map Task.visit).countP Visit.isAppend := by
  rw [appends, List.countP_map]
  rfl

theorem appends_of_append {before : Crowd} {latest : List Task}
    (h : c.tasks = before.tasks ++ latest) :
    c.appends = before.appends + latest.countP fun t => t.visit.isAppend := by
  rw [appends, h, List.countP_append]
  rfl

theorem appends_after (c : Crowd) (events : List Event) :
    (c.after events).appends =
      c.appends + (events.filterMap Event.visit?).countP Visit.isAppend := by
  rw [appends_eq, appends_eq, visits_after, List.countP_append]

/-- **No step takes back a stored analysis.** -/
theorem Orderly.advances_act (h : c.Orderly p d points) (i : Nat) (now : Duration) :
    (c.backend.holding d).Advances ((c.act i now).backend.holding d) := by
  have hsame {backend : Faulty} (heq : backend = c.backend) :
      (c.backend.holding d).Advances (backend.holding d) := heq ▸ Holding.Advances.refl _
  rw [Crowd.act]
  split
  · exact hsame rfl
  rename_i v stage hget
  have hmember : (⟨v, stage⟩ : Task) ∈ c.tasks := List.mem_of_getElem? hget
  have hstands := h.stands _ hmember
  cases stage with
  | asking m =>
    rcases m with ⟨s, _ | _ | _⟩ | ⟨s, r, resume⟩
    · exact hsame rfl
    · exact hsame rfl
    · exact hsame (backend_checkOut c _)
    · -- it can only look at the log
      obtain ⟨rfl, -⟩ : r = .range (pointsKey d) 1 ∧
        ∀ reply, v.Approaches p d (resume (.ok reply)) := hstands
      have habout : (Request.range (pointsKey d) 1).About d := rfl
      have hafter := congrArg Prod.snd (c.backend.perform_holding now habout)
      have hadvances := (c.backend.holding d).advances_perform now
        (r := .range (pointsKey d) 1) rfl
      rwa [← hafter] at hadvances
  | waiting lease rest =>
    dsimp only
    split <;> exact hsame rfl
  | working lease m =>
    cases m with
    | done slot result => exact hsame rfl
    | ask s r resume =>
      have hasks : (Session.ask s r resume).Asks (Request.About d) := hstands
      have hafter := congrArg Prod.snd (c.backend.perform_holding now hasks.1)
      have hadvances := (h.assured _ hmember lease _ rfl now).1
      rwa [← hafter] at hadvances
  | leaving lease result => exact hsame (backend_checkIn c lease)
  | finished result => exact hsame rfl

/-- **Whatever happens keeps the calls apart,** and takes back no stored analysis. -/
theorem Orderly.after (h : c.Orderly p d points) (hp : p.Legible d points)
    (hd : d.isEmpty = false) {events : List Event}
    (hvalid : ∀ v, .join v ∈ events → v.Valid d points)
    (hroom : (c.after events).appends < 2 ^ 64) :
    (c.after events).Orderly p d points ∧
      (c.backend.holding d).Advances ((c.after events).backend.holding d) := by
  induction events generalizing c with
  | nil => exact ⟨h, Holding.Advances.refl _⟩
  | cons e events ih =>
    have hbefore : c.appends < 2 ^ 64 := by
      rw [appends_after] at hroom
      exact Nat.lt_of_le_of_lt (Nat.le_add_right _ _) hroom
    have hnext := h.next hp hd hbefore e fun v hv => hvalid v (hv ▸ List.mem_cons_self)
    have hadvances : (c.backend.holding d).Advances ((c.next e).backend.holding d) := by
      cases e with
      | join v => exact Holding.Advances.refl _
      | act i now => exact h.advances_act i now
    obtain ⟨hafter, hlater⟩ := ih hnext
      (fun v hv => hvalid v (List.mem_cons_of_mem e hv)) hroom
    exact ⟨hafter, hadvances.trans hlater⟩

/-! ## When all calls are over -/

/-- **What calls leave behind when all are over,** where `s` points arrived before the last `n`
appends came. -/
structure Served (p : TrackPolicy) (d : String) (s n : Nat) (latest : List Task) (c : Crowd) :
    Prop where
  /-- Every call is answered; only a read of no points at all is refused. -/
  answered : ∀ t ∈ latest, ∃ result, t.stage = .finished result ∧ t.visit.Allows result
  /-- The last appends bring the numbers that follow `s`, each once. -/
  numbered : ((latest.filterMap Task.sequence?).map UInt64.toNat).Perm (List.range' (s + 1) n)
  length_arrivals : (c.backend.holding d).arrivals.length = s + n
  /-- The stored analysis covers all points and reflects the newest window of the log. -/
  stored : 0 < s + n → ∃ e a, (c.backend.holding d).stored = some e ∧
    e.value = Wire.write a ∧ a.sequence.toNat = s + n ∧ p.Reflects d (c.backend.holding d).log a
  /-- The store keeps no slot. -/
  forgotten : c.slots.get? d = none

theorem exists_result_of_isQuiet (h : c.isQuiet = true) {t : Task} (ht : t ∈ c.tasks) :
    ∃ result, t.stage = .finished result :=
  Standing.exists_result (List.all_eq_true.mp h t ht)

theorem countP_working_of_isQuiet (h : c.isQuiet = true) :
    c.tasks.countP Task.isWorking = 0 := by
  refine List.countP_eq_zero.mpr fun t ht hworking => ?_
  obtain ⟨result, hresult⟩ := exists_result_of_isQuiet h ht
  rw [Task.isWorking, hresult] at hworking
  cases hworking

/-- When all calls are over, every append has brought a number. -/
theorem Orderly.length_sequences_of_isQuiet (h : c.Orderly p d points) (hquiet : c.isQuiet = true) :
    c.sequences.length = c.appends := by
  rw [sequences, appends, List.length_filterMap_eq_countP]
  refine List.countP_congr fun t ht => ?_
  have hstands := h.stands t ht
  obtain ⟨v, stage⟩ := t
  obtain ⟨result, rfl⟩ : ∃ result, stage = .finished result := exists_result_of_isQuiet hquiet ht
  cases result with
  | ok reply => exact iff_of_eq (congrArg (· = true) (Visit.Allows.sequence?_isSome hstands))
  | error e =>
    cases v with
    | append now point => exact hstands.elim
    | analyzed now driverId count => exact Iff.rfl

/-- When all calls are over, no cell is left. -/
theorem Orderly.forgotten (h : c.Orderly p d points) (hquiet : c.isQuiet = true)
    (hlapsed : (c.backend.holding d).lapsed = false) : c.slots.get? d = none := by
  cases hcell : c.slots.get? d with
  | none => rfl
  | some cell =>
    have hleases := h.needed cell hcell hlapsed
    have hnone : c.leases cell = 0 := by
      refine List.countP_eq_zero.mpr fun t ht hlease => ?_
      obtain ⟨result, hresult⟩ := exists_result_of_isQuiet hquiet ht
      rw [hresult] at hlease
      cases of_decide_eq_true hlease
    rw [hnone] at hleases
    exact absurd hleases (Nat.lt_irrefl 0)

/-- **When all calls are over, the stored analysis covers all points.** -/
theorem Orderly.stored (h : c.Orderly p d points) (hquiet : c.isQuiet = true)
    (hroom : c.appends < 2 ^ 64) (hlapsed : (c.backend.holding d).lapsed = false)
    (hsome : 0 < c.appends) :
    ∃ e a, (c.backend.holding d).stored = some e ∧ e.value = Wire.write a ∧
      a.sequence.toNat = c.appends ∧ p.Reflects d (c.backend.holding d).log a := by
  have hrested := h.rested (countP_working_of_isQuiet hquiet)
  rw [h.length_sequences_of_isQuiet hquiet] at hrested
  have hclean := hrested.clean hlapsed
  cases hstored : (c.backend.holding d).stored with
  | none =>
    have hnone := hrested.inStep.absent hlapsed hclean hstored
    rw [← hrested.length_arrivals, hnone] at hsome
    exact absurd hsome (Nat.lt_irrefl 0)
  | some e =>
    obtain ⟨a, ha, hreflects, hsequence⟩ := hrested.inStep.covered hclean e hstored
    refine ⟨e, a, rfl, ha, ?_, hreflects⟩
    rw [hsequence hlapsed, hrested.length_arrivals, UInt64.toNat_ofNat', Nat.mod_eq_of_lt hroom]

/-- **What calls leave behind that came to a store where all earlier calls were over.** -/
theorem Orderly.served {before : Crowd} {latest : List Task} (hbefore : before.Orderly p d points)
    (hquiet : before.isQuiet = true) (h : c.Orderly p d points) (hquiet' : c.isQuiet = true)
    (hadvances : (before.backend.holding d).Advances (c.backend.holding d))
    (htasks : c.tasks = before.tasks ++ latest) (hroom : c.appends < 2 ^ 64)
    (hlapsed : (c.backend.holding d).lapsed = false) :
    c.Served p d before.appends (latest.countP fun t => t.visit.isAppend) latest := by
  have happends := appends_of_append htasks
  have hsequences : c.sequences = before.sequences ++ latest.filterMap Task.sequence? := by
    rw [sequences, htasks, List.filterMap_append]
    rfl
  have hnumbered := h.numbered hlapsed
  rw [h.length_sequences_of_isQuiet hquiet', hsequences, List.map_append, happends,
    ← List.range'_append_1] at hnumbered
  have hnumbered' := hbefore.numbered (hadvances.unlapsed hlapsed)
  rw [hbefore.length_sequences_of_isQuiet hquiet] at hnumbered'
  exact
    { answered := fun t ht => by
        have hmember : t ∈ c.tasks := htasks ▸ List.mem_append_right _ ht
        have hstands := h.stands t hmember
        obtain ⟨result, hresult⟩ := exists_result_of_isQuiet hquiet' hmember
        rw [Task.Stands, hresult] at hstands
        exact ⟨result, hresult, hstands⟩
      numbered := by
        rw [Nat.add_comm]
        exact (List.perm_append_left_iff _).mp ((hnumbered'.symm.append_right _).trans hnumbered)
      length_arrivals := by
        rw [(h.rested (countP_working_of_isQuiet hquiet')).length_arrivals,
          h.length_sequences_of_isQuiet hquiet', happends]
      stored := happends ▸ h.stored hquiet' hroom hlapsed
      forgotten := h.forgotten hquiet' hlapsed }

/-! ## The main statement -/

/-- **Appends of one driver serialize.**  Let any calls on a driver come at any moments and take
turns in any way, as long as their points are valid and finite and no stored analysis expires.  Then
one at most is between taking the lock and giving it back, and all leases refer to the cell that
the map has.  From any moment to any later one, the stored analysis is not taken back.  Under every
fair schedule all calls come to their ends; and if they were over at some moment, and are over at a
later one, those between have done what they would have done one after the other.  Of the functions
of angles no more is used than that they stay within their ranges. -/
theorem appends_serialize (hd : d.isEmpty = false)
    (hlimit : Config.isPositive p.speedLimit = true) (hwindow : p.windowSize < 2 ^ 64)
    (hpoints : ∀ q ∈ points, q.IsFinite ∧ q.position.isValid = true)
    (ht : p.trigonometry.IsBounded)
    (earlier later : List Event)
    (hvalid : ∀ v, .join v ∈ earlier ++ later → v.Valid d points)
    (hroom : ((new p).after (earlier ++ later)).appends < 2 ^ 64)
    (hlapsed : (((new p).after (earlier ++ later)).backend.holding d).lapsed = false) :
    let before := (new p).after earlier
    let c := before.after later
    c.IsApart d ∧
    (c.backend.holding d).IsReadable ∧
    (before.backend.holding d).Advances (c.backend.holding d) ∧
    (∀ schedule, IsFair schedule → ∃ n, (c.after (turns schedule n)).isQuiet) ∧
    (before.isQuiet → c.isQuiet →
      c.Served p d before.appends ((later.filterMap Event.visit?).countP Visit.isAppend)
        (c.tasks.drop before.tasks.length)) := by
  intro before c
  have hp : p.Legible d points :=
    TrackPolicy.legible_of_isFinite hlimit hwindow hpoints ht
  have hafter : (new p).after (earlier ++ later) = c := List.foldl_append
  rw [hafter] at hroom hlapsed
  have happends : c.appends = before.appends + _ := appends_after before later
  have hroom' : before.appends < 2 ^ 64 :=
    Nat.lt_of_le_of_lt (happends ▸ Nat.le_add_right _ _) hroom
  obtain ⟨hbefore, hreadable⟩ := (orderly_new p d points).after hp hd
    (fun v hv => hvalid v (List.mem_append_left _ hv)) hroom'
  obtain ⟨hc, hadvances⟩ := hbefore.after hp hd
    (fun v hv => hvalid v (List.mem_append_right _ hv)) hroom
  refine ⟨hc.toIsApart, hadvances.readable (hreadable.readable fun _ he => nomatch he), hadvances,
    fun schedule hfair => c.fair_isQuiet hfair, fun hquiet hquiet' => ?_⟩
  obtain ⟨latest, htasks⟩ := tasks_after_of_isQuiet hquiet later
  have hlatest : c.tasks.drop before.tasks.length = latest := by
    rw [htasks, List.drop_left]
  have hserved := hbefore.served hquiet hc hquiet' hadvances htasks hroom hlapsed
  have hcount : latest.countP (fun t => t.visit.isAppend) =
      (later.filterMap Event.visit?).countP Visit.isAppend :=
    Nat.add_left_cancel ((appends_of_append htasks).symm.trans happends)
  rw [hlatest, ← hcount]
  exact hserved

/-! ## Two appends and a read after an append -/

/-- A fix of a driver that stands still. -/
def standstill : TrackPoint := { driverId := "d", position := ⟨0, 0, 0⟩ }

/-- A fix of the driver a millisecond later, when it has gone about a centimetre. -/
def onTheWay : TrackPoint := { driverId := "d", position := ⟨0, 1e-7, 1⟩ }

def smallWindow : TrackPolicy := { windowSize := 3, speedLimit := 200 }

/-- The same for tracks of a few centimetres. -/
def smallScale : TrackPolicy := { smallWindow with trigonometry := .ofSmallAngles }

theorem isFinite_of_mem_fixes {q : TrackPoint} (hq : q ∈ [standstill, onTheWay]) :
    q.IsFinite ∧ q.position.isValid = true := by
  simp only [List.mem_cons, List.not_mem_nil, or_false] at hq
  rcases hq with rfl | rfl
  · exact ⟨⟨⟨by decide +kernel, by decide +kernel⟩, by decide +kernel, fun _ he => nomatch he⟩,
      by decide +kernel⟩
  · exact ⟨⟨⟨by decide +kernel, by decide +kernel⟩, by decide +kernel, fun _ he => nomatch he⟩,
      by decide +kernel⟩

/-- The calls of a list take turns, again and again. -/
def byTurns (calls : List Nat) (rounds : Nat) : List Event :=
  (List.replicate rounds calls).flatten.map fun i => .act i (.ofSeconds 1)

/-- One append, from its beginning to its end. -/
def oneAppend : List Event := .join (.append 0 standstill) :: byTurns [0] 12

/-- Two appends and a read that take turns. -/
def twoAppendsAndRead : List Event :=
  [.join (.append 1 onTheWay), .join (.analyzed 2 "d" 2), .join (.append 3 onTheWay)] ++
    byTurns [1, 2, 3] 40

/-- **After one append, two more and a read take turns to their ends,** for a driver that is on its
way. -/
theorem two_appends_serialize :
    ((new smallScale).after oneAppend).isQuiet = true ∧
    (((new smallScale).after oneAppend).after twoAppendsAndRead).isQuiet = true ∧
    (((new smallScale).after oneAppend).after twoAppendsAndRead).Served smallScale "d" 1 2
      ((((new smallScale).after oneAppend).after twoAppendsAndRead).tasks.drop 1) := by
  have hvalid : ∀ v, .join v ∈ oneAppend ++ twoAppendsAndRead →
      v.Valid "d" [standstill, onTheWay] := by
    intro v hv
    have hvisit : v ∈ (oneAppend ++ twoAppendsAndRead).filterMap Event.visit? :=
      List.mem_filterMap.mpr ⟨.join v, hv, rfl⟩
    have hvisits : (oneAppend ++ twoAppendsAndRead).filterMap Event.visit? =
      [.append 0 standstill, .append 1 onTheWay, .analyzed 2 "d" 2, .append 3 onTheWay] := rfl
    rw [hvisits] at hvisit
    have hnext : ∀ now, Visit.Valid "d" [standstill, onTheWay] (.append now onTheWay) := fun now =>
      ⟨rfl, by decide +kernel, List.mem_cons_of_mem _ (List.mem_singleton_self _)⟩
    simp only [List.mem_cons, List.not_mem_nil, or_false] at hvisit
    rcases hvisit with rfl | rfl | rfl | rfl
    · exact ⟨rfl, by decide +kernel, List.mem_cons_self⟩
    · exact hnext 1
    · rfl
    · exact hnext 3
  have hquiet : ((new smallScale).after oneAppend).isQuiet = true := by decide +kernel
  have hquiet' : (((new smallScale).after oneAppend).after twoAppendsAndRead).isQuiet = true := by
    decide +kernel
  have hserved := (appends_serialize (by decide) (by decide +kernel) (by decide)
    (fun _ => isFinite_of_mem_fixes) Trigonometry.isBounded_ofSmallAngles oneAppend
    twoAppendsAndRead hvalid (by decide +kernel) (by decide +kernel)).2.2.2.2 hquiet hquiet'
  have happends : ((new smallScale).after oneAppend).appends = 1 := by decide +kernel
  have hlater : (twoAppendsAndRead.filterMap Event.visit?).countP Visit.isAppend = 2 := by
    decide +kernel
  have hlength : ((new smallScale).after oneAppend).tasks.length = 1 := by decide +kernel
  rw [happends, hlater, hlength] at hserved
  exact ⟨hquiet, hquiet', hserved⟩

end Crowd
end Fleet
