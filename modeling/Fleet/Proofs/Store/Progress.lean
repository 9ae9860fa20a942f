import Fleet.Proofs.Store.Crowd

/-!
# All calls come to their ends

A call goes from stage to stage and never back, for its session is a tree without infinite branches
(`Standing.acc_goes`).  A crowd can get stuck only when all calls are over: who has a lock can go
on, and if nobody has one then nobody waits in vain (`Crowd.exists_ready`).  So all calls come to
their ends if none of them is passed over for good, in whatever order they take turns
(`Crowd.fair_isQuiet`).
-/

namespace Fleet

/-! ## The stages of a call -/

/-- **How a call goes from a stage to the next.** -/
inductive Standing.Goes : Standing → Standing → Prop
  | asks {s : Unit} {r : Request} {resume : r.Result → Session Unit (Phase Visit.Reply)}
      (reply : r.Result) : Goes (.asking (.ask s r resume)) (.asking (resume reply))
  | answers {s : Unit} {result : Except FleetError (Phase Visit.Reply)}
      (answer : Except FleetError Visit.Reply) : Goes (.asking (.done s result)) (.finished answer)
  | leases {s : Unit} {result : Except FleetError (Phase Visit.Reply)} (lease : Lease)
      (rest : Query Slot Visit.Reply) : Goes (.asking (.done s result)) (.waiting lease rest)
  | locks (lease : Lease) (rest : Query Slot Visit.Reply) (slot : Slot) :
      Goes (.waiting lease rest) (.working lease (rest slot))
  | works {lease : Lease} {s : Slot} {r : Request} {resume : r.Result → Session Slot Visit.Reply}
      (reply : r.Result) : Goes (.working lease (.ask s r resume)) (.working lease (resume reply))
  | unlocks (lease : Lease) (slot : Slot) (result : Except FleetError Visit.Reply) :
      Goes (.working lease (.done slot result)) (.leaving lease result)
  | leaves (lease : Lease) (result : Except FleetError Visit.Reply) :
      Goes (.leaving lease result) (.finished result)

namespace Standing

theorem exists_result {stage : Standing} (h : stage.isFinished = true) :
    ∃ result, stage = .finished result := by
  cases stage with
  | finished result => exact ⟨result, rfl⟩
  | asking m => cases h
  | waiting lease rest => cases h
  | working lease m => cases h
  | leaving lease result => cases h

theorem not_goes_of_isFinished {stage stage' : Standing} (h : stage.isFinished = true) :
    ¬stage.Goes stage' := by
  rintro ⟨⟩ <;> cases h

/-- **A call cannot go on for ever.** -/
theorem acc_goes (stage : Standing) : Acc (fun stage' stage => Goes stage stage') stage := by
  have hfinished (result : Except FleetError Visit.Reply) :
      Acc (fun stage' stage => Goes stage stage') (.finished result) :=
    ⟨_, fun _ h => nomatch h⟩
  have hleaving (lease : Lease) (result : Except FleetError Visit.Reply) :
      Acc (fun stage' stage => Goes stage stage') (.leaving lease result) := by
    refine ⟨_, ?_⟩
    rintro _ ⟨⟩
    exact hfinished result
  have hworking (lease : Lease) (m : Session Slot Visit.Reply) :
      Acc (fun stage' stage => Goes stage stage') (.working lease m) := by
    induction m with
    | done slot result =>
      refine ⟨_, ?_⟩
      rintro _ ⟨⟩
      exact hleaving lease result
    | ask s r resume ih =>
      refine ⟨_, ?_⟩
      rintro _ ⟨⟩
      exact ih _
  have hwaiting (lease : Lease) (rest : Query Slot Visit.Reply) :
      Acc (fun stage' stage => Goes stage stage') (.waiting lease rest) := by
    refine ⟨_, ?_⟩
    rintro _ ⟨⟩
    exact hworking lease _
  have hasking (m : Session Unit (Phase Visit.Reply)) :
      Acc (fun stage' stage => Goes stage stage') (.asking m) := by
    induction m with
    | done s result =>
      refine ⟨_, ?_⟩
      rintro _ (_ | _ | _)
      · exact hfinished _
      · exact hwaiting _ _
    | ask s r resume ih =>
      refine ⟨_, ?_⟩
      rintro _ ⟨⟩
      exact ih _
  cases stage with
  | asking m => exact hasking m
  | waiting lease rest => exact hwaiting lease rest
  | working lease m => exact hworking lease m
  | leaving lease result => exact hleaving lease result
  | finished result => exact hfinished result

end Standing

/-- One of many calls goes on. -/
def Task.Turn (tasks tasks' : List Task) : Prop :=
  ∃ i t stage, tasks[i]? = some t ∧ t.stage.Goes stage ∧ tasks' = tasks.set i ⟨t.visit, stage⟩

/-- **Finitely many calls cannot go on for ever.** -/
theorem Task.acc_turn (tasks : List Task) : Acc (fun tasks' tasks => Turn tasks tasks') tasks := by
  induction tasks with
  | nil => exact ⟨_, fun _ ⟨i, t, _, hget, _⟩ => nomatch hget⟩
  | cons t tasks htasks =>
    obtain ⟨v, stage⟩ := t
    -- either the first call goes on or one of the others does
    induction stage.acc_goes generalizing tasks with
    | intro stage _ hstage =>
      induction htasks with
      | intro tasks htasks ih =>
        refine ⟨_, ?_⟩
        rintro _ ⟨i, t, stage', hget, hgoes, rfl⟩
        cases i with
        | zero =>
          obtain rfl := Option.some.inj hget
          exact hstage stage' hgoes tasks ⟨tasks, htasks⟩
        | succ i => exact ih _ ⟨i, t, stage', hget, hgoes, rfl⟩

namespace Crowd

/-! ## Steps of a crowd -/

/-- Whether a call can go on: it is not over, and does not wait for a lock that another has. -/
def isReady (c : Crowd) (stage : Standing) : Bool :=
  match stage with
  | .waiting lease _ => !c.isLocked lease.cell
  | stage => !stage.isFinished

theorem tasks_move {c c' : Crowd} (h : c'.tasks = c.tasks) (i : Nat) (v : Visit)
    (stage : Standing) :
    (c'.move i v stage).tasks = c.tasks.set i ⟨v, stage⟩ :=
  congrArg (fun tasks => tasks.set i ⟨v, stage⟩) h

/-- **What a step can do:** a call that can go on goes on, and otherwise nothing happens. -/
theorem act_cases (c : Crowd) (i : Nat) (now : Duration) :
    (∃ t stage, c.tasks[i]? = some t ∧ t.stage.Goes stage ∧
      (c.act i now).tasks = c.tasks.set i ⟨t.visit, stage⟩) ∨
    (c.act i now = c ∧ ∀ t, c.tasks[i]? = some t → c.isReady t.stage = false) := by
  rw [act]
  split
  · rename_i hget
    exact .inr ⟨rfl, fun t ht => nomatch hget.symm.trans ht⟩
  rename_i v stage hget
  have hstill (hready : c.isReady stage = false) :
      ∀ t, c.tasks[i]? = some t → c.isReady t.stage = false := by
    intro t ht
    obtain rfl := Option.some.inj (hget.symm.trans ht)
    exact hready
  cases stage with
  | asking m =>
    rcases m with ⟨s, _ | _ | _⟩ | ⟨s, r, resume⟩
    · exact .inl ⟨_, _, hget, .answers _, rfl⟩
    · exact .inl ⟨_, _, hget, .answers _, rfl⟩
    · exact .inl ⟨_, _, hget, .leases _ _, tasks_move (tasks_checkOut c _) i v _⟩
    · exact .inl ⟨_, _, hget, .asks _, rfl⟩
  | waiting lease rest =>
    dsimp only
    split
    · rename_i hlocked
      exact .inr ⟨rfl, hstill (congrArg not hlocked)⟩
    · exact .inl ⟨_, _, hget, .locks lease rest _, rfl⟩
  | working lease m =>
    cases m with
    | ask s r resume => exact .inl ⟨_, _, hget, .works _, rfl⟩
    | done slot result => exact .inl ⟨_, _, hget, .unlocks lease slot result, rfl⟩
  | leaving lease result =>
    exact .inl ⟨_, _, hget, .leaves lease result, tasks_move (tasks_checkIn c lease) i v _⟩
  | finished result => exact .inr ⟨rfl, hstill rfl⟩

/-- **Nobody is stuck** while a call is not over: some call can go on. -/
theorem exists_ready {c : Crowd} (h : c.isQuiet = false) :
    ∃ t ∈ c.tasks, c.isReady t.stage = true := by
  obtain ⟨t, ht, hopen⟩ := List.all_eq_false.mp h
  by_cases hready : c.isReady t.stage = true
  · exact ⟨t, ht, hready⟩
  · -- it waits for somebody who works
    obtain ⟨v, stage⟩ := t
    cases stage with
    | waiting lease rest =>
      have hlocked : c.isLocked lease.cell = true := by
        simpa [isReady] using hready
      obtain ⟨u, hu, hlock⟩ := List.any_eq_true.mp hlocked
      refine ⟨u, hu, ?_⟩
      obtain ⟨v', stage'⟩ := u
      cases stage' with
      | working lease' m => rfl
      | asking m => cases of_decide_eq_true hlock
      | waiting lease' rest' => cases of_decide_eq_true hlock
      | leaving lease' result => cases of_decide_eq_true hlock
      | finished result => cases of_decide_eq_true hlock
    | asking m => exact absurd rfl hready
    | working lease m => exact absurd rfl hready
    | leaving lease result => exact absurd rfl hready
    | finished result => exact absurd rfl hopen

/-! ## Runs -/

/-- The call that comes, if one comes. -/
def Event.visit? : Event → Option Visit
  | .join v => some v
  | .act _ _ => none

theorem visits_act (c : Crowd) (i : Nat) (now : Duration) :
    (c.act i now).tasks.map Task.visit = c.tasks.map Task.visit := by
  rcases c.act_cases i now with ⟨t, stage, hget, -, htasks⟩ | ⟨hsame, -⟩
  · obtain ⟨hi, rfl⟩ := List.getElem?_eq_some_iff.mp hget
    have hi' : i < (c.tasks.map Task.visit).length := by rwa [List.length_map]
    have hvisit : (c.tasks.map Task.visit)[i] = c.tasks[i].visit := List.getElem_map Task.visit
    rw [htasks, List.map_set, ← hvisit, List.set_getElem_self]
  · rw [hsame]

/-- **Calls are kept in the order in which they came.** -/
theorem visits_after (c : Crowd) (events : List Event) :
    (c.after events).tasks.map Task.visit =
      c.tasks.map Task.visit ++ events.filterMap Event.visit? := by
  induction events generalizing c with
  | nil => exact (List.append_nil _).symm
  | cons e events ih =>
    show ((c.next e).after events).tasks.map Task.visit = _
    rw [ih]
    cases e with
    | join v =>
      show (c.tasks ++ [_]).map Task.visit ++ _ = _
      rw [List.map_append, List.append_assoc]
      rfl
    | act i now =>
      show (c.act i now).tasks.map Task.visit ++ _ = _
      rw [visits_act]
      rfl

/-- **Calls that are over stay as they are.** -/
theorem tasks_after_of_isQuiet {c : Crowd} (h : c.isQuiet = true) (events : List Event) :
    ∃ later, (c.after events).tasks = c.tasks ++ later := by
  suffices hkept : ∀ c' : Crowd, (∃ later, c'.tasks = c.tasks ++ later) →
      ∃ later, (c'.after events).tasks = c.tasks ++ later from
    hkept c ⟨[], (List.append_nil _).symm⟩
  induction events with
  | nil => exact fun _ hlater => hlater
  | cons e events ih =>
    rintro c' ⟨later, hlater⟩
    refine ih (c'.next e) ?_
    cases e with
    | join v =>
      refine ⟨later ++ [⟨v, .asking (v.operation c'.policy ())⟩], ?_⟩
      rw [← List.append_assoc, ← hlater]
      rfl
    | act i now =>
      rcases c'.act_cases i now with ⟨t, stage, hget, hgoes, htasks⟩ | ⟨hsame, -⟩
      · -- a call that is over does not go on
        have hi : c.tasks.length ≤ i := by
          refine Nat.le_of_not_lt fun hlt => ?_
          rw [hlater, List.getElem?_append_left hlt] at hget
          exact Standing.not_goes_of_isFinished
            (List.all_eq_true.mp h t (List.mem_of_getElem? hget)) hgoes
        refine ⟨later.set (i - c.tasks.length) ⟨t.visit, stage⟩, ?_⟩
        show (c'.act i now).tasks = _
        rw [htasks, hlater, List.set_append_right _ _ hi]
      · exact ⟨later, (congrArg Crowd.tasks hsame).trans hlater⟩

/-- The first steps of a schedule, which says whose turn it is and what time it is then. -/
def turns (schedule : Nat → Nat × Duration) (n : Nat) : List Event :=
  (List.range n).map fun k => .act (schedule k).1 (schedule k).2

/-- **A schedule is fair** if it never passes over a call for good. -/
def IsFair (schedule : Nat → Nat × Duration) : Prop := ∀ i n, ∃ k, n ≤ k ∧ (schedule k).1 = i

theorem after_turns_succ (c : Crowd) (schedule : Nat → Nat × Duration) (n : Nat) :
    c.after (turns schedule (n + 1)) =
      (c.after (turns schedule n)).act (schedule n).1 (schedule n).2 := by
  rw [turns, List.range_succ, List.map_append, after, List.foldl_append]
  rfl

/-- Sooner or later a call goes on, if one can. -/
theorem exists_turn (c : Crowd) {schedule : Nat → Nat × Duration} (hfair : IsFair schedule)
    (n : Nat) (hopen : (c.after (turns schedule n)).isQuiet = false) :
    ∃ m, Task.Turn (c.after (turns schedule n)).tasks
      (c.after (turns schedule (m + 1))).tasks := by
  obtain ⟨t, ht, hready⟩ := exists_ready hopen
  obtain ⟨i, hi⟩ := List.mem_iff_getElem?.mp ht
  have hstep (m : Nat) (hsame : c.after (turns schedule m) = c.after (turns schedule n)) :
      Task.Turn (c.after (turns schedule n)).tasks (c.after (turns schedule (m + 1))).tasks ∨
        c.after (turns schedule (m + 1)) = c.after (turns schedule n) ∧ (schedule m).1 ≠ i := by
    rw [after_turns_succ, hsame]
    rcases act_cases (c.after (turns schedule n)) (schedule m).1 (schedule m).2 with
      ⟨u, stage, hget, hgoes, htasks⟩ | ⟨hstill, hblocked⟩
    · exact .inl ⟨_, u, stage, hget, hgoes, htasks⟩
    · refine .inr ⟨hstill, ?_⟩
      rintro rfl
      rw [hblocked t hi] at hready
      cases hready
  have hwait (j : Nat) : (∃ m, Task.Turn (c.after (turns schedule n)).tasks
      (c.after (turns schedule (m + 1))).tasks) ∨
        c.after (turns schedule (n + j)) = c.after (turns schedule n) := by
    induction j with
    | zero => exact .inr rfl
    | succ j ih =>
      rcases ih with hturn | hsame
      · exact .inl hturn
      · exact (hstep (n + j) hsame).imp (fun hturn => ⟨n + j, hturn⟩) And.left
  obtain ⟨k, hk, rfl⟩ := hfair i n
  obtain ⟨j, rfl⟩ := Nat.exists_eq_add_of_le hk
  rcases hwait j with hturn | hsame
  · exact hturn
  · rcases hstep (n + j) hsame with hturn | ⟨-, hne⟩
    · exact ⟨n + j, hturn⟩
    · exact absurd rfl hne

/-- **Under a fair schedule all calls come to their ends.** -/
theorem fair_isQuiet (c : Crowd) {schedule : Nat → Nat × Duration} (hfair : IsFair schedule) :
    ∃ n, (c.after (turns schedule n)).isQuiet = true := by
  suffices hends : ∀ tasks, Acc (fun tasks' tasks => Task.Turn tasks tasks') tasks →
      ∀ n, (c.after (turns schedule n)).tasks = tasks →
        ∃ n, (c.after (turns schedule n)).isQuiet = true from
    hends _ (Task.acc_turn _) 0 rfl
  intro tasks hacc
  induction hacc with
  | intro tasks _ ih =>
    rintro n rfl
    by_cases hquiet : (c.after (turns schedule n)).isQuiet = true
    · exact ⟨n, hquiet⟩
    · obtain ⟨m, hturn⟩ := c.exists_turn hfair n (Bool.eq_false_iff.mpr hquiet)
      exact ih _ hturn (m + 1) rfl

end Crowd

end Fleet
