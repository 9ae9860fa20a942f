import Fleet.Backend.Command
import Mathlib.Data.List.Basic
import Mathlib.Data.List.Induction

/-!
# Values that expire

A value that has expired is dropped by the look-up that finds it so, and a later set brings its key
back.  What counts for every answer is the value that is *live* at a key (`Memory.live`), and
looking it up does not change it.  Hence what a backend in memory answers can be told from the sets
that were carried out (`writes`), and look-ups can be added to a history and left out of it:
`values_expire`.
-/

namespace Fleet
namespace Memory

open Backend (Answer)

/-! ## Live values -/

theorem isExpired_mono {now later : Duration} (hle : now.nanos ≤ later.nanos)
    {e : Expiring} (h : isExpired later e = false) : isExpired now e = false := by
  unfold isExpired at h ⊢
  split
  · rfl
  · rename_i expiry hexpiry
    rw [hexpiry] at h
    simp only [decide_eq_false_iff_not] at h ⊢
    omega

theorem expiry_of_isExpired {now : Duration} {e : Expiring} (h : isExpired now e = true) :
    ∃ expiry, e.expiresAt = some expiry ∧ expiry.nanos ≤ now.nanos := by
  unfold isExpired at h
  split at h
  · cases h
  · exact ⟨_, by assumption, of_decide_eq_true h⟩

/-- A value that has not expired at some time had not expired before. -/
theorem filter_later {now later : Duration} (hle : now.nanos ≤ later.nanos)
    (o : Option Expiring) :
    (o.filter fun e => !isExpired now e).filter (fun e => !isExpired later e) =
      o.filter fun e => !isExpired later e := by
  rw [Option.filter_filter]
  congr 1
  funext e
  cases hlater : isExpired later e with
  | true => exact Bool.and_false _
  | false => rw [isExpired_mono hle hlater, Bool.not_false, Bool.and_true]

/-- The value at a key, unless it has expired at the time `now`. -/
def live (m : Memory) (now : Duration) (key : String) : Option Expiring :=
  (m.values.get? key).filter fun e => !isExpired now e

section Live

variable (m : Memory) {now later : Duration} (key other : String)

/-- Time can only take a value away. -/
theorem live_later (hle : now.nanos ≤ later.nanos) :
    m.live later key = (m.live now key).filter fun e => !isExpired later e :=
  (filter_later hle _).symm

/-- A look-up answers with the live value. -/
theorem perform_get : (m.perform now (.get key)).1 = (m.live now key).map Expiring.value := by
  cases hget : m.values.get? key with
  | none =>
    simp only [perform, live, hget]
    rfl
  | some e =>
    cases hexpired : isExpired now e <;>
      simp only [perform, live, hget, hexpired, Option.filter_some] <;> rfl

/-- **A look-up changes no live value,** though it may drop a value that has expired. -/
theorem live_perform_get : (m.perform now (.get key)).2.live now other = m.live now other := by
  cases hget : m.values.get? key with
  | none => simp only [perform, hget]
  | some e =>
    cases hexpired : isExpired now e with
    | false => simp [perform, hget, hexpired]
    | true =>
      simp only [perform, hget, hexpired, if_true, live, Table.get?_erase]
      split
      · rename_i hkey
        subst hkey
        simp [hget, hexpired, Option.filter_some]
      · rfl

/-- A set makes its value live, if there is any time at all until it expires. -/
theorem live_perform_set (value : Bytes) (ttl : Option Duration) :
    (m.perform now (.set key value ttl)).2.live now other =
      if key = other then
        (some ⟨value, ttl.bind now.add?⟩ : Option Expiring).filter fun e => !isExpired now e
      else m.live now other := by
  simp only [perform, live, Table.get?_insert]
  split <;> rfl

theorem lists_perform_get : (m.perform now (.get key)).2.lists = m.lists := by
  simp only [perform]
  split
  · rfl
  · split <;> rfl

/-- **What a request comes to** depends on the lists and on the live values alone. -/
theorem perform_congr {m m' : Memory} (hlists : m.lists = m'.lists)
    (hlive : ∀ key, m.live now key = m'.live now key) (r : Request) :
    (m.perform now r).1 = (m'.perform now r).1 ∧
      (m.perform now r).2.lists = (m'.perform now r).2.lists := by
  cases r with
  | pushFront key value | range key count =>
    simp only [perform, list, hlists]
    exact ⟨rfl, trivial⟩
  | trim key keep =>
    simp only [perform, hlists]
    split <;> exact ⟨rfl, by simp only [hlists]⟩
  | set key value ttl => exact ⟨rfl, hlists⟩
  | get key =>
    rw [perform_get, perform_get, lists_perform_get, lists_perform_get, hlive]
    exact ⟨rfl, hlists⟩

end Live

/-! ## A backend and its clock -/

/-- What can happen to a backend in memory. -/
inductive Event where
  | call (request : Request)
  /-- An outage begins, or it is over. -/
  | setAvailable (available : Bool)
  /-- The clock moves on, to the end of its range at most. -/
  | wait (span : Duration)

/-- A backend in memory and the time on its clock. -/
structure Timed where
  now : Duration
  memory : Memory := {}

/-- The time after an event. -/
def Event.timeAfter (now : Duration) : Event → Duration
  | .wait span => (now.add? span).getD .longest
  | _ => now

/-- Whether the backend is available after an event. -/
def Event.upAfter (up : Bool) : Event → Bool
  | .setAvailable available => available
  | _ => up

namespace Timed

/-- **One event:** what it answers and the backend after it. -/
def step (s : Timed) : Event → Answer × Timed
  | .call r =>
    (.result r (s.memory.serve s.now r).1, { s with memory := (s.memory.serve s.now r).2 })
  | .setAvailable available => (.done, { s with memory := { s.memory with available } })
  | .wait span => (.done, { s with now := (Event.wait span).timeAfter s.now })

/-- The backend after a history. -/
def after (s : Timed) (history : List Event) : Timed := history.foldl (fun s e => (s.step e).2) s

/-- What a history answers, event after event. -/
def answers : Timed → List Event → List Answer
  | _, [] => []
  | s, e :: rest => (s.step e).1 :: (s.step e).2.answers rest

end Timed

/-! ## The sets of a history -/

/-- **A set that was carried out.** -/
structure Write where
  value : Bytes
  ttl : Option Duration
  /-- When it was carried out. -/
  since : Duration

/-- **A written value lasts until its time is over,** to the nanosecond; it lasts for ever if it has
no time to live or if its time would be over beyond the range of durations. -/
def Write.Lasts (w : Write) (t : Duration) : Prop :=
  ∀ ttl ∈ w.ttl, 2 ^ 64 * nanosPerSecond ≤ w.since.nanos + ttl.nanos ∨
    t.nanos < w.since.nanos + ttl.nanos

instance (w : Write) (t : Duration) : Decidable (w.Lasts t) :=
  inferInstanceAs (Decidable (∀ ttl ∈ w.ttl, _ ∨ _))

/-- The set that an event carries out on a key at the time `now`, if it does. -/
def Event.write? (key : String) (now : Duration) (up : Bool) : Event → Option Write
  | .call (.set other value ttl) => if up ∧ other = key then some ⟨value, ttl, now⟩ else none
  | _ => none

/-- The time after a history. -/
def timeAfter (start : Duration) (history : List Event) : Duration :=
  history.foldl Event.timeAfter start

/-- Whether the backend is available after a history. -/
def upAfter (up : Bool) (history : List Event) : Bool := history.foldl Event.upAfter up

/-- **The sets of a key that a history carries out,** in their order.  Nothing of what the backend
stores enters into this. -/
def writes (key : String) : Duration → Bool → List Event → List Write
  | _, _, [] => []
  | now, up, e :: rest =>
    (e.write? key now up).toList ++ writes key (e.timeAfter now) (e.upAfter up) rest

theorem writes_concat (key : String) (now : Duration) (up : Bool) (history : List Event)
    (e : Event) :
    writes key now up (history ++ [e]) =
      writes key now up history ++
        (e.write? key (timeAfter now history) (upAfter up history)).toList := by
  induction history generalizing now up with
  | nil => exact List.append_nil _
  | cons first rest ih =>
    rw [List.cons_append, writes, writes, ih, List.append_assoc]
    rfl

/-- What the backend stores for a set. -/
def Write.entry (w : Write) : Expiring := ⟨w.value, w.ttl.bind w.since.add?⟩

/-- A stored value has not expired exactly as long as it should last. -/
theorem Write.isExpired_entry (w : Write) (t : Duration) :
    (!isExpired t w.entry) = decide (w.Lasts t) := by
  obtain ⟨value, ttl, since⟩ := w
  rw [Bool.eq_iff_iff, Bool.not_eq_true', decide_eq_true_iff]
  cases ttl with
  | none => exact ⟨fun _ => nofun, fun _ => rfl⟩
  | some ttl =>
    simp only [Lasts, entry, isExpired, Option.bind_some, Option.mem_some, forall_eq',
      Duration.add?]
    by_cases hrange : since.nanos + ttl.nanos < 2 ^ 64 * nanosPerSecond
    · simp only [dif_pos hrange, decide_eq_false_iff_not]
      omega
    · simp only [dif_neg hrange, true_iff]
      exact .inl (Nat.not_lt.mp hrange)

/-! ## What is live after a history -/

namespace Timed

variable {s s' : Timed} {e : Event}

/-- A call is carried out unless there is an outage. -/
theorem step_up (hup : s.memory.available = true) (r : Request) :
    s.step (.call r) =
      (.result r (.ok (s.memory.perform s.now r).1),
        { s with memory := (s.memory.perform s.now r).2 }) := by
  rw [step, serve, if_pos hup]

/-- A call during an outage is refused and changes nothing. -/
theorem step_down (hdown : s.memory.available = false) (r : Request) :
    s.step (.call r) = (.result r (.error (.unreachable "memory backend")), s) := by
  rw [step, serve, if_neg (by simp [hdown])]

theorem now_step (s : Timed) (e : Event) : (s.step e).2.now = e.timeAfter s.now := by
  cases e <;> rfl

theorem available_step (s : Timed) (e : Event) :
    (s.step e).2.memory.available = e.upAfter s.memory.available := by
  cases e with
  | call r =>
    show (s.memory.serve s.now r).2.available = s.memory.available
    unfold serve
    split
    · cases r <;> simp only [perform] <;> repeat' first | rfl | split
    · rfl
  | _ => rfl

theorem le_timeAfter (now : Duration) (e : Event) : now.nanos ≤ (e.timeAfter now).nanos := by
  cases e with
  | wait span =>
    rw [Event.timeAfter, Duration.add?]
    split
    · exact Nat.le_add_right _ _
    · exact Nat.le_sub_one_of_lt now.bounded
  | _ => exact Nat.le_refl _

/-- **What is live after an event:** the value that it sets, or else what was live before and has
not expired meanwhile. -/
theorem live_step (s : Timed) (e : Event) (key : String) :
    (s.step e).2.memory.live (s.step e).2.now key =
      (((e.write? key s.now s.memory.available).map Write.entry).or
        (s.memory.live s.now key)).filter fun x => !isExpired (s.step e).2.now x := by
  have hkept (t : Duration) (k : String) :
      s.memory.live t k = (s.memory.live t k).filter fun x => !isExpired t x :=
    s.memory.live_later k (Nat.le_refl _)
  cases e with
  | setAvailable available => exact hkept s.now key
  | wait span => exact s.memory.live_later key (le_timeAfter s.now _)
  | call r =>
    by_cases hup : s.memory.available = true
    · rw [step_up hup]
      cases r with
      | set other value ttl =>
        simp only [live_perform_set, Event.write?, hup, true_and]
        split
        · rfl
        · exact hkept s.now key
      | get other => exact (s.memory.live_perform_get other key).trans (hkept s.now key)
      | pushFront other value | range other count => exact hkept s.now key
      | trim other keep =>
        have hvalues : (s.memory.perform s.now (.trim other keep)).2.values = s.memory.values := by
          simp only [perform]
          split <;> rfl
        show (s.memory.perform s.now (.trim other keep)).2.live s.now key = _
        rw [live, hvalues]
        exact hkept s.now key
    · have hnone : (Event.call r).write? key s.now s.memory.available = none := by
        cases r <;> simp [Event.write?, hup]
      rw [step_down (by simpa using hup), hnone]
      exact hkept s.now key

theorem after_concat (s : Timed) (history : List Event) (e : Event) :
    s.after (history ++ [e]) = ((s.after history).step e).2 := List.foldl_concat ..

/-- **What is live after a history** is what the last set on the key stored, unless that has
expired. -/
theorem live_after (start : Duration) (history : List Event) :
    let s := after { now := start } history
    s.now = timeAfter start history ∧ s.memory.available = upAfter true history ∧
      ∀ key, s.memory.live s.now key =
        ((writes key start true history).getLast?.map Write.entry).filter
          fun x => !isExpired s.now x := by
  induction history using List.reverseRecOn with
  | nil => exact ⟨rfl, rfl, fun _ => rfl⟩
  | append_singleton history e ih =>
    obtain ⟨hnow, havailable, hlive⟩ := ih
    simp only [after_concat]
    refine ⟨?_, ?_, fun key => ?_⟩
    · rw [now_step, hnow, timeAfter, timeAfter, List.foldl_concat]
    · rw [available_step, havailable, upAfter, upAfter, List.foldl_concat]
    · rw [live_step, writes_concat, hlive, hnow, havailable]
      cases e.write? key (timeAfter start history) (upAfter true history) with
      | some w =>
        rw [Option.toList_some, List.getLast?_concat]
        rfl
      | none =>
        rw [Option.toList_none, List.append_nil]
        refine filter_later ?_ _
        rw [now_step, hnow]
        exact le_timeAfter _ e

/-! ## Look-ups cannot be told from what is answered later -/

/-- **Two backends that answer alike,** though one may still store what has expired. -/
structure Alike (s s' : Timed) : Prop where
  now : s.now = s'.now
  available : s.memory.available = s'.memory.available
  lists : s.memory.lists = s'.memory.lists
  live : ∀ key, s.memory.live s.now key = s'.memory.live s'.now key

theorem Alike.refl (s : Timed) : Alike s s := ⟨rfl, rfl, rfl, fun _ => rfl⟩

/-- Backends that answer alike give one answer, and answer alike from then on. -/
theorem Alike.step (h : Alike s s') (e : Event) :
    (s.step e).1 = (s'.step e).1 ∧ Alike (s.step e).2 (s'.step e).2 := by
  have hnow : (s.step e).2.now = (s'.step e).2.now := by rw [now_step, now_step, h.now]
  have havailable : (s.step e).2.memory.available = (s'.step e).2.memory.available := by
    rw [available_step, available_step, h.available]
  have hlive (key : String) : (s.step e).2.memory.live (s.step e).2.now key =
      (s'.step e).2.memory.live (s'.step e).2.now key := by
    rw [live_step, live_step, h.now, h.available, hnow, ← h.live, ← h.now]
  suffices hcall : (s.step e).1 = (s'.step e).1 ∧
      (s.step e).2.memory.lists = (s'.step e).2.memory.lists from
    ⟨hcall.1, hnow, havailable, hcall.2, hlive⟩
  cases e with
  | call r =>
    by_cases hup : s.memory.available = true
    · rw [step_up hup, step_up (h.available ▸ hup), ← h.now]
      obtain ⟨hreply, hlists⟩ :=
        perform_congr h.lists (fun key => (h.live key).trans (by rw [h.now])) r
      exact ⟨by rw [hreply], hlists⟩
    · rw [step_down (by simpa using hup), step_down (by simpa [← h.available] using hup)]
      exact ⟨rfl, h.lists⟩
  | _ => exact ⟨rfl, h.lists⟩

/-- A look-up that only one of them carries out makes no difference. -/
theorem Alike.get (h : Alike s s') (key : String) :
    Alike (s.step (.call (.get key))).2 s' := by
  by_cases hup : s.memory.available = true
  · have hkept := available_step s (.call (.get key))
    rw [step_up hup] at hkept ⊢
    exact ⟨h.now, hkept.trans h.available, (s.memory.lists_perform_get key).trans h.lists,
      fun other => (s.memory.live_perform_get key other).trans (h.live other)⟩
  · rw [step_down (by simpa using hup)]
    exact h

/-- **Events that are marked, all of them look-ups, can be left out:** everything else is answered
as before. -/
theorem Alike.answers (h : Alike s s') {marked : List (Event × Bool)}
    (hgets : ∀ e ∈ marked, e.2 = true → ∃ key, e.1 = .call (.get key)) :
    s'.answers ((marked.filter fun e => !e.2).map Prod.fst) =
      ((marked.zip (s.answers (marked.map Prod.fst))).filter fun e => !e.1.2).map Prod.snd := by
  induction marked generalizing s s' with
  | nil => rfl
  | cons e rest ih =>
    obtain ⟨e, extra⟩ := e
    have hrest := fun x hx => hgets x (List.mem_cons_of_mem _ hx)
    cases extra with
    | true =>
      obtain ⟨key, rfl⟩ := hgets _ List.mem_cons_self rfl
      exact ih (h.get key) hrest
    | false =>
      obtain ⟨hanswer, hafter⟩ := h.step e
      show (s'.step e).1 :: (s'.step e).2.answers _ = (s.step e).1 :: _
      rw [hanswer, ih hafter hrest]
      rfl

end Timed

/-- **How values of a backend in memory expire.**  After every history a call is refused exactly
during an outage, and then changes nothing.  A look-up that is not refused gives the value of the
last set on its key that was carried out, as long as that lasts, and nothing afterwards.  Look-ups
cannot be told from what else is answered: any of them can be left out of a history, or added to
it. -/
theorem values_expire (start : Duration) (history : List Event) :
    let s := Timed.after { now := start } history
    (upAfter true history = false → ∀ r,
      s.step (.call r) = (.result r (.error (.unreachable "memory backend")), s)) ∧
    (upAfter true history = true →
      (∀ r, ∃ reply, (s.step (.call r)).1 = .result r (.ok reply)) ∧
      ∀ key, (s.step (.call (.get key))).1 = .result (.get key) (.ok
        (((writes key start true history).getLast?.filter
          (·.Lasts (timeAfter start history))).map Write.value))) ∧
    ∀ marked : List (Event × Bool),
      (∀ e ∈ marked, e.2 = true → ∃ key, e.1 = .call (.get key)) →
      s.answers ((marked.filter fun e => !e.2).map Prod.fst) =
        ((marked.zip (s.answers (marked.map Prod.fst))).filter fun e => !e.1.2).map Prod.snd := by
  intro s
  obtain ⟨hnow, havailable, hlive⟩ := Timed.live_after start history
  refine ⟨fun hdown => Timed.step_down (havailable.trans hdown), fun hup => ⟨fun r => ?_,
    fun key => ?_⟩, fun marked hgets => (Timed.Alike.refl s).answers hgets⟩
  · rw [Timed.step_up (havailable.trans hup)]
    exact ⟨_, rfl⟩
  · rw [Timed.step_up (havailable.trans hup), perform_get, hlive, hnow, Option.filter_map,
      Option.map_map]
    have hlasts (w : Write) := w.isExpired_entry (timeAfter start history)
    simp only [Function.comp_def, hlasts]
    rfl

/-- A value with five milliseconds to live is there one nanosecond before they are over. -/
example :
    ({ now := .zero } : Timed).answers [.call (.set "k" [1] (some (.ofMillis 5))),
        .wait (.ofNanos 4999999), .call (.get "k"), .wait (.ofNanos 1), .call (.get "k")] =
      [.result (.set "k" [1] (some (.ofMillis 5))) (.ok ()), .done,
        .result (.get "k") (.ok (some [1] : Option Bytes)), .done,
        .result (.get "k") (.ok (none : Option Bytes))] := by
  rfl

end Memory
end Fleet
