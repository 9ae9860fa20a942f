import Fleet.Proofs.Backend.Order
import Fleet.Backend.Command
import Fleet.Proofs.Store.Faulty

/-!
# The two backends agree

Both backends answer the same to every sequence of requests (`backends_agree`), as long as no key of
a list holds a zero byte and no value outlives its time. The clocks of the two need not agree, and
the numbers that the ordered backend files its entries under need only rise.
-/

namespace Fleet

namespace Request

/-- The list that a request is about, if it is about one. -/
def listKey? : Request → Option String
  | .pushFront key _ | .range key _ | .trim key _ => some key
  | .set _ _ _ | .get _ => none

/-- The time to live that a request gives to a value. -/
def ttl? : Request → Option Duration
  | .set _ _ ttl => ttl
  | _ => none

end Request

namespace Backend

/-- **A request and when it comes,** on the clock of each backend. -/
structure Step where
  request : Request
  /-- The number under which the ordered backend files an entry, if the request makes one. -/
  id : Nat
  /-- The time on the clock of the backend in memory. -/
  uptime : Duration
  /-- The time on the clock of the ordered backend, in Unix milliseconds. -/
  unixMillis : Nat

/-- A time to live that starts at one step is not over at another, on either clock. -/
def Step.Outlives (s : Step) (ttl : Duration) (t : Step) : Prop :=
  t.uptime.nanos < s.uptime.nanos + ttl.nanos ∧
    t.unixMillis < Ordered.expiry s.unixMillis (some ttl)

instance (s : Step) (ttl : Duration) (t : Step) : Decidable (s.Outlives ttl t) := by
  unfold Step.Outlives
  infer_instance

/-- **Steps that both backends can take alike:** no key of a list holds a zero byte, the numbers of
new entries are 64-bit numbers that rise, and no time to live is over before the last step. -/
structure Admissible (steps : List Step) : Prop where
  plain : ∀ s ∈ steps, ∀ key ∈ s.request.listKey?, 0 ∉ Bytes.ofText key
  fits : ∀ s ∈ steps, s.request.isPush → s.id < 2 ^ 64
  rising : steps.Pairwise fun s t => s.request.isPush → t.request.isPush → s.id < t.id
  lasting : steps.Pairwise fun s t => ∀ ttl ∈ s.request.ttl?, s.Outlives ttl t

theorem Admissible.tail {s : Step} {rest : List Step} (h : Admissible (s :: rest)) :
    Admissible rest where
  plain := fun t ht => h.plain t (List.mem_cons_of_mem _ ht)
  fits := fun t ht => h.fits t (List.mem_cons_of_mem _ ht)
  rising := (List.pairwise_cons.mp h.rising).2
  lasting := (List.pairwise_cons.mp h.lasting).2

end Backend

open Backend (Step Admissible)

/-- What a backend in memory answers, request after request. -/
def Memory.results : Memory → List Step → List Backend.Answer
  | _, [] => []
  | m, s :: rest =>
    .result s.request (m.serve s.uptime s.request).1 ::
      (m.serve s.uptime s.request).2.results rest

/-- What an ordered backend answers, request after request. -/
def Ordered.results : Ordered → List Step → List Backend.Answer
  | _, [] => []
  | o, s :: rest =>
    .result s.request ({ o with nextId := s.id }.serve s.unixMillis s.request).1 ::
      ({ o with nextId := s.id }.serve s.unixMillis s.request).2.results rest

namespace Memory

variable (m : Memory) (now : Duration) (key other : String)

/-- A push puts the value in front of its list and leaves the others alone. -/
theorem list_push (value : Bytes) :
    (m.perform now (.pushFront key value)).2.list other =
      if key = other then value :: m.list key else m.list other :=
  m.list_insert key other _

/-- A trim keeps the newest values of its list and leaves all else alone. -/
theorem perform_trim (keep : Nat) :
    ∃ lists, m.perform now (.trim key keep) =
        (((m.list key).length - keep : Nat), { m with lists }) ∧
      ∀ other, { m with lists : Memory }.list other =
        if key = other then (m.list key).take keep else m.list other := by
  cases h : m.lists.get? key with
  | none =>
    have hempty : m.list key = [] := by simp [list, h]
    refine ⟨m.lists, ?_, fun other => ?_⟩
    · simp only [perform, h, hempty, List.length_nil, Nat.zero_sub]
      rfl
    · by_cases hkey : key = other
      · rw [if_pos hkey, hempty, List.take_nil, ← hkey]
        exact hempty
      · rw [if_neg hkey]
  | some values =>
    have hvalues : m.list key = values := by simp [list, h]
    refine ⟨m.lists.insert key (values.take keep), ?_, fun other => ?_⟩
    · simp only [perform, h, hvalues]
      rfl
    · rw [hvalues]
      exact m.list_insert key other _

end Memory

namespace Backend

/-- **A value of the one backend and what the other stores for it,** which neither gives up during
the steps to come. -/
def Shows (rest : List Step) : Option Expiring → Option Bytes → Prop
  | none, none => True
  | some e, some stored => ∃ expiresAt < 2 ^ 64,
      stored = Bytes.ofNat64 expiresAt ++ e.value ∧
        ∀ t ∈ rest, Memory.isExpired t.uptime e = false ∧
          (expiresAt = 0 ∨ t.unixMillis < expiresAt)
  | _, _ => False

/-- **The ordered backend holds what the backend in memory does,** until the end of the steps to
come. -/
structure Mirrors (rest : List Step) (m : Memory) (o : Ordered) : Prop where
  available : m.available = true
  lists : ∀ key, 0 ∉ Bytes.ofText key → o.list key = m.list key
  filed : ∃ bound, (∀ t ∈ rest, t.request.isPush → bound ≤ t.id) ∧
    ∀ key, 0 ∉ Bytes.ofText key → o.Filed key bound
  values : ∀ key, Shows rest (m.values.get? key) (o.values.get? (Bytes.ofText key))

theorem mirrors_empty (rest : List Step) : Mirrors rest {} {} where
  available := rfl
  lists := fun _ _ => rfl
  filed := ⟨0, fun _ _ _ => Nat.zero_le _, fun _ _ => ⟨List.Pairwise.nil, by simp⟩⟩
  values := fun _ => trivial

variable {s : Step} {rest : List Step} {m : Memory} {o : Ordered}

theorem Shows.tail {value : Option Expiring} {stored : Option Bytes}
    (h : Shows (s :: rest) value stored) : Shows rest value stored := by
  match value, stored, h with
  | none, none, _ => trivial
  | some e, some stored, ⟨expiresAt, hfits, hstored, hlasts⟩ =>
    exact ⟨expiresAt, hfits, hstored, fun t ht => hlasts t (List.mem_cons_of_mem _ ht)⟩

/-- A value that is set is shown as long as its time lasts. -/
theorem shows_set {value : Bytes} {ttl : Option Duration}
    (h : ∀ t ∈ rest, ∀ span ∈ ttl, s.Outlives span t) :
    Shows rest (some ⟨value, ttl.bind s.uptime.add?⟩)
      (some (Bytes.ofNat64 (Ordered.expiry s.unixMillis ttl) ++ value)) := by
  refine ⟨Ordered.expiry s.unixMillis ttl, ?_, rfl, fun t ht => ?_⟩
  · unfold Ordered.expiry Ordered.lastExpiry
    cases ttl <;> simp only <;> omega
  · cases ttl with
    | none => exact ⟨rfl, .inl rfl⟩
    | some span =>
      obtain ⟨huptime, hunix⟩ := h t ht span rfl
      refine ⟨?_, .inr hunix⟩
      by_cases hrange : s.uptime.nanos + span.nanos < 2 ^ 64 * nanosPerSecond
      · simpa only [Memory.isExpired, Option.bind_some, Duration.add?, hrange, dif_pos,
          decide_eq_false_iff_not, Nat.not_le] using huptime
      · simp only [Memory.isExpired, Option.bind_some, Duration.add?, hrange, dif_neg,
          not_false_eq_true]

/-- A value that is shown is read. -/
theorem Shows.read {key : String}
    (h : Shows (s :: rest) (m.values.get? key) (o.values.get? (Bytes.ofText key))) :
    m.perform s.uptime (.get key) = ((m.values.get? key).map Expiring.value, m) ∧
      o.read s.unixMillis key = (.ok ((m.values.get? key).map Expiring.value), o) := by
  match hvalue : m.values.get? key, hstored : o.values.get? (Bytes.ofText key), h with
  | none, none, _ =>
    simp only [Memory.perform, Ordered.read, hvalue, hstored]
    exact ⟨rfl, rfl⟩
  | some e, some stored, ⟨expiresAt, hfits, heq, hlasts⟩ =>
    subst heq
    obtain ⟨hmemory, hordered⟩ := hlasts s List.mem_cons_self
    have hlength : ¬ (Bytes.ofNat64 expiresAt ++ e.value).length < Ordered.headerLength := by
      simp [Ordered.headerLength]
    have hheader : Bytes.toNat ((Bytes.ofNat64 expiresAt ++ e.value).take Ordered.headerLength) =
        expiresAt := by
      rw [Ordered.headerLength, List.take_left' (Bytes.length_ofNat64 _), Bytes.toNat_ofNat64 hfits]
    have hlives : ¬ (expiresAt ≠ 0 ∧ expiresAt ≤ s.unixMillis) := by omega
    refine ⟨?_, ?_⟩
    · simp only [Memory.perform, hvalue, hmemory]
      rfl
    · simp only [Ordered.read, hstored, hlength, if_false, hheader, hlives]
      rw [Ordered.headerLength, List.drop_left' (Bytes.length_ofNat64 _)]
      rfl

/-! ## One request after another -/

/-- What the backends make of a request: the same result, and states that agree again. -/
def Agree (rest : List Step) {r : Request} (x : r.Result × Memory) (y : r.Result × Ordered) :
    Prop := x.1 = y.1 ∧ Mirrors rest x.2 y.2

section Requests

variable {id : Nat} {uptime : Duration} {unixMillis : Nat} {key : String}

theorem Mirrors.serve_memory (h : Mirrors rest m o) (r : Request) :
    m.serve uptime r = (.ok (m.perform uptime r).1, (m.perform uptime r).2) :=
  if_pos h.available

theorem Mirrors.values_tail (h : Mirrors (s :: rest) m o) (key : String) :
    Shows rest (m.values.get? key) (o.values.get? (Bytes.ofText key)) := (h.values key).tail

/-- The steps to come do not file entries under the numbers in use. -/
theorem Mirrors.filed_tail (h : Mirrors (s :: rest) m o) (id : Nat) :
    ∃ bound, (∀ t ∈ rest, t.request.isPush → bound ≤ t.id) ∧
      ∀ key, 0 ∉ Bytes.ofText key → Ordered.Filed key bound { o with nextId := id } := by
  obtain ⟨bound, hbound, hfiled⟩ := h.filed
  exact ⟨bound, fun t ht => hbound t (List.mem_cons_of_mem _ ht),
    fun key hkey => { hfiled key hkey with }⟩

theorem Mirrors.pushFront {value : Bytes}
    (h : Mirrors (⟨.pushFront key value, id, uptime, unixMillis⟩ :: rest) m o)
    (hsteps : Admissible (⟨.pushFront key value, id, uptime, unixMillis⟩ :: rest)) :
    Agree rest (m.serve uptime (.pushFront key value))
      ({ o with nextId := id }.serve unixMillis (.pushFront key value)) := by
  have hplain : 0 ∉ Bytes.ofText key := hsteps.plain _ List.mem_cons_self key rfl
  have hfit : id < 2 ^ 64 := hsteps.fits _ List.mem_cons_self rfl
  obtain ⟨bound, hbound, hfiled⟩ := h.filed
  have hid : bound ≤ id := hbound _ List.mem_cons_self rfl
  have hfiled (other) (hother : 0 ∉ Bytes.ofText other) :
      Ordered.Filed other bound { o with nextId := id } := { hfiled other hother with }
  have hlists (other) (hother : 0 ∉ Bytes.ofText other) :
      ({ o with nextId := id : Ordered }.pushed key value).list other =
        (m.perform uptime (.pushFront key value)).2.list other := by
    rw [Memory.list_push]
    by_cases hkey : key = other
    · subst hkey
      rw [if_pos rfl, Ordered.list_push value (hfiled key hplain) hid hfit]
      exact congrArg (value :: ·) (h.lists key hplain)
    · have hapart := Ordered.apart_of_no_zero (Ne.symm hkey) hother hplain
      rw [if_neg hkey, Ordered.list_push_of_apart value hapart]
      exact h.lists other hother
  rw [Ordered.serve_pushFront, h.serve_memory]
  refine ⟨?_, h.available, hlists, ⟨id + 1, fun t ht hpush => ?_, fun other hother => ?_⟩,
    h.values_tail⟩
  · have hlength := congrArg List.length (hlists key hplain)
    rw [Memory.list_push, if_pos rfl] at hlength
    exact congrArg Except.ok hlength.symm
  · exact (List.pairwise_cons.mp hsteps.rising).1 t ht rfl hpush
  · refine (hfiled other hother).push value hid ?_
    by_cases hkey : key = other
    · exact .inl hkey
    · exact .inr (Ordered.apart_of_no_zero (Ne.symm hkey) hother hplain)

theorem Mirrors.range {count : Nat}
    (h : Mirrors (⟨.range key count, id, uptime, unixMillis⟩ :: rest) m o)
    (hsteps : Admissible (⟨.range key count, id, uptime, unixMillis⟩ :: rest)) :
    Agree rest (m.serve uptime (.range key count))
      ({ o with nextId := id }.serve unixMillis (.range key count)) := by
  have hplain : 0 ∉ Bytes.ofText key := hsteps.plain _ List.mem_cons_self key rfl
  rw [Ordered.serve_range, h.serve_memory]
  refine ⟨?_, h.available, h.lists, h.filed_tail id, h.values_tail⟩
  exact congrArg (fun values => Except.ok (List.take count values)) (h.lists key hplain).symm

theorem Mirrors.trim {keep : Nat}
    (h : Mirrors (⟨.trim key keep, id, uptime, unixMillis⟩ :: rest) m o)
    (hsteps : Admissible (⟨.trim key keep, id, uptime, unixMillis⟩ :: rest)) :
    Agree rest (m.serve uptime (.trim key keep))
      ({ o with nextId := id }.serve unixMillis (.trim key keep)) := by
  have hplain : 0 ∉ Bytes.ofText key := hsteps.plain _ List.mem_cons_self key rfl
  obtain ⟨bound, hbound, hfiled⟩ := h.filed_tail id
  obtain ⟨lists, hperform, hmemory⟩ := m.perform_trim uptime key keep
  rw [Ordered.serve_trim, h.serve_memory, hperform]
  refine ⟨?_, h.available, fun other hother => ?_,
    ⟨bound, hbound, fun other hother => (hfiled other hother).trim keep⟩, h.values_tail⟩
  · exact congrArg (fun values => Except.ok (List.length values - keep)) (h.lists key hplain).symm
  · rw [hmemory]
    by_cases hkey : key = other
    · subst hkey
      rw [if_pos rfl, Ordered.list_trim keep (hfiled key hplain)]
      exact congrArg (List.take keep) (h.lists key hplain)
    · have hapart := Ordered.apart_of_no_zero (Ne.symm hkey) hother hplain
      rw [if_neg hkey, Ordered.list_trim_of_apart keep hapart]
      exact h.lists other hother

theorem Mirrors.set {value : Bytes} {ttl : Option Duration}
    (h : Mirrors (⟨.set key value ttl, id, uptime, unixMillis⟩ :: rest) m o)
    (hsteps : Admissible (⟨.set key value ttl, id, uptime, unixMillis⟩ :: rest)) :
    Agree rest (m.serve uptime (.set key value ttl))
      ({ o with nextId := id }.serve unixMillis (.set key value ttl)) := by
  have hset : Shows rest (some ⟨value, ttl.bind uptime.add?⟩)
      (some (Bytes.ofNat64 (Ordered.expiry unixMillis ttl) ++ value)) :=
    shows_set (s := ⟨.set key value ttl, id, uptime, unixMillis⟩)
      (List.pairwise_cons.mp hsteps.lasting).1
  obtain ⟨bound, hbound, hfiled⟩ := h.filed
  rw [h.serve_memory]
  have hbound' : ∀ t ∈ rest, t.request.isPush → bound ≤ t.id := fun t ht =>
    hbound t (List.mem_cons_of_mem _ ht)
  refine ⟨rfl, h.available, h.lists, ⟨bound, hbound', fun other hother => ?_⟩, fun other => ?_⟩
  · exact { hfiled other hother with }
  show Shows rest ((m.values.insert key _).get? other)
    ((o.values.insert (Bytes.ofText key) _).get? (Bytes.ofText other))
  rw [Table.get?_insert, OrderedMap.get?_insert]
  by_cases hkey : key = other
  · subst hkey
    simpa only [if_pos] using hset
  · rw [if_neg hkey, if_neg fun heq => hkey (Bytes.ofText_injective heq)]
    exact h.values_tail other

theorem Mirrors.get (h : Mirrors (⟨.get key, id, uptime, unixMillis⟩ :: rest) m o) :
    Agree rest (m.serve uptime (.get key))
      ({ o with nextId := id }.serve unixMillis (.get key)) := by
  obtain ⟨hmemory, hordered⟩ := Shows.read (o := { o with nextId := id }) (h.values key)
  have hserve : { o with nextId := id }.serve unixMillis (.get key) = _ := hordered
  rw [h.serve_memory, hmemory, hserve]
  exact ⟨rfl, h.available, h.lists, h.filed_tail id, h.values_tail⟩

end Requests

/-- **One step:** the answers agree, and so do the backends after it. -/
theorem Mirrors.step (h : Mirrors (s :: rest) m o) (hsteps : Admissible (s :: rest)) :
    Agree rest (m.serve s.uptime s.request)
      ({ o with nextId := s.id }.serve s.unixMillis s.request) := by
  obtain ⟨request, id, uptime, unixMillis⟩ := s
  cases request with
  | pushFront key value => exact h.pushFront hsteps
  | range key count => exact h.range hsteps
  | trim key keep => exact h.trim hsteps
  | set key value ttl => exact h.set hsteps
  | get key => exact h.get

/-- Backends that agree answer alike from then on. -/
theorem Mirrors.results_eq {steps : List Step} (h : Mirrors steps m o)
    (hsteps : Admissible steps) : m.results steps = o.results steps := by
  induction steps generalizing m o with
  | nil => rfl
  | cons s rest ih =>
    obtain ⟨hanswer, hafter⟩ := h.step hsteps
    rw [Memory.results, Ordered.results, hanswer, ih hafter hsteps.tail]

/-- **The two backends answer alike.** From empty backends, every sequence of admissible requests is
answered by both with the same results. -/
theorem backends_agree {steps : List Step} (h : Admissible steps) :
    Memory.results {} steps = Ordered.results {} steps :=
  (mirrors_empty steps).results_eq h

/-- Two lists, the key of one the start of the other's, and a value with a time to live. -/
def prefixSteps : List Step := [
  ⟨.pushFront "track:points:d1" [1], 5, .ofMillis 0, 0⟩,
  ⟨.pushFront "track:points:d10" [99], 7, .ofMillis 1, 1⟩,
  ⟨.pushFront "track:points:d1" [2], 256, .ofMillis 2, 2⟩,
  ⟨.set "track:points:d1" [3] (some (.ofMillis 100)), 0, .ofMillis 3, 3⟩,
  ⟨.range "track:points:d1" 10, 0, .ofMillis 4, 4⟩,
  ⟨.trim "track:points:d1" 1, 0, .ofMillis 5, 5⟩,
  ⟨.range "track:points:d10" 10, 0, .ofMillis 6, 6⟩,
  ⟨.get "track:points:d1", 0, .ofMillis 102, 102⟩]

theorem backends_agree_on_prefix_keys :
    Memory.results {} prefixSteps = Ordered.results {} prefixSteps :=
  backends_agree ⟨by decide, by decide, by decide, by decide⟩

end Backend

end Fleet
