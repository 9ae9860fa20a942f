import Fleet.Backend.Faults
import Fleet.Proofs.Store.Ensures
import Fleet.Store.Operation

/-!
# The backend in memory under faults

Every request to the backend meets a fate: it is carried out at some moment, it fails, or it is
never answered, and only in the first case it has an effect.  The backend keeps a record of the
values that were put in front of its lists and of the values that a request found expired.

A driver's operations depend on one list and on one value, which with their history are the driver's
`Holding`.  There is one rule for each kind of request on a holding, and requests about one driver
leave the holdings of all others alone: `holding_serve`.
-/

namespace Fleet

open TrackPolicy (pointsKey analysisKey)

/-- **What becomes of a request.** -/
inductive Fate where
  /-- It is carried out at the time `now`. -/
  | served (now : Duration)
  | failed (cause : PeerError)
  /-- It is never answered. -/
  | stalled

/-- **The backend in memory under faults,** with a record of what it did. -/
structure Faulty where
  memory : Memory := {}
  /-- How many requests were made. -/
  asked : Nat := 0
  /-- The values that were put in front of lists with the keys of the lists, newest first. -/
  pushed : List (String × Bytes) := []
  /-- The keys whose values were found expired. -/
  lapsed : List String := []

namespace Faulty

/-- The record after a request is carried out at the time `now`. -/
def note (now : Duration) (f : Faulty) : Request → Faulty
  | .pushFront key value => { f with pushed := (key, value) :: f.pushed }
  | .get key =>
    if (f.memory.values.get? key).any (Memory.isExpired now) then
      { f with lapsed := key :: f.lapsed }
    else f
  | _ => f

/-- The backend after a request is carried out at the time `now`. -/
def carryOut (now : Duration) (f : Faulty) (r : Request) : Faulty :=
  { f.note now r with memory := (f.memory.perform now r).2, asked := f.asked + 1 }

/-- **Serves a request as its fate is.** -/
def serve (fates : Nat → Fate) : Server Faulty := fun f r =>
  match fates f.asked with
  | .served now => (some (.ok (f.memory.perform now r).1), f.carryOut now r)
  | .failed cause => (some (.error cause), { f with asked := f.asked + 1 })
  | .stalled => (none, { f with asked := f.asked + 1 })

/-- A backend in memory with injected failures, outages or a stall gives each request such a
fate. -/
theorem serve_backend (clock : Clock) (b : Backend) (m : Memory) (hm : b.storage = .memory m)
    (r : Request) : ∃ fate, ∀ f : Faulty, f.memory = m →
      (b.serve clock r).1 = (f.serve (fun _ => fate) r).1 ∧
        (b.serve clock r).2.storage = .memory (f.serve (fun _ => fate) r).2.memory := by
  by_cases hstalled : b.stalled = true
  · refine ⟨.stalled, ?_⟩
    rintro f rfl
    simp [Backend.serve, serve, hstalled, hm]
  cases hn : b.pendingFailures r.method with
  | succ n =>
    refine ⟨.failed (.storage ("injected " ++ r.method.name)), ?_⟩
    rintro f rfl
    simp [Backend.serve, serve, hstalled, hn, Backend.inject, hm]
  | zero =>
    by_cases havailable : m.available = true
    · refine ⟨.served clock.now, ?_⟩
      rintro f rfl
      simp [Backend.serve, serve, carryOut, hstalled, hn, hm, Storage.serve, Memory.serve,
        havailable]
    · refine ⟨.failed (.unreachable "memory backend"), ?_⟩
      rintro f rfl
      simp [Backend.serve, serve, hstalled, hn, hm, Storage.serve, Memory.serve, havailable]

end Faulty

/-! ## What the backend holds of a driver -/

/-- **What a backend holds of one driver,** and what has become of it. -/
structure Holding where
  /-- The driver's points, newest first. -/
  log : List Bytes := []
  /-- All points that ever reached the log, newest first. -/
  arrivals : List Bytes := []
  /-- The driver's analysis. -/
  stored : Option Expiring := none
  /-- Whether an analysis of the driver was found expired. -/
  lapsed : Bool := false

namespace Request

/-- Whether a request is one that operations on a driver make. -/
def About (driverId : String) : Request → Prop
  | .pushFront key _ => key = pointsKey driverId
  | .range key _ => key = pointsKey driverId
  | .trim key _ => key = pointsKey driverId
  | .set key _ _ => key = analysisKey driverId
  | .get key => key = analysisKey driverId

/-- Whether a request leaves the lists alone. -/
def SparesLists : Request → Prop
  | .pushFront _ _ => False
  | .trim _ _ => False
  | _ => True

/-- Whether a request is about a driver and leaves its log alone. -/
def SparesLog (driverId : String) (r : Request) : Prop := r.About driverId ∧ r.SparesLists

theorem SparesLists.isPush_eq {r : Request} (h : r.SparesLists) : r.isPush = false := by
  cases r <;> first | rfl | cases h

end Request

theorem pointsKey_inj {d e : String} : pointsKey d = pointsKey e ↔ d = e :=
  String.append_right_inj _

theorem analysisKey_inj {d e : String} : analysisKey d = analysisKey e ↔ d = e :=
  String.append_right_inj _

theorem Memory.list_insert (m : Memory) (key key' : String) (values : List Bytes) :
    Memory.list { m with lists := m.lists.insert key values } key' =
      if key = key' then values else m.list key' := by
  simp only [Memory.list, Table.get?_insert]
  split <;> rfl

namespace Faulty

variable {fates : Nat → Fate}

/-- The points that reached a list, newest first. -/
def arrivals (f : Faulty) (key : String) : List Bytes :=
  (f.pushed.filter fun e => e.1 = key).map Prod.snd

/-- What the backend holds of a driver. -/
def holding (f : Faulty) (driverId : String) : Holding where
  log := f.memory.list (pointsKey driverId)
  arrivals := f.arrivals (pointsKey driverId)
  stored := f.memory.values.get? (analysisKey driverId)
  lapsed := f.lapsed.contains (analysisKey driverId)

/-- What is known of a served request: either it was carried out, or it had no effect. -/
theorem serves_of {f : Faulty} {r : Request} {post : r.Reply → Faulty → Prop}
    {stop : Faulty → Prop} (hstop : stop { f with asked := f.asked + 1 })
    (hpost : ∀ now, post (f.memory.perform now r).1 (f.carryOut now r)) :
    Serves post stop (serve fates f r) := by
  unfold serve
  split
  · exact hpost _
  · exact hstop
  · exact hstop

theorem serve_eq {γ : Type} (g : Faulty → γ) (f : Faulty) (r : Request)
    (hidle : g { f with asked := f.asked + 1 } = g f)
    (hdone : ∀ now, g (f.carryOut now r) = g f) : g (serve fates f r).2 = g f := by
  unfold serve
  split
  · exact hdone _
  · exact hidle
  · exact hidle

/-- A look-up that is carried out gives what is there and changes nothing, or finds it expired. -/
theorem get_cases (now : Duration) (f : Faulty) (key : String) :
    ((f.memory.perform now (.get key)).1 = (f.memory.values.get? key).map Expiring.value ∧
      f.carryOut now (.get key) = { f with asked := f.asked + 1 }) ∨
    ((f.memory.perform now (.get key)).1 = none ∧
      f.carryOut now (.get key) =
        { f with
          memory := { f.memory with values := f.memory.values.erase key }
          asked := f.asked + 1
          lapsed := key :: f.lapsed }) := by
  cases hget : f.memory.values.get? key with
  | none =>
    refine Or.inl ⟨?_, ?_⟩
    · simp only [Memory.perform, hget]
      rfl
    · simp [carryOut, note, Memory.perform, hget]
  | some stored =>
    by_cases hexpired : Memory.isExpired now stored = true
    · refine Or.inr ⟨?_, ?_⟩
      · simp only [Memory.perform, hget, hexpired, if_true]
        rfl
      · simp [carryOut, note, Memory.perform, hget, hexpired]
    · refine Or.inl ⟨?_, ?_⟩
      · simp only [Memory.perform, hget, hexpired]
        rfl
      · simp [carryOut, note, Memory.perform, hget, hexpired]

/-! What requests about a driver do to what is held of it. -/

theorem holding_pushFront (now : Duration) (f : Faulty) (d : String) (value : Bytes) :
    (f.carryOut now (.pushFront (pointsKey d) value)).holding d =
      { f.holding d with
        log := value :: (f.holding d).log
        arrivals := value :: (f.holding d).arrivals } := by
  simp [holding, carryOut, note, Memory.perform, Memory.list_insert, arrivals]

theorem holding_trim (now : Duration) (f : Faulty) (d : String) (keep : Nat) :
    (f.carryOut now (.trim (pointsKey d) keep)).holding d =
      { f.holding d with log := (f.holding d).log.take keep } := by
  cases hget : f.memory.lists.get? (pointsKey d) <;>
    simp [holding, carryOut, note, Memory.perform, Memory.list, arrivals, hget]

theorem holding_set (now : Duration) (f : Faulty) (d : String) (value : Bytes)
    (ttl : Option Duration) :
    (f.carryOut now (.set (analysisKey d) value ttl)).holding d =
      { f.holding d with stored := some ⟨value, ttl.bind now.add?⟩ } := by
  simp [holding, carryOut, note, Memory.perform, Memory.list, arrivals]

theorem holding_get (now : Duration) (f : Faulty) (d : String) :
    ((f.memory.perform now (.get (analysisKey d))).1 =
        (f.holding d).stored.map Expiring.value ∧
      (f.carryOut now (.get (analysisKey d))).holding d = f.holding d) ∨
    ((f.memory.perform now (.get (analysisKey d))).1 = none ∧
      (f.carryOut now (.get (analysisKey d))).holding d =
        { f.holding d with stored := none, lapsed := true }) := by
  refine (get_cases now f (analysisKey d)).imp ?_ ?_ <;> rintro ⟨hreply, hafter⟩
  · refine ⟨hreply, ?_⟩
    rw [hafter]
    rfl
  · refine ⟨hreply, ?_⟩
    rw [hafter]
    simp [holding, Memory.list, arrivals]

/-- Requests about one driver leave what is held of the others alone. -/
theorem holding_carryOut {d e : String} (hne : d ≠ e) (now : Duration) (f : Faulty) {r : Request}
    (hr : r.About d) : (f.carryOut now r).holding e = f.holding e := by
  have hpoints : pointsKey d ≠ pointsKey e := mt pointsKey_inj.mp hne
  have hanalysis : analysisKey d ≠ analysisKey e := mt analysisKey_inj.mp hne
  cases r with
  | pushFront key value =>
    obtain rfl : key = pointsKey d := hr
    simp only [holding, carryOut, note, Memory.perform, Memory.list_insert, if_neg hpoints]
    congr 1
    simp [arrivals, hpoints]
  | range key count => rfl
  | trim key keep =>
    obtain rfl : key = pointsKey d := hr
    simp only [holding, carryOut, note, Memory.perform]
    cases hget : f.memory.lists.get? (pointsKey d) with
    | none => rfl
    | some values => simp only [Memory.list_insert, if_neg hpoints]; rfl
  | set key value ttl =>
    obtain rfl : key = analysisKey d := hr
    simp only [holding, carryOut, note, Memory.perform, Table.get?_insert, if_neg hanalysis]
    rfl
  | get key =>
    obtain rfl : key = analysisKey d := hr
    rcases get_cases now f (analysisKey d) with ⟨-, hsame⟩ | ⟨-, herased⟩
    · rw [hsame]
      rfl
    · rw [herased]
      simp [holding, arrivals, Memory.list, hanalysis, Ne.symm hanalysis]

/-- **Requests about one driver leave what is held of the others alone,** whatever their fate. -/
theorem holding_serve {d e : String} (hne : d ≠ e) (f : Faulty) (r : Request) (hr : r.About d) :
    (serve fates f r).2.holding e = f.holding e :=
  serve_eq (fun f => f.holding e) f r rfl fun now => holding_carryOut hne now f hr

/-- The lists, and the record of what was put there. -/
def lists (f : Faulty) : Table String (List Bytes) × List (String × Bytes) :=
  (f.memory.lists, f.pushed)

/-- The backend holds of all drivers but one what it held before. -/
def SameBut (d : String) (f f' : Faulty) : Prop := ∀ e, d ≠ e → f'.holding e = f.holding e

theorem sameBut_run (fates : Nat → Fate) {σ α : Type} {d : String} {m : Session σ α}
    (hm : m.Asks (Request.About d)) (f : Faulty) : f.SameBut d (m.run (serve fates) f).2.2 :=
  fun e he => hm.run_eq (fun f => f.holding e) (fun f r hr => holding_serve he f r hr) f

/-- A request that spares the lists changes neither a list nor the record of what was put there. -/
theorem lists_serve (f : Faulty) (r : Request) (hr : r.SparesLists) :
    (serve fates f r).2.lists = f.lists := by
  refine serve_eq lists f r rfl fun now => ?_
  cases r with
  | pushFront key value => cases hr
  | trim key keep => cases hr
  | range key count => rfl
  | set key value ttl => rfl
  | get key =>
    rcases get_cases now f key with ⟨-, h⟩ | ⟨-, h⟩ <;>
      · rw [h]
        rfl

end Faulty

/-! ## Queries about one driver -/

namespace Query

variable {σ α : Type} {fates : Nat → Fate} {d : String}

/-- **What a query about a driver leads to,** said of what the backend holds of that driver. -/
abbrev Leads (fates : Nat → Fate) (d : String) (pre : σ → Holding → Prop) (q : Query σ α)
    (post : α → σ → Holding → Prop) (stop : σ → Holding → Prop) : Prop :=
  q.Ensures (Faulty.serve fates) (fun s f => pre s (f.holding d))
    (fun a s f => post a s (f.holding d)) fun s f => stop s (f.holding d)

variable {pre stop : σ → Holding → Prop}

theorem Leads.pushFront {value : Bytes} {post : Nat → σ → Holding → Prop}
    (hstop : ∀ s h, pre s h → stop s h)
    (hpost : ∀ s h, pre s h → post (h.log.length + 1) s
      { h with log := value :: h.log, arrivals := value :: h.arrivals }) :
    Leads fates d pre (Query.request (.pushFront (pointsKey d) value)) post stop := by
  refine Ensures.request fun s f hpre => Faulty.serves_of (hstop s _ hpre) fun now => ?_
  rw [Faulty.holding_pushFront]
  exact hpost s _ hpre

theorem Leads.range {count : Nat} {post : List Bytes → σ → Holding → Prop}
    (hstop : ∀ s h, pre s h → stop s h) (hpost : ∀ s h, pre s h → post (h.log.take count) s h) :
    Leads fates d pre (Query.request (.range (pointsKey d) count)) post stop :=
  Ensures.request fun s _ hpre => Faulty.serves_of (hstop s _ hpre) fun _ => hpost s _ hpre

theorem Leads.trim {keep : Nat} {post : Nat → σ → Holding → Prop}
    (hstop : ∀ s h, pre s h → stop s h)
    (hpost : ∀ n s h, pre s h → post n s { h with log := h.log.take keep }) :
    Leads fates d pre (Query.request (.trim (pointsKey d) keep)) post stop := by
  refine Ensures.request fun s f hpre => Faulty.serves_of (hstop s _ hpre) fun now => ?_
  rw [Faulty.holding_trim]
  exact hpost _ s _ hpre

theorem Leads.set {value : Bytes} {ttl : Option Duration} {post : Unit → σ → Holding → Prop}
    (hstop : ∀ s h, pre s h → stop s h)
    (hpost : ∀ expiresAt s h, pre s h → post () s { h with stored := some ⟨value, expiresAt⟩ }) :
    Leads fates d pre (Query.request (.set (analysisKey d) value ttl)) post stop := by
  refine Ensures.request fun s f hpre => Faulty.serves_of (hstop s _ hpre) fun now => ?_
  rw [Faulty.holding_set]
  exact hpost _ s _ hpre

/-- The stored value may be there, or be missing, or turn out to have expired. -/
theorem Leads.get {post : Option Bytes → σ → Holding → Prop}
    (hstop : ∀ s h, pre s h → stop s h)
    (hpost : ∀ s h, pre s h → post (h.stored.map Expiring.value) s h)
    (hlapse : ∀ s h, pre s h → post none s { h with stored := none, lapsed := true }) :
    Leads fates d pre (Query.request (.get (analysisKey d))) post stop := by
  refine Ensures.request fun s f hpre => Faulty.serves_of (hstop s _ hpre) fun now => ?_
  rcases Faulty.holding_get now f d with ⟨hreply, hafter⟩ | ⟨hreply, hafter⟩
  · rw [hreply, hafter]
    exact hpost s _ hpre
  · rw [hreply, hafter]
    exact hlapse s _ hpre

/-- **The frame rule for logs.**  What is known of a driver's log stays known over requests that
spare it. -/
theorem Leads.frame {q : Query σ α} {post : α → σ → Holding → Prop}
    (h : Leads fates d pre q post stop) (hq : q.Asks (Request.SparesLog d))
    (known : List Bytes → List Bytes → Prop) :
    Leads fates d (fun s h => pre s h ∧ known h.log h.arrivals) q
      (fun a s h => post a s h ∧ known h.log h.arrivals)
      fun s h => stop s h ∧ known h.log h.arrivals := by
  rintro s f ⟨hpre, hknown⟩
  have hframed := Ensures.frame h hq (fun f r hr => Faulty.lists_serve f r hr.2) f.lists s f
    ⟨hpre, rfl⟩
  have hholding : ∀ f' : Faulty, f'.lists = f.lists →
      known (f'.holding d).log (f'.holding d).arrivals := by
    intro f' hf'
    obtain ⟨hlists, hpushed⟩ := Prod.mk.inj hf'
    simp only [Faulty.holding, Memory.list, Faulty.arrivals, hlists, hpushed]
    exact hknown
  exact hframed.imp (fun _ _ f' h => ⟨h.1, hholding f' h.2⟩) fun _ f' h => ⟨h.1, hholding f' h.2⟩

end Query

end Fleet
