import Fleet.Proofs.Backend.Order
import Fleet.Proofs.Store.Freshness
import Fleet.Proofs.Store.Locality

/-!
# Drivers are isolated

Leaving out of a run everything that is done about one driver changes no answer about another.  On
the backend in memory this holds of all drivers.  On the ordered backend it holds of a driver that
is apart from the other drivers of the run, which means that neither name is the other one followed
by a zero byte and more (`drivers_isolated`).  The numbers that the ordered backend files its
entries under need only rise, and they may be others in the two runs.  Where two names are not
apart, one driver's entries are read as the other's: `leaks_through_zero_byte`.
-/

namespace Fleet

open TrackPolicy (pointsKey analysisKey)

/-! ## Both backends -/

/-- A moment on the clocks of both backends. -/
structure Moment where
  uptime : Duration
  unixMillis : Nat

/-- **Numbers for the entries of a backend,** in the order in which they are made.  They rise. -/
structure Numbering where
  number : Nat → Nat
  rises : ∀ n, number n < number (n + 1)

namespace Numbering

/-- Entries are counted. -/
def counting : Numbering := ⟨id, Nat.lt_succ_self⟩

/-- The number of the next entry is above that of an entry that a request makes. -/
theorem add_pushes_le (numbers : Numbering) (n : Nat) (r : Request) :
    numbers.number n + r.pushes ≤ numbers.number (n + r.pushes) := by
  rw [Request.pushes]
  split
  · exact numbers.rises n
  · exact Nat.le_refl _

end Numbering

/-- **A backend with the numbers of its entries,** and how many it has made. -/
structure Archive where
  storage : Storage
  numbers : Numbering := .counting
  made : Nat := 0

namespace Storage

/-- **What a backend stores for one driver.** -/
inductive Share where
  | memory (available : Bool) (log : List Bytes) (stored : Option Expiring)
  | ordered (log : List Bytes) (stored : Option Bytes)

/-- What the backend stores for a driver. -/
def share (d : String) : Storage → Share
  | .memory m => .memory m.available (m.list (pointsKey d)) (m.values.get? (analysisKey d))
  | .ordered o => .ordered (o.list (pointsKey d)) (o.values.get? (Bytes.ofText (analysisKey d)))

/-- A driver's entries are in order, under numbers below a bound. -/
def Filed (d : String) (bound : Nat) : Storage → Prop
  | .memory _ => True
  | .ordered o => o.Filed (pointsKey d) bound

/-- Whether all lists are in one map. -/
def isOrdered : Storage → Bool
  | .memory _ => false
  | .ordered _ => true

/-- The backend keeps two drivers' entries apart: always, if it has a list for each. -/
def Separates (d e : String) (s : Storage) : Prop :=
  s.isOrdered = true → Ordered.Apart (pointsKey d) (pointsKey e)

end Storage

namespace Archive

/-- Serves a request at a moment, which each backend reads off its own clock.  The ordered backend
files an entry under the number that is its turn. -/
def serveAt (t : Moment) (s : Archive) (r : Request) : r.Result × Archive :=
  match s.storage with
  | .memory m =>
    ((m.serve t.uptime r).1,
      { s with storage := .memory (m.serve t.uptime r).2, made := s.made + r.pushes })
  | .ordered o =>
    let o := { o with nextId := s.numbers.number s.made }
    ((o.serve t.unixMillis r).1,
      { s with storage := .ordered (o.serve t.unixMillis r).2, made := s.made + r.pushes })

/-- An archive serves as its backend does if the backend would file an entry under the same
number. -/
theorem serve_eq_serveAt (clock : Clock) {s : Archive} (r : Request)
    (h : ∀ o, s.storage = .ordered o → o.nextId = s.numbers.number s.made) :
    s.storage.serve clock r =
      let served := s.serveAt ⟨clock.now, Clock.epochMillis⟩ r
      (served.1, served.2.storage) := by
  obtain ⟨storage, numbers, made⟩ := s
  cases storage with
  | memory m => rfl
  | ordered o =>
    obtain ⟨lists, values, nextId⟩ := o
    obtain rfl : nextId = numbers.number made := h _ rfl
    rfl

/-- A driver's entries are in order, under the numbers before the next one. -/
def Filed (d : String) (s : Archive) : Prop := s.storage.Filed d (s.numbers.number s.made)

/-- The numbers of the entries and of `n` more have 64 bits, where entries are numbered. -/
def HasRoom (n : Nat) (s : Archive) : Prop :=
  s.storage.isOrdered = true → ∀ k < s.made + n, s.numbers.number k < 2 ^ 64

end Archive

theorem Bytes.ofText_append (s t : String) : ofText (s ++ t) = ofText s ++ ofText t := by
  simp [ofText, String.toUTF8]

/-- Drivers that are apart have lists that are. -/
theorem apart_pointsKey {d e : String} (h : Ordered.Apart d e) :
    Ordered.Apart (pointsKey d) (pointsKey e) := by
  have hkey (d : String) : Bytes.ofText (pointsKey d) =
      Bytes.ofText "track:points:" ++ Bytes.ofText d :=
    Bytes.ofText_append _ _
  have hstart (d : String) :
      Ordered.listStart (pointsKey d) = Bytes.ofText "track:points:" ++ Ordered.listStart d := by
    simp only [Ordered.listStart, hkey, List.append_assoc]
  unfold Ordered.Apart
  rw [hkey, hkey, hstart, hstart, List.prefix_append_right_inj, List.prefix_append_right_inj]
  exact ⟨mt pointsKey_inj.mp h.1, h.2⟩

namespace Memory

variable {d e : String} {m m' : Memory}

theorem available_perform (now : Duration) (m : Memory) (r : Request) :
    (m.perform now r).2.available = m.available := by
  cases r with
  | trim key keep =>
    simp only [perform]
    split <;> rfl
  | get key =>
    simp only [perform]
    split
    · rfl
    · split <;> rfl
  | _ => rfl

/-- **Requests about a driver are answered from what is stored for it.** -/
theorem serve_congr (now : Duration)
    (h : (Storage.memory m).share d = (Storage.memory m').share d) {r : Request} (hr : r.About d) :
    (m.serve now r).1 = (m'.serve now r).1 ∧
      (Storage.memory (m.serve now r).2).share d = (Storage.memory (m'.serve now r).2).share d := by
  obtain ⟨havailable, hlist, hstored⟩ := Storage.Share.memory.inj h
  have hholding : (Faulty.mk m 0 [] []).holding d = (Faulty.mk m' 0 [] []).holding d := by
    simp only [Faulty.holding, hlist, hstored]
    rfl
  unfold serve
  rw [← havailable]
  split
  · have hdone := (Faulty.perform_holding now _ hr).trans
      ((congrArg (Holding.perform now · r) hholding).trans (Faulty.perform_holding now _ hr).symm)
    obtain ⟨hreply, hafter⟩ := Prod.mk.inj hdone
    refine ⟨congrArg Except.ok hreply, ?_⟩
    simp only [Storage.share, available_perform, havailable]
    exact congrArg₂ _ (congrArg Holding.log hafter) (congrArg Holding.stored hafter)
  · exact ⟨rfl, h⟩

/-- Requests about a driver leave alone what is stored for others. -/
theorem share_serve (now : Duration) (hne : e ≠ d) {r : Request} (hr : r.About e) :
    (Storage.memory (m.serve now r).2).share d = (Storage.memory m).share d := by
  unfold serve
  split
  · have hsame := Faulty.holding_carryOut hne now (Faulty.mk m 0 [] []) hr
    simp only [Storage.share, available_perform]
    exact congrArg₂ _ (congrArg Holding.log hsame) (congrArg Holding.stored hsame)
  · rfl

end Memory

namespace Ordered

variable {d e : String} {now : Nat} {o o' : Ordered}

/-- **Requests about a driver are answered from what is stored for it,** if its entries are in
order and numbered with 64 bits. -/
theorem serve_congr (h : (Storage.ordered o).share d = (Storage.ordered o').share d)
    (ho : o.Filed (pointsKey d) o.nextId) (ho' : o'.Filed (pointsKey d) o'.nextId)
    {r : Request} (hr : r.About d) (hfit : r.isPush → o.nextId < 2 ^ 64)
    (hfit' : r.isPush → o'.nextId < 2 ^ 64) :
    (o.serve now r).1 = (o'.serve now r).1 ∧
      (Storage.ordered (o.serve now r).2).share d =
        (Storage.ordered (o'.serve now r).2).share d := by
  obtain ⟨hlist, hstored⟩ := Storage.Share.ordered.inj h
  cases r with
  | pushFront key value =>
    obtain rfl : key = pointsKey d := hr
    have hpushed := list_push value ho (Nat.le_refl _) (hfit rfl)
    have hpushed' := list_push value ho' (Nat.le_refl _) (hfit' rfl)
    have hafter := hpushed.trans ((congrArg (value :: ·) hlist).trans hpushed'.symm)
    rw [serve_pushFront, serve_pushFront]
    exact ⟨congrArg (fun l => Except.ok (List.length l)) hafter,
      congrArg₂ Storage.Share.ordered hafter hstored⟩
  | range key count =>
    obtain rfl : key = pointsKey d := hr
    rw [serve_range, serve_range]
    exact ⟨congrArg (fun l => Except.ok (List.take count l)) hlist, h⟩
  | trim key keep =>
    obtain rfl : key = pointsKey d := hr
    have hafter := (list_trim keep ho).trans
      ((congrArg (List.take keep) hlist).trans (list_trim keep ho').symm)
    rw [serve_trim, serve_trim]
    exact ⟨congrArg (fun l => Except.ok (List.length l - keep)) hlist,
      congrArg₂ Storage.Share.ordered hafter hstored⟩
  | set key value ttl =>
    obtain rfl : key = analysisKey d := hr
    refine ⟨rfl, congrArg₂ Storage.Share.ordered hlist ?_⟩
    simp only [serve, OrderedMap.get?_insert, if_pos]
  | get key =>
    obtain rfl : key = analysisKey d := hr
    obtain ⟨values, hvalues, -⟩ := o.read_eq now (analysisKey d)
    obtain ⟨values', hvalues', -⟩ := o'.read_eq now (analysisKey d)
    obtain ⟨hreply, hafter⟩ := read_congr now hstored
    refine ⟨hreply, congrArg₂ Storage.Share.ordered ?_ hafter⟩
    show (o.read now _).2.list _ = (o'.read now _).2.list _
    rw [hvalues, hvalues']
    exact hlist

/-- Requests keep a driver's entries in order, if they are about it or about one that is apart. -/
theorem filed_serve (ho : o.Filed (pointsKey d) o.nextId)
    (hapart : e = d ∨ Apart (pointsKey d) (pointsKey e)) {r : Request} (hr : r.About e) :
    (o.serve now r).2.Filed (pointsKey d) (o.nextId + r.pushes) := by
  cases r with
  | pushFront key value =>
    obtain rfl : key = pointsKey e := hr
    rw [serve_pushFront]
    exact ho.push value (Nat.le_refl _) (hapart.imp_left (congrArg pointsKey))
  | range key count => exact ho
  | trim key keep =>
    rw [serve_trim]
    exact ho.trim keep
  | set key value ttl => exact { ho with }
  | get key =>
    obtain ⟨values, hvalues, -⟩ := o.read_eq now key
    show Filed _ _ (o.read now key).2
    rw [hvalues]
    exact { ho with }

/-- Requests about a driver leave alone what is stored for one that is apart. -/
theorem share_serve (hne : e ≠ d) (hapart : Apart (pointsKey d) (pointsKey e)) {r : Request}
    (hr : r.About e) :
    (Storage.ordered (o.serve now r).2).share d = (Storage.ordered o).share d := by
  have hkey : Bytes.ofText (analysisKey e) ≠ Bytes.ofText (analysisKey d) := fun h =>
    hne (analysisKey_inj.mp (Bytes.ofText_injective h))
  cases r with
  | pushFront key value =>
    obtain rfl : key = pointsKey e := hr
    rw [serve_pushFront]
    exact congrArg₂ Storage.Share.ordered (list_push_of_apart value hapart) rfl
  | range key count => rfl
  | trim key keep =>
    obtain rfl : key = pointsKey e := hr
    rw [serve_trim]
    exact congrArg₂ Storage.Share.ordered (list_trim_of_apart keep hapart) rfl
  | set key value ttl =>
    obtain rfl : key = analysisKey e := hr
    refine congrArg₂ Storage.Share.ordered rfl ?_
    simp only [serve, OrderedMap.get?_insert, if_neg hkey]
  | get key =>
    obtain rfl : key = analysisKey e := hr
    obtain ⟨values, hvalues, hothers⟩ := o.read_eq now (analysisKey e)
    show (Storage.ordered (o.read now _).2).share d = _
    rw [hvalues]
    exact congrArg₂ Storage.Share.ordered rfl (hothers _ hkey)

end Ordered

namespace Archive

variable {t : Moment} {d e : String} {s s' : Archive}

@[simp]
theorem isOrdered_serveAt (t : Moment) (s : Archive) (r : Request) :
    (s.serveAt t r).2.storage.isOrdered = s.storage.isOrdered := by
  obtain ⟨storage, numbers, made⟩ := s
  cases storage <;> rfl

@[simp]
theorem numbers_serveAt (t : Moment) (s : Archive) (r : Request) :
    (s.serveAt t r).2.numbers = s.numbers := by
  obtain ⟨storage, numbers, made⟩ := s
  cases storage <;> rfl

/-- Only a push makes an entry. -/
@[simp]
theorem made_serveAt (t : Moment) (s : Archive) (r : Request) :
    (s.serveAt t r).2.made = s.made + r.pushes := by
  obtain ⟨storage, numbers, made⟩ := s
  cases storage <;> rfl

theorem HasRoom.of_serveAt {r : Request} (h : (s.serveAt t r).2.HasRoom 0) : s.HasRoom 0 := by
  intro hordered k hk
  rw [HasRoom, isOrdered_serveAt, numbers_serveAt, made_serveAt] at h
  exact h hordered k (Nat.lt_of_lt_of_le hk (Nat.add_le_add_right (Nat.le_add_right _ _) 0))

/-- If there is room after a push, the number of its entry has 64 bits. -/
theorem HasRoom.number_lt {r : Request} (h : (s.serveAt t r).2.HasRoom 0)
    (hordered : s.storage.isOrdered = true) (hpush : r.isPush) :
    s.numbers.number s.made < 2 ^ 64 := by
  rw [HasRoom, isOrdered_serveAt, numbers_serveAt, made_serveAt, Request.pushes, if_pos hpush] at h
  exact h hordered s.made (Nat.lt_succ_self _)

/-- Requests keep a driver's entries in order, if they are about it or about one that the backend
keeps apart. -/
theorem filed_serveAt (h : s.Filed d) (hapart : e = d ∨ s.storage.Separates d e) {r : Request}
    (hr : r.About e) : (s.serveAt t r).2.Filed d := by
  obtain ⟨storage, numbers, made⟩ := s
  cases storage with
  | memory m => trivial
  | ordered o =>
    refine Ordered.Filed.mono ?_ (numbers.add_pushes_le made r)
    exact Ordered.filed_serve (o := { o with nextId := numbers.number made }) { h with }
      (hapart.imp_right fun h => h rfl) hr

/-- **Two backends store the same for a driver,** whose entries both keep in order. -/
structure SameFor (d : String) (s s' : Archive) : Prop where
  share_eq : s.storage.share d = s'.storage.share d
  filed : s.Filed d
  filed' : s'.Filed d

/-- Backends that store the same for a driver serve requests about it alike. -/
theorem SameFor.serveAt (h : SameFor d s s') {r : Request} (hr : r.About d)
    (hfit : (s.serveAt t r).2.HasRoom 0) (hfit' : (s'.serveAt t r).2.HasRoom 0) :
    (s.serveAt t r).1 = (s'.serveAt t r).1 ∧ SameFor d (s.serveAt t r).2 (s'.serveAt t r).2 := by
  have hfiled := filed_serveAt (t := t) h.filed (.inl rfl) hr
  have hfiled' := filed_serveAt (t := t) h.filed' (.inl rfl) hr
  have hserved : (s.serveAt t r).1 = (s'.serveAt t r).1 ∧
      (s.serveAt t r).2.storage.share d = (s'.serveAt t r).2.storage.share d := by
    match s, s', h with
    | ⟨.memory m, _, _⟩, ⟨.memory m', _, _⟩, h => exact Memory.serve_congr t.uptime h.share_eq hr
    | ⟨.ordered o, numbers, made⟩, ⟨.ordered o', numbers', made'⟩, h =>
      have hshare :
          (Storage.ordered { o with nextId := numbers.number made }).share d =
            (Storage.ordered { o' with nextId := numbers'.number made' }).share d := h.share_eq
      exact Ordered.serve_congr hshare { h.filed with } { h.filed' with } hr
        (hfit.number_lt rfl) (hfit'.number_lt rfl)
  exact ⟨hserved.1, hserved.2, hfiled, hfiled'⟩

/-- What a backend does not touch when it serves requests about another driver. -/
structure Spares (d : String) (s s' : Archive) : Prop where
  share_eq : s'.storage.share d = s.storage.share d
  filed : s.Filed d → s'.Filed d

theorem spares_serveAt (hne : e ≠ d) (hseparates : s.storage.Separates d e) {r : Request}
    (hr : r.About e) : Spares d s (s.serveAt t r).2 := by
  refine ⟨?_, fun h => filed_serveAt h (.inr hseparates) hr⟩
  obtain ⟨storage, numbers, made⟩ := s
  cases storage with
  | memory m => exact Memory.share_serve t.uptime hne hr
  | ordered o =>
    exact Ordered.share_serve (o := { o with nextId := numbers.number made }) hne
      (hseparates rfl) hr

theorem separates_serveAt {r : Request} :
    (s.serveAt t r).2.storage.Separates d e ↔ s.storage.Separates d e := by
  rw [Storage.Separates, isOrdered_serveAt, Storage.Separates]

end Archive

/-! ## Runs -/

/-- A backend that counts the requests of the call in progress. -/
structure Timed where
  archive : Archive
  asked : Nat := 0

namespace Timed

/-- Serves each request at its moment. -/
def serve (moments : Nat → Moment) : Server Timed := fun b r =>
  (some (b.archive.serveAt (moments b.asked) r).1,
    ⟨(b.archive.serveAt (moments b.asked) r).2, b.asked + 1⟩)

/-- Two backends store the same for a driver, and the same moment awaits the next request. -/
def SameFor (d : String) (b b' : Timed) : Prop :=
  b.asked = b'.asked ∧ b.archive.SameFor d b'.archive

theorem SameFor.serve {moments : Nat → Moment} {d : String} {b b' : Timed} (h : SameFor d b b')
    {r : Request} (hr : r.About d) (hfit : (Timed.serve moments b r).2.archive.HasRoom 0)
    (hfit' : (Timed.serve moments b' r).2.archive.HasRoom 0) :
    (Timed.serve moments b r).1 = (Timed.serve moments b' r).1 ∧
      SameFor d (Timed.serve moments b r).2 (Timed.serve moments b' r).2 := by
  obtain ⟨hasked, hsame⟩ := h
  unfold Timed.serve at hfit hfit' ⊢
  rw [← hasked] at hfit' ⊢
  obtain ⟨hreply, hafter⟩ := hsame.serveAt hr hfit hfit'
  exact ⟨congrArg some hreply, rfl, hafter⟩

end Timed

namespace TrackStore

/-- **What is done to a store:** a call, or an analysis is offered to be stored. -/
inductive Act where
  | call (call : Call)
  | save (analysis : TrackAnalysis)

namespace Act

/-- The driver that an act names. -/
def driverId : Act → String
  | .call c => c.driverId
  | .save a => a.driverId

/-- One act at the time `now`. -/
def run {β : Type} (serve : Server β) (now : Timestamp) (start : TrackStore × β) :
    Act → Depot.Answer × TrackStore × β
  | .call c => c.run serve now start
  | .save a =>
    let (outcome, after) := start.1.run serve start.2 (start.1.policy.save a)
    (Depot.answerBy .saved none outcome, after)

/-- The command by which a depot does the same. -/
def command : Act → Depot.Command
  | .call c => c.command
  | .save a => .save a

theorem run_command (clock : Clock) (d : Depot) (a : Act) :
    d.run clock a.command =
      let step := a.run (Backend.serve clock) clock.timestamp (d.store, d.backend)
      (step.1, { store := step.2.1, backend := step.2.2 }) := by
  cases a with
  | call c => exact c.run_command clock d
  | save a => rfl

/-- An act is a frugal operation on the driver it names. -/
theorem exists_operation (a : Act) (p : TrackPolicy) (now : Timestamp) :
    ∃ (α : Type) (operation : Query Unit (Phase α)) (answer : Outcome α → Depot.Answer),
      Concerns a.driverId operation ∧ Frugal operation ∧
        ∀ {β : Type} (serve : Server β) (s : TrackStore × β), s.1.policy = p →
          a.run serve now s = (answer (s.1.run serve s.2 operation).1,
            (s.1.run serve s.2 operation).2) := by
  cases a with
  | call c => exact c.exists_operation p now
  | save a =>
    refine ⟨_, p.save a, Depot.answerBy .saved none, .save p a, .save p a, ?_⟩
    rintro β serve s rfl
    rfl

end Act

/-- **One step of a run:** an act, when it is done, and when its requests are served. -/
structure Step where
  act : Act
  now : Timestamp
  moments : Nat → Moment

namespace Step

def driverId (t : Step) : String := t.act.driverId

/-- The answer, and store and backend after it. -/
def run (t : Step) (s : TrackStore × Archive) : Depot.Answer × TrackStore × Archive :=
  let (answer, store, backend) := t.act.run (Timed.serve t.moments) t.now (s.1, ⟨s.2, 0⟩)
  (answer, store, backend.archive)

/-- The answers about one driver, in order. -/
def answers (d : String) : TrackStore × Archive → List Step → List Depot.Answer
  | _, [] => []
  | s, t :: rest => (if t.driverId = d then [(t.run s).1] else []) ++ answers d (t.run s).2 rest

/-- The run without what is done about a driver. -/
def without (e : String) (run : List Step) : List Step := run.filter fun t => t.driverId ≠ e

end Step

variable {d e : String} {s s' : TrackStore × Archive}

/-- **Two states of store and backend are the same for a driver.** -/
structure SameTrack (d : String) (s s' : TrackStore × Archive) : Prop where
  policy_eq : s.1.policy = s'.1.policy
  held_eq : s.1.held = s'.1.held
  slotOf_eq : s.1.slotOf d = s'.1.slotOf d
  stored : s.2.SameFor d s'.2

/-- What a step on another driver does not change. -/
structure SparesTrack (d : String) (s s' : TrackStore × Archive) : Prop where
  policy_eq : s'.1.policy = s.1.policy
  held_eq : s'.1.held = s.1.held
  slotOf_eq : s'.1.slotOf d = s.1.slotOf d
  stored : s.2.Spares d s'.2

theorem SameTrack.left {t : TrackStore × Archive} (h : SameTrack d s s')
    (ht : SparesTrack d s t) : SameTrack d t s' where
  policy_eq := ht.policy_eq.trans h.policy_eq
  held_eq := ht.held_eq.trans h.held_eq
  slotOf_eq := ht.slotOf_eq.trans h.slotOf_eq
  stored := ⟨ht.stored.share_eq.trans h.stored.share_eq, ht.stored.filed h.stored.filed,
    h.stored.filed'⟩

theorem SameTrack.symm (h : SameTrack d s s') : SameTrack d s' s where
  policy_eq := h.policy_eq.symm
  held_eq := h.held_eq.symm
  slotOf_eq := h.slotOf_eq.symm
  stored := ⟨h.stored.share_eq.symm, h.stored.filed', h.stored.filed⟩

namespace Step

/-- A step is a frugal operation on the driver it names. -/
theorem exists_operation (t : Step) (p : TrackPolicy) :
    ∃ (α : Type) (operation : Query Unit (Phase α)) (answer : Outcome α → Depot.Answer),
      Concerns t.driverId operation ∧ Frugal operation ∧
        ∀ s : TrackStore × Archive, s.1.policy = p →
          let end_ := s.1.run (Timed.serve t.moments) ⟨s.2, 0⟩ operation
          t.run s = (answer end_.1, end_.2.1, end_.2.2.archive) := by
  obtain ⟨α, operation, answer, hconcerns, hfrugal, hrun⟩ := t.act.exists_operation p t.now
  refine ⟨α, operation, answer, hconcerns, hfrugal, fun s hs => ?_⟩
  simp only [run, hrun (Timed.serve t.moments) (s.1, ⟨s.2, 0⟩) hs]

/-- A step makes at most one entry. -/
theorem made_run_le (t : Step) (s : TrackStore × Archive) : (t.run s).2.2.made ≤ s.2.made + 1 := by
  obtain ⟨α, operation, answer, -, hfrugal, hrun⟩ := t.exists_operation s.1.policy
  rw [hrun s rfl]
  exact count_run_le (c := fun b : Timed => b.archive.made) hfrugal
    (fun b r => (Archive.made_serveAt _ b.archive r).le) s.1 ⟨s.2, 0⟩

/-- A step changes neither the kind of the backend nor the numbers of its entries. -/
theorem run_keeps (t : Step) (s : TrackStore × Archive) :
    (t.run s).2.2.storage.isOrdered = s.2.storage.isOrdered ∧
      (t.run s).2.2.numbers = s.2.numbers := by
  obtain ⟨α, operation, answer, hconcerns, -, hrun⟩ := t.exists_operation s.1.policy
  rw [hrun s rfl]
  refine run_rel (R := fun b b' : Timed =>
      b'.archive.storage.isOrdered = b.archive.storage.isOrdered ∧
        b'.archive.numbers = b.archive.numbers)
    hconcerns (fun _ => ⟨rfl, rfl⟩) (fun _ _ _ h h' => ⟨h'.1.trans h.1, h'.2.trans h.2⟩)
    (fun b r _ => ?_) s.1 ⟨s.2, 0⟩
  exact ⟨Archive.isOrdered_serveAt _ _ _, Archive.numbers_serveAt _ _ _⟩

/-- A step leaves room for one entry less. -/
theorem hasRoom_run (t : Step) {n : Nat} (h : s.2.HasRoom (n + 1)) :
    (t.run s).2.2.HasRoom n := by
  obtain ⟨hordered, hnumbers⟩ := t.run_keeps s
  have hmade := t.made_run_le s
  intro hafter k hk
  rw [hnumbers]
  exact h (hordered.symm.trans hafter) k (by omega)

/-- **A step on a driver** comes out alike in states that are the same for the driver. -/
theorem run_sameTrack (t : Step) (h : SameTrack t.driverId s s')
    (hend : (t.run s).2.2.HasRoom 0) (hend' : (t.run s').2.2.HasRoom 0) :
    (t.run s).1 = (t.run s').1 ∧ SameTrack t.driverId (t.run s).2 (t.run s').2 := by
  obtain ⟨α, operation, answer, hconcerns, -, hrun⟩ := t.exists_operation s.1.policy
  rw [hrun s rfl] at hend ⊢
  rw [hrun s' h.policy_eq.symm] at hend' ⊢
  have hsame : Timed.SameFor t.driverId ⟨s.2, 0⟩ ⟨s'.2, 0⟩ := ⟨rfl, h.stored⟩
  obtain ⟨houtcome, hslot, -, hafter⟩ := run_congr (S := Timed.SameFor t.driverId)
    (W := fun b : Timed => b.archive.HasRoom 0) hconcerns (fun _ _ _ => Archive.HasRoom.of_serveAt)
    (fun _ _ _ hr hb => hb.serve hr) h.held_eq h.slotOf_eq hsame hend hend'
  refine ⟨congrArg answer houtcome, ?_, ?_, hslot, hafter⟩
  · rw [policy_run, policy_run]
    exact h.policy_eq
  · rw [held_run, held_run]
    exact h.held_eq

/-- A step on another driver spares a driver that the backend keeps apart. -/
theorem spares_run (t : Step) (hne : t.driverId ≠ d)
    (hseparates : s.2.storage.Separates d t.driverId) : SparesTrack d s (t.run s).2 := by
  obtain ⟨α, operation, answer, hconcerns, -, hrun⟩ := t.exists_operation s.1.policy
  rw [hrun s rfl]
  -- as long as the backend keeps the two apart, and it does so to the end
  have hserve (b : Timed) (r : Request) (hr : r.About t.driverId)
      (hb : b.archive.storage.Separates d t.driverId) :
      b.archive.Spares d (Timed.serve t.moments b r).2.archive ∧
        (Timed.serve t.moments b r).2.archive.storage.Separates d t.driverId :=
    ⟨Archive.spares_serveAt hne hb hr, Archive.separates_serveAt.mpr hb⟩
  have hstored := run_rel
    (R := fun b b' : Timed => b.archive.storage.Separates d t.driverId →
      b.archive.Spares d b'.archive ∧ b'.archive.storage.Separates d t.driverId)
    hconcerns (fun b hb => ⟨⟨rfl, fun h => h⟩, hb⟩) ?_ hserve s.1 ⟨s.2, 0⟩ hseparates
  · exact ⟨policy_run _ _ _ _, held_run _ _ _ _, slotOf_run hconcerns hne _ _ _, hstored.1⟩
  · intro a b c hab hbc ha
    obtain ⟨hspares, hb⟩ := hab ha
    obtain ⟨hspares', hc⟩ := hbc hb
    exact ⟨⟨hspares'.share_eq.trans hspares.share_eq, hspares'.filed ∘ hspares.filed⟩, hc⟩

end Step

/-! ## Two runs, one without another driver -/

/-- The backend keeps a driver apart from all others of a run, and has room for the run. -/
structure Accommodates (d : String) (run : List Step) (s : Archive) : Prop where
  separates : ∀ t ∈ run, t.driverId ≠ d → s.storage.Separates d t.driverId
  hasRoom : s.HasRoom run.length

theorem Accommodates.run {t : Step} {rest : List Step} (h : Accommodates d (t :: rest) s.2) :
    Accommodates d rest (t.run s).2.2 where
  separates u hu hud hordered :=
    h.separates u (List.mem_cons_of_mem _ hu) hud ((t.run_keeps s).1.symm.trans hordered)
  hasRoom := t.hasRoom_run h.hasRoom

theorem Accommodates.hasRoom_zero {run : List Step} {s : Archive} (h : Accommodates d run s) :
    s.HasRoom 0 := fun hordered k hk =>
  h.hasRoom hordered k (Nat.lt_of_lt_of_le hk (Nat.le_add_right _ _))

/-- **Two runs in step:** a driver that the backend keeps apart from all others is answered the
same, whether another driver's steps are there or not. -/
theorem SameTrack.answers (hne : d ≠ e) (h : SameTrack d s s') {run : List Step}
    (hs : Accommodates d run s.2) (hs' : Accommodates d (Step.without e run) s'.2) :
    Step.answers d s run = Step.answers d s' (Step.without e run) := by
  induction run generalizing s s' with
  | nil => rfl
  | cons t rest ih =>
    by_cases hd : t.driverId = d
    · have hkept : Step.without e (t :: rest) = t :: Step.without e rest :=
        List.filter_cons_of_pos (by simpa [hd] using hne)
      rw [hkept] at hs' ⊢
      obtain ⟨hanswer, hafter⟩ :=
        t.run_sameTrack (hd ▸ h) hs.run.hasRoom_zero hs'.run.hasRoom_zero
      rw [Step.answers, Step.answers, if_pos hd, if_pos hd, hanswer,
        ih (hd ▸ hafter) hs.run hs'.run]
    · have hspares := t.spares_run hd (hs.separates t List.mem_cons_self hd)
      rw [Step.answers, if_neg hd, List.nil_append]
      by_cases he : t.driverId = e
      · have hdropped : Step.without e (t :: rest) = Step.without e rest :=
          List.filter_cons_of_neg (by simp [he])
        rw [hdropped] at hs' ⊢
        exact ih (h.left hspares) hs.run hs'
      · have hkept : Step.without e (t :: rest) = t :: Step.without e rest :=
          List.filter_cons_of_pos (by simpa using he)
        rw [hkept] at hs' ⊢
        have hspares' := t.spares_run hd (hs'.separates t List.mem_cons_self hd)
        rw [Step.answers, if_neg hd, List.nil_append]
        exact ih ((h.left hspares).symm.left hspares').symm hs.run hs'.run

/-- A store that has not been used, on a backend that will number its entries. -/
def start (policy : TrackPolicy) (storage : Storage) (numbers : Numbering := .counting) :
    TrackStore × Archive := (new policy, { storage, numbers })

theorem sameTrack_start (policy : TrackPolicy) {storage : Storage}
    (h : ∀ bound, storage.Filed d bound) (numbers numbers' : Numbering) :
    SameTrack d (start policy storage numbers) (start policy storage numbers') :=
  ⟨rfl, rfl, rfl, rfl, h _, h _⟩

/-- **Drivers are isolated.**  Leaving out everything that is done about another driver changes no
answer about a driver on the backend in memory, and none on the ordered backend if the driver is
apart from all others of the run.  This holds whatever numbers the entries are filed under in each
of the two runs, as long as they rise and have 64 bits. -/
theorem drivers_isolated (policy : TrackPolicy) {d e : String} (hne : d ≠ e) (run : List Step) :
    Step.answers d (start policy (.memory {})) run =
        Step.answers d (start policy (.memory {})) (Step.without e run) ∧
      ∀ numbers numbers' : Numbering, (∀ k < run.length, numbers.number k < 2 ^ 64) →
        (∀ k < (Step.without e run).length, numbers'.number k < 2 ^ 64) →
        (∀ t ∈ run, t.driverId ≠ d → Ordered.Apart d t.driverId) →
        Step.answers d (start policy (.ordered {}) numbers) run =
          Step.answers d (start policy (.ordered {}) numbers') (Step.without e run) := by
  refine ⟨?_, fun numbers numbers' hnumbers hnumbers' hapart => ?_⟩
  · have hall (run : List Step) : Accommodates d run (start policy (.memory {})).2 :=
      ⟨fun _ _ _ h => (nomatch h), fun h => (nomatch h)⟩
    have hfiled (bound : Nat) : (Storage.memory {}).Filed d bound := trivial
    exact (sameTrack_start policy hfiled _ _).answers hne (hall run) (hall _)
  · have hall {run : List Step} {numbers : Numbering}
        (hnumbers : ∀ k < run.length, numbers.number k < 2 ^ 64)
        (hapart : ∀ t ∈ run, t.driverId ≠ d → Ordered.Apart d t.driverId) :
        Accommodates d run (start policy (.ordered {}) numbers).2 :=
      ⟨fun t ht htd _ => apart_pointsKey (hapart t ht htd), fun _ k hk =>
        hnumbers k (Nat.lt_of_lt_of_eq hk (Nat.zero_add _))⟩
    have hfiled (bound : Nat) : (Storage.ordered {}).Filed d bound := ⟨List.Pairwise.nil, by simp⟩
    exact (sameTrack_start policy hfiled numbers numbers').answers hne (hall hnumbers hapart)
      (hall hnumbers' fun t ht => hapart t (List.mem_of_mem_filter ht))

/-- A run of appends and reads, one after the other, at one moment. -/
def briefly (calls : List Call) : List Step :=
  calls.map fun c => ⟨.call c, 0, fun _ => ⟨.zero, 0⟩⟩

/-- Numbers as of a generator that others use as well. -/
def everyThird : Numbering := ⟨fun n => 3 * n + 5, fun _ => by omega⟩

/-- The name of one driver is the start of the other's, and the numbers of the entries have gaps. -/
theorem isolated_from_longer_name :
    let policy : TrackPolicy := { speedLimit := 200 }
    let point (d : String) : TrackPoint := { driverId := d, position := ⟨0, 0, 0⟩ }
    let run := briefly [.append (point "d1"), .append (point "d10"), .recent "d1" 10]
    "d1" ≠ "d10" ∧ (∀ k < run.length, everyThird.number k < 2 ^ 64) ∧
      (∀ k < (Step.without "d10" run).length, Numbering.counting.number k < 2 ^ 64) ∧
      (∀ t ∈ run, t.driverId ≠ "d1" → Ordered.Apart "d1" t.driverId) ∧
      Step.answers "d1" (start policy (.ordered {}) everyThird) run =
        Step.answers "d1" (start policy (.ordered {})) (Step.without "d10" run) := by
  intro policy point run
  have hnumbers : ∀ k < run.length, everyThird.number k < 2 ^ 64 := by decide
  have hnumbers' : ∀ k < (Step.without "d10" run).length, Numbering.counting.number k < 2 ^ 64 := by
    decide +kernel
  have hapart : ∀ t ∈ run, t.driverId ≠ "d1" → Ordered.Apart "d1" t.driverId := by decide +kernel
  have hne : "d1" ≠ "d10" := by decide
  exact ⟨hne, hnumbers, hnumbers', hapart,
    (drivers_isolated policy hne run).2 everyThird .counting hnumbers hnumbers' hapart⟩

/-- **The entries of a driver whose name extends another's by a zero byte are read as the
other's.**  On the ordered backend the first driver is shown a point that is not its own; without
the second driver it is not. -/
theorem leaks_through_zero_byte :
    let policy : TrackPolicy := { speedLimit := 200 }
    let point (d : String) : TrackPoint := { driverId := d, position := ⟨0, 0, 0⟩ }
    let run := briefly [.append (point "a"), .append (point "a\x00b"), .recent "a" 10]
    let shown (run : List Step) : List (List TrackPoint) :=
      (Step.answers "a" (start policy (.ordered {})) run).filterMap Depot.Answer.points?
    shown run = [[point "a", point "a\x00b"]] ∧
      shown (Step.without "a\x00b" run) = [[point "a"]] ∧
      Step.answers "a" (start policy (.ordered {})) run ≠
        Step.answers "a" (start policy (.ordered {})) (Step.without "a\x00b" run) := by
  intro policy point run shown
  have hwith : shown run = [[point "a", point "a\x00b"]] := by decide +kernel
  have hwithout : shown (Step.without "a\x00b" run) = [[point "a"]] := by decide +kernel
  refine ⟨hwith, hwithout, fun hsame => ?_⟩
  have hshown : [[point "a", point "a\x00b"]] = [[point "a"]] :=
    hwith.symm.trans ((congrArg (List.filterMap Depot.Answer.points?) hsame).trans hwithout)
  exact absurd (congrArg List.length (List.cons.inj hshown).1) (by decide)

end TrackStore

end Fleet
