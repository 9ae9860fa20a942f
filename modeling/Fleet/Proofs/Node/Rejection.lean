import Fleet.Proofs.Node.Moment
import Fleet.Proofs.Store.Retrieval

/-!
# A line that fails leaves no trace

A reply reports a failure only if the line is no command, or the command is refused before anything
is changed: in a sound moment no operation of the node fails halfway (`execute_of_failed`).  So a
node that was sent a line that failed is the node that it was before, and every later reply is as if
the line had not been sent (`failed_line_leaves_no_trace`).
-/

namespace Fleet

namespace Node

/-! ## Commands that fail -/

/-- What the store answers to a point ends at the request timeout. -/
theorem execute_ingest (n : Node) (point : TrackPoint) :
    let x := n.depot.ingest n.clock point.driverId point
    n.execute (.ingest point) =
      (.ofResult .ingested (x.1.within n.service.requestTimeout), { n with depot := x.2 }) := rfl

theorem execute_track (n : Node) (driverId : String) (count : Nat) :
    let x := n.depot.analyzed n.clock driverId count
    n.execute (.track driverId count) =
      (.ofResult .points (x.1.within n.service.requestTimeout), { n with depot := x.2 }) := rfl

/-- **An operation of the depot that either succeeds or changes nothing** changes nothing if the
reply to it reports a failure. -/
theorem depot_of_failed {α : Type} {reply : α → Reply} (hreply : ∀ a, (reply a).isOk = true)
    {x : Outcome α × Depot} {d : Depot} {deadline : Duration}
    (hx : (∃ a, x.1 = .finished (.ok a)) ∨ ∃ e, x = (.finished (.error e), d))
    (hfailed : (Reply.ofResult reply (x.1.within deadline)).isOk = false) : x.2 = d := by
  rcases hx with ⟨a, ha⟩ | ⟨e, rfl⟩
  · rw [ha] at hfailed
    exact absurd ((hreply a).symm.trans hfailed) Bool.noConfusion
  · rfl

variable {p : TrackPolicy} {points : List TrackPoint} (hp : ∀ d, p.Legible d points) {m : Moment}
  (hs : m.Sound p points)
include hp hs

/-- **A command that fails changes nothing.** -/
theorem execute_of_failed {command : Command}
    (hfix : ∀ q, command.fix? m.node.now = some q → q.isAcceptable = true → q ∈ points)
    (hfailed : (m.node.execute command).1.isOk = false) :
    (m.node.execute command).2 = m.node := by
  cases command with
  | update driverId latitude longitude =>
    rw [execute] at hfailed ⊢
    cases hupdate : m.node.update driverId latitude longitude with
    | error e => rfl
    | ok n =>
      rw [hupdate] at hfailed
      cases hfailed
  | nearby latitude longitude limit =>
    -- no search of a consistent index evicts anybody
    exact congrArg (fun index => { m.node with service.index := index })
      (hs.consistent.afterNearest_eq latitude longitude limit)
  | locate driverId => rfl
  | remove driverId => cases hfailed
  | ingest point =>
    have hx := hs.holds.ingest_or_same hp m.node.clock (hfix point rfl)
    rw [execute_ingest] at hfailed ⊢
    exact congrArg (fun depot => { m.node with depot }) (depot_of_failed (fun _ => rfl) hx hfailed)
  | track driverId count =>
    have hx := hs.holds.analyzed_or_same hp m.node.clock driverId count
    rw [execute_track] at hfailed ⊢
    exact congrArg (fun depot => { m.node with depot }) (depot_of_failed (fun _ => rfl) hx hfailed)
  | stats => cases hfailed

/-- **A line that fails changes nothing.** -/
theorem handle_of_failed {line : Bytes}
    (hfix : ∀ q, m.fix? (.line line) = some q → q.isAcceptable = true → q ∈ points)
    (hfailed : (m.node.handle line).1.isOk = false) : (m.node.handle line).2 = m.node := by
  rw [handle] at hfailed ⊢
  cases hread : Command.read? line with
  | none => rfl
  | some command =>
    rw [hread] at hfailed
    refine execute_of_failed hp hs (fun q hq => hfix q ?_) hfailed
    rw [Moment.fix?, hread]
    exact hq

omit hp hs

/-! ## Runs with a line that fails -/

/-- **The acceptable points that come to the store of a new node** are legible. -/
theorem legible_of_fixes {config : Config} {t : Trigonometry} (ht : t.IsBounded) {n : Node}
    (hn : Node.new config (.memory {}) t = .ok n) (hwindow : config.store.windowSize < 2 ^ 64)
    {m : Moment} {happenings : List Happening} {points : List TrackPoint}
    (hpoints : points = (m.fixes happenings).filter TrackPoint.isAcceptable) (d : String) :
    (config.trackPolicy t).Legible d points := by
  have hlimit := (Config.trackPolicy_of_fault? (new_eq_ok hn).1 t).1
  refine TrackPolicy.legible_of_isFinite hlimit hwindow (fun q hq => ?_) ht
  rw [hpoints] at hq
  obtain ⟨hfix, haccepted⟩ := List.mem_filter.mp hq
  obtain ⟨m', happening, hnoted⟩ := Moment.exists_of_mem_along hfix
  rw [TrackPoint.isAcceptable, Bool.and_eq_true] at haccepted
  exact ⟨Moment.isFinite_of_fix? hnoted, haccepted.2⟩

/-- **A line that fails leaves no trace.**  Lines are sent to a new node on a backend in memory that
never fails, while time passes, stale drivers are dropped and the worker takes its steps.  If the
reply to one more line reports a failure, for whatever reason, the node is after it what it was
before, its index, its queue and counters, its store and all that is stored; and whatever is done
next, the replies to all later lines and the end of the run are the same as if that line had not
been sent.  Of the functions of angles no more is used than that they stay within their ranges. -/
theorem failed_line_leaves_no_trace {config : Config} {t : Trigonometry} (ht : t.IsBounded)
    {n : Node} (hn : Node.new config (.memory {}) t = .ok n)
    (hwindow : config.store.windowSize < 2 ^ 64) (before : List Happening) (line : Bytes) :
    let start : Moment := { node := n }
    let m := start.after before
    (m.node.handle line).1.isOk = false →
    (m.node.handle line).2 = m.node ∧
      ∀ later,
        start.replies (before ++ later) = start.replies before ++ m.replies later ∧
        start.replies (before ++ .line line :: later) =
          start.replies before ++ (m.node.handle line).1 :: m.replies later ∧
        start.after (before ++ .line line :: later) = start.after (before ++ later) := by
  intro start m hfailed
  let points := (start.fixes (before ++ [.line line])).filter TrackPoint.isAcceptable
  have hp : ∀ d, (config.trackPolicy t).Legible d points := legible_of_fixes ht hn hwindow rfl
  have hfixes : ∀ q ∈ start.fixes (before ++ [.line line]), q.isAcceptable = true → q ∈ points :=
    fun q hq haccepted => List.mem_filter.mpr ⟨hq, haccepted⟩
  have hsplit : start.fixes (before ++ [.line line]) =
      start.fixes before ++ ((m.fix? (.line line)).toList ++ []) :=
    start.along_append Moment.fix? before [.line line]
  rw [hsplit, List.append_nil] at hfixes
  obtain ⟨hbefore, hline⟩ := List.forall_mem_append.mp hfixes
  have hs : m.Sound (config.trackPolicy t) points := (Moment.sound_new hn).after hp hbefore
  have hsame : (m.node.handle line).2 = m.node :=
    handle_of_failed hp hs (fun q hq => hline q (Option.mem_toList.mpr hq)) hfailed
  have hnext : m.next (.line line) = m := congrArg (fun node => { m with node }) hsame
  refine ⟨hsame, fun later => ⟨start.along_append _ before later, ?_, ?_⟩⟩
  · have hrest : m.replies (.line line :: later) = (m.node.handle line).1 :: m.replies later :=
      congrArg (fun m' : Moment => (m.node.handle line).1 :: m'.replies later) hnext
    exact (start.along_append _ before (.line line :: later)).trans
      (congrArg (start.replies before ++ ·) hrest)
  · have hafter (happenings : List Happening) :
        start.after (before ++ happenings) = m.after happenings := List.foldl_append
    rw [hafter, hafter]
    exact congrArg (fun m' : Moment => m'.after later) hnext

/-! ## A driver that nobody knows -/

/-- A driver is ingested and a millisecond later, about a centimetre further on, it is updated; the
worker delivers the update. -/
def twoFixes : List Happening :=
  [.line (Bytes.ofText "[\"ingest\",[\"d\",[0,0,1704067199999]]]"),
    .line (Bytes.ofText "[\"update\",\"d\",0,1e-7]"), .take, .hand, .settle]

/-- **A look for another driver fails,** and the track of the driver that is there is read as if
nobody had looked. -/
theorem failed_locate_leaves_no_trace :
    let start : Moment := { node := fresh {} (.memory {}) .ofSmallAngles }
    let line := Bytes.ofText "[\"locate\",\"e\"]"
    let later := [.line (Bytes.ofText "[\"track\",\"d\",5]")]
    let m := start.after twoFixes
    (m.node.handle line).1.isOk = false ∧
      start.replies (twoFixes ++ .line line :: later) =
        start.replies twoFixes ++ (m.node.handle line).1 :: m.replies later := by
  intro start line later m
  have hnew : Node.new {} (.memory {}) .ofSmallAngles =
      .ok (fresh {} (.memory {}) .ofSmallAngles) := by
    have hfault : ({} : Config).fault? = none := by decide +kernel
    rw [new_eq, hfault]
  have hfailed : (m.node.handle line).1.isOk = false := by decide +kernel
  have huntouched := failed_line_leaves_no_trace Trigonometry.isBounded_ofSmallAngles hnew
    (by decide) twoFixes line hfailed
  exact ⟨hfailed, (huntouched.2 later).2.1⟩

end Node

end Fleet
