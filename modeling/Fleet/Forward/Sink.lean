import Fleet.Error
import Fleet.Forward.Envelope

/-!
# Where envelopes go

A sink takes envelopes one at a time.
-/

namespace Fleet

/-- How a delivery comes out. -/
inductive Delivery where
  | accepted
  | refused (cause : PeerError)
  /-- The sink never answers. -/
  | unanswered
  /-- The sink brings its caller down. -/
  | fatal
deriving DecidableEq, Repr

/-- **What a sink with states `σ` does with an envelope.** -/
abbrev Sink (σ : Type) : Type := σ → Envelope → Delivery × σ

end Fleet
