import Provision.Pipeline.Step
/-!
# Pipelines — running

Runs steps strictly in order and stops at the first failure, which it
passes on unchanged. Every step is reported twice: when it starts, and when
it is done or has failed. A run that is cancelled between two steps fails
without a report, for no step is there to blame.
-/

namespace Provision.Pipeline

variable {σ : Type}

/-- The time that a step took. -/
structure Timing where
  /-- The name under which it is kept. -/
  metric : String
  /-- The milliseconds. -/
  elapsed : Nat
  deriving Repr, DecidableEq

/-- Logs what is behind a failure, outermost first. -/
def logCauses : List Link → Process σ Unit
  | [] => pure ()
  | link :: links => do
    Process.log .error "caused by" [("cause", .text link.message)]
    logCauses links

namespace Step

/-- Reports that a step is done. -/
def complete (s : Step σ) (elapsed : Nat) : Process σ Timing := do
  Process.log .info "step completed"
    [("step", .text s.display), ("elapsed_ms", .number elapsed)]
  Process.note (.notified (.completed s.display (.ofMillis elapsed)))
  return ⟨s.metric, elapsed⟩

/-- Reports that a step failed, and fails. -/
def abandon (s : Step σ) (f : Failure) : Process σ Timing := do
  Process.log .error "step encountered error"
    [("step", .text s.display), ("error", .text f.message)]
  logCauses f.sources
  Process.note (.notified (.failed s.display f.message))
  Process.fail f

/-- Runs a step that has not been called off, and reports on it. -/
def supervise (s : Step σ) : Process σ Timing := do
  Process.log .info "running step" [("step", .text s.display)]
  Process.note (.notified (.started s.display))
  let start ← Process.now
  match ← s.run.attempt with
  | .ok () => s.complete ((← Process.now) - start)
  | .error f => s.abandon f

/-- Runs a step of a pipeline, unless the run is cancelled. -/
def enter (s : Step σ) : Process σ Timing := do
  if ← Process.isCancelled then
    Process.log .warn "pipeline cancelled before step" [("step", .text s.display)]
    Process.fail .cancelled
  else s.supervise

end Step

/-- **Runs steps in order**, and gives the times they took. -/
def run : List (Step σ) → Process σ (List Timing)
  | [] => return []
  | s :: ss => do
    let timing ← s.enter
    let timings ← run ss
    return timing :: timings

end Provision.Pipeline
