import Provision.Pipeline.Duration
import Provision.Pipeline.Failure
/-!
# Pipelines — events

What a pipeline reports of itself while it runs, and the JSON form of it:
an object whose only key is the name of the event.
-/

namespace Provision.Pipeline

/-- Something that a pipeline reports. Steps are given by their display
text. -/
inductive Event where
  | started (step : String)
  | completed (step : String) (elapsed : Duration)
  /-- A step failed, and the pipeline stops. -/
  | failed (step : String) (error : String)
  /-- A condition that may be skipped was not met in time. -/
  | skipped (step : String)
  /-- Fresh credentials have been obtained. -/
  | refreshed (step : String) (kind : Denial)
  deriving Repr, DecidableEq

namespace Event

open Json

/-- The fields of an event, as far as they have been read. -/
structure Fields where
  step : Option String := none
  elapsed : Option Duration := none
  error : Option String := none
  kind : Option Denial := none

/-- A field that has to be there. -/
def need {α : Type} (name : String) : Option α → Except Problem α
  | some a => .ok a
  | none => .error (.missingField name)

/-- The step of an event. -/
def stepField : Json.Field Fields :=
  ⟨"step", fun bs => do
    let (s, bs) ← Reader.text "a string" bs
    return (fun f => { f with step := some s }, bs)⟩

/-- The time a step took. -/
def elapsedField : Json.Field Fields :=
  ⟨"elapsed", fun bs => do
    let (d, bs) ← Duration.record.read bs
    return (fun f => { f with elapsed := some d }, bs)⟩

/-- What a step's failure said. -/
def errorField : Json.Field Fields :=
  ⟨"error", fun bs => do
    let (s, bs) ← Reader.text "a string" bs
    return (fun f => { f with error := some s }, bs)⟩

/-- The kind of denial that fresh credentials were obtained for. -/
def kindField : Json.Field Fields :=
  ⟨"kind", fun bs => do
    let (k, bs) ← Denial.reader bs
    return (fun f => { f with kind := some k }, bs)⟩

/-- What the event of a name looks like. -/
def shape (name : String) (fields : List (Json.Field Fields))
    (finish : Fields → Except Problem Event) : String × Case Event :=
  let wanted := "struct variant StepEvent::" ++ name
  let count := fields.length
  let elements := if count = 1 then " element" else " elements"
  let record : Record Fields Event :=
    { wanted
      wantedLength := wanted ++ " with " ++ toString count ++ elements
      fields
      openEnd := false
      extensible := true
      start := {}
      finish }
  (name, .carrying record.read)

/-- What events look like. -/
def shapes : List (String × Case Event) :=
  [shape "StepStarted" [stepField] fun f => do
      return .started (← need "step" f.step),
   shape "StepCompleted" [stepField, elapsedField] fun f => do
      return .completed (← need "step" f.step) (← need "elapsed" f.elapsed),
   shape "StepFailed" [stepField, errorField] fun f => do
      return .failed (← need "step" f.step) (← need "error" f.error),
   shape "ConditionSkipped" [stepField] fun f => do
      return .skipped (← need "step" f.step),
   shape "AuthorizationRefreshed" [stepField, kindField] fun f => do
      return .refreshed (← need "step" f.step) (← need "kind" f.kind)]

/-- Reads an event. -/
def reader : Reader Event := Reader.oneOf shapes

/-- The JSON text of an event. -/
def write : Event → String
  | started step =>
    Writer.object [("StepStarted", Writer.object [("step", Writer.text step)])]
  | completed step elapsed =>
    Writer.object
      [("StepCompleted", Writer.object [("step", Writer.text step), ("elapsed", elapsed.write)])]
  | failed step error =>
    Writer.object
      [("StepFailed", Writer.object [("step", Writer.text step), ("error", Writer.text error)])]
  | skipped step =>
    Writer.object [("ConditionSkipped", Writer.object [("step", Writer.text step)])]
  | refreshed step kind =>
    Writer.object
      [("AuthorizationRefreshed", Writer.object [("step", Writer.text step), ("kind", kind.write)])]

end Event

end Provision.Pipeline
