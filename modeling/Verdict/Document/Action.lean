import Verdict.Action
import Verdict.Document.Reading

/-!
# Actions in documents
-/

namespace Verdict

namespace ActionResult

structure Draft where
  success : Option Bool := none
  message : Option String := none
  output : Option Record := none

def layout : Layout Draft ActionResult where
  title := "ActionResult"
  slots := [
    .reading "success" [] (·.success) (fun v d => { d with success := some v }) .flag,
    .reading "resultMessage" [] (·.message) (fun v d => { d with message := some v }) .text,
    .reading "output" [] (·.output) (fun v d => { d with output := some v }) .record]
  blank := {}
  finish draft :=
    match draft.success, draft.message with
    | none, _ => .error "success"
    | _, none => .error "resultMessage"
    | some success, some message => .ok ⟨success, message, draft.output.getD []⟩

def encode (result : ActionResult) : Json :=
  .object [
    ("success", .bool result.success),
    ("resultMessage", .string result.message),
    ("output", .object result.output)]

end ActionResult

namespace Action

structure Draft where
  kind : Option ActionKind := none
  parameters : Option Record := none
  result : Option (Option ActionResult) := none

def layout : Layout Draft Action where
  title := "Action"
  slots := [
    .reading "kind" ["type"] (·.kind) (fun v d => { d with kind := some v })
      (Reading.text.map .ofName),
    .reading "parameters" [] (·.parameters) (fun v d => { d with parameters := some v }) .record,
    .reading "executionResult" [] (·.result) (fun v d => { d with result := some v })
      (.optional ActionResult.layout.read)]
  blank := {}
  finish draft :=
    match draft.kind with
    | none => .error "kind"
    | some kind => .ok ⟨kind, draft.parameters.getD [], draft.result.join⟩

def encode (action : Action) : Json :=
  .object <|
    [("kind", .string action.kind.name), ("parameters", .object action.parameters)]
    ++ match action.result with
      | some result => [("executionResult", result.encode)]
      | none => []

end Action

end Verdict
