import Verdict.Document.Reading
import Verdict.Json.Reader

/-!
# Refused documents

A fault together with the format of the document and the line and column of its place.
-/

namespace Verdict

structure Refusal where
  format : Format
  reason : Reason
  place : Option (Nat × Nat)
  path : List Step
deriving DecidableEq, Repr, Inhabited

namespace Refusal

/-- Whether the text itself is wrong, and not what it says. -/
def isDefect (refusal : Refusal) : Bool :=
  match refusal.reason with
  | .defect _ => true
  | _ => false

/-- The reason and the place. -/
def message (refusal : Refusal) : String :=
  let reason := refusal.reason.message refusal.format
  match refusal.place with
  | some (line, column) =>
    reason ++ " at line " ++ toString line ++ " column " ++ toString column
  | none => reason

private def stepText (started : Bool) : Step → String
  | .key key => if started then "." ++ key else key
  | .unknown => if started then ".?" else "?"
  | .index n => "[" ++ toString n ++ "]"

/-- The way to the refused part; empty at the root. -/
def pathText (refusal : Refusal) : String :=
  match refusal.path with
  | [] => ""
  | first :: rest =>
    let start := match refusal.format, first with
      | .yaml, .index _ => "."
      | _, _ => ""
    start ++ stepText false first ++ String.join (rest.map (stepText true))

/-- The message behind the way to the refused part. -/
def located (refusal : Refusal) : String :=
  match refusal.path with
  | [] => refusal.message
  | _ => refusal.pathText ++ ": " ++ refusal.message

end Refusal

namespace Json

/-- The refusal of a part of a text. -/
def refuse (bytes : List UInt8) (fault : Fault) : Refusal :=
  ⟨.json, fault.reason, fault.offset.map (position bytes), fault.path⟩

/-- Reads a whole text. -/
def decodeText {α : Type} (reading : Reading α) (bytes : List UInt8) : Except Refusal α :=
  let text := Text.ofBytes bytes
  match reading .text text.root with
  | .error fault => .error (refuse bytes fault)
  | .ok v =>
    match text.trailing with
    | some flaw => .error (refuse bytes (.ofFlaw flaw))
    | none => .ok v

/-- Reads a value. -/
def decode {α : Type} (reading : Reading α) (v : Json) : Except Refusal α :=
  match reading .value (Doc.ofJson v) with
  | .error fault => .error ⟨.json, fault.reason, none, fault.path⟩
  | .ok v => .ok v

end Json

/-- The bytes of a text. -/
def textBytes (s : String) : List UInt8 := s.toUTF8.data.toList

end Verdict
