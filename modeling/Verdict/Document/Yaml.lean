import Verdict.Document.Tree
import Verdict.Error
import Verdict.Yaml.Value

/-!
# Reading YAML texts

A text that is YAML holds at most one value. A reader of trees and a reader of data see it in
different ways, and neither asks whether all of it can be kept.
-/

namespace Verdict.Yaml

/-- Advances a mark to an offset; behind the text there is one more line. -/
def Mark.advance (offset : Nat) : List Char → Mark → Mark
  | [], mark => if mark.offset < offset then mark.nextLine 1 else mark
  | '\x0d' :: '\n' :: rest, mark =>
    if mark.offset < offset then advance offset rest (mark.nextLine 2) else mark
  | c :: rest, mark =>
    if mark.offset < offset then
      advance offset rest (if isBreak c then mark.nextLine 1 else mark.next)
    else mark

/-- The line and the column of an offset, counted from one; the very start is no place. -/
def place? (text : String) (offset : Nat) : Option (Nat × Nat) :=
  let mark := Mark.advance offset text.toList ⟨0, 0, 0⟩
  if mark.line = 0 ∧ mark.column = 0 then none else some (mark.line + 1, mark.column + 1)

/-- What a text holds: nothing up to an offset, or a value. -/
inductive Content
  | void (stop : Nat)
  | value (value : Value)

/-- The content of a text, if the text is YAML. -/
def Content.ofText? (text : String) : Option Content := do
  match ← Stream.ofTokens? (← tokens? text) with
  | .empty stop => return .void stop
  | .document root => return .value (← Value.ofRoot? root)

/-- How a reader sees what a text holds. -/
abbrev View := Content → Doc

def View.data : View
  | .void stop => .null stop
  | .value value => value.doc true

def View.tree : View
  | .void stop => .map stop (.closed stop)
  | .value value => value.treeDoc

/-- Reads a whole text. -/
def decodeText {α : Type} (view : View) (reading : Reading α) (text : String) : Except Failure α :=
  match Content.ofText? text with
  | none => .error .notYaml
  | some content => (reading .text (view content)).mapError fun fault =>
    .document ⟨.yaml, fault.reason, fault.offset.bind (place? text), fault.path⟩

end Verdict.Yaml
