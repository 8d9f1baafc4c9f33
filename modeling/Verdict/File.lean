import Verdict.Document.Yaml
import Verdict.Text.Parts

/-!
# Files

Trees and data records are kept in files of JSON or YAML. The name of a file says which.
-/

namespace Verdict

/-- A file by its name, and what the system gave for it: its bytes, or why it cannot be read. -/
structure File where
  name : String
  content : Except String (List UInt8)

namespace File

/-- What the system says of a file that does not exist. -/
def absent : String := "No such file or directory (os error 2)"

/-- The last part of a path. -/
def baseName (name : String) : List Char :=
  let parts := (Text.splitAt '/' name.toList).filter fun part => part ≠ [] ∧ part ≠ ['.']
  parts.getLast?.getD []

/-- A file is JSON if its name ends in `.json` and has something before that; all others are YAML.
-/
def format (file : File) : Format :=
  match Text.cutAt? '.' (baseName file.name).reverse with
  | some (extension, stem) =>
    if extension.reverse = ['j', 's', 'o', 'n'] ∧ stem ≠ [] then .json else .yaml
  | none => .yaml

/-- The text of a file. -/
def text (file : File) : Except Failure String :=
  match file.content with
  | .error message => .error (.io message)
  | .ok bytes =>
    match String.fromUTF8? bytes.toByteArray with
    | some text => .ok text
    | none => .error (.io "stream did not contain valid UTF-8")

/-- Reads a file in its format. -/
def decode {α : Type} (view : Yaml.View) (reading : Reading α) (file : File) :
    Except Failure α := do
  let text ← file.text
  match file.format with
  | .json => (Json.decodeText reading (textBytes text)).mapError .document
  | .yaml => Yaml.decodeText view reading text

/-- The tree in a file. -/
def tree (file : File) : Except Failure Tree := file.decode .tree Tree.read

/-- The data record in a file. -/
def record (file : File) : Except Failure Record := do
  match ← file.decode .data .json with
  | .object members => return members
  | v => throw (.malformed (.notARecord v))

end File

end Verdict
