import Verdict.CommandLine.Arguments

/-!
# Help

The texts that explain the verbs of the program and their switches, in two columns.
-/

namespace Verdict

namespace Switch

/-- What stands for the value. -/
def placeholder : Switch → String
  | port => "<PORT>"
  | tree => "<TREE>"
  | data => "<DATA>"

def summary : Switch → String
  | port => "Port to listen on (defaults to $PORT, then 3000)"
  | tree => "Path to the decision tree (YAML or JSON)"
  | data => "Path to the data record (JSON or YAML object)"

def usage (switch : Switch) : String := "--" ++ switch.name ++ " " ++ switch.placeholder

end Switch

namespace Verb

def summary : Verb → String
  | serve => "Run the HTTP server"
  | run => "Evaluate a decision tree file against a data file"
  | validate => "Validate a decision tree file without running it"
  | schema => "Print the JSON Schema of a decision tree"
  | help => "Print this message or the help of the given subcommand(s)"

/-- What stands behind the verb. -/
def usage : Verb → List String
  | serve => ["[OPTIONS]"]
  | run => [Switch.tree.usage, Switch.data.usage]
  | validate => [Switch.tree.usage]
  | schema => []
  | help => ["[COMMAND]..."]

end Verb

namespace Help

/-- Rows of two columns, the second one two blanks behind the widest entry of the first. -/
def table (heading : String) (rows : List (String × String)) : String :=
  let width := (rows.map (·.1.length)).foldl max 0
  heading ++ ":\n" ++ String.join (rows.map fun (left, right) =>
    "  " ++ left ++ String.ofList (List.replicate (width - left.length + 2) ' ') ++ right ++ "\n")

def usage (words : List String) : String :=
  "Usage: " ++ Text.joinWith " " ("arbiter" :: words) ++ "\n"

def verbs : String := table "Commands" (Verb.all.map fun verb => (verb.name, verb.summary))

def helpRow : String × String := ("-h, --help", "Print help")

def switchRow (switch : Switch) : String × String :=
  ("-" ++ String.singleton switch.letter ++ ", " ++ switch.usage, switch.summary)

/-- The text about the program. -/
def overview : String :=
  usage ["<COMMAND>"] ++ "\n" ++ verbs ++ "\n"
    ++ table "Options" [helpRow, ("-V, --version", "Print version")]

/-- The text about a verb. -/
def about (verb : Verb) : String :=
  verb.summary ++ "\n\n" ++ usage (verb.name :: verb.usage) ++ "\n"
    ++ match verb with
      | .help => verbs
      | verb => table "Options" (verb.switches.map switchRow ++ [helpRow])

def version : String := "arbiter-rs 0.1.0\n"

end Help

end Verdict
