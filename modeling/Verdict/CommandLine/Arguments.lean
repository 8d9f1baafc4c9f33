import Verdict.Text.Parts

/-!
# Arguments

The arguments of the program are a verb and its switches. A switch takes a value, which stands in
the next argument or in its own, and is given at most once.
-/

namespace Verdict

inductive Switch
  | port
  | tree
  | data
deriving DecidableEq, Repr, Inhabited

namespace Switch

def name : Switch → String
  | port => "port"
  | tree => "tree"
  | data => "data"

/-- The letter that stands for the name. -/
def letter : Switch → Char
  | port => 'p'
  | tree => 't'
  | data => 'd'

end Switch

inductive Verb
  | serve
  | run
  | validate
  | schema
  | help
deriving DecidableEq, Repr, Inhabited

namespace Verb

def name : Verb → String
  | serve => "serve"
  | run => "run"
  | validate => "validate"
  | schema => "schema"
  | help => "help"

def all : List Verb := [serve, run, validate, schema, help]

def ofName? (name : String) : Option Verb := all.find? (·.name == name)

def switches : Verb → List Switch
  | serve => [.port]
  | run => [.tree, .data]
  | validate => [.tree]
  | schema | help => []

end Verb

/-- What the program is asked to do. -/
inductive Command
  | serve (port : Option UInt16)
  | run (tree data : String)
  | validate (tree : String)
  | schema
  | help (topic : Option Verb)
  | version
deriving DecidableEq, Repr, Inhabited

namespace Command

/-! ## Single arguments -/

inductive Argument
  | help
  | version
  /-- The end of the switches. -/
  | stop
  | bare (switch : Switch)
  | given (switch : Switch) (value : String)
deriving DecidableEq, Repr, Inhabited

/-- Reads an argument that starts with a dash. -/
def Argument.read? (switches : List Switch) (text : String) : Option Argument :=
  match text.toList with
  | ['-', '-'] => some .stop
  | '-' :: '-' :: long =>
    match Text.cutAt? '=' long with
    | some (name, value) =>
      (switches.find? (·.name.toList == name)).map (.given · (String.ofList value))
    | none =>
      if long = "help".toList then some .help
      else if long = "version".toList then some .version
      else (switches.find? (·.name.toList == long)).map .bare
  | '-' :: 'h' :: _ => some .help
  | '-' :: 'V' :: _ => some .version
  | '-' :: letter :: value =>
    (switches.find? (·.letter == letter)).map fun switch =>
      match value with
      | [] => .bare switch
      | '=' :: value => .given switch (String.ofList value)
      | value => .given switch (String.ofList value)
  | _ => none

/-- Whether an argument can be the value of the switch before it. -/
def isValue (text : String) : Bool := text.toList.head? != some '-' || text == "-"

/-! ## Values -/

/-- A port, with a sign or without. -/
def port? (text : String) : Option UInt16 := do
  let (negative, digits) := match text.toList with
    | '-' :: digits => (true, digits)
    | '+' :: digits => (false, digits)
    | digits => (false, digits)
  let n ← Text.numberOf? 10 digits
  if n < 2 ^ 16 ∧ (negative = true → n = 0) then some (UInt16.ofNat n) else none

/-- Whether a switch takes a value. -/
def accepts : Switch → String → Bool
  | .port, value => (port? value).isSome
  | .tree, value | .data, value => value != ""

/-! ## Switches -/

/-- The values of switches, or a question for help. -/
inductive Given
  | help
  | values (values : List (Switch × String))

/-- Adds the value of a switch that has none yet. -/
def addValue (values : List (Switch × String)) (switch : Switch) (value : String) :
    Option (List (Switch × String)) :=
  if (values.lookup switch).isNone ∧ accepts switch value then some (values ++ [(switch, value)])
  else none

/-- Reads the switches of a verb; a question for help ends them. -/
def readSwitches (switches : List Switch) (values : List (Switch × String)) :
    List String → Option Given
  | [] => some (.values values)
  | text :: rest =>
    match Argument.read? switches text with
    | none | some .version => none
    | some .help => some .help
    | some .stop => if rest.isEmpty then some (.values values) else none
    | some (.given switch value) =>
      match addValue values switch value with
      | some values => readSwitches switches values rest
      | none => none
    | some (.bare switch) =>
      match rest with
      | [] => none
      | value :: rest =>
        match if isValue value then addValue values switch value else none with
        | some values => readSwitches switches values rest
        | none => none

/-- The command of a verb and the values of its switches, of which only the port may be missing. -/
def ofValues? (verb : Verb) (values : List (Switch × String)) : Option Command :=
  match verb with
  | .serve => some (.serve ((values.lookup .port).bind port?))
  | .run => do return .run (← values.lookup .tree) (← values.lookup .data)
  | .validate => do return .validate (← values.lookup .tree)
  | .schema => some .schema
  | .help => some (.help none)

/-- Reads what stands behind a verb. -/
def ofVerb? (verb : Verb) (arguments : List String) : Option Command :=
  match verb, arguments with
  | .help, [] => some (.help none)
  | .help, [name] => (Verb.ofName? name).map fun topic => .help (some topic)
  | .help, _ => none
  | verb, arguments =>
    match readSwitches verb.switches [] arguments with
    | none => none
    | some .help => some (.help (some verb))
    | some (.values values) => ofValues? verb values

/-- The command that arguments ask for; `none` if they are misused. -/
def ofArguments? : List String → Option Command
  | [] => none
  | first :: rest =>
    match Verb.ofName? first with
    | some verb => ofVerb? verb rest
    | none =>
      match Argument.read? [] first with
      | some .help => some (.help none)
      | some .version => some .version
      | _ => none

end Command

end Verdict
