import Verdict.Json.Basic

/-!
# Actions

An action names a kind of work and its parameters; it carries a result once it has run.
-/

namespace Verdict

/-- Kinds of actions; `custom` is any name outside the two that are known. -/
inductive ActionKind
  | sendMessage
  | sendEmail
  | custom (name : String)
deriving DecidableEq, Repr, Inhabited

namespace ActionKind

def name : ActionKind → String
  | sendMessage => "send-message"
  | sendEmail => "send-email"
  | custom name => name

/-- The kind that a name or its older spelling stands for. -/
def ofName (name : String) : ActionKind :=
  if name = "send-message" ∨ name = "SMSAction" then sendMessage
  else if name = "send-email" ∨ name = "EmailAction" then sendEmail
  else custom name

end ActionKind

structure ActionResult where
  success : Bool
  message : String
  output : Record
deriving BEq, Repr, Inhabited

namespace ActionResult

def succeeded (message : String) (output : Record) : ActionResult := ⟨true, message, output⟩

def failed (message : String) : ActionResult := ⟨false, message, []⟩

end ActionResult

structure Action where
  kind : ActionKind
  parameters : Record
  result : Option ActionResult
deriving BEq, Repr, Inhabited

namespace Action

def isExecuted (action : Action) : Bool := action.result.isSome

/-- The action with the result of a run, whatever result it carried before. -/
def executed (action : Action) (result : ActionResult) : Action :=
  { action with result := some result }

end Action

end Verdict
