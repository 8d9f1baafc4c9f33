import Verdict.Error
import Verdict.Log

/-!
# Notices and channels

A notice is what a channel carries to one recipient. A channel either takes a payload or fails; what
it leaves behind is part of its answer, and so is what it tells the log.
-/

namespace Verdict

/-- What came of handing a payload to a channel; the time is in milliseconds. -/
structure Dispatch where
  deliveries : List Json := []
  failure : Option Failure := none
  delay : Nat := 0
  notes : List Note := []
deriving BEq, Repr, Inhabited

structure Channel where
  name : String
  dispatch : Json → Dispatch

namespace Channel

instance : CoeFun Channel fun _ => Json → Dispatch := ⟨dispatch⟩

/-- Takes every payload and carries it nowhere but to the log. -/
def logged (name : String) : Channel where
  name := name
  dispatch payload :=
    let text := "[" ++ name ++ "] dispatch: " ++ payload.compact
    { notes := [⟨.info, "arbiter_rs::arbiter::actions::dispatch", text⟩] }

end Channel

/-- A text for a phone. -/
structure TextMessage where
  phoneNumber : String
  message : String
deriving DecidableEq, Repr, Inhabited

namespace TextMessage

def payload (text : TextMessage) : Json :=
  .object [("body", .string text.message), ("to", .string text.phoneNumber)]

end TextMessage

structure Email where
  address : String
  subject : String
  body : String
deriving DecidableEq, Repr, Inhabited

namespace Email

def payload (email : Email) : Json :=
  .object [
    ("subject", .string email.subject), ("text", .string email.body), ("to", .string email.address)]

end Email

end Verdict
