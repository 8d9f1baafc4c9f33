import Verdict.Config
import Verdict.Document.Notice
import Verdict.Registry
import Verdict.Schema.Basic
import Verdict.Text.Blank

/-!
# Executors that send notices

Whatever the parameters are and whatever the channel does, performing an action reports a result. A
notice is handed to the channel at most once, and only if the parameters can be read and the
recipient can be reached.
-/

namespace Verdict

namespace Notice

/-- The notice of some parameters, or the text that says why there is none. -/
def read {δ α : Type} (layout : Layout δ α) (kind : ActionKind) (parameters : Record) :
    Except String α :=
  match Json.decode layout.read (.object parameters) with
  | .ok notice => .ok notice
  | .error refusal => .error ("Invalid " ++ kind.name ++ " parameters: " ++ refusal.message)

/-- Hands a payload over; `report` makes the result of how the channel ended. The log is told the
`opening` before, and of the `subject` that it failed if it did. -/
def send (channel : Channel) (payload : Json) (report : Option Failure → ActionResult)
    (source opening subject : String) : Receipt :=
  let dispatch := channel payload
  let warnings := dispatch.failure.toList.map fun failure =>
    let text := subject ++ " failed on channel " ++ channel.name ++ ": " ++ failure.message
    { severity := .warning, source, text : Note }
  { result := report dispatch.failure
    deliveries := dispatch.deliveries
    delay := dispatch.delay
    notes := ⟨.info, source, opening⟩ :: dispatch.notes ++ warnings }

end Notice

namespace TextMessage

/-- The text message of some parameters; the recipient must not be blank. -/
def ofParameters (parameters : Record) : Except String TextMessage := do
  let text ← Notice.read layout .sendMessage parameters
  if Text.isBlankText text.phoneNumber then
    throw "Invalid send-message parameters: phoneNumber is empty"
  return text

/-- The result of sending: the output reports the delivery. -/
def report (text : TextMessage) : Option Failure → ActionResult
  | none => ⟨true, "Message sent to " ++ text.phoneNumber, [("deliveryReport", .bool true)]⟩
  | some failure =>
    ⟨false, "Message to " ++ text.phoneNumber ++ " failed: " ++ failure.message,
      [("deliveryReport", .bool false)]⟩

def perform (channel : Channel) (parameters : Record) : Receipt :=
  match ofParameters parameters with
  | .error message => { result := .failed message }
  | .ok text =>
    Notice.send channel text.payload text.report "arbiter_rs::arbiter::actions::message"
      ("Sending message to " ++ text.phoneNumber) ("Message to " ++ text.phoneNumber)

def parameterSchema : Schema := [
  Schema.draft,
  .title "SendMessageArgs",
  .type [.object],
  .required ["message", "phoneNumber"],
  .properties [
    ("phoneNumber",
      [.description "Recipient phone number, e.g. \"+15550100\"", .type [.string]]),
    ("message", [.description "Text body", .type [.string]])]]

def executor (channel : Channel) : Executor where
  kind := .sendMessage
  description := "Sends a text message to a phone number. Output carries a delivery report."
  parameterSchema := parameterSchema.encode
  perform _ := perform channel

end TextMessage

namespace Email

/-- The email of some parameters; the address must have an at sign. -/
def ofParameters (parameters : Record) : Except String Email := do
  let email ← Notice.read layout .sendEmail parameters
  if email.address.toList.contains '@' then return email
  throw ("Invalid send-email parameters: '" ++ email.address ++ "' is not an email address")

def report (email : Email) : Option Failure → ActionResult
  | none => .succeeded ("Email sent to " ++ email.address) []
  | some failure => .failed ("Email to " ++ email.address ++ " failed: " ++ failure.message)

def perform (channel : Channel) (parameters : Record) : Receipt :=
  match ofParameters parameters with
  | .error message => { result := .failed message }
  | .ok email =>
    Notice.send channel email.payload email.report "arbiter_rs::arbiter::actions::email"
      ("Sending email to " ++ email.address ++ " with subject '" ++ email.subject ++ "'")
      ("Email to " ++ email.address)

def parameterSchema : Schema := [
  Schema.draft,
  .title "SendEmailArgs",
  .type [.object],
  .required ["emailAddress", "subject", "textBody"],
  .properties [("emailAddress", Schema.text), ("subject", Schema.text), ("textBody", Schema.text)]]

def executor (channel : Channel) : Executor where
  kind := .sendEmail
  description := "Sends a plain-text email with a subject to one address."
  parameterSchema := parameterSchema.encode
  perform _ := perform channel

end Email

/-- The channel to a webhook, by the channel's name and the webhook's address. -/
abbrev Webhook := String → Url → Channel

namespace Executor

/-- The executors that a configuration asks for, in the order of their registration: a notice is
handed to the webhook of its kind if there is one, and to the log otherwise. -/
def ofConfig (webhook : Webhook) (config : Config) : List Executor :=
  let channel (name : String) (url : Option Url) : Channel :=
    url.elim (.logged name) (webhook name)
  [TextMessage.executor (channel "sms" config.messageWebhook),
    Email.executor (channel "email" config.emailWebhook)]

/-- What the log is told when an executor is registered at the start. -/
def announcement (executor : Executor) : Note :=
  ⟨.info, "arbiter_rs::arbiter::actions", "Registered action: " ++ executor.kind.name⟩

end Executor

namespace Registry

/-- The executors of the known kinds over the given channels. -/
def builtIn (texts emails : Channel) : Registry :=
  ofList [TextMessage.executor texts, Email.executor emails]

/-- The registry that a configuration asks for. -/
def ofConfig (webhook : Webhook) (config : Config) : Registry :=
  ofList (Executor.ofConfig webhook config)

/-- The registry that carries nothing away: without webhooks every notice goes to the log. -/
def standard : Registry := builtIn (.logged "sms") (.logged "email")

end Registry

end Verdict
