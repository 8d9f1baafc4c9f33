import Verdict.Document.Reading
import Verdict.Notice

/-!
# Notices in documents
-/

namespace Verdict

namespace TextMessage

structure Draft where
  phoneNumber : Option String := none
  message : Option String := none

def layout : Layout Draft TextMessage where
  title := "SendMessageArgs"
  slots := [
    .reading "phoneNumber" [] (·.phoneNumber) (fun v d => { d with phoneNumber := some v }) .text,
    .reading "message" ["smsMessage"] (·.message) (fun v d => { d with message := some v }) .text]
  blank := {}
  finish draft :=
    match draft.phoneNumber, draft.message with
    | none, _ => .error "phoneNumber"
    | _, none => .error "message"
    | some phoneNumber, some message => .ok ⟨phoneNumber, message⟩

def encode (text : TextMessage) : Json :=
  .object [("phoneNumber", .string text.phoneNumber), ("message", .string text.message)]

end TextMessage

namespace Email

structure Draft where
  address : Option String := none
  subject : Option String := none
  body : Option String := none

def layout : Layout Draft Email where
  title := "SendEmailArgs"
  slots := [
    .reading "emailAddress" [] (·.address) (fun v d => { d with address := some v }) .text,
    .reading "subject" [] (·.subject) (fun v d => { d with subject := some v }) .text,
    .reading "textBody" [] (·.body) (fun v d => { d with body := some v }) .text]
  blank := {}
  finish draft :=
    match draft.address, draft.subject, draft.body with
    | none, _, _ => .error "emailAddress"
    | _, none, _ => .error "subject"
    | _, _, none => .error "textBody"
    | some address, some subject, some body => .ok ⟨address, subject, body⟩

def encode (email : Email) : Json :=
  .object [
    ("emailAddress", .string email.address),
    ("subject", .string email.subject),
    ("textBody", .string email.body)]

end Email

end Verdict
