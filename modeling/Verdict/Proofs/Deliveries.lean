import Verdict.Notice.Executor
import Verdict.Proofs.RoundTrip

/-!
# What is delivered and what is reported

Parameters tell a notice exactly if they spell it: each field is given once, under one of its
names (`TextMessage.takes_object_iff`, `Email.takes_object_iff`). What an executor hands to its
channel is seen over a channel that leaves behind what it is given (`Channel.watched`). It is the
payload of the notice that is told, if the recipient can be reached, and nothing otherwise; and the
result tells whether the channel took it (`Notice.deliveries_reported`).
-/

namespace Verdict

/-! ## Parameters -/

theorem Reading.text_takes_iff {origin : Origin} {s : String} {v : Json} :
    Reading.text.Takes origin s v ↔ v = .string s := by
  constructor
  · intro h
    cases v with
    | string t =>
      cases h
      rfl
    | _ => cases h
  · rintro rfl
    rfl

/-- What gives texts under some names gives them as strings. -/
theorem Json.Gives.of_text {members : List (String × Json)} {names : List String}
    {origin : Origin} {value : Option String}
    (h : Gives members names (Reading.text.Takes origin) value) :
    Gives members names (fun s v => v = .string s) value :=
  h.imp fun _ _ _ hv => Reading.text_takes_iff.mp hv

theorem Notice.read_eq_ok_iff {δ α : Type} {layout : Layout δ α} {kind : ActionKind}
    {parameters : Record} {a : α} :
    read layout kind parameters = .ok a ↔ layout.read.Takes .value a (.object parameters) := by
  rw [← Json.decode_eq_ok_iff, read]
  split <;> simp [*]

namespace TextMessage

variable {text : TextMessage} {origin : Origin} {members : List (String × Json)}
  {parameters : Record}

/-- An object is read as a text exactly if it spells it. -/
theorem takes_object_iff :
    layout.read.Takes origin text (.object members) ↔ text.SpelledIn members := by
  refine ⟨fun h => ?_, takes_of_spelledIn⟩
  obtain ⟨hone, final, hfill, hfinish⟩ := layout_lawful.takes_object_iff.mp h
  obtain ⟨phoneNumber, hphone, hfill⟩ :=
    Slot.exists_gives_of_fillFrom (hone _ (.head _)) hfill
  obtain ⟨message, hmessage, hfill⟩ :=
    Slot.exists_gives_of_fillFrom (hone _ (.tail _ (.head _))) hfill
  cases hfill
  cases phoneNumber <;> cases message <;> cases hfinish
  exact ⟨hphone.of_text, hmessage.of_text⟩

theorem ofParameters_eq_ok_iff : ofParameters parameters = .ok text ↔
    text.SpelledIn parameters ∧ Text.isBlankText text.phoneNumber = false := by
  have hspelled : layout.read.Takes .value text (.object parameters) ↔ text.SpelledIn parameters :=
    takes_object_iff
  rw [← hspelled, ← Notice.read_eq_ok_iff, ofParameters, bind_eq_ok_iff]
  constructor
  · rintro ⟨told, hread, hreach⟩
    split at hreach <;> cases hreach
    exact ⟨hread, Bool.eq_false_iff.mpr ‹_›⟩
  · rintro ⟨hread, hreach⟩
    refine ⟨text, hread, ?_⟩
    rw [hreach]
    rfl

end TextMessage

namespace Email

variable {email : Email} {origin : Origin} {members : List (String × Json)} {parameters : Record}

/-- An object is read as an e-mail exactly if it spells it. -/
theorem takes_object_iff :
    layout.read.Takes origin email (.object members) ↔ email.SpelledIn members := by
  refine ⟨fun h => ?_, takes_of_spelledIn⟩
  obtain ⟨hone, final, hfill, hfinish⟩ := layout_lawful.takes_object_iff.mp h
  obtain ⟨address, haddress, hfill⟩ :=
    Slot.exists_gives_of_fillFrom (hone _ (.head _)) hfill
  obtain ⟨subject, hsubject, hfill⟩ :=
    Slot.exists_gives_of_fillFrom (hone _ (.tail _ (.head _))) hfill
  obtain ⟨body, hbody, hfill⟩ :=
    Slot.exists_gives_of_fillFrom (hone _ (.tail _ (.tail _ (.head _)))) hfill
  cases hfill
  cases address <;> cases subject <;> cases body <;> cases hfinish
  exact ⟨haddress.of_text, hsubject.of_text, hbody.of_text⟩

theorem ofParameters_eq_ok_iff : ofParameters parameters = .ok email ↔
    email.SpelledIn parameters ∧ '@' ∈ email.address.toList := by
  have hspelled : layout.read.Takes .value email (.object parameters) ↔
      email.SpelledIn parameters :=
    takes_object_iff
  rw [← hspelled, ← Notice.read_eq_ok_iff, ofParameters, bind_eq_ok_iff]
  constructor
  · rintro ⟨told, hread, hreach⟩
    split at hreach <;> cases hreach
    exact ⟨hread, List.contains_iff_mem.mp ‹_›⟩
  · rintro ⟨hread, hreach⟩
    refine ⟨email, hread, ?_⟩
    rw [List.contains_iff_mem.mpr hreach]
    rfl

end Email

/-! ## Channels -/

/-- The channel, except that it leaves behind what it is given. -/
def Channel.watched (channel : Channel) : Channel :=
  { channel with dispatch := fun payload => { channel payload with deliveries := [payload] } }

namespace Notice

/-- What is handed to a channel, in the order in which it is. -/
def handed (perform : Channel → Receipt) (channel : Channel) : List Json :=
  (perform channel.watched).deliveries

variable {α : Type}

/-- The result of how a channel ended tells whether the payload was taken, and why if it was not. -/
structure Tells (report : Option Failure → ActionResult) (output : Bool → Record) : Prop where
  success : ∀ ending, (report ending).success = ending.isNone
  output : ∀ ending, (report ending).output = output ending.isNone
  reason : ∀ failure, failure.message.toList <:+: (report (some failure)).message.toList

/-- The channel is handed the payload of a notice that can be sent, and nothing if there is none;
and what is reported is what came of that. -/
structure Reported (perform : Channel → Receipt) (channel : Channel) (Sendable : α → Prop)
    (payload : α → Json) (output : Bool → Record) : Prop where
  atMostOnce : (handed perform channel).length ≤ 1
  handed : ∀ p, p ∈ handed perform channel ↔ ∃ notice, Sendable notice ∧ payload notice = p
  deliveries : (perform channel).deliveries =
    (Notice.handed perform channel).flatMap fun p => (channel p).deliveries
  success : (perform channel).result.success = true ↔
    ∃ p ∈ Notice.handed perform channel, (channel p).failure = none
  output : (perform channel).result.output =
    if Notice.handed perform channel = [] then [] else output (perform channel).result.success
  reason : ∀ p ∈ Notice.handed perform channel, ∀ failure, (channel p).failure = some failure →
    failure.message.toList <:+: (perform channel).result.message.toList

variable {perform : Channel → Receipt} {read : Except String α} {Sendable : α → Prop}
  {payload : α → Json} {report : α → Option Failure → ActionResult} {output : Bool → Record}

/-- It is enough to find the notice and to make the result of how the channel ended. -/
theorem Reported.of_read
    (hrefuse : ∀ message, read = .error message → ∀ channel,
      perform channel = { result := .failed message })
    (hsend : ∀ notice, read = .ok notice → ∀ channel, ∃ source opening subject,
      perform channel =
        send channel (payload notice) (report notice) source opening subject)
    (hread : ∀ notice, read = .ok notice ↔ Sendable notice)
    (hreport : ∀ notice, Tells (report notice) output) (channel : Channel) :
    Reported perform channel Sendable payload output := by
  cases hnotice : read with
  | error message =>
    have hreceipt := hrefuse message hnotice
    have hnothing : Notice.handed perform channel = [] := congrArg Receipt.deliveries (hreceipt _)
    have hnone : ∀ notice, ¬ Sendable notice := fun notice h =>
      nomatch hnotice.symm.trans ((hread notice).mpr h)
    constructor <;> simp [hnothing, hreceipt channel, hnone, ActionResult.failed]
  | ok notice =>
    obtain ⟨_, _, _, hwatched⟩ := hsend notice hnotice channel.watched
    obtain ⟨_, _, _, hreceipt⟩ := hsend notice hnotice channel
    have hone : Notice.handed perform channel = [payload notice] :=
      congrArg Receipt.deliveries hwatched
    have honly : ∀ other, Sendable other ↔ notice = other := fun other => by
      rw [← hread, hnotice, Except.ok.injEq]
    have hresult : (perform channel).result = report notice (channel (payload notice)).failure :=
      congrArg Receipt.result hreceipt
    constructor
    case atMostOnce => exact Nat.le_of_eq (congrArg List.length hone)
    case handed =>
      intro p
      simp only [hone, honly, List.mem_singleton, exists_eq_left', eq_comm]
    case deliveries =>
      rw [hone, List.flatMap_singleton]
      exact congrArg Receipt.deliveries hreceipt
    case success =>
      rw [hresult, (hreport notice).success, hone]
      simp
    case output =>
      rw [hresult, hone, if_neg (List.cons_ne_nil _ _), (hreport notice).success,
        (hreport notice).output]
    case reason =>
      rw [hresult, hone]
      intro p hp failure hfailure
      rw [List.mem_singleton.mp hp] at hfailure
      rw [hfailure]
      exact (hreport notice).reason failure

end Notice

theorem Failure.infix_message (failure : Failure) (before : String) :
    failure.message.toList <:+: (before ++ failure.message).toList := by
  rw [String.toList_append]
  exact (List.suffix_append _ _).isInfix

theorem TextMessage.report_tells (text : TextMessage) :
    Notice.Tells text.report fun taken => [("deliveryReport", .bool taken)] where
  success ending := by cases ending <;> rfl
  output ending := by cases ending <;> rfl
  reason failure := failure.infix_message _

theorem Email.report_tells (email : Email) : Notice.Tells email.report fun _ => [] where
  success ending := by cases ending <;> rfl
  output ending := by cases ending <;> rfl
  reason failure := failure.infix_message _

theorem TextMessage.reported (channel : Channel) (past : List Call) (parameters : Record) :
    Notice.Reported (fun channel => (executor channel).perform past parameters) channel
      (fun text : TextMessage =>
        text.SpelledIn parameters ∧ Text.isBlankText text.phoneNumber = false)
      payload (fun taken => [("deliveryReport", .bool taken)]) := by
  refine .of_read (fun message h channel => ?_) (fun text h channel => ?_)
    (fun _ => ofParameters_eq_ok_iff) report_tells channel
  all_goals simp only [executor, perform, h]
  exact ⟨_, _, _, rfl⟩

theorem Email.reported (channel : Channel) (past : List Call) (parameters : Record) :
    Notice.Reported (fun channel => (executor channel).perform past parameters) channel
      (fun email : Email => email.SpelledIn parameters ∧ '@' ∈ email.address.toList)
      payload (fun _ => []) := by
  refine .of_read (fun message h channel => ?_) (fun email h channel => ?_)
    (fun _ => ofParameters_eq_ok_iff) report_tells channel
  all_goals simp only [executor, perform, h]
  exact ⟨_, _, _, rfl⟩

/-- The executors of the known kinds hand over the notice that the parameters spell, as it is told,
if its recipient can be reached. What they report of it is what the channel said. -/
theorem Notice.deliveries_reported (channel : Channel) (past : List Call) (parameters : Record) :
    Reported (fun channel => (TextMessage.executor channel).perform past parameters) channel
      (fun text : TextMessage =>
        text.SpelledIn parameters ∧ Text.isBlankText text.phoneNumber = false)
      (fun text => .object [("body", .string text.message), ("to", .string text.phoneNumber)])
      (fun taken => [("deliveryReport", .bool taken)]) ∧
    Reported (fun channel => (Email.executor channel).perform past parameters) channel
      (fun email : Email => email.SpelledIn parameters ∧ '@' ∈ email.address.toList)
      (fun email => .object [("subject", .string email.subject), ("text", .string email.body),
        ("to", .string email.address)])
      (fun _ => []) :=
  ⟨TextMessage.reported channel past parameters, Email.reported channel past parameters⟩

end Verdict
