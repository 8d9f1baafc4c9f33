import Verdict.Environment
import Verdict.Error
import Verdict.Net.Url
import Verdict.Text.Blank

/-!
# Configuration

Settings are read from an environment one by one, each from its own variable. A variable that is
absent or blank leaves its setting at the default, and the first bad one in the order of the
settings is reported.
-/

namespace Verdict

inductive Setting
  | timeout
  | bindAddress
  | port
  | maxRepeatCount
  | messageWebhook
  | emailWebhook
deriving DecidableEq, Repr, Inhabited

namespace Setting

/-- The variable of a setting. -/
def key : Setting → String
  | timeout => "ARBITER_EVALUATION_TIMEOUT_SECS"
  | bindAddress => "ARBITER_BIND_ADDR"
  | port => "PORT"
  | maxRepeatCount => "ARBITER_MAX_REPEAT_COUNT"
  | messageWebhook => "ARBITER_SMS_WEBHOOK_URL"
  | emailWebhook => "ARBITER_EMAIL_WEBHOOK_URL"

/-- The settings in the order in which they are read. -/
def all : List Setting :=
  [timeout, bindAddress, port, maxRepeatCount, messageWebhook, emailWebhook]

end Setting

/-- What is wrong with the value of a variable. -/
inductive SettingDefect
  | digit
  | tooLarge
  | address
  | url (defect : UrlDefect)
  | scheme (url : Url)
deriving DecidableEq, Repr, Inhabited

structure BadSetting where
  setting : Setting
  value : String
  defect : SettingDefect
deriving DecidableEq, Repr, Inhabited

namespace BadSetting

def message (bad : BadSetting) : String :=
  let invalid (reason : String) : String :=
    "invalid " ++ bad.setting.key ++ " '" ++ bad.value ++ "': " ++ reason
  match bad.defect with
  | .digit => invalid "invalid digit found in string"
  | .tooLarge => invalid "number too large to fit in target type"
  | .address => invalid "invalid IP address syntax"
  | .url defect => invalid defect.message
  | .scheme url => bad.setting.key ++ " must be an http(s) URL, got '" ++ url.toText ++ "'"

def failure (bad : BadSetting) : Failure := .config bad.message

end BadSetting

namespace Setting

/-- The trimmed value of the variable, unless it is absent or blank. -/
def value? (setting : Setting) (environment : Environment) : Option String :=
  match environment.lookup setting.key with
  | none => none
  | some value =>
    let value := Text.trim value
    if value.isEmpty then none else some value

/-- Reads a setting with a reader of its values. -/
def read {α : Type} (setting : Setting) (reader : String → Except SettingDefect α) (default : α)
    (environment : Environment) : Except BadSetting α :=
  match setting.value? environment with
  | none => .ok default
  | some value => (reader value).mapError (⟨setting, value, ·⟩)

/-- Adds digits to a number that must stay at most `limit`. -/
def readDigits (limit : Nat) (value : Nat) : List Char → Except SettingDefect Nat
  | [] => .ok value
  | c :: rest =>
    match Text.digitOf? 10 c with
    | none => .error .digit
    | some digit =>
      let value := value * 10 + digit
      if limit < value then .error .tooLarge else readDigits limit value rest

/-- A number up to `limit`, which may have a plus sign. -/
def readNumber (limit : Nat) (text : String) : Except SettingDefect Nat :=
  let digits := match text.toList with
    | '+' :: rest => rest
    | cs => cs
  if digits.isEmpty then .error .digit else readDigits limit 0 digits

def readAddress (text : String) : Except SettingDefect Address :=
  match Address.read? text with
  | some address => .ok address
  | none => .error .address

def readWebUrl (text : String) : Except SettingDefect (Option Url) :=
  match Url.read text with
  | .error defect => .error (.url defect)
  | .ok url =>
    if url.scheme = "http" ∨ url.scheme = "https" then .ok (some url) else .error (.scheme url)

end Setting

structure Config where
  timeoutSeconds : UInt64 := 30
  bindAddress : Address := .loopback
  port : UInt16 := 3000
  /-- The bound on repeats that the validator is given. -/
  maxRepeatCount : UInt32 := 1000
  /-- Where text messages go instead of the log. -/
  messageWebhook : Option Url := none
  emailWebhook : Option Url := none
deriving DecidableEq, Repr, Inhabited

namespace Config

def read (environment : Environment) : Except BadSetting Config := do
  let defaults : Config := {}
  let timeout ← Setting.timeout.read (Setting.readNumber (2 ^ 64 - 1))
    defaults.timeoutSeconds.toNat environment
  let bindAddress ← Setting.bindAddress.read Setting.readAddress defaults.bindAddress environment
  let port ← Setting.port.read (Setting.readNumber (2 ^ 16 - 1)) defaults.port.toNat environment
  let maxRepeatCount ← Setting.maxRepeatCount.read (Setting.readNumber (2 ^ 32 - 1))
    defaults.maxRepeatCount.toNat environment
  let messageWebhook ← Setting.messageWebhook.read Setting.readWebUrl none environment
  let emailWebhook ← Setting.emailWebhook.read Setting.readWebUrl none environment
  return {
    timeoutSeconds := UInt64.ofNat timeout
    bindAddress
    port := UInt16.ofNat port
    maxRepeatCount := UInt32.ofNat maxRepeatCount
    messageWebhook
    emailWebhook }

end Config

end Verdict
