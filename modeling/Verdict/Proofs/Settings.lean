import Verdict.Config
import Verdict.Proofs.Structures

/-!
# What settings are read from

The reader of numbers takes digits behind an optional plus sign as long as their number stays within
its limit (`Setting.readNumber_eq_ok_iff`); what it has read so far never becomes smaller, so it may
give up as soon as the limit is passed. The settings are read one after the other, and a reading
either accepts them all or fails at the first that it does not accept (`Setting.Screens`). What is
read is told field by field, each by the variable of its own (`Config.Reflects`). Together these say
how a configuration depends on the environment (`Config.read_by_settings`).
-/

namespace Verdict

/-! ## Numbers -/

theorem Text.digitOf?_ten (c : Char) :
    digitOf? 10 c = if c.isDigit then some (c.toNat - '0'.toNat) else none := by
  have hdigit : c.isDigit = true ↔ 48 ≤ c.toNat ∧ c.toNat ≤ 57 := by
    simp only [Char.isDigit, Bool.and_eq_true, decide_eq_true_eq]
    exact Iff.rfl
  by_cases h : 48 ≤ c.toNat ∧ c.toNat ≤ 57
  · have hlt : c.toNat - 48 < 10 := by omega
    rw [digitOf?, if_pos (hdigit.mpr h)]
    simp only [if_pos h, Option.filter_some, decide_eq_true hlt, if_true]
    rfl
  · rw [digitOf?, if_neg (mt hdigit.mp h)]
    simp only [if_neg h]
    -- letters count from ten
    split
    · exact Option.filter_eq_none_iff.mpr fun n hn => by cases hn; simp; omega
    · split
      · exact Option.filter_eq_none_iff.mpr fun n hn => by cases hn; simp; omega
      · rfl

/-- More digits do not make a number smaller. -/
theorem le_ofDigitChars (init : Nat) (digits : List Char) :
    init ≤ Nat.ofDigitChars 10 digits init := by
  induction digits generalizing init with
  | nil => exact Nat.le_refl init
  | cons c digits ih =>
    rw [Nat.ofDigitChars_cons]
    have hrest := ih (10 * init + (c.toNat - '0'.toNat))
    omega

namespace Setting

/-- The text writes the number in digits, which may follow a plus sign. -/
def Writes (text : String) (n : Nat) : Prop :=
  ∃ digits : List Char, (text.toList = digits ∨ text.toList = '+' :: digits) ∧ digits ≠ [] ∧
    (∀ c ∈ digits, c.isDigit = true) ∧ Nat.ofDigitChars 10 digits 0 = n

/-- Reading may give up as soon as the limit is passed, since the number only grows. -/
theorem readDigits_eq_ok_iff {limit value n : Nat} {digits : List Char} (h : value ≤ limit) :
    readDigits limit value digits = .ok n ↔
      (∀ c ∈ digits, c.isDigit = true) ∧ Nat.ofDigitChars 10 digits value = n ∧ n ≤ limit := by
  induction digits generalizing value with
  | nil =>
    rw [readDigits, Except.ok.injEq]
    exact ⟨fun heq => ⟨nofun, heq, heq ▸ h⟩, fun ⟨_, heq, _⟩ => heq⟩
  | cons c digits ih =>
    rw [readDigits, Text.digitOf?_ten, List.forall_mem_cons, Nat.ofDigitChars_cons,
      Nat.mul_comm 10]
    cases hdigit : c.isDigit with
    | false => simp
    | true =>
      dsimp only
      rw [if_pos rfl]
      dsimp only
      by_cases hlimit : limit < value * 10 + (c.toNat - '0'.toNat)
      · -- the number only grows, and is too large in the end as well
        have hgrows := le_ofDigitChars (value * 10 + (c.toNat - '0'.toNat)) digits
        rw [if_pos hlimit]
        exact iff_of_false nofun fun ⟨_, hvalue, hn⟩ => by omega
      · rw [if_neg hlimit, ih (Nat.le_of_not_lt hlimit)]
        simp

/-- A number is read exactly if a text writes it and it is within the limit. -/
theorem readNumber_eq_ok_iff {limit n : Nat} {text : String} :
    readNumber limit text = .ok n ↔ Writes text n ∧ n ≤ limit := by
  -- a sign is no digit, so at most one of the two forms of a text is one of a number
  have hread : ∀ digits : List Char,
      (if digits.isEmpty then Except.error SettingDefect.digit else readDigits limit 0 digits) =
        .ok n ↔ (digits ≠ [] ∧ (∀ c ∈ digits, c.isDigit = true) ∧
          Nat.ofDigitChars 10 digits 0 = n) ∧ n ≤ limit := by
    intro digits
    cases digits with
    | nil => simp
    | cons c digits =>
      rw [List.isEmpty_cons, if_neg (by decide), readDigits_eq_ok_iff (Nat.zero_le limit)]
      simp [and_assoc]
  rw [readNumber]
  split
  next digits htext =>
    rw [hread digits, Writes]
    refine and_congr_left fun _ => ⟨fun h => ⟨digits, .inr htext, h⟩, ?_⟩
    rintro ⟨others, hsame | hsigned, hne, hdigits, hvalue⟩
    · cases hdigits '+' (hsame ▸ htext ▸ List.mem_cons_self)
    · rw [htext, List.cons.injEq] at hsigned
      exact hsigned.2 ▸ ⟨hne, hdigits, hvalue⟩
  next htext =>
    rw [hread text.toList, Writes]
    refine and_congr_left fun _ => ⟨fun h => ⟨text.toList, .inl rfl, h⟩, ?_⟩
    rintro ⟨digits, rfl | hsigned, h⟩
    · exact h
    · exact absurd hsigned (htext digits)

/-! ## Values -/

/-- The text is that of a URL of the web, and this is the URL. -/
def Locates (text : String) (url? : Option Url) : Prop :=
  ∃ url, url? = some url ∧ Url.read text = .ok url ∧
    (url.scheme = "http" ∨ url.scheme = "https")

/-- The values that a setting accepts. -/
def Valid : Setting → String → Prop
  | timeout, text => ∃ n, Writes text n ∧ n ≤ 2 ^ 64 - 1
  | bindAddress, text => ∃ address, Address.read? text = some address
  | port, text => ∃ n, Writes text n ∧ n ≤ 2 ^ 16 - 1
  | maxRepeatCount, text => ∃ n, Writes text n ∧ n ≤ 2 ^ 32 - 1
  | messageWebhook, text | emailWebhook, text => ∃ url?, Locates text url?

/-- The variable of the setting is absent, is blank or has a value that the setting accepts. -/
def Accepts (setting : Setting) (environment : Environment) : Prop :=
  ∀ value ∈ environment.lookup setting.key,
    Text.trim value = "" ∨ setting.Valid (Text.trim value)

/-- A blank value is as good as none. -/
theorem accepts_iff {setting : Setting} {environment : Environment} :
    setting.Accepts environment ↔ ∀ text ∈ setting.value? environment, setting.Valid text := by
  rw [Accepts, value?]
  cases environment.lookup setting.key with
  | none => simp
  | some value =>
    by_cases hblank : Text.trim value = ""
    · simp [hblank]
    · simp [hblank]

theorem readAddress_eq_ok_iff {text : String} {address : Address} :
    readAddress text = .ok address ↔ Address.read? text = some address := by
  rw [readAddress]
  split <;> simp [*]

theorem readWebUrl_eq_ok_iff {text : String} {url? : Option Url} :
    readWebUrl text = .ok url? ↔ Locates text url? := by
  simp only [readWebUrl, Locates]
  cases Url.read text with
  | error defect => simp
  | ok url =>
    by_cases hscheme : url.scheme = "http" ∨ url.scheme = "https"
    · simp [hscheme, eq_comm (a := some url)]
    · simp [hscheme]

/-- What has been read for a setting is said by the value of its variable, and is the default where
there is no value. -/
def Holds {α : Type} (setting : Setting) (environment : Environment) (Says : String → α → Prop)
    (default v : α) : Prop :=
  match setting.value? environment with
  | none => v = default
  | some text => Says text v

section
variable {α : Type} {setting : Setting} {environment other : Environment}
  {reader : String → Except SettingDefect α} {default v : α}

/-- A setting is read as its reader reads the value of its variable, or is the default. -/
theorem read_eq_ok_iff {Says : String → α → Prop}
    (h : ∀ text v, reader text = .ok v ↔ Says text v) :
    setting.read reader default environment = .ok v ↔
      setting.Holds environment Says default v := by
  rw [read, Holds]
  cases setting.value? environment with
  | none => simp [eq_comm]
  | some text => exact mapError_eq_ok_iff.trans (h text v)

theorem read_number_eq_ok_iff {limit default n : Nat} (h : default ≤ limit) :
    setting.read (readNumber limit) default environment = .ok n ↔
      setting.Holds environment Writes default n ∧ n ≤ limit := by
  rw [read_eq_ok_iff fun _ _ => readNumber_eq_ok_iff, Holds, Holds]
  cases setting.value? environment with
  | none => exact ⟨fun hn => ⟨hn, hn ▸ h⟩, And.left⟩
  | some text => exact Iff.rfl

theorem read_congr (h : setting.value? environment = setting.value? other) :
    setting.read reader default environment = setting.read reader default other := by
  rw [read, read, h]

end

end Setting

/-! ## The first bad setting -/

/-- What is reported is in the environment and is no value for its setting. -/
structure BadSetting.Occurs (bad : BadSetting) (environment : Environment) : Prop where
  value : bad.setting.value? environment = some bad.value
  invalid : ¬ bad.setting.Valid bad.value

theorem BadSetting.Occurs.not_accepts {bad : BadSetting} {environment : Environment}
    (h : bad.Occurs environment) : ¬ bad.setting.Accepts environment := by
  rw [Setting.accepts_iff]
  exact fun haccepts => h.invalid (haccepts bad.value h.value)

/-- The failure begins with the variable and its value, or says that the variable has to be a URL of
another scheme. -/
theorem BadSetting.failure_names (bad : BadSetting) : ∃ rest,
    bad.failure =
      .config ("invalid " ++ bad.setting.key ++ " '" ++ bad.value ++ "': " ++ rest) ∨
    bad.failure =
      .config (bad.setting.key ++ " must be an http(s) URL, got '" ++ rest ++ "'") := by
  obtain ⟨setting, value, defect⟩ := bad
  cases defect with
  | scheme url => exact ⟨_, .inr rfl⟩
  | digit | tooLarge | address | url => exact ⟨_, .inl rfl⟩

namespace Setting

variable {α β : Type} {environment : Environment} {setting : Setting} {rest : List Setting}

theorem accepts_of_read_eq_ok {reader : String → Except SettingDefect α} {default v : α}
    (hvalid : ∀ text v, reader text = .ok v → setting.Valid text)
    (h : setting.read reader default environment = .ok v) : setting.Accepts environment := by
  rw [accepts_iff]
  intro text htext
  rw [read, htext] at h
  exact hvalid text v (mapError_eq_ok_iff.mp h)

/-- What is reported for a setting is the value of its variable, which it does not accept. -/
theorem occurs_of_read_eq_error {reader : String → Except SettingDefect α} {default : α}
    {bad : BadSetting} (hvalid : ∀ text, setting.Valid text → ∃ v, reader text = .ok v)
    (h : setting.read reader default environment = .error bad) :
    bad.setting = setting ∧ bad.Occurs environment := by
  rw [read] at h
  split at h
  next => cases h
  next text hvalue =>
    cases hreader : reader text with
    | ok v => rw [hreader] at h; cases h
    | error defect =>
      rw [hreader] at h
      cases h
      refine ⟨rfl, hvalue, fun hinvalid => ?_⟩
      obtain ⟨v, hv⟩ := hvalid text hinvalid
      cases hreader.symm.trans hv

/-- A reading of settings accepts them all, or reports the first that it does not accept. -/
structure Screens (environment : Environment) (settings : List Setting)
    (reading : Except BadSetting α) : Prop where
  accepted : ∀ v, reading = .ok v → ∀ setting ∈ settings, setting.Accepts environment
  reported : ∀ bad, reading = .error bad → ∃ before after,
    settings = before ++ bad.setting :: after ∧
      (∀ setting ∈ before, setting.Accepts environment) ∧ bad.Occurs environment

namespace Screens

theorem ok (v : α) : Screens environment [] (.ok v) := ⟨nofun, nofun⟩

theorem read_bind {reader : String → Except SettingDefect α} {default : α}
    {next : α → Except BadSetting β}
    (hvalid : ∀ text, setting.Valid text ↔ ∃ v, reader text = .ok v)
    (hnext : ∀ v, Screens environment rest (next v)) :
    Screens environment (setting :: rest) (setting.read reader default environment >>= next) := by
  cases hread : setting.read reader default environment with
  | error bad =>
    obtain ⟨rfl, hoccurs⟩ := occurs_of_read_eq_error (fun text => (hvalid text).mp) hread
    exact ⟨nofun, fun _ h => by cases h; exact ⟨[], rest, rfl, nofun, hoccurs⟩⟩
  | ok v =>
    have haccepts := accepts_of_read_eq_ok (fun text v hv => (hvalid text).mpr ⟨v, hv⟩) hread
    refine ⟨fun w hw => ?_, fun bad hbad => ?_⟩
    · exact List.forall_mem_cons.mpr ⟨haccepts, (hnext v).accepted w hw⟩
    · obtain ⟨before, after, hsplit, hbefore, hoccurs⟩ := (hnext v).reported bad hbad
      exact ⟨setting :: before, after, congrArg (setting :: ·) hsplit,
        List.forall_mem_cons.mpr ⟨haccepts, hbefore⟩, hoccurs⟩

end Screens

end Setting

/-! ## Configurations -/

namespace Config

variable {environment other : Environment} {config : Config}

/-- Each field is what its own variable says, or else its default. -/
structure Reflects (config : Config) (environment : Environment) : Prop where
  timeout : Setting.timeout.Holds environment Setting.Writes 30 config.timeoutSeconds.toNat
  bindAddress : Setting.bindAddress.Holds environment
    (fun text address => Address.read? text = some address) .loopback config.bindAddress
  port : Setting.port.Holds environment Setting.Writes 3000 config.port.toNat
  maxRepeatCount :
    Setting.maxRepeatCount.Holds environment Setting.Writes 1000 config.maxRepeatCount.toNat
  messageWebhook :
    Setting.messageWebhook.Holds environment Setting.Locates none config.messageWebhook
  emailWebhook : Setting.emailWebhook.Holds environment Setting.Locates none config.emailWebhook

theorem read_eq_ok_iff : Config.read environment = .ok config ↔ config.Reflects environment := by
  simp only [Config.read, bind_eq_ok_iff,
    Setting.read_eq_ok_iff fun _ _ => Setting.readAddress_eq_ok_iff,
    Setting.read_eq_ok_iff fun _ _ => Setting.readWebUrl_eq_ok_iff]
  constructor
  · rintro ⟨timeout, htimeout, address, haddress, port, hport, repeats, hrepeats, message, hmessage,
      email, hemail, hconfig⟩
    obtain ⟨htimeout, htimeoutLe⟩ := (Setting.read_number_eq_ok_iff (by decide)).mp htimeout
    obtain ⟨hport, hportLe⟩ := (Setting.read_number_eq_ok_iff (by decide)).mp hport
    obtain ⟨hrepeats, hrepeatsLe⟩ := (Setting.read_number_eq_ok_iff (by decide)).mp hrepeats
    cases hconfig
    refine ⟨?_, haddress, ?_, ?_, hmessage, hemail⟩
    · rwa [UInt64.toNat_ofNat_of_lt' (Nat.lt_succ_of_le htimeoutLe)]
    · rwa [UInt16.toNat_ofNat_of_lt' (Nat.lt_succ_of_le hportLe)]
    · rwa [UInt32.toNat_ofNat_of_lt' (Nat.lt_succ_of_le hrepeatsLe)]
  · rintro ⟨htimeout, haddress, hport, hrepeats, hmessage, hemail⟩
    refine ⟨_, (Setting.read_number_eq_ok_iff (by decide)).mpr ⟨htimeout, ?_⟩, _, haddress,
      _, (Setting.read_number_eq_ok_iff (by decide)).mpr ⟨hport, ?_⟩,
      _, (Setting.read_number_eq_ok_iff (by decide)).mpr ⟨hrepeats, ?_⟩, _, hmessage, _, hemail, ?_⟩
    · exact Nat.le_pred_of_lt config.timeoutSeconds.toNat_lt
    · exact Nat.le_pred_of_lt config.port.toNat_lt
    · exact Nat.le_pred_of_lt config.maxRepeatCount.toNat_lt
    · rw [UInt64.ofNat_toNat, UInt16.ofNat_toNat, UInt32.ofNat_toNat]
      rfl

/-- The settings are read in their order, each only after all before it were accepted. -/
theorem read_screens : Setting.Screens environment Setting.all (Config.read environment) := by
  have hnumber : ∀ limit text, (∃ n, Setting.Writes text n ∧ n ≤ limit) ↔
      ∃ n, Setting.readNumber limit text = .ok n := fun _ _ =>
    exists_congr fun _ => Setting.readNumber_eq_ok_iff.symm
  have haddress : ∀ text, (∃ address, Address.read? text = some address) ↔
      ∃ address, Setting.readAddress text = .ok address := fun _ =>
    exists_congr fun _ => Setting.readAddress_eq_ok_iff.symm
  have hurl : ∀ text, (∃ url?, Setting.Locates text url?) ↔
      ∃ url?, Setting.readWebUrl text = .ok url? := fun _ =>
    exists_congr fun _ => Setting.readWebUrl_eq_ok_iff.symm
  exact .read_bind (hnumber _) fun _ => .read_bind haddress fun _ => .read_bind (hnumber _) fun _ =>
    .read_bind (hnumber _) fun _ => .read_bind hurl fun _ => .read_bind hurl fun _ => .ok _

theorem read_congr
    (h : ∀ setting : Setting, setting.value? environment = setting.value? other) :
    Config.read environment = Config.read other := by
  simp only [Config.read, Setting.read_congr (h _)]

/-- An environment configures the program exactly if each of the settings accepts it. Each field
then is what its own variable says, a number in full, or its default; otherwise the first setting in
order that does not accept the environment is reported. Nothing but the trimmed values matters. -/
theorem read_by_settings (environment : Environment) :
    ((∃ config, Config.read environment = .ok config) ↔
      ∀ setting : Setting, setting.Accepts environment) ∧
    (∀ config, Config.read environment = .ok config ↔ config.Reflects environment) ∧
    (∀ bad, Config.read environment = .error bad →
      (∃ before after, Setting.all = before ++ bad.setting :: after ∧
        (∀ setting ∈ before, setting.Accepts environment) ∧
        ¬ bad.setting.Accepts environment) ∧
      bad.setting.value? environment = some bad.value ∧
      ∃ rest,
        bad.failure =
          .config ("invalid " ++ bad.setting.key ++ " '" ++ bad.value ++ "': " ++ rest) ∨
        bad.failure =
          .config (bad.setting.key ++ " must be an http(s) URL, got '" ++ rest ++ "'")) ∧
    ∀ other, (∀ setting : Setting, setting.value? environment = setting.value? other) →
      Config.read environment = Config.read other := by
  have hscreens : Setting.Screens environment Setting.all (Config.read environment) := read_screens
  refine ⟨⟨fun ⟨config, hconfig⟩ setting => ?_, fun haccepts => ?_⟩, fun config => read_eq_ok_iff,
    fun bad hbad => ?_, fun other => read_congr⟩
  · exact hscreens.accepted config hconfig setting (by cases setting <;> decide)
  · cases hread : Config.read environment with
    | ok config => exact ⟨config, rfl⟩
    | error bad =>
      obtain ⟨-, -, -, -, hoccurs⟩ := hscreens.reported bad hread
      exact absurd (haccepts bad.setting) hoccurs.not_accepts
  · obtain ⟨before, after, hsplit, hbefore, hoccurs⟩ := hscreens.reported bad hbad
    exact ⟨⟨before, after, hsplit, hbefore, hoccurs.not_accepts⟩, hoccurs.value, bad.failure_names⟩

theorem ports_read :
    Config.read [("PORT", " +0080 ")] = .ok { port := 80 } ∧
    Config.read [("PORT", " +0080 ")] =
      Config.read [("ARBITER_BIND_ADDR", " "), ("PORT", "+0080")] ∧
    ¬ Setting.port.Accepts [("ARBITER_SMS_WEBHOOK_URL", "sms"), ("PORT", "65536")] := by
  obtain ⟨-, hread, -, hcongr⟩ := read_by_settings [("PORT", " +0080 ")]
  obtain ⟨-, -, herror, -⟩ :=
    read_by_settings [("ARBITER_SMS_WEBHOOK_URL", "sms"), ("PORT", "65536")]
  refine ⟨(hread _).mpr ⟨rfl, rfl, ?_, rfl, rfl, rfl⟩, hcongr _ fun setting => ?_, ?_⟩
  · have hvalue : Setting.port.value? [("PORT", " +0080 ")] = some "+0080" := by decide +kernel
    rw [Setting.Holds, hvalue]
    exact ⟨['0', '0', '8', '0'], .inr rfl, List.cons_ne_nil _ _, List.all_eq_true.mp rfl, rfl⟩
  · cases setting <;> decide +kernel
  · have hbad : Config.read [("ARBITER_SMS_WEBHOOK_URL", "sms"), ("PORT", "65536")] =
        .error ⟨.port, "65536", .tooLarge⟩ := by
      rfl
    obtain ⟨⟨-, -, -, -, hrefused⟩, -⟩ := herror _ hbad
    exact hrefused

end Config

end Verdict
