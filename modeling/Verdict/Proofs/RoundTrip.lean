import Verdict.Document.Notice
import Verdict.Proofs.Decoded
import Verdict.Proofs.Naming

/-!
# Decoding what was encoded

Whatever is decoded from a document is encoded to a value that decodes to the same, and so are the
trees that evaluations give (`documents_round_trip`). The encoding of a canonical value spells it,
both as it stands and with the members of all its objects in the order of their keys, as a value
keeps them; and what spells it is decoded to it.
-/

namespace Verdict

/-! ## Spellings in the order of keys -/

namespace Record

variable {names : List String} {key : String} {value : Json} {record : Record}

/-- A field does not notice members of other names. -/
theorem given_insert_of_not_mem (h : key ∉ names) :
    Json.given names (record.insert key value) = Json.given names record := by
  induction record with
  | nil => exact Json.given_cons_of_not_mem h
  | cons first rest ih =>
    obtain ⟨k, v⟩ := first
    rw [insert]
    split
    · exact Json.given_cons_of_not_mem h
    · split
      next heq =>
        subst heq
        rw [Json.given_cons_of_not_mem h, Json.given_cons_of_not_mem h]
      · rw [Json.given_cons, Json.given_cons, ih]

/-- A member gives the field that it names, if nothing did before. -/
theorem given_insert_of_mem (hkey : key ∈ names) (h : Json.given names record = []) :
    Json.given names (record.insert key value) = [value] := by
  induction record with
  | nil => exact Json.given_cons_of_mem hkey
  | cons first rest ih =>
    obtain ⟨k, v⟩ := first
    have hk : k ∉ names := fun hk => by
      rw [Json.given_cons_of_mem hk] at h
      cases h
    rw [insert]
    split
    · rw [Json.given_cons_of_mem hkey, h]
    · split
      next heq => exact absurd (heq ▸ hkey) hk
      · rw [Json.given_cons_of_not_mem hk] at h ⊢
        exact ih h

end Record

namespace Json

variable {names : List String} {members : List (String × Json)}

/-- In the order of keys a field is given as before. It may be given once at most: of two members
for it the order might change, or the first be lost. -/
theorem given_canonicalMembers {record : Record}
    (h : (given names record).length + (given names members).length ≤ 1) :
    given names (canonicalMembers record members) =
      given names record ++ (given names members).map canonical := by
  induction members generalizing record with
  | nil => rw [canonicalMembers, given_nil, List.map_nil, List.append_nil]
  | cons member rest ih =>
    obtain ⟨key, v⟩ := member
    rw [canonicalMembers]
    by_cases hkey : key ∈ names
    · rw [given_cons_of_mem hkey, List.length_cons] at h
      have hrecord : given names record = [] := List.length_eq_zero_iff.mp (by omega)
      have hinsert := @Record.given_insert_of_mem names key v.canonical record hkey hrecord
      rw [ih (by rw [hinsert, List.length_singleton]; omega), hinsert, hrecord,
        given_cons_of_mem hkey]
      rfl
    · have hinsert : given names (record.insert key v.canonical) = given names record :=
        Record.given_insert_of_not_mem hkey
      rw [given_cons_of_not_mem hkey] at h ⊢
      rw [← hinsert] at h ⊢
      exact ih h

variable {α : Type} {P Q : α → Json → Prop} {value : Option α}

/-- Spellings survive the sorting of members if those of the single values do. -/
theorem Gives.canonical (h : Gives members names P value)
    (hp : ∀ a ∈ value, ∀ v, P a v → Q a v.canonical) :
    Gives (canonicalMembers [] members) names Q value := by
  have hone : (given names []).length + (given names members).length ≤ 1 := by
    simpa using h.length_le
  have hgiven : given names (canonicalMembers [] members) =
      (given names members).map Json.canonical := given_canonicalMembers hone
  cases value with
  | none => exact hgiven.trans (congrArg _ h)
  | some a =>
    obtain ⟨v, hv, ha⟩ := h
    exact ⟨v.canonical, by rw [hgiven, hv]; rfl, hp a rfl v ha⟩

theorem Gives.canonical_of_eq {f : α → Json} (h : Gives members names (fun a v => v = f a) value)
    (hf : ∀ a ∈ value, (f a).canonical = f a) :
    Gives (canonicalMembers [] members) names (fun a v => v = f a) value :=
  h.canonical fun a ha v hv => by rw [hv, hf a ha]

/-- A name that is given is canonical. -/
theorem Gives.canonical_of_name {spellings : α → List String}
    (h : Gives members names (fun a v => ∃ name ∈ spellings a, v = .string name) value) :
    Gives (canonicalMembers [] members) names
      (fun a v => ∃ name ∈ spellings a, v = .string name) value := by
  refine h.canonical ?_
  rintro a _ v ⟨name, hname, rfl⟩
  exact ⟨name, hname, rfl⟩

theorem ObjectOf.canonical {P Q : List (String × Json) → Prop} {v : Json} (h : ObjectOf P v)
    (hp : ∀ members, P members → Q (canonicalMembers [] members)) : ObjectOf Q v.canonical := by
  obtain ⟨members, rfl, hmembers⟩ := h
  exact ⟨_, rfl, hp members hmembers⟩

theorem ArrayOf.canonical {values : List α} {v : Json} (h : ArrayOf P values v)
    (hp : ∀ a ∈ values, ∀ v, P a v → Q a v.canonical) : ArrayOf Q values v.canonical := by
  obtain ⟨items, rfl, hitems⟩ := h
  refine ⟨_, rfl, ?_⟩
  rw [canonicalItems_eq_map]
  exact List.forall₂_map_right_iff.mpr (forall₂_imp_of_mem hitems hp)

end Json

theorem Condition.SpelledIn.canonical {condition : Condition} {members : List (String × Json)}
    (hcondition : condition.Canonical) (h : condition.SpelledIn members) :
    condition.SpelledIn (Json.canonicalMembers [] members) where
  comparison := h.comparison.canonical_of_name
  fieldType := h.fieldType.canonical_of_eq fun _ _ => rfl
  fieldName := h.fieldName.canonical_of_eq fun _ _ => rfl
  compareTo := h.compareTo.canonical_of_eq <| by
    rintro _ ⟨⟩
    exact hcondition.compareTo

theorem ActionResult.SpelledIn.canonical {result : ActionResult} {members : List (String × Json)}
    (hresult : result.output.Canonical) (h : result.SpelledIn members) :
    result.SpelledIn (Json.canonicalMembers [] members) where
  success := h.success.canonical_of_eq fun _ _ => rfl
  message := h.message.canonical_of_eq fun _ _ => rfl
  output := h.output.canonical_of_eq <| by
    rintro _ ⟨⟩
    exact Json.canonical_object hresult

namespace Action

theorem SpelledIn.canonical {action : Action} {members : List (String × Json)}
    (haction : action.Canonical) (h : action.SpelledIn members) :
    action.SpelledIn (Json.canonicalMembers [] members) where
  kind := h.kind.canonical_of_name
  parameters := h.parameters.canonical_of_eq <| by
    rintro _ ⟨⟩
    exact Json.canonical_object haction.parameters
  result := h.result.canonical fun result hresult _ hv =>
    hv.canonical fun _ => ActionResult.SpelledIn.canonical (haction.result result hresult)

theorem SpelledList.canonical {actions : List Action} {v : Json}
    (hactions : ∀ action ∈ actions, action.Canonical) (h : SpelledList actions v) :
    SpelledList actions v.canonical :=
  Json.ArrayOf.canonical h fun action haction _ hv =>
    hv.canonical fun _ => SpelledIn.canonical (hactions action haction)

theorem SpelledOneOrMany.canonical {actions : List Action} {v : Json}
    (hactions : ∀ action ∈ actions, action.Canonical) (h : SpelledOneOrMany actions v) :
    SpelledOneOrMany actions v.canonical := by
  rcases h with h | ⟨action, rfl, h⟩
  · exact .inl (h.canonical hactions)
  · exact .inr ⟨action, rfl,
      h.canonical fun _ => SpelledIn.canonical (hactions action List.mem_cons_self)⟩

end Action

/-- A spelling does not depend on the order of members, so its canonical form is a spelling too. -/
theorem Node.SpelledIn.canonical {node : Node} {members : List (String × Json)}
    (hnode : node.Canonical) (h : node.SpelledIn members) :
    node.SpelledIn (Json.canonicalMembers [] members) := by
  constructor
  case condition =>
    refine h.condition.canonical ?_
    rintro _ ⟨⟩ v hv
    exact hv.canonical fun _ => Condition.SpelledIn.canonical hnode.condition
  case trueActions =>
    refine h.trueActions.canonical ?_
    rintro _ ⟨⟩ v hv
    exact hv.canonical hnode.trueActions
  case falseActions =>
    exact h.falseActions.canonical fun actions hactions _ hv =>
      hv.canonical (hnode.falseActions actions hactions)
  case conditionResult => exact h.conditionResult.canonical_of_eq fun _ _ => rfl
  case repeatCount => exact h.repeatCount.canonical_of_eq fun _ _ => rfl
  case subActions =>
    refine h.subActions.canonical fun actions hactions v hv => hv.canonical ?_
    split at hactions <;> cases hactions
    exact hnode.subActions
  case subtreeOutputs =>
    refine h.subtreeOutputs.canonical fun outputs houtputs _ hv => hv.canonical ?_
    intro actions hactions _ hv
    exact hv.canonical (hnode.subtreeOutputs outputs houtputs actions hactions)

theorem Tree.SpelledIn.canonical {tree : Tree} {members : List (String × Json)}
    (htree : tree.root.Canonical) (h : tree.SpelledIn members) :
    tree.SpelledIn (Json.canonicalMembers [] members) where
  name := h.name.canonical_of_eq fun _ _ => rfl
  root := h.root.canonical htree

/-! ## Notices -/

namespace TextMessage

theorem layout_lawful : layout.Lawful where
  independent := by
    simp only [layout, List.pairwise_cons, List.forall_mem_cons, List.not_mem_nil, false_imp_iff,
      implies_true, List.Pairwise.nil, and_true]
    and_intros <;> exact Slot.independent_reading (by decide) (fun _ _ => rfl) fun _ _ _ => rfl
  filled := by
    refine ⟨?_, ?_⟩ <;> exact Slot.filled_of_fill_reading fun _ _ => rfl
  blank := ⟨rfl, rfl⟩

/-- Some members spell a text. -/
structure SpelledIn (text : TextMessage) (members : List (String × Json)) : Prop where
  phoneNumber : Json.Gives members ["phoneNumber"] (fun s v => v = .string s)
    (some text.phoneNumber)
  message : Json.Gives members ["message", "smsMessage"] (fun s v => v = .string s)
    (some text.message)

theorem spelledIn_encode (text : TextMessage) : Json.ObjectOf text.SpelledIn text.encode :=
  ⟨_, rfl, ⟨_, rfl, rfl⟩, ⟨_, rfl, rfl⟩⟩

theorem SpelledIn.canonical {text : TextMessage} {members : List (String × Json)}
    (h : text.SpelledIn members) : text.SpelledIn (Json.canonicalMembers [] members) where
  phoneNumber := h.phoneNumber.canonical_of_eq fun _ _ => rfl
  message := h.message.canonical_of_eq fun _ _ => rfl

theorem takes_of_spelledIn {text : TextMessage} {members : List (String × Json)}
    {origin : Origin} (h : text.SpelledIn members) :
    layout.read.Takes origin text (.object members) := by
  have phoneNumber := h.phoneNumber.imp (Q := Reading.text.Takes origin) fun _ _ _ hv => hv ▸ rfl
  have message := h.message.imp (Q := Reading.text.Takes origin) fun _ _ _ hv => hv ▸ rfl
  have hfill : Slot.fillFrom origin members {} layout.slots =
      .ok ⟨some text.phoneNumber, some text.message⟩ := by
    rw [layout, Slot.fillFrom_cons_reading phoneNumber, Slot.fillFrom_cons_reading message]
    rfl
  exact layout_lawful.read_of_fillFrom
    ⟨phoneNumber.length_le, message.length_le⟩ hfill rfl

end TextMessage

namespace Email

theorem layout_lawful : layout.Lawful where
  independent := by
    simp only [layout, List.pairwise_cons, List.forall_mem_cons, List.not_mem_nil, false_imp_iff,
      implies_true, List.Pairwise.nil, and_true]
    and_intros <;> exact Slot.independent_reading (by decide) (fun _ _ => rfl) fun _ _ _ => rfl
  filled := by
    refine ⟨?_, ?_, ?_⟩ <;> exact Slot.filled_of_fill_reading fun _ _ => rfl
  blank := ⟨rfl, rfl, rfl⟩

/-- Some members spell an e-mail. -/
structure SpelledIn (email : Email) (members : List (String × Json)) : Prop where
  address : Json.Gives members ["emailAddress"] (fun s v => v = .string s) (some email.address)
  subject : Json.Gives members ["subject"] (fun s v => v = .string s) (some email.subject)
  body : Json.Gives members ["textBody"] (fun s v => v = .string s) (some email.body)

theorem spelledIn_encode (email : Email) : Json.ObjectOf email.SpelledIn email.encode :=
  ⟨_, rfl, ⟨_, rfl, rfl⟩, ⟨_, rfl, rfl⟩, ⟨_, rfl, rfl⟩⟩

theorem SpelledIn.canonical {email : Email} {members : List (String × Json)}
    (h : email.SpelledIn members) : email.SpelledIn (Json.canonicalMembers [] members) where
  address := h.address.canonical_of_eq fun _ _ => rfl
  subject := h.subject.canonical_of_eq fun _ _ => rfl
  body := h.body.canonical_of_eq fun _ _ => rfl

theorem takes_of_spelledIn {email : Email} {members : List (String × Json)}
    {origin : Origin} (h : email.SpelledIn members) :
    layout.read.Takes origin email (.object members) := by
  have address := h.address.imp (Q := Reading.text.Takes origin) fun _ _ _ hv => hv ▸ rfl
  have subject := h.subject.imp (Q := Reading.text.Takes origin) fun _ _ _ hv => hv ▸ rfl
  have body := h.body.imp (Q := Reading.text.Takes origin) fun _ _ _ hv => hv ▸ rfl
  have hfill : Slot.fillFrom origin members {} layout.slots =
      .ok ⟨some email.address, some email.subject, some email.body⟩ := by
    rw [layout, Slot.fillFrom_cons_reading address, Slot.fillFrom_cons_reading subject,
      Slot.fillFrom_cons_reading body]
    rfl
  exact layout_lawful.read_of_fillFrom
    ⟨address.length_le, subject.length_le, body.length_le⟩ hfill rfl

end Email

/-! ## Round trips -/

section

variable {α : Type}

/-- A value decodes from its encoding, in the order of the fields and in that of the keys. -/
def DecodesBack (reading : Reading α) (encode : α → Json) (a : α) : Prop :=
  Json.decode reading (encode a) = .ok a ∧ Json.decode reading (encode a).canonical = .ok a

/-- Whatever is decoded decodes from its encoding; so decoding and encoding again changes nothing
more. -/
structure RoundTrips (reading : Reading α) (encode : α → Json) : Prop where
  decode : ∀ v a, Json.decode reading v = .ok a → DecodesBack reading encode a
  idempotent : ∀ v w, (Json.decode reading v).map encode = .ok w →
    (Json.decode reading w).map encode = .ok w

variable {reading : Reading α} {encode : α → Json} {Canonical : α → Prop}
  {SpelledIn : α → List (String × Json) → Prop}

/-- What is read from each of its spellings decodes from its encoding, in either order. -/
theorem decodesBack_of_spelledIn {a : α} (hencode : Json.ObjectOf (SpelledIn a) (encode a))
    (hcanonical : ∀ members, SpelledIn a members → SpelledIn a (Json.canonicalMembers [] members))
    (htakes : ∀ members, SpelledIn a members → reading.Takes .value a (.object members)) :
    DecodesBack reading encode a := by
  have hspelled : Json.ObjectOf (SpelledIn a) (encode a).canonical := hencode.canonical hcanonical
  obtain ⟨members, hmembers, h⟩ := hencode
  obtain ⟨members', hmembers', h'⟩ := hspelled
  rw [DecodesBack, hmembers', hmembers]
  exact ⟨Json.decode_eq_ok_iff.mpr (htakes members h),
    Json.decode_eq_ok_iff.mpr (htakes members' h')⟩

/-- Whatever is decoded is canonical, and of a canonical value each spelling is read. -/
theorem RoundTrips.of_spelledIn (hread : reading.Yields Canonical)
    (hencode : ∀ a, Json.ObjectOf (SpelledIn a) (encode a))
    (hcanonical : ∀ {a members}, Canonical a → SpelledIn a members →
      SpelledIn a (Json.canonicalMembers [] members))
    (htakes : ∀ {a members}, Canonical a → SpelledIn a members →
      reading.Takes .value a (.object members)) : RoundTrips reading encode := by
  have hback : ∀ v a, Json.decode reading v = .ok a → DecodesBack reading encode a := by
    intro v a h
    have ha := hread _ _ _ (Json.decode_eq_ok_iff.mp h)
    exact decodesBack_of_spelledIn (hencode a) (fun _ => hcanonical ha) fun _ => htakes ha
  refine ⟨hback, fun v w h => ?_⟩
  obtain ⟨a, ha, rfl⟩ := map_eq_ok_iff.mp h
  exact map_eq_ok_iff.mpr ⟨a, (hback v a ha).1, rfl⟩

end

theorem Tree.decodesBack_of_canonical {tree : Tree} (htree : tree.root.Canonical) :
    DecodesBack Tree.read Tree.encode tree :=
  decodesBack_of_spelledIn tree.spelledIn_encode (fun _ h => h.canonical htree)
    fun _ h => takes_of_spelledIn htree h

/-- Decoding undoes encoding over all documents, and on the trees that evaluations give. -/
theorem documents_round_trip :
    RoundTrips Condition.layout.read Condition.encode ∧
      RoundTrips Action.layout.read Action.encode ∧
      RoundTrips ActionResult.layout.read ActionResult.encode ∧
      RoundTrips Node.layout.read Node.encode ∧
      RoundTrips Tree.read Tree.encode ∧
      RoundTrips TextMessage.layout.read TextMessage.encode ∧
      RoundTrips Email.layout.read Email.encode ∧
      ∀ (registry : Registry) (v : Json) (tree output : Tree) (data : Record) (past : List Call),
        registry.ReportsRecords → Json.decode Tree.read v = .ok tree →
        (tree.evaluate registry data past).outcome = .ok output →
        DecodesBack Tree.read Tree.encode output := by
  refine ⟨?_, ?_, ?_, ?_, ?_, ?_, ?_, ?_⟩
  · exact .of_spelledIn Condition.read_yields_canonical Condition.spelledIn_encode
      Condition.SpelledIn.canonical Condition.takes_of_spelledIn
  · exact .of_spelledIn Action.read_yields_canonical Action.spelledIn_encode
      Action.SpelledIn.canonical Action.takes_of_spelledIn
  · exact .of_spelledIn ActionResult.read_yields_canonical ActionResult.spelledIn_encode
      ActionResult.SpelledIn.canonical ActionResult.takes_of_spelledIn
  · exact .of_spelledIn Node.read_yields_canonical
      (fun node => ⟨_, rfl, node.spelledIn_encodeMembers⟩)
      Node.SpelledIn.canonical Node.takes_of_spelledIn
  · exact .of_spelledIn Tree.read_yields_canonical Tree.spelledIn_encode
      Tree.SpelledIn.canonical Tree.takes_of_spelledIn
  · exact .of_spelledIn Reading.yields_true TextMessage.spelledIn_encode
      (fun _ => TextMessage.SpelledIn.canonical) fun _ => TextMessage.takes_of_spelledIn
  · exact .of_spelledIn Reading.yields_true Email.spelledIn_encode
      (fun _ => Email.SpelledIn.canonical) fun _ => Email.takes_of_spelledIn
  · intro registry v tree output data past hregistry hdecode hevaluate
    have htree := Tree.read_yields_canonical _ _ _ (Json.decode_eq_ok_iff.mp hdecode)
    exact Tree.decodesBack_of_canonical (Tree.canonical_of_evaluate hregistry htree hevaluate)

theorem Registry.counting_reportsRecords : Registry.counting.ReportsRecords := by
  have hrecord : ∀ n, Record.Canonical [("before", .ofNat n)] := fun n =>
    ⟨List.pairwise_singleton .., List.forall_mem_singleton.mpr rfl⟩
  simp only [ReportsRecords, counting, List.forall_mem_cons, List.not_mem_nil, false_imp_iff,
    implies_true, and_true]
  exact ⟨fun past _ => hrecord past.length, fun past _ => hrecord past.length⟩

/-- The tree `weekly` on the day that it waits for. -/
theorem weekly_round_trip :
    Json.decode Tree.read Tree.weekly.encode = .ok Tree.weekly ∧
      ∃ output,
        (Tree.weekly.evaluate .counting [("due", .string "friday")] []).outcome = .ok output ∧
        DecodesBack Tree.read Tree.encode output := by
  obtain ⟨-, -, -, -, -, -, -, hevaluated⟩ := documents_round_trip
  have hdecode := (Tree.decodesBack_of_canonical Tree.canonical_weekly).1
  have hevaluate : ∃ output,
      (Tree.weekly.evaluate .counting [("due", .string "friday")] []).outcome = .ok output :=
    ⟨_, rfl⟩
  obtain ⟨output, houtput⟩ := hevaluate
  exact ⟨hdecode, output, houtput, hevaluated .counting Tree.weekly.encode Tree.weekly output _ []
    Registry.counting_reportsRecords hdecode houtput⟩

end Verdict
