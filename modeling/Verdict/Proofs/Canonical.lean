import Verdict.Document.Reading

/-!
# Canonical values

The canonical form of a value has the members of every object in strictly ascending order of keys,
and of members with one key the last one. It is what is kept of a value that is read as it stands:
reading never leaves another form behind (`Doc.canonical_of_toJson`), and gives a canonical value
back as it is (`Doc.toJson_ofJson`). A value can always be set aside (`Doc.sound_ofJson`).
-/

namespace Verdict

/-! ## Records -/

namespace Record

/-- The keys are in strictly ascending order. -/
def Sorted (record : Record) : Prop := record.Pairwise fun first second => first.1 < second.1

variable {key : String} {value : Json} {record : Record}

/-- Nothing comes into a record by an insertion but the member that is inserted. -/
theorem eq_or_mem_of_mem_insert {member : String × Json} (h : member ∈ record.insert key value) :
    member = (key, value) ∨ member ∈ record := by
  induction record with
  | nil => exact .inl (List.mem_singleton.mp h)
  | cons first rest ih =>
    obtain ⟨k, v⟩ := first
    rw [insert] at h
    split at h
    · exact List.mem_cons.mp h
    · split at h
      · exact (List.mem_cons.mp h).imp_right (List.mem_cons_of_mem _)
      · rcases List.mem_cons.mp h with rfl | h
        · exact .inr List.mem_cons_self
        · exact (ih h).imp_right (List.mem_cons_of_mem _)

theorem mem_insert_self : (key, value) ∈ record.insert key value := by
  induction record with
  | nil => exact List.mem_cons_self
  | cons first rest ih =>
    rw [insert]
    split
    · exact List.mem_cons_self
    · split
      · exact List.mem_cons_self
      · exact List.mem_cons_of_mem _ ih

/-- An insertion takes out at most the member with the same key. -/
theorem mem_insert_of_mem {member : String × Json} (h : member ∈ record) (hne : member.1 ≠ key) :
    member ∈ record.insert key value := by
  induction record with
  | nil => cases h
  | cons first rest ih =>
    rw [insert]
    split
    · exact List.mem_cons_of_mem _ h
    · rcases List.mem_cons.mp h with rfl | h
      · rw [if_neg (Ne.symm hne)]
        exact List.mem_cons_self
      · split
        · exact List.mem_cons_of_mem _ h
        · exact List.mem_cons_of_mem _ (ih h)

/-- A member is put in the place of its key or in front of the first larger one. -/
theorem Sorted.insert (h : record.Sorted) : (record.insert key value).Sorted := by
  induction record with
  | nil => exact List.pairwise_singleton ..
  | cons first rest ih =>
    obtain ⟨k, v⟩ := first
    obtain ⟨hfirst, hrest⟩ := List.pairwise_cons.mp h
    rw [Record.insert]
    split
    next hlt =>
      refine List.pairwise_cons.mpr ⟨fun member hmem => ?_, h⟩
      rcases List.mem_cons.mp hmem with rfl | hmem
      · exact hlt
      · exact String.lt_trans hlt (hfirst member hmem)
    next hge =>
      split
      next heq =>
        subst heq
        exact List.pairwise_cons.mpr ⟨hfirst, hrest⟩
      next hne =>
        have hlt : k < key := Decidable.byContradiction fun hnot =>
          hne (String.le_antisymm (String.not_lt.mp hnot) (String.not_lt.mp hge))
        refine List.pairwise_cons.mpr ⟨fun member hmem => ?_, ih hrest⟩
        rcases eq_or_mem_of_mem_insert hmem with rfl | hmem
        · exact hlt
        · exact hfirst member hmem

/-- A member whose key is above all others is appended. -/
theorem insert_of_forall_lt (h : ∀ member ∈ record, member.1 < key) :
    record.insert key value = record ++ [(key, value)] := by
  induction record with
  | nil => rfl
  | cons first rest ih =>
    obtain ⟨k, v⟩ := first
    obtain ⟨hfirst, hrest⟩ := List.forall_mem_cons.mp h
    have hne : key ≠ k := fun heq => String.lt_irrefl key (heq ▸ hfirst)
    rw [insert, if_neg (String.lt_asymm hfirst), if_neg hne, ih hrest]
    rfl

end Record

/-! ## The canonical form -/

mutual

/-- The value with the members of every object in their order; of members with one key the last one
counts. -/
def Json.canonical : Json → Json
  | .array items => .array (Json.canonicalItems items)
  | .object members => .object (Json.canonicalMembers [] members)
  | v => v

def Json.canonicalItems : List Json → List Json
  | [] => []
  | v :: rest => v.canonical :: Json.canonicalItems rest

/-- Puts members into a record. -/
def Json.canonicalMembers (record : Record) : List (String × Json) → Record
  | [] => record
  | (k, v) :: rest => Json.canonicalMembers (record.insert k v.canonical) rest

end

/-- A record whose keys are in order and whose values are canonical. -/
structure Record.Canonical (record : Record) : Prop where
  sorted : record.Sorted
  values : ∀ member ∈ record, member.2.canonical = member.2

namespace Record

variable {key : String} {value : Json} {record : Record}

theorem Canonical.nil : Canonical [] := ⟨.nil, nofun⟩

theorem Canonical.insert (h : record.Canonical) (hvalue : value.canonical = value) :
    (record.insert key value).Canonical where
  sorted := h.sorted.insert
  values member hmem := by
    rcases eq_or_mem_of_mem_insert hmem with rfl | hmem
    · exact hvalue
    · exact h.values member hmem

end Record

namespace Json

theorem canonicalItems_eq_map (items : List Json) : canonicalItems items = items.map canonical := by
  induction items with
  | nil => rfl
  | cons v rest ih => rw [canonicalItems, ih, List.map_cons]

/-- Members that are in order behind those of a record are appended to it. -/
theorem canonicalMembers_of_canonical {record : Record} {members : List (String × Json)}
    (hsorted : Record.Sorted (record ++ members))
    (hvalues : ∀ member ∈ members, member.2.canonical = member.2) :
    canonicalMembers record members = record ++ members := by
  induction members generalizing record with
  | nil => rw [canonicalMembers, List.append_nil]
  | cons first rest ih =>
    obtain ⟨k, v⟩ := first
    obtain ⟨hfirst, hrest⟩ := List.forall_mem_cons.mp hvalues
    have hbehind : ∀ member ∈ record, member.1 < k := fun member hmem =>
      (List.pairwise_append.mp hsorted).2.2 member hmem (k, v) List.mem_cons_self
    rw [canonicalMembers, hfirst, Record.insert_of_forall_lt hbehind]
    rw [List.append_cons] at hsorted
    rw [ih hsorted hrest, ← List.append_cons]

theorem canonicalMembers_of_record {record : Record} (h : record.Canonical) :
    canonicalMembers [] record = record :=
  canonicalMembers_of_canonical h.sorted h.values

/-- A canonical record is an object in its canonical form. -/
theorem canonical_object {record : Record} (h : record.Canonical) :
    (object record).canonical = object record := by
  rw [canonical, canonicalMembers_of_record h]

end Json

/-! ## Reading values as they stand -/

mutual

/-- What is kept of a document is canonical, whatever is written there. -/
theorem Doc.canonical_of_toJson {origin : Origin} :
    (doc : Doc) → {v : Json} → doc.toJson origin = .ok v → v.canonical = v
  | .null _, _, h | .bool .., _, h | .number .., _, h | .nonFinite .., _, h | .string .., _, h => by
    rw [Doc.toJson] at h
    cases h
    rfl
  | .array _ items, _, h => by
    rw [Doc.toJson] at h
    cases hitems : items.toJson origin 0 with
    | error fault =>
      rw [hitems] at h
      cases h
    | ok vs =>
      rw [hitems] at h
      cases h
      rw [Json.canonical, Items.canonical_of_toJson items hitems]
  | .map _ members, _, h => by
    rw [Doc.toJson] at h
    cases hmembers : members.toRecord origin "a string key" [] with
    | error fault =>
      rw [hmembers] at h
      cases h
    | ok record =>
      rw [hmembers] at h
      cases h
      exact Json.canonical_object (Members.canonical_of_toRecord members .nil hmembers)
  | .refused .., _, h | .flawed _, _, h => by
    rw [Doc.toJson] at h
    cases h

theorem Items.canonical_of_toJson {origin : Origin} :
    (items : Items) → {index : Nat} → {vs : List Json} → items.toJson origin index = .ok vs →
      Json.canonicalItems vs = vs
  | .closed _, _, _, h => by
    rw [Items.toJson] at h
    cases h
    rfl
  | .flawed _, _, _, h => by
    rw [Items.toJson] at h
    cases h
  | .item _ doc _ rest, index, _, h => by
    rw [Items.toJson] at h
    split at h
    · cases h
    next v hv =>
      split at h
      · cases h
      next vs hvs =>
        cases h
        rw [Json.canonicalItems, Doc.canonical_of_toJson doc hv, Items.canonical_of_toJson rest hvs]

theorem Members.canonical_of_toRecord {origin : Origin} :
    (members : Members) → {expected : String} → {record result : Record} → record.Canonical →
      members.toRecord origin expected record = .ok result → result.Canonical
  | .closed _, _, _, _, hrecord, h => by
    rw [Members.toRecord] at h
    cases h
    exact hrecord
  | .flawed _, _, _, _, _, h | .refused _, _, _, _, _, h | .cut .., _, _, _, _, h => by
    rw [Members.toRecord] at h
    cases h
  | .member ⟨content, step⟩ _ doc _ _ rest, _, record, _, hrecord, h => by
    cases content with
    | string key =>
      rw [Members.toRecord] at h
      split at h
      · cases h
      next v hv =>
        exact Members.canonical_of_toRecord rest
          (hrecord.insert (Doc.canonical_of_toJson doc hv)) h
    | _ =>
      simp only [Members.toRecord] at h
      cases h

end

mutual

/-- Of a value its canonical form is kept. -/
theorem Doc.toJson_ofJson (origin : Origin) :
    (v : Json) → (Doc.ofJson v).toJson origin = .ok v.canonical
  | .null | .bool _ | .number _ | .string _ => by rw [Doc.ofJson, Doc.toJson]; rfl
  | .array items => by
    rw [Doc.ofJson, Doc.toJson, Items.toJson_ofJson origin 0 items]
    rfl
  | .object members => by
    rw [Doc.ofJson, Doc.toJson, Members.toRecord_ofJson origin _ [] members]
    rfl

theorem Items.toJson_ofJson (origin : Origin) (index : Nat) :
    (items : List Json) → (Items.ofJson items).toJson origin index = .ok (Json.canonicalItems items)
  | [] => by rw [Items.ofJson, Items.toJson]; rfl
  | v :: rest => by
    rw [Items.ofJson, Items.toJson, Doc.toJson_ofJson origin v,
      Items.toJson_ofJson origin (index + 1) rest]
    rfl

theorem Members.toRecord_ofJson (origin : Origin) (expected : String) (record : Record) :
    (members : List (String × Json)) →
      (Members.ofJson members).toRecord origin expected record =
        .ok (Json.canonicalMembers record members)
  | [] => by rw [Members.ofJson, Members.toRecord]; rfl
  | (key, v) :: rest => by
    rw [Members.ofJson, Key.text, Members.toRecord, Doc.toJson_ofJson origin v,
      Json.canonicalMembers]
    exact Members.toRecord_ofJson origin _ _ rest

end

/-! ## Setting values aside -/

mutual

/-- There are no flaws in a value. -/
theorem Doc.sound_ofJson : (v : Json) → (Doc.ofJson v).sound = .ok ()
  | .null | .bool _ | .number _ | .string _ => by simp only [Doc.ofJson, Doc.sound]
  | .array items => by rw [Doc.ofJson, Doc.sound, Items.sound_ofJson 0 items]
  | .object members => by rw [Doc.ofJson, Doc.sound, Members.sound_ofJson members]

theorem Items.sound_ofJson (index : Nat) :
    (items : List Json) → (Items.ofJson items).sound index = .ok ()
  | [] => by rw [Items.ofJson, Items.sound]
  | v :: rest => by
    rw [Items.ofJson, Items.sound, Doc.sound_ofJson v]
    exact Items.sound_ofJson (index + 1) rest

theorem Members.sound_ofJson :
    (members : List (String × Json)) → (Members.ofJson members).sound = .ok ()
  | [] => by rw [Members.ofJson, Members.sound]
  | (_, v) :: rest => by
    rw [Members.ofJson, Members.sound, Doc.sound_ofJson v]
    exact Members.sound_ofJson rest

end

end Verdict
