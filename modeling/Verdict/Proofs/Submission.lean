import Verdict.Document.Request
import Verdict.Proofs.Continued

/-!
# Texts submitted as parts of a body

The body of a request to execute a tree holds the text of the tree and the text of the data record.
If the body can be read, then each of the two texts can be read on its own, and gives what was read
of it as a part of the body (`Json.decodeText_submission`).
-/

namespace Verdict

namespace Json

/-- At the cursor stands a key, and its value stands at the other cursor. -/
inductive KeyAt (key : String) : Cursor → Cursor → Prop
  | intro {c colon : Cursor} {rest : List UInt8} {offset : Nat}
    (hkey : readString [] (c.offset + 1) (c.rest.drop 1) = .ok (key, colon))
    (hcolon : colon.blanks = ⟨0x3a :: rest, offset⟩) :
    KeyAt key c (Cursor.mk rest (offset + 1)).blanks

/-- A key that is written with a colon and a blank behind it, and then a value that can be read. -/
theorem exists_keyAt {key : String} {letters bytes : List UInt8} {stop : Nat}
    (hletters : readString [] 0 letters = .ok (key, ⟨[0x3a, 0x20], stop⟩))
    (hvalue : (Cursor.ofText bytes).rest ≠ []) (more : List UInt8) (offset : Nat) :
    ∃ k, KeyAt key ⟨0x22 :: (letters ++ (bytes ++ more)), offset⟩
      ((Cursor.ofText bytes).extend more k) := by
  have hkey : readString [] (0 + (offset + 1)) (letters ++ (bytes ++ more)) = .ok (key, _) :=
    readString_extend hletters
  rw [Nat.zero_add] at hkey
  refine ⟨stop + (offset + 1) + 1 + 1, ?_⟩
  have hat := KeyAt.intro (c := ⟨0x22 :: (letters ++ (bytes ++ more)), offset⟩) hkey rfl
  have hblank : (Cursor.mk (0x20 :: (bytes ++ more)) (stop + (offset + 1) + 1)).blanks =
      Cursor.skipBlanks (bytes ++ more) (0 + (stop + (offset + 1) + 1 + 1)) := by
    rw [Nat.zero_add]
    rfl
  rw [Cursor.skipBlanks_extend hvalue] at hblank
  exact hblank ▸ hat

theorem IsValue.rest_ne_nil {bytes : List UInt8} {v : Json} {after : Cursor}
    (h : IsValue bytes v after) : (Cursor.ofText bytes).rest ≠ [] :=
  ReadsOn.rest_ne_nil_of_value (Doc.sound_of_written _ h.settles.here.content)

end Json

namespace Layout

open Json

variable {δ α : Type} {layout : Layout δ α} {slot : Slot δ} {key : String} {draft : δ} {a : α}
  {c place : Cursor} {fuel depth : Nat}

/-- What is read from a member fills the slot of its key. -/
theorem exists_fill_of_readMember (hslot : layout.slotOf? (.text key) = .ok (some slot))
    (hkey : KeyAt key c place)
    (h : layout.readMembers .text draft (readMember (fuel + 1) depth c).content = .ok a) :
    ∃ draft', slot.fill .text (readValue fuel depth place).content draft = .ok draft' ∧
      ∀ after, (readValue fuel depth place).after = some after →
        layout.readMembers .text draft' (Json.readMembers fuel depth false after).content =
          .ok a := by
  obtain ⟨hkey, hcolon⟩ := hkey
  rw [readMember] at h
  simp only [hkey, hcolon] at h
  split at h
  next hafter =>
    simp only [Layout.readMembers, hslot] at h
    split at h
    · cases h
    · split at h <;> cases h
  next after hafter =>
    simp only [Layout.readMembers, hslot] at h
    split at h
    · cases h
    · split at h
      · cases h
      next draft' hfill =>
        refine ⟨draft', hfill, fun after' hafter' => ?_⟩
        cases hafter.symm.trans hafter'
        exact h

/-- A member whose value is a text of its own fills the slot of its key with what is read where the
text is written, and the next member stands behind the text. -/
theorem exists_fill_of_isValue {β : Type} {name : String} {aliases : List String}
    {get : δ → Option β} {put : β → δ → δ} {reading : Reading β} {bytes more : List UInt8} {v : Json}
    {after : Cursor} {k : Nat} (hvalue : IsValue bytes v after)
    (hslot : layout.slotOf? (.text key) = .ok (some (.reading name aliases get put reading)))
    (hsound : ∀ doc b, reading .text doc = .ok b → doc.sound = .ok ())
    (hkey : KeyAt key c ((Cursor.ofText bytes).extend more k))
    (hfuel : 3 * bytes.length + 3 ≤ fuel) (hdepth : depth ≤ maxDepth) (hmore : Ends more)
    (h : layout.readMembers .text draft (readMember (fuel + 1) depth c).content = .ok a) :
    ∃ doc b, doc.written? = some v ∧ reading .text doc = .ok b ∧
      layout.readMembers .text (put b draft)
        (Json.readMembers fuel depth false (after.extend more k)).content = .ok a := by
  obtain ⟨draft', hfill, hrest⟩ := exists_fill_of_readMember hslot hkey h
  obtain ⟨b, hread, rfl⟩ := map_eq_ok_iff.mp hfill
  have hgives := hvalue.gives hfuel hdepth hmore (hsound _ b hread)
  exact ⟨_, b, hgives.content, hread, hrest _ hgives.after⟩

end Layout

/-! ## The body -/

/-- What is read as a record is the value of an object. -/
theorem Reading.json_of_record {origin : Origin} {doc : Doc} {v : Json} {record : Record}
    (hdoc : doc.written? = some v) (h : Reading.record origin doc = .ok record) :
    Reading.json origin doc = .ok (.object record) := by
  cases doc.writes_of_written hdoc with
  | map start hmembers =>
    have hrecord : Members.toRecord origin "a string" [] _ = .ok record := h
    rw [Members.toRecord_of_written origin _ _ _ hmembers] at hrecord
    rw [json, Doc.toJson, Members.toRecord_of_written origin _ _ _ hmembers, hrecord]
    rfl
  | _ => cases h

namespace Json

/-- What stands before the text of the tree in a body, behind the quote of the key. -/
def treeLetters : List UInt8 := textBytes "decisionTree\": "

/-- What stands before the text of the data record, behind the quote of the key. -/
def dataLetters : List UInt8 := textBytes "data\": "

theorem readString_treeLetters :
    readString [] 0 treeLetters = .ok ("decisionTree", ⟨[0x3a, 0x20], 13⟩) := rfl

theorem readString_dataLetters :
    readString [] 0 dataLetters = .ok ("data", ⟨[0x3a, 0x20], 5⟩) := rfl

/-- The body that submits the text of a tree and the text of a data record. -/
def submission (tree data : List UInt8) : List UInt8 :=
  0x7b :: 0x22 :: (treeLetters ++ (tree ++
    0x2c :: 0x20 :: 0x22 :: (dataLetters ++ (data ++ [0x7d]))))

section
variable {tree data : List UInt8} {v w : Json} {after behind : Cursor}
  {submitted : ExecutionRequest}

/-- Behind the text of the tree stand a comma and the next key. -/
theorem next_data (h : after.blanks.rest = []) (more : List UInt8) (k : Nat) :
    ∃ offset, Next (· = 0x22) false (after.extend (0x2c :: 0x20 :: 0x22 :: more) k)
      ⟨0x22 :: more, offset⟩ :=
  ⟨_, .comma (Cursor.skipBlanks_append h) rfl rfl⟩

/-- A brace with a key behind it opens a map. -/
theorem readValue_of_brace (fuel depth : Nat) (rest : List UInt8) (offset : Nat) :
    (readValue (fuel + 2) (depth + 1) ⟨0x7b :: 0x22 :: rest, offset⟩).content =
      .map offset (readMember fuel depth ⟨0x22 :: rest, offset + 1⟩).content := by
  have hnext : Next (· = 0x22) true ⟨0x22 :: rest, offset + 1⟩ ⟨0x22 :: rest, offset + 1⟩ :=
    .first rfl rfl
  rw [← readMembers_of_next hnext, readValue]
  rfl

theorem length_submission (tree data : List UInt8) :
    (submission tree data).length =
      tree.length + data.length + treeLetters.length + dataLetters.length + 6 := by
  simp only [submission, List.length_cons, List.length_append, List.length_nil]
  omega

/-- A body is read member by member. -/
theorem exists_fills_of_submission (htree : IsValue tree v after) (hdata : IsValue data w behind)
    (h : decodeText ExecutionRequest.layout.read (submission tree data) = .ok submitted) :
    ∃ treeDoc dataDoc, treeDoc.written? = some v ∧ dataDoc.written? = some w ∧
      Tree.read .text treeDoc = .ok submitted.tree ∧
      Reading.record .text dataDoc = .ok submitted.data := by
  -- the brackets, keys and commas take fuel of their own; what is left is enough for both texts
  obtain ⟨fuel, hlength⟩ : ∃ fuel, 3 * (submission tree data).length + 3 = fuel + 6 :=
    Nat.exists_eq_add_of_le' (by rw [length_submission]; omega)
  have hfuel : 3 * tree.length + 3 * data.length + 3 ≤ fuel := by
    rw [length_submission] at hlength
    omega
  obtain ⟨hroot, -⟩ := decodeText_eq_ok_iff.mp h
  rw [root_ofBytes, hlength] at hroot
  obtain ⟨k, hkey⟩ := exists_keyAt readString_treeLetters htree.rest_ne_nil
    (0x2c :: 0x20 :: 0x22 :: (dataLetters ++ (data ++ [0x7d]))) 1
  have hplace : Cursor.ofText (submission tree data) = ⟨submission tree data, 0⟩ := rfl
  rw [hplace, submission, maxDepth, readValue_of_brace] at hroot
  obtain ⟨treeDoc, _, htreeDoc, hreadTree, hroot⟩ := Layout.exists_fill_of_isValue htree rfl
    (fun _ _ => Tree.sound_of_read) hkey (by omega) (by decide) rfl hroot
  obtain ⟨offset, hnext⟩ := next_data htree.ends (dataLetters ++ (data ++ [0x7d])) k
  rw [readMembers_of_next hnext] at hroot
  obtain ⟨k', hkey'⟩ := exists_keyAt readString_dataLetters hdata.rest_ne_nil [0x7d] offset
  obtain ⟨dataDoc, _, hdataDoc, hrecord, hroot⟩ := Layout.exists_fill_of_isValue hdata rfl
    (fun _ _ => Reading.sound_of_record) hkey' (by omega) (by decide) rfl hroot
  have hclosed : (behind.extend [0x7d] k').blanks = _ := Cursor.skipBlanks_append hdata.ends
  rw [readMembers_of_closed hclosed] at hroot
  cases hroot
  exact ⟨treeDoc, dataDoc, htreeDoc, hdataDoc, hreadTree, hrecord⟩

theorem decodeText_submission (htree : IsValue tree v after) (hdata : IsValue data w behind)
    (h : decodeText ExecutionRequest.layout.read (submission tree data) = .ok submitted) :
    decodeText Tree.read tree = .ok submitted.tree ∧
      decodeText .json data = .ok (.object submitted.data) := by
  obtain ⟨treeDoc, dataDoc, htreeDoc, hdataDoc, hreadTree, hreadData⟩ :=
    exists_fills_of_submission htree hdata h
  exact ⟨htree.decodeText_eq_ok Tree.read_placeless htreeDoc hreadTree,
    hdata.decodeText_eq_ok Reading.json_placeless hdataDoc
      (Reading.json_of_record hdataDoc hreadData)⟩

end

end Json

end Verdict
