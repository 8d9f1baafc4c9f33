import Verdict.Proofs.Agreement
import Verdict.Proofs.Annotation
import Verdict.Proofs.Printed
import Verdict.Proofs.Registration
import Verdict.Proofs.RoundTrip

/-!
# Loading what was printed

The trees that there are come from documents or from evaluations (`Tree.Arises`), and all that the
command prints that runs a tree are such trees (`Command.arises_of_evaluate`). The pretty text of
one is read as the tree that was printed, whatever text its parts hold (`Tree.reloads`).
-/

namespace Verdict

/-- What is read of a value is read of its pretty text, also with blanks behind it. -/
theorem Json.decodeText_pretty {α : Type} {reading : Reading α} (hreading : reading.Placeless)
    {v : Json} (hintegral : v.integral = true) (hdepth : v.depth ≤ maxDepth) {a : α}
    (ha : reading.Takes .text a v) {blanks : List UInt8} (hblanks : ∀ b ∈ blanks, IsBlank b) :
    decodeText reading (textBytes v.pretty ++ blanks) = .ok a :=
  (isValue_pretty hintegral hdepth hblanks).decodeText_eq_ok hreading (Doc.written?_ofJson v) ha

/-! ## The results of sending notices -/

theorem TextMessage.canonical_perform (channel : Channel) (parameters : Record) :
    (perform channel parameters).result.output.Canonical := by
  have hreport : ∀ delivered, Record.Canonical [("deliveryReport", .bool delivered)] :=
    fun _ => ⟨List.pairwise_singleton .., List.forall_mem_singleton.mpr rfl⟩
  unfold perform
  split
  next => exact .nil
  next text _ =>
    rw [Notice.send]
    dsimp only
    cases (channel text.payload).failure with
    | none => exact hreport true
    | some failure => exact hreport false

theorem Email.canonical_perform (channel : Channel) (parameters : Record) :
    (perform channel parameters).result.output.Canonical := by
  unfold perform
  split
  next => exact .nil
  next email _ =>
    rw [Notice.send]
    dsimp only
    cases (channel email.payload).failure with
    | none => exact .nil
    | some failure => exact .nil

theorem Registry.builtIn_reportsRecords (texts emails : Channel) :
    (builtIn texts emails).ReportsRecords := by
  intro executor hexecutor _ parameters
  rcases eq_or_mem_of_mem_register hexecutor with rfl | hexecutor
  · exact Email.canonical_perform emails parameters
  · rcases eq_or_mem_of_mem_register hexecutor with rfl | hexecutor
    · exact TextMessage.canonical_perform texts parameters
    · cases hexecutor

/-! ## The trees that there are -/

namespace Tree

/-- A tree that was read from a document, or that evaluations have made of such a tree. -/
inductive Arises : Tree → Prop
  | read {origin : Origin} {doc : Doc} {tree : Tree} (h : Tree.read origin doc = .ok tree) :
    Arises tree
  | evaluated {registry : Registry} {tree output : Tree} {data : Record} {past : List Call}
    (hregistry : registry.ReportsRecords) (htree : Arises tree)
    (h : (tree.evaluate registry data past).outcome = .ok output) : Arises output

theorem Arises.canonical {tree : Tree} (h : tree.Arises) : tree.root.Canonical := by
  induction h with
  | read h => exact read_yields_canonical _ _ _ h
  | evaluated hregistry _ h ih => exact canonical_of_evaluate hregistry ih h

end Tree

theorem File.arises_of_tree {file : File} {tree : Tree} (h : file.tree = .ok tree) :
    tree.Arises := by
  obtain ⟨text, -, h⟩ := bind_eq_ok_iff.mp h
  split at h
  · obtain ⟨hread, -⟩ := Json.decodeText_eq_ok_iff.mp (mapError_eq_ok_iff.mp h)
    exact .read hread
  · rw [Yaml.decodeText] at h
    split at h
    · cases h
    · exact .read (mapError_eq_ok_iff.mp h)

namespace Command

/-- What the command that runs a tree prints is a tree that there is. -/
theorem arises_of_evaluate {platform : Platform} {config : Config} {treeName dataName : String}
    {tree : Tree} (h : (evaluate platform config treeName dataName).outcome = .ok tree) :
    tree.Arises := by
  cases hsubmitted : platform.directory.tree treeName with
  | error trouble =>
    rw [evaluate, hsubmitted] at h
    cases h
  | ok submitted =>
    cases hrecord : platform.directory.record dataName with
    | error trouble =>
      rw [evaluate, hsubmitted, hrecord] at h
      cases h
    | ok record =>
      have harises := File.arises_of_tree (mapError_eq_ok_iff.mp hsubmitted)
      obtain ⟨-, houtcome⟩ := evaluate_of_record platform config hsubmitted hrecord
      have hrun := mapError_eq_ok_iff.mp (houtcome.symm.trans h)
      let service := Service.ofConfig (.ofConfig platform.webhook config) config
      cases hvalid : service.validator.validate submitted with
      | error failure =>
        rw [Service.run, hvalid, Run.ofExcept_error_bind] at hrun
        cases hrun
      | ok _ =>
        rw [@Service.run_of_accepted _ ⟨submitted, record⟩ hvalid] at hrun
        exact .evaluated (Registry.builtIn_reportsRecords _ _) harises hrun

end Command

/-! ## Printing and loading -/

namespace Tree

theorem decodeText_pretty {tree : Tree} (arises : tree.Arises)
    (integral : tree.encode.integral = true) (shallow : tree.encode.depth ≤ Json.maxDepth)
    (blanks : List UInt8) (hblanks : ∀ b ∈ blanks, Json.IsBlank b) :
    Json.decodeText read (textBytes tree.encode.pretty ++ blanks) = .ok tree := by
  obtain ⟨members, hmembers, hspelled⟩ := tree.spelledIn_encode
  have htakes : read.Takes .text tree tree.encode := by
    rw [hmembers]
    exact takes_of_spelledIn arises.canonical hspelled
  exact Json.decodeText_pretty read_placeless integral shallow htakes hblanks

/-- A tree whose numbers are integers of 64 bits, in at most as many brackets as can be read, is
loaded from its pretty text. The command that runs a tree prints this text and a line break, and a
file of what it prints holds the tree. -/
theorem reloads (tree : Tree) (arises : tree.Arises) (integral : tree.encode.integral = true)
    (shallow : tree.encode.depth ≤ 127) :
    let text := tree.encode.pretty
    Json.decodeText read (textBytes text) = .ok tree ∧
    (∀ (platform : Platform) (environment : Environment) (config : Config)
      (treeName dataName : String),
      (Command.evaluate platform config treeName dataName).outcome = .ok tree → ∃ report,
        (Command.run treeName dataName).perform platform environment config = .finished report ∧
        report.status = 0 ∧ report.output = text ++ "\n" ∧
        report.errors = platform.logger.write environment report.notes) ∧
    Json.decodeText read (textBytes (text ++ "\n")) = .ok tree ∧
    ∀ (directory : Directory) (name : String), File.IsJsonName name →
      directory name = .ok (textBytes (text ++ "\n")) → directory.tree name = .ok tree := by
  intro text
  have hplain := decodeText_pretty arises integral shallow [] (List.forall_mem_nil _)
  rw [List.append_nil] at hplain
  have hline : Json.decodeText read (textBytes (text ++ "\n")) = .ok tree := by
    have hbreak : textBytes "\n" = [0x0a] := by decide +kernel
    have hblank : Json.IsBlank 0x0a := rfl
    rw [textBytes_append, hbreak]
    exact decodeText_pretty arises integral shallow [0x0a] (List.forall_mem_singleton.mpr hblank)
  refine ⟨hplain, fun platform environment config treeName dataName hrun => ?_, hline,
    fun directory name hname hcontent => Directory.tree_of_json hcontent hname hline⟩
  refine ⟨_, rfl, Platform.status_report_of_ok _ hrun, ?_, ?_⟩ <;> rw [Platform.report, hrun]

/-- A tree whose name needs quotes, escapes and several bytes a character. -/
def greeting : Tree := { weekly with name := "\"Grüße\" \\ \x01\n🎄" }

/-- The greeting after its calls. -/
def greeted : Tree where
  name := greeting.name
  root := { Node.reminded with condition := greeting.root.condition }

theorem greeted_reloads :
    greeted.encode.integral = true ∧ greeted.encode.depth ≤ 127 ∧
      (greeting.evaluate .counting [("due", .string "friday")] []).outcome = .ok greeted ∧
      Json.decodeText read (textBytes greeted.encode.pretty) = .ok greeted := by
  have hread : read .value (Doc.ofJson greeting.encode) = .ok greeting :=
    Json.decode_eq_ok_iff.mp (@decodesBack_of_canonical greeting canonical_weekly).1
  have success :
      (greeting.evaluate .counting [("due", .string "friday")] []).outcome = .ok greeted := by
    rfl
  have arises : greeted.Arises :=
    .evaluated Registry.counting_reportsRecords (.read hread) success
  have integral : greeted.encode.integral = true := by decide
  have shallow : greeted.encode.depth ≤ 127 := by decide
  exact ⟨integral, shallow, success, (reloads greeted arises integral shallow).1⟩

end Tree

end Verdict
