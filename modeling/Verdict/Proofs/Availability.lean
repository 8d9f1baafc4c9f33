import Verdict.Proofs.Execution
import Verdict.Proofs.Spelling

/-!
# Which kinds of actions can be used

A registry can hold, list and call executors of any kind. Validation with the kinds of the registry
refuses a kind that is merely a name before it looks at what is available, so an accepted tree uses
the built-in kinds alone, and of these the registered ones (`Validator.validate_iff_usable`). A kind
can be used exactly if it is built in and the route of actions lists it (`Http.usable_iff_listed`).
-/

namespace Verdict

/-- One of the kinds that are more than a name. -/
def ActionKind.BuiltIn (kind : ActionKind) : Prop := kind = sendMessage ∨ kind = sendEmail

theorem ActionKind.builtIn_iff {kind : ActionKind} :
    kind.BuiltIn ↔ ∀ name, kind ≠ .custom name := by
  cases kind <;> simp [BuiltIn]

instance (kind : ActionKind) : Decidable kind.Named :=
  decidable_of_iff (ActionKind.ofName kind.name = kind) ⟨fun h => ⟨_, h⟩, fun h => h.ofName_name⟩

/-- A tree whose only action is of a kind. -/
def Tree.use (kind : ActionKind) : Tree where
  name := "use"
  root := {
    condition := ⟨.equals, .string, "to", .string "ops"⟩
    trueActions := [⟨kind, [], none⟩] }

namespace Validator

variable {registry : Registry} {bound : UInt32} {tree : Tree}

theorem admitsAction_iff {action : Action} (hunexecuted : action.result = none) :
    (ofRegistry registry bound).AdmitsAction action ↔
      registry.contains action.kind = true ∧ action.kind.BuiltIn := by
  rw [← Registry.mem_kinds_iff, ActionKind.builtIn_iff]
  constructor
  · intro h
    exact ⟨h.available _ rfl, h.known⟩
  · rintro ⟨havailable, hknown⟩
    exact ⟨hknown, fun kinds hkinds => Option.some.inj hkinds ▸ havailable, hunexecuted⟩

/-- Nothing but the kinds of its actions can keep a tree from being accepted that is well-formed in
all else. -/
theorem validate_iff_usable (hname : Text.isBlankText tree.name = false)
    (hcondition : tree.root.condition.validate = .ok ())
    (hrepeat : ∀ count, tree.root.repeatCount = some count → count ≤ bound)
    (hunexecuted : ∀ action ∈ tree.root.actions, action.result = none) :
    (ofRegistry registry bound).validate tree = .ok () ↔
      ∀ action ∈ tree.root.actions,
        registry.contains action.kind = true ∧ action.kind.BuiltIn := by
  have hactions : (∀ action ∈ tree.root.actions, (ofRegistry registry bound).AdmitsAction action) ↔
      ∀ action ∈ tree.root.actions,
        registry.contains action.kind = true ∧ action.kind.BuiltIn :=
    forall₂_congr fun action haction => admitsAction_iff (hunexecuted action haction)
  rw [validate_eq_ok_iff, ← hactions]
  exact ⟨Admits.actions, fun h => ⟨hname, Condition.validate_eq_ok_iff.mp hcondition, hrepeat, h⟩⟩

/-! ## A registered kind that is refused -/

def faxes : Registry := [.counting (.custom "fax")]

theorem validate_use_iff {kind : ActionKind} :
    (ofRegistry registry bound).validate (.use kind) = .ok () ↔
      registry.contains kind = true ∧ kind.BuiltIn := by
  have hname : Text.isBlankText (Tree.use kind).name = false :=
    show Text.isBlankText "use" = false by decide
  have hcondition : (Tree.use kind).root.condition.validate = .ok () :=
    show (Tree.use default).root.condition.validate = .ok () by rfl
  have hcount : ∀ count, (Tree.use kind).root.repeatCount = some count → count ≤ bound := nofun
  exact (validate_iff_usable hname hcondition hcount (List.forall_mem_singleton.mpr rfl)).trans
    List.forall_mem_singleton

def faxing : Tree := .use (.ofName "fax")

/-- The registry holds the only kind that the tree uses, and would call its executor; the tree is
refused for this kind nevertheless. -/
theorem registered_fax_refused :
    Text.isBlankText faxing.name = false ∧ faxing.root.condition.validate = .ok () ∧
    (∀ count, faxing.root.repeatCount = some count → count ≤ 1000) ∧
    (∀ action ∈ faxing.root.actions, action.result = none) ∧
    (∃ output, (faxing.evaluate faxes [("to", .string "ops")] []).outcome = .ok output) ∧
    (ofRegistry faxes 1000).validate faxing = .error (.malformed (.unknownAction "fax")) ∧
    ¬ ((ofRegistry faxes 1000).validate faxing = .ok () ↔
      ∀ action ∈ faxing.root.actions, faxes.contains action.kind = true) := by
  have hrefused : (ofRegistry faxes 1000).validate faxing =
      .error (.malformed (.unknownAction "fax")) := rfl
  refine ⟨by decide, rfl, nofun, by decide, ⟨_, rfl⟩, hrefused, fun h => ?_⟩
  cases hrefused.symm.trans (h.mpr (by decide))

end Validator

namespace Http

variable {registry : Registry} {kind : ActionKind}

/-- The answer of the route of actions. -/
def listing (registry : Registry) : Response :=
  (Response.json 200 (.array (registry.map executorJson))).withHeaders readable

/-- The answer names the kind in one of its entries. -/
def Lists (response : Response) (kind : ActionKind) : Prop :=
  ∃ entries members, response.body = some (.array entries) ∧ .object members ∈ entries ∧
    Record.get? "kind" members = some (.string kind.name)

theorem handle_actions {service : Service} {request : Request} (get : request.method = .get)
    (path : request.path = "/api/actions") (past : List Call) :
    handle service request past = ⟨[], .ok (listing service.registry)⟩ := by
  have hroute : Route.ofPath? request.path = some .actions := by
    rw [path]
    decide
  exact handle_of_allowed hroute (by rw [get]; decide) (by rw [get]; decide) rfl

/-- Kinds that are made from names are told apart by what they are listed as. -/
theorem lists_iff_contains (named : ∀ executor ∈ registry, executor.kind.Named)
    (hkind : kind.Named) : Lists (listing registry) kind ↔ registry.contains kind = true := by
  rw [← Registry.mem_kinds_iff, Registry.kinds, List.mem_map]
  constructor
  · rintro ⟨_, members, ⟨⟩, hmember, hname⟩
    obtain ⟨executor, hexecutor, ⟨⟩⟩ := List.mem_map.mp hmember
    have heq : executor.kind.name = kind.name := Json.string.inj (Option.some.inj hname)
    refine ⟨executor, hexecutor, ?_⟩
    rw [← (named executor hexecutor).ofName_name, heq, hkind.ofName_name]
  · rintro ⟨executor, hexecutor, rfl⟩
    exact ⟨_, _, rfl, List.mem_map.mpr ⟨executor, hexecutor, rfl⟩, rfl⟩

/-- A tree that is well-formed in all else is accepted exactly if its actions are of registered
kinds that are built in. So these kinds, which the route of actions lists together with all others,
are the ones that accepted trees can use. -/
theorem usable_iff_listed (registry : Registry) (config : Config) (request : Request)
    (past : List Call) (get : request.method = .get) (path : request.path = "/api/actions")
    (named : ∀ executor ∈ registry, executor.kind.Named) :
    let service := Service.ofConfig registry config
    handle service request past = ⟨[], .ok (listing registry)⟩ ∧
    (∀ tree : Tree, Text.isBlankText tree.name = false → tree.root.condition.validate = .ok () →
      (∀ count, tree.root.repeatCount = some count → count ≤ config.maxRepeatCount) →
      (∀ action ∈ tree.root.actions, action.result = none) →
      (service.validator.validate tree = .ok () ↔ ∀ action ∈ tree.root.actions,
        registry.contains action.kind = true ∧ action.kind.BuiltIn)) ∧
    ∀ kind : ActionKind, kind.Named →
      ((∃ tree, service.validator.validate tree = .ok () ∧
          kind ∈ tree.root.actions.map (·.kind)) ↔
        Lists (listing registry) kind ∧ kind.BuiltIn) := by
  intro service
  have hvalidate : ∀ tree : Tree, Text.isBlankText tree.name = false →
      tree.root.condition.validate = .ok () →
      (∀ count, tree.root.repeatCount = some count → count ≤ config.maxRepeatCount) →
      (∀ action ∈ tree.root.actions, action.result = none) →
      (service.validator.validate tree = .ok () ↔ ∀ action ∈ tree.root.actions,
        registry.contains action.kind = true ∧ action.kind.BuiltIn) :=
    fun _ => Validator.validate_iff_usable
  refine ⟨handle_actions get path past, hvalidate, fun kind hkind => ?_⟩
  rw [lists_iff_contains named hkind]
  constructor
  · rintro ⟨tree, hvalid, hmem⟩
    obtain ⟨action, haction, rfl⟩ := List.mem_map.mp hmem
    have hadmits := (Validator.validate_eq_ok_iff.mp hvalid).actions action haction
    exact (Validator.admitsAction_iff hadmits.unexecuted).mp hadmits
  · intro husable
    exact ⟨.use kind, Validator.validate_use_iff.mpr husable, List.mem_singleton_self kind⟩

/-- One registered executor is built in, the other one is merely listed. -/
def faxesAndMails : Registry := [.counting (.custom "fax"), .counting .sendEmail]

def asking : Request := ⟨.get, "/api/actions", [], []⟩

theorem mails_usable_faxes_listed :
    let service := Service.ofConfig faxesAndMails {}
    (∃ tree, service.validator.validate tree = .ok () ∧
      .sendEmail ∈ tree.root.actions.map (·.kind)) ∧
    Lists (listing faxesAndMails) (.custom "fax") ∧
    ¬ ∃ tree, service.validator.validate tree = .ok () ∧
      .custom "fax" ∈ tree.root.actions.map (·.kind) := by
  have named : ∀ executor ∈ faxesAndMails, executor.kind.Named := by decide
  obtain ⟨-, -, husable⟩ :=
    usable_iff_listed faxesAndMails {} asking [] rfl rfl named
  refine ⟨(husable .sendEmail (by decide)).mpr ⟨?_, .inr rfl⟩, ?_, fun h => ?_⟩
  · exact (lists_iff_contains named (by decide)).mpr (by decide)
  · exact (lists_iff_contains named (by decide)).mpr (by decide)
  · have := ((husable (.custom "fax") (by decide)).mp h).2
    revert this
    simp [ActionKind.BuiltIn]

end Http

end Verdict
