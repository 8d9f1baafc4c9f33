import Verdict.CommandLine
import Verdict.Proofs.Evaluation
import Verdict.Proofs.Registration

/-!
# What comes into the log

An evaluation tells the log which way it takes, and passes on what its calls have to tell, in their
order (`Node.filter_notes`). The built-in executors tell of errors only what their channels do.

What is written of it is chosen by the most specific rule about the source of each note
(`LogFilter.of_ruleFor?_eq_some`). Without rules nothing but errors is written
(`Logger.write_of_no_errors`), so a program whose notices go to the log leaves it empty unless it is
asked for more.
-/

namespace Verdict

/-- A note on the way that an evaluation takes. -/
def Note.onWay (note : Note) : Bool :=
  decide (note.severity = .debug ∧ note.source = Node.logSource)

theorem Run.calls_bind {α β : Type} (run : Run α) (next : α → Run β) (past : List Call) :
    ((run >>= next) past).calls = (run past).calls ++
      match (run past).outcome with
      | .error _ => []
      | .ok v => (next v (past ++ (run past).calls)).calls := by
  cases h : (run past).outcome with
  | error failure => rw [bind_of_error h, List.append_nil]
  | ok v => rw [bind_of_ok h]

theorem Run.calls_map {α β : Type} (run : Run α) (f : α → β) (past : List Call) :
    ((run >>= fun v => pure (f v)) past).calls = (run past).calls := by
  rw [calls_bind]
  cases (run past).outcome <;> exact List.append_nil _

/-! ## The notes of an evaluation -/

namespace Node

variable {registry : Registry} {node : Node} {data : Record} {holds : Bool}

/-- What calls have to tell, the way of their evaluation left out. -/
def toldBy (calls : List Call) : List Note :=
  (calls.flatMap (·.receipt.notes)).filter fun note => !note.onWay

theorem toldBy_append (first rest : List Call) :
    toldBy (first ++ rest) = toldBy first ++ toldBy rest := by
  rw [toldBy, List.flatMap_append, List.filter_append]
  rfl

theorem filter_branchNote_cons (notes : List Note) :
    (node.branchNote holds :: notes).filter (fun note => !note.onWay) =
      notes.filter fun note => !note.onWay :=
  List.filter_cons_of_neg (by simp [branchNote, Note.onWay])

theorem filter_iterationNote_cons (number count : Nat) (notes : List Note) :
    (iterationNote number count holds :: notes).filter (fun note => !note.onWay) =
      notes.filter fun note => !note.onWay :=
  List.filter_cons_of_neg (by simp [iterationNote, Note.onWay])

/-- The iterations are told of one by one, and behind each what its calls have to tell. -/
theorem filter_iterationNotes (left : Nat) (past : List Call) :
    (node.iterationNotes registry data past left).filter (fun note => !note.onWay) =
      toldBy (node.iterate registry data left past).calls := by
  induction left generalizing past with
  | zero => rfl
  | succ left ih =>
    rw [iterationNotes, iterate]
    cases hholds : node.condition.holdsOf data with
    | error failure => rfl
    | ok holds =>
      have hbind := Run.ok_bind holds fun holds => do
        let first ← node.iteration registry holds
        let rest ← node.iterate registry data left
        return first :: rest
      refine Eq.trans ?_ (congrArg (fun run => toldBy (run past).calls) hbind).symm
      dsimp only
      rw [Run.calls_bind, toldBy_append]
      cases hfirst : (node.iteration registry holds past).outcome with
      | error failure => exact (filter_iterationNote_cons ..).trans (List.append_nil _).symm
      | ok first =>
        dsimp only
        rw [List.filter_append, filter_iterationNote_cons, ih, Run.calls_map]
        rfl

/-- The notes on its way apart, an evaluation tells the log what its calls have to tell, in the
order of the calls. -/
theorem filter_notes (registry : Registry) (node : Node) (data : Record) (past : List Call) :
    (node.notes registry data past).filter (fun note => !note.onWay) =
      toldBy (node.evaluate registry data past).calls := by
  rw [notes, evaluate]
  cases hholds : node.condition.holdsOf data with
  | error failure => rfl
  | ok holds =>
    have hbind := Run.ok_bind holds fun holds => do
      let output ← node.runBranch registry holds
      if node.repeats then do
        let outputs ← node.iterate registry data node.iterations
        return { output with subtreeOutputs := some outputs }
      else return output
    refine Eq.trans ?_ (congrArg (fun run => toldBy (run past).calls) hbind).symm
    dsimp only
    rw [Run.calls_bind, toldBy_append]
    cases hbranch : (node.runBranch registry holds past).outcome with
    | error failure => exact (filter_branchNote_cons _).trans (List.append_nil _).symm
    | ok output =>
      dsimp only
      cases node.repeats with
      | false => exact (filter_branchNote_cons _).trans (List.append_nil _).symm
      | true =>
        rw [if_pos rfl, if_pos rfl, List.filter_append, filter_branchNote_cons,
          filter_iterationNotes, Run.calls_map]
        rfl

end Node

/-! ## Errors in the log -/

/-- The channel tells the log of no errors. -/
def Channel.Calm (channel : Channel) : Prop :=
  ∀ payload, ∀ note ∈ (channel payload).notes, note.severity ≠ .error

theorem Channel.logged_calm (name : String) : (logged name).Calm :=
  fun _ => List.forall_mem_singleton.mpr nofun

/-- What an executor tells of its work is no error, whatever comes of it. -/
def Registry.Calm (registry : Registry) : Prop :=
  ∀ executor ∈ registry, ∀ past parameters,
    ∀ note ∈ (executor.perform past parameters).notes, note.severity ≠ .error

theorem Notice.severity_of_mem_send {channel : Channel} (h : channel.Calm) (payload : Json)
    (report : Option Failure → ActionResult) (source opening subject : String) :
    ∀ note ∈ (send channel payload report source opening subject).notes,
      note.severity ≠ .error := by
  intro note hnote
  rcases List.mem_append.mp hnote with hnote | hnote
  · rcases List.mem_cons.mp hnote with rfl | hnote
    · nofun
    · exact h payload note hnote
  · obtain ⟨failure, -, rfl⟩ := List.mem_map.mp hnote
    nofun

theorem TextMessage.severity_of_mem_perform {channel : Channel} (h : channel.Calm)
    (parameters : Record) : ∀ note ∈ (perform channel parameters).notes,
      note.severity ≠ .error := by
  unfold perform
  split
  · exact List.forall_mem_nil _
  · exact Notice.severity_of_mem_send h _ _ _ _ _

theorem Email.severity_of_mem_perform {channel : Channel} (h : channel.Calm)
    (parameters : Record) : ∀ note ∈ (perform channel parameters).notes,
      note.severity ≠ .error := by
  unfold perform
  split
  · exact List.forall_mem_nil _
  · exact Notice.severity_of_mem_send h _ _ _ _ _

namespace Registry

variable {registry : Registry}

theorem builtIn_calm {texts emails : Channel} (htexts : texts.Calm) (hemails : emails.Calm) :
    (builtIn texts emails).Calm := by
  intro executor hexecutor past parameters
  rcases eq_or_mem_of_mem_register hexecutor with rfl | hexecutor
  · exact Email.severity_of_mem_perform hemails parameters
  · rcases eq_or_mem_of_mem_register hexecutor with rfl | hexecutor
    · exact TextMessage.severity_of_mem_perform htexts parameters
    · cases hexecutor

theorem standard_calm : standard.Calm :=
  builtIn_calm (Channel.logged_calm _) (Channel.logged_calm _)

/-- The calls of a run over executors that tell of no errors do not either. -/
theorem Calm.of_performs (h : registry.Calm) {α : Type} {run : Run α} {actions : List Action}
    {value : List Call → α} (hrun : Run.Performs registry run actions value) {past : List Call}
    {call : Call} (hcall : call ∈ (run past).calls) :
    ∀ note ∈ call.receipt.notes, note.severity ≠ .error := by
  obtain ⟨i, hcall⟩ := List.mem_iff_getElem?.mp hcall
  obtain ⟨executor, hexecutor, hreceipt⟩ := hrun.exists_executor hcall
  rw [hreceipt]
  exact h executor (List.mem_of_find?_eq_some hexecutor) _ _

/-- An evaluation over executors that tell of no errors tells of none. -/
theorem Calm.severity_of_mem_notes (h : registry.Calm) {node : Node} {data : Record}
    {past : List Call} : ∀ note ∈ node.notes registry data past, note.severity ≠ .error := by
  intro note hnote herror
  have hoff : note.onWay = false := by simp [Note.onWay, herror]
  have htold : note ∈ Node.toldBy (node.evaluate registry data past).calls := by
    rw [← Node.filter_notes]
    exact List.mem_filter.mpr ⟨hnote, by rw [hoff]; rfl⟩
  obtain ⟨call, hcall, hmem⟩ := List.mem_flatMap.mp (List.mem_filter.mp htold).1
  cases hholds : node.condition.holdsOf data with
  | error failure =>
    rw [Node.evaluate_of_error registry hholds] at hcall
    cases hcall
  | ok holds => exact h.of_performs (Node.evaluate_performs registry hholds) hcall note hmem herror

end Registry

/-! ## Filters -/

namespace LogFilter

variable {filter : LogFilter} {note : Note} {rule : LogRule}

theorem most_of_foldl {rules : List LogRule} {best : Option LogRule}
    (h : rules.foldl (fun best rule =>
      if best.all (·.size ≤ rule.size) then some rule else best) best = some rule) :
    (rule ∈ best ∨ rule ∈ rules) ∧ (∀ other ∈ best, other.size ≤ rule.size) ∧
      ∀ other ∈ rules, other.size ≤ rule.size := by
  induction rules generalizing best with
  | nil =>
    obtain rfl : best = some rule := h
    exact ⟨.inl rfl, fun other hother => Nat.le_of_eq (by rw [Option.some.inj hother]), nofun⟩
  | cons first rest ih =>
    rw [List.foldl_cons] at h
    split at h
    next hmore =>
      obtain ⟨hmem, hfirst, hrest⟩ := ih h
      have hfirst := hfirst first rfl
      refine ⟨.inr ?_, fun other hother => ?_, List.forall_mem_cons.mpr ⟨hfirst, hrest⟩⟩
      · exact List.mem_cons.mpr (hmem.imp_left fun hbest => (Option.some.inj hbest).symm)
      · rw [hother, Option.all_some, decide_eq_true_eq] at hmore
        exact Nat.le_trans hmore hfirst
    next hless =>
      obtain ⟨hmem, hbest, hrest⟩ := ih h
      refine ⟨hmem.imp_right (List.mem_cons_of_mem _), hbest,
        List.forall_mem_cons.mpr ⟨?_, hrest⟩⟩
      cases best with
      | none => exact absurd rfl hless
      | some other =>
        have hsmaller : ¬ other.size ≤ first.size := by simpa using hless
        exact Nat.le_trans (Nat.le_of_not_le hsmaller) (hbest other rfl)

/-- The rule that decides about a note is about its source, and no other such rule fixes more of
it. -/
theorem of_ruleFor?_eq_some (h : filter.ruleFor? note = some rule) :
    (rule ∈ filter.rules ∨ filter.rules = [] ∧ rule = .errors) ∧ rule.covers note = true ∧
      ∀ other ∈ filter.rules, other.covers note = true → other.size ≤ rule.size := by
  obtain ⟨hmem, -, hmost⟩ := most_of_foldl h
  obtain ⟨hrule, hcovers⟩ := List.mem_filter.mp (hmem.resolve_left nofun)
  refine ⟨?_, hcovers, fun other hother hcovered => hmost other (List.mem_filter.mpr ⟨?_, hcovered⟩)⟩
  · split at hrule
    next hempty => exact .inr ⟨List.isEmpty_iff.mp hempty, List.mem_singleton.mp hrule⟩
    next => exact .inl hrule
  · rw [if_neg fun hempty => by rw [List.isEmpty_iff.mp hempty] at hother; cases hother]
    exact hother

/-- Where a note is shown, one that says the same and matters more is shown too. -/
theorem shows_of_rank_le {severity : Severity} (hrank : severity.rank ≤ note.severity.rank)
    (h : filter.shows note = true) : filter.shows { note with severity } = true := by
  have hrule : filter.ruleFor? { note with severity } = filter.ruleFor? note := rfl
  have hadmits : ∀ rule : LogRule, rule.admits note = true →
      rule.admits { note with severity } = true := by
    intro rule hnote
    cases hlimit : rule.limit with
    | none => simp [LogRule.admits, hlimit] at hnote
    | some limit =>
      simp only [LogRule.admits, hlimit, Option.any_some, decide_eq_true_eq] at hnote ⊢
      exact Nat.le_trans hrank hnote
  rw [shows, Bool.and_eq_true] at h ⊢
  rw [hrule]
  refine ⟨?_, h.2⟩
  cases hfound : filter.ruleFor? note with
  | none => simp [hfound] at h
  | some rule => exact hadmits rule (by simpa [hfound] using h.1)

end LogFilter

/-! ## The log without a filter -/

theorem LogFilter.shows_default (note : Note) :
    ({} : LogFilter).shows note = decide (note.severity = .error) := by
  obtain ⟨severity, source, text⟩ := note
  cases severity <;> rfl

/-- Without a filter nothing but errors is written. -/
theorem Logger.write_of_no_errors (logger : Logger) {environment : Environment}
    {notes : List Note} (hlog : environment.lookup "RUST_LOG" = none)
    (h : ∀ note ∈ notes, note.severity ≠ .error) : logger.write environment notes = "" := by
  have hshown : notes.filter ({} : LogFilter).shows = [] := by
    refine List.filter_eq_nil_iff.mpr fun note hnote => ?_
    rw [LogFilter.shows_default]
    simpa using h note hnote
  rw [write, filterIn, hlog]
  dsimp only
  rw [hshown]
  rfl

end Verdict
