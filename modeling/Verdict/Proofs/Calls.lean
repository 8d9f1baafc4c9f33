import Mathlib.Data.List.TakeWhile
import Verdict.Registry

/-!
# The calls of a list of actions

What a run over a registry does is determined by the actions it performs. Its calls answer the
longest prefix of them that has executors, and it fails with the first action that has none.
`Run.Performs` states this of a run; runs that perform actions compose (`Run.Performs.bind`), and
`Registry.executeAll` performs the actions it is given.
-/

namespace Verdict

/-- What an executor learns of an action. -/
structure Request where
  kind : ActionKind
  parameters : Record

namespace Action

def request (action : Action) : Request := ⟨action.kind, action.parameters⟩

/-- The action without the result it carries. -/
def unexecuted (action : Action) : Action := { action with result := none }

/-- The actions, each with the result of the call at its place. -/
def annotate (actions : List Action) (calls : List Call) : List Action :=
  List.zipWith (fun action call => action.executed call.receipt.result) actions calls

end Action

def Call.request (call : Call) : Request := ⟨call.kind, call.parameters⟩

namespace Registry

variable {registry : Registry}

theorem contains_iff {kind : ActionKind} :
    registry.contains kind = true ↔ ∃ executor, registry.get? kind = some executor :=
  Option.isSome_iff_exists

theorem mem_kinds_iff {kind : ActionKind} :
    kind ∈ registry.kinds ↔ registry.contains kind = true := by
  rw [contains, get?, List.find?_isSome, kinds, List.mem_map]
  simp only [decide_eq_true_eq]

/-! ## Calls and failures -/

/-- The call that performs an action after some calls. -/
def call? (registry : Registry) (past : List Call) (action : Action) : Option Call :=
  (registry.get? action.kind).map fun executor =>
    ⟨action.kind, action.parameters, executor.perform past action.parameters⟩

/-- The calls that perform actions after some calls, up to the first action without an executor. -/
def callsFrom (registry : Registry) (past : List Call) : List Action → List Call
  | [] => []
  | action :: rest =>
    match registry.call? past action with
    | none => []
    | some call => call :: registry.callsFrom (past ++ [call]) rest

/-- The failure at the first action without an executor. -/
def failure? (registry : Registry) (actions : List Action) : Option Failure :=
  (actions.find? fun action => !registry.contains action.kind).map fun action =>
    .unknownActionKind action.kind.name

theorem call?_eq_none_iff (past : List Call) {action : Action} :
    registry.call? past action = none ↔ registry.contains action.kind = false := by
  simp [call?, contains]

theorem exists_executor_of_call? {past : List Call} {action : Action} {call : Call}
    (h : registry.call? past action = some call) :
    ∃ executor, registry.get? action.kind = some executor ∧
      call = ⟨action.kind, action.parameters, executor.perform past action.parameters⟩ := by
  obtain ⟨executor, he, rfl⟩ := Option.map_eq_some_iff.mp h
  exact ⟨executor, he, rfl⟩

theorem contains_of_call? {past : List Call} {action : Action} {call : Call}
    (h : registry.call? past action = some call) : registry.contains action.kind = true := by
  obtain ⟨executor, he, -⟩ := exists_executor_of_call? h
  exact contains_iff.mpr ⟨executor, he⟩

theorem request_of_call? {past : List Call} {action : Action} {call : Call}
    (h : registry.call? past action = some call) : call.request = action.request := by
  obtain ⟨executor, -, rfl⟩ := exists_executor_of_call? h
  rfl

theorem failure?_cons {action : Action} {rest : List Action} :
    registry.failure? (action :: rest) =
      if registry.contains action.kind then registry.failure? rest
      else some (.unknownActionKind action.kind.name) := by
  cases h : registry.contains action.kind <;> simp [failure?, h]

theorem failure?_append (first rest : List Action) :
    registry.failure? (first ++ rest) = (registry.failure? first).or (registry.failure? rest) := by
  simp only [failure?, List.find?_append, Option.map_or]

theorem failure?_eq_none_iff {actions : List Action} :
    registry.failure? actions = none ↔ ∀ action ∈ actions, registry.contains action.kind = true := by
  simp [failure?]

theorem failure?_eq_some_iff {actions : List Action} {failure : Failure} :
    registry.failure? actions = some failure ↔
      ∃ action, actions.find? (fun action => !registry.contains action.kind) = some action ∧
        failure = .unknownActionKind action.kind.name := by
  simp only [failure?, Option.map_eq_some_iff, eq_comm (b := failure)]

theorem exists_call_of_failure?_cons (past : List Call) {action : Action} {rest : List Action}
    (h : registry.failure? (action :: rest) = none) :
    ∃ call, registry.call? past action = some call ∧ registry.failure? rest = none := by
  rw [failure?_cons] at h
  split at h
  next hc =>
    obtain ⟨executor, he⟩ := contains_iff.mp hc
    exact ⟨_, by rw [call?, he, Option.map_some], h⟩
  next => cases h

theorem length_callsFrom (past : List Call) {actions : List Action}
    (h : registry.failure? actions = none) :
    (registry.callsFrom past actions).length = actions.length := by
  induction actions generalizing past with
  | nil => rfl
  | cons action rest ih =>
    obtain ⟨call, hcall, hrest⟩ := exists_call_of_failure?_cons past h
    simp only [callsFrom, hcall, List.length_cons, ih _ hrest]

theorem callsFrom_append {past : List Call} {first rest : List Action}
    (h : registry.failure? first = none) :
    registry.callsFrom past (first ++ rest) = registry.callsFrom past first ++
      registry.callsFrom (past ++ registry.callsFrom past first) rest := by
  induction first generalizing past with
  | nil => simp [callsFrom]
  | cons action first ih =>
    obtain ⟨call, hcall, hfirst⟩ := exists_call_of_failure?_cons past h
    simp [callsFrom, hcall, ih hfirst]

theorem callsFrom_append_of_failure {past : List Call} {first rest : List Action}
    {failure : Failure} (h : registry.failure? first = some failure) :
    registry.callsFrom past (first ++ rest) = registry.callsFrom past first := by
  induction first generalizing past with
  | nil => cases h
  | cons action first ih =>
    cases hcall : registry.call? past action with
    | none => simp only [List.cons_append, callsFrom, hcall]
    | some call =>
      rw [failure?_cons, if_pos (contains_of_call? hcall)] at h
      simp only [List.cons_append, callsFrom, hcall, ih h]

/-- The calls put to the executors are the longest prefix of the actions that has executors. -/
theorem callsFrom_requests (past : List Call) (actions : List Action) :
    (registry.callsFrom past actions).map Call.request =
      (actions.takeWhile fun action => registry.contains action.kind).map Action.request := by
  induction actions generalizing past with
  | nil => rfl
  | cons action rest ih =>
    cases hcall : registry.call? past action with
    | none => simp [callsFrom, hcall, (call?_eq_none_iff past).mp hcall]
    | some call => simp [callsFrom, hcall, contains_of_call? hcall, request_of_call? hcall, ih]

theorem callsFrom_requests_of_registered (past : List Call) {actions : List Action}
    (h : registry.failure? actions = none) :
    (registry.callsFrom past actions).map Call.request = actions.map Action.request := by
  rw [callsFrom_requests, List.takeWhile_eq_self_iff.mpr (failure?_eq_none_iff.mp h)]

theorem failure?_congr {registry' : Registry}
    (h : ∀ kind, registry'.contains kind = registry.contains kind) (actions : List Action) :
    registry'.failure? actions = registry.failure? actions := by
  simp only [failure?, h]

/-! Results that actions carry already have no part in either. -/

theorem failure?_map_unexecuted (actions : List Action) :
    registry.failure? (actions.map Action.unexecuted) = registry.failure? actions := by
  induction actions with
  | nil => rfl
  | cons action rest ih => rw [List.map_cons, failure?_cons, failure?_cons, ih]; rfl

theorem callsFrom_map_unexecuted (past : List Call) (actions : List Action) :
    registry.callsFrom past (actions.map Action.unexecuted) = registry.callsFrom past actions := by
  induction actions generalizing past with
  | nil => rfl
  | cons action rest ih =>
    have hcall : registry.call? past action.unexecuted = registry.call? past action := rfl
    simp only [List.map_cons, callsFrom, hcall, ih]

/-- Each call is the answer to the action at its place, after the calls that stand before it. -/
theorem exists_action_of_getElem?_callsFrom {past : List Call} {actions : List Action} {i : Nat}
    {call : Call} (h : (registry.callsFrom past actions)[i]? = some call) :
    ∃ action, actions[i]? = some action ∧
      registry.call? (past ++ (registry.callsFrom past actions).take i) action = some call := by
  induction actions generalizing past i with
  | nil => cases h
  | cons action rest ih =>
    cases hcall : registry.call? past action with
    | none => simp [callsFrom, hcall] at h
    | some first =>
      simp only [callsFrom, hcall] at h ⊢
      cases i with
      | zero =>
        simp only [List.getElem?_cons_zero, Option.some.injEq] at h
        exact ⟨action, rfl, by simpa [h] using hcall⟩
      | succ i =>
        simp only [List.getElem?_cons_succ] at h
        obtain ⟨action', hget, hcall'⟩ := ih h
        exact ⟨action', hget, by simpa using hcall'⟩

end Registry

/-! ## Runs that perform actions -/

/-- The failure that a computation ended with. -/
def Trace.failure? {α : Type} (trace : Trace α) : Option Failure :=
  match trace.outcome with
  | .ok _ => none
  | .error failure => some failure

namespace Run

variable {α β : Type} {registry : Registry}

theorem bind_of_ok {run : Run α} {next : α → Run β} {past : List Call} {v : α}
    (h : (run past).outcome = .ok v) :
    (run >>= next) past =
      ⟨(run past).calls ++ (next v (past ++ (run past).calls)).calls,
        (next v (past ++ (run past).calls)).outcome⟩ := by
  change Run.bind run next past = _
  simp only [Run.bind, h]

theorem bind_of_error {run : Run α} {next : α → Run β} {past : List Call} {failure : Failure}
    (h : (run past).outcome = .error failure) :
    (run >>= next) past = ⟨(run past).calls, .error failure⟩ := by
  change Run.bind run next past = _
  simp only [Run.bind, h]

/-- The run performs the actions in their order and nothing else; its value depends on the calls it
made. -/
structure Performs (registry : Registry) (run : Run α) (actions : List Action)
    (value : List Call → α) : Prop where
  calls : ∀ past, (run past).calls = registry.callsFrom past actions
  ok : registry.failure? actions = none →
    ∀ past, (run past).outcome = .ok (value (registry.callsFrom past actions))
  error : ∀ failure, registry.failure? actions = some failure →
    ∀ past, (run past).outcome = .error failure

namespace Performs

variable {run : Run α} {actions : List Action} {value : List Call → α}

theorem failure? (h : Performs registry run actions value) (past : List Call) :
    (run past).failure? = registry.failure? actions := by
  cases hf : registry.failure? actions with
  | none => simp only [Trace.failure?, h.ok hf]
  | some failure => simp only [Trace.failure?, h.error failure hf]

/-- What is asked of the executors depends on the actions and the kinds alone. -/
theorem requests (h : Performs registry run actions value) (past : List Call) :
    (run past).calls.map Call.request =
      (actions.takeWhile fun action => registry.contains action.kind).map Action.request := by
  rw [h.calls, Registry.callsFrom_requests]

/-- Each call is the answer of its executor after the calls before it. -/
theorem exists_executor (h : Performs registry run actions value) {past : List Call} {i : Nat}
    {call : Call} (hcall : (run past).calls[i]? = some call) :
    ∃ executor, registry.get? call.kind = some executor ∧
      call.receipt = executor.perform (past ++ (run past).calls.take i) call.parameters := by
  rw [h.calls] at hcall ⊢
  obtain ⟨action, -, hanswer⟩ := Registry.exists_action_of_getElem?_callsFrom hcall
  obtain ⟨executor, he, rfl⟩ := Registry.exists_executor_of_call? hanswer
  exact ⟨executor, he, rfl⟩

theorem succeeds_iff (h : Performs registry run actions value) (past : List Call) :
    (∃ v, (run past).outcome = .ok v) ↔
      ∀ action ∈ actions, registry.contains action.kind = true := by
  rw [← Registry.failure?_eq_none_iff, ← h.failure? past, Trace.failure?]
  cases (run past).outcome <;> simp

theorem fails_iff (h : Performs registry run actions value) (past : List Call) (failure : Failure) :
    (run past).outcome = .error failure ↔
      ∃ action, actions.find? (fun action => !registry.contains action.kind) = some action ∧
        failure = .unknownActionKind action.kind.name := by
  rw [← Registry.failure?_eq_some_iff, ← h.failure? past, Trace.failure?]
  cases (run past).outcome <;> simp

/-- Runs over registries of the same kinds that perform the same actions, the results that these
carry apart, ask the same of the executors and end alike. -/
theorem same_requests {registry' : Registry} {run' : Run β} {actions' : List Action}
    {value' : List Call → β}
    (h : Performs registry run actions value) (h' : Performs registry' run' actions' value')
    (hkinds : ∀ kind, registry'.contains kind = registry.contains kind)
    (hactions : actions'.map Action.unexecuted = actions.map Action.unexecuted)
    (past past' : List Call) :
    (run' past').calls.map Call.request = (run past).calls.map Call.request ∧
      (run' past').failure? = (run past).failure? := by
  constructor
  · rw [h.calls, h'.calls, ← Registry.callsFrom_map_unexecuted past', hactions,
      ← Registry.callsFrom_map_unexecuted past, Registry.callsFrom_requests,
      Registry.callsFrom_requests]
    simp only [hkinds]
  · rw [h.failure?, h'.failure?, ← Registry.failure?_map_unexecuted, hactions,
      Registry.failure?_map_unexecuted, Registry.failure?_congr hkinds]

/-- A run that succeeds has performed all its actions. -/
theorem of_ok (h : Performs registry run actions value) {past : List Call} {v : α}
    (hok : (run past).outcome = .ok v) :
    registry.failure? actions = none ∧ v = value (registry.callsFrom past actions) := by
  cases hf : registry.failure? actions with
  | none =>
    rw [h.ok hf past, Except.ok.injEq] at hok
    exact ⟨rfl, hok.symm⟩
  | some failure =>
    rw [h.error failure hf past] at hok
    cases hok

theorem apply_of_registered (h : Performs registry run actions value)
    (hfail : registry.failure? actions = none) (past : List Call) :
    run past = ⟨registry.callsFrom past actions,
      .ok (value (registry.callsFrom past actions))⟩ := by
  rw [← h.ok hfail past, ← h.calls past]

theorem pure (v : α) : Performs registry (Pure.pure v : Run α) [] fun _ => v where
  calls _ := rfl
  ok _ _ := rfl
  error _ h := nomatch h

/-- What comes of the first run's calls is told from what comes of the second's by their number. -/
theorem bind {next : α → Run β} {first rest : List Action}
    {values : α → List Call → β} (hrun : Performs registry run first value)
    (hnext : ∀ v, Performs registry (next v) rest (values v)) :
    Performs registry (run >>= next) (first ++ rest) fun calls =>
      values (value (calls.take first.length)) (calls.drop first.length) := by
  cases hfirst : registry.failure? first with
  | some failure =>
    have hfail : registry.failure? (first ++ rest) = some failure := by
      rw [Registry.failure?_append, hfirst, Option.some_or]
    constructor
    case calls =>
      intro past
      rw [bind_of_error (hrun.error _ hfirst past), hrun.calls,
        Registry.callsFrom_append_of_failure hfirst]
    case ok =>
      intro hok
      cases hfail.symm.trans hok
    case error =>
      intro failure' herror past
      obtain rfl : failure = failure' := Option.some.inj (hfail.symm.trans herror)
      rw [bind_of_error (hrun.error _ hfirst past)]
  | none =>
    have hfail : registry.failure? (first ++ rest) = registry.failure? rest := by
      rw [Registry.failure?_append, hfirst, Option.none_or]
    constructor
    case calls =>
      intro past
      rw [bind_of_ok (hrun.ok hfirst past), hrun.calls, (hnext _).calls,
        Registry.callsFrom_append hfirst]
    case ok =>
      intro hok past
      have hlen := Registry.length_callsFrom past hfirst
      rw [bind_of_ok (hrun.ok hfirst past), (hnext _).ok (hfail ▸ hok), hrun.calls,
        Registry.callsFrom_append hfirst, List.take_left' hlen, List.drop_left' hlen]
    case error =>
      intro failure herror past
      rw [bind_of_ok (hrun.ok hfirst past), (hnext _).error _ (hfail ▸ herror)]

/-- Only as many calls as there are actions are looked at. -/
theorem congr {value' : List Call → α} (h : Performs registry run actions value)
    (heq : ∀ calls, calls.length = actions.length → value calls = value' calls) :
    Performs registry run actions value' where
  calls := h.calls
  ok hok past := by rw [h.ok hok, heq _ (Registry.length_callsFrom past hok)]
  error := h.error

theorem map (h : Performs registry run actions value) (f : α → β) :
    Performs registry (run >>= fun v => Pure.pure (f v)) actions fun calls => f (value calls) := by
  have hbind := h.bind fun v => Performs.pure (f v)
  rw [List.append_nil] at hbind
  exact hbind.congr fun calls hlen => by rw [List.take_of_length_le (Nat.le_of_eq hlen)]

end Performs

end Run

namespace Registry

variable {registry : Registry}

theorem execute_apply (action : Action) (past : List Call) :
    registry.execute action past =
      match registry.call? past action with
      | none => ⟨[], .error (.unknownActionKind action.kind.name)⟩
      | some call => ⟨[call], .ok (action.executed call.receipt.result)⟩ := by
  cases h : registry.get? action.kind with
  | none => simp only [execute, call?, h, Option.map_none]; rfl
  | some executor => simp only [execute, call?, h, Option.map_some]

theorem execute_performs (registry : Registry) (action : Action) :
    Run.Performs registry (registry.execute action) [action] fun calls =>
      calls.head?.elim action fun call => action.executed call.receipt.result := by
  constructor
  case calls =>
    intro past
    rw [execute_apply]
    cases hcall : registry.call? past action <;> simp [callsFrom, hcall]
  case ok =>
    intro hok past
    obtain ⟨call, hcall, -⟩ := exists_call_of_failure?_cons past hok
    simp [execute_apply, callsFrom, hcall]
  case error =>
    intro failure herror past
    rw [failure?_cons] at herror
    split at herror
    next => cases herror
    next hc =>
      cases herror
      have hcall := (call?_eq_none_iff past).mpr (Bool.eq_false_iff.mpr hc)
      simp only [execute_apply, hcall]

theorem executeAll_performs (registry : Registry) (actions : List Action) :
    Run.Performs registry (registry.executeAll actions) actions (Action.annotate actions) := by
  induction actions with
  | nil => exact Run.Performs.pure []
  | cons action rest ih =>
    have h := (registry.execute_performs action).bind fun first => ih.map (first :: ·)
    refine h.congr fun calls hlen => ?_
    cases calls with
    | nil => cases hlen
    | cons call calls => simp [Action.annotate]

end Registry

end Verdict
