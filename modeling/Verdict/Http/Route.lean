import Verdict.Http.Basic
import Verdict.Schema.Tree
import Verdict.Service

/-!
# Routes

The paths of the service and the answers given on them. Answers may be read from any origin, and a
question for the options of a path is answered for every path.
-/

namespace Verdict

namespace Failure

/-- Bad input, a late evaluation and a failed one have statuses of their own. -/
def status (failure : Failure) : Nat :=
  if failure.isValidation then 422
  else
    match failure with
    | .timeout _ => 504
    | _ => 500

def body (failure : Failure) : Json :=
  .object [("error", .string failure.message), ("kind", .string failure.kind)]

def response (failure : Failure) : Http.Response := .json failure.status failure.body

end Failure

namespace Http

inductive Route
  | health
  | actions
  | treeSchema
  | execution
  | condition
deriving DecidableEq, Repr, Inhabited

namespace Route

def ofPath? (path : String) : Option Route :=
  if path = "/api/health" then some health
  else if path = "/api/actions" then some actions
  else if path = "/api/schema/decision-tree" then some treeSchema
  else if path = "/api/execute-decision-tree" then some execution
  else if path = "/api/conditions/evaluate" then some condition
  else none

/-- The methods that are allowed on a route. -/
def methods : Route → List Method
  | health | actions | treeSchema => [.get, .head]
  | execution | condition => [.post]

def allow (route : Route) : String × String :=
  ("allow", Text.joinWith "," (route.methods.map Method.name))

end Route

/-- The greatest number of bytes in a body that is read. -/
def bodyLimit : Nat := 2 ^ 21

/-- Reads a body that is declared to be JSON. -/
def readBody {α : Type} (reading : Reading α) (request : Request) : Except Failure α :=
  if request.isJson then
    if bodyLimit < request.body.length then .error (.malformed .bodyTooLong)
    else
      match Json.decodeText reading request.body with
      | .ok v => .ok v
      | .error refusal => .error (.malformed (.bodyRefused refusal))
  else .error (.malformed .bodyNotJson)

/-- The response to a computation that succeeded or failed. -/
def respond {α : Type} (encode : α → Json) (run : Run α) : Run Response := fun past =>
  let trace := run past
  { calls := trace.calls
    outcome := .ok <|
      match trace.outcome with
      | .ok v => .json 200 (encode v)
      | .error failure => failure.response }

def executorJson (executor : Executor) : Json :=
  .object [
    ("kind", .string executor.kind.name),
    ("description", .string executor.description),
    ("parameters", executor.parameterSchema)]

/-- The answer on a route to a request of an allowed method. -/
def answer (service : Service) (request : Request) : Route → Run Response
  | .health => .ok (.json 200 (.object [("status", .string "ok")]))
  | .actions => .ok (.json 200 (.array (service.registry.map executorJson)))
  | .treeSchema => .ok (.json 200 Schema.ofTree.encode)
  | .execution => respond Tree.encode do
    let submitted ← Run.ofExcept (readBody ExecutionRequest.layout.read request)
    service.execute submitted
  | .condition => respond (fun holds => .object [("result", .bool holds)]) do
    let submitted ← Run.ofExcept (readBody ConditionRequest.layout.read request)
    Run.ofExcept (Service.test submitted)

/-- Answers may be read from any origin. -/
def readable : List (String × String) :=
  [("access-control-allow-origin", "*"), ("access-control-expose-headers", "*")]

/-- Any origin may send any method with any headers. -/
def permissive : List (String × String) :=
  [("access-control-allow-headers", "*"), ("access-control-allow-methods", "*"),
    ("access-control-allow-origin", "*")]

def handle (service : Service) (request : Request) : Run Response :=
  match request.method, Route.ofPath? request.path with
  | .options, none => .ok { status := 200, headers := permissive }
  | .options, some route => .ok { status := 200, headers := route.allow :: permissive }
  | _, none => .ok { status := 404, headers := readable }
  | method, some route =>
    if route.methods.contains method then do
      let response ← answer service request route
      let response := response.withHeaders readable
      return if method = .head then response.headOnly else response
    else .ok { status := 405, headers := route.allow :: readable }

end Http

end Verdict
