import Verdict.Http.MediaType
import Verdict.Json.Basic

/-!
# Requests and responses
-/

namespace Verdict.Http

inductive Method
  | get
  | head
  | post
  | options
  | other
deriving DecidableEq, Repr, Inhabited

namespace Method

def ofName (name : String) : Method :=
  if name = "GET" then get
  else if name = "HEAD" then head
  else if name = "POST" then post
  else if name = "OPTIONS" then options
  else other

def name : Method → String
  | get => "GET"
  | head => "HEAD"
  | post => "POST"
  | options => "OPTIONS"
  | other => ""

end Method

structure Request where
  method : Method
  /-- The path, perhaps with a query behind it. -/
  target : String
  headers : List (String × String)
  body : List UInt8
deriving Repr, Inhabited

namespace Request

def path (request : Request) : String :=
  String.ofList (request.target.toList.takeWhile fun c => c != '?' && c != '#')

/-- The value of a header, whose name is given in lower case. -/
def header? (request : Request) (name : String) : Option String :=
  (request.headers.find? fun header => header.1.toLower == name).map (·.2)

/-- Whether the body is declared to be JSON. -/
def isJson (request : Request) : Bool :=
  ((request.header? "content-type").bind MediaType.read?).any MediaType.isJson

end Request

structure Response where
  status : Nat
  headers : List (String × String) := []
  body : Option Json := none
deriving BEq, Repr, Inhabited

namespace Response

def json (status : Nat) (body : Json) : Response :=
  ⟨status, [("content-type", "application/json")], some body⟩

def withHeaders (response : Response) (headers : List (String × String)) : Response :=
  { response with headers := response.headers ++ headers }

/-- The response without its body. -/
def headOnly (response : Response) : Response := { response with body := none }

end Response

end Verdict.Http
