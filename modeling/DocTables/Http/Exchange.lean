import DocTables.Http.Status
import DocTables.Http.Url
import DocTables.Json.Reader
import DocTables.Store.Call

/-!
Exchanges over HTTP: a client writes requests to the resources of a remote store and reads the
answers, which come in the order of the requests.
-/
namespace DocTables.Http

inductive Verb where
  | get | post | patch
  deriving DecidableEq, Repr

namespace Verb

def name : Verb → String
  | get => "GET"
  | post => "POST"
  | patch => "PATCH"

end Verb

structure Request where
  verb : Verb
  target : Url.Target
  authorization : String
  version : String
  body : Option Json

structure Response where
  status : Nat
  body : String

namespace Response

/-- The text of an answer, without the mark of its byte order. -/
def text (r : Response) : List Char :=
  if isBodiless r.status then []
  else
    match r.body.toList with
    | '\ufeff' :: cs => cs
    | cs => cs

/-- What an answer to a request for `path` says. -/
def interpret {α : Type} (path : String) (read : Json.Outline → Option α) (r : Response) :
    Except StoreError α :=
  if isInterim r.status then .error .noResponse
  else if isSuccess r.status then
    match (if isBodiless r.status then none else Json.Outline.ofText? r.body).bind read with
    | some a => .ok a
    | none => .error (.badBody path)
  else .error (.badStatus path (statusText r.status) (String.ofList r.text))

end Response

/-- The requests made so far, and the answers that are still to come, in their order. -/
structure Exchange where
  requests : List Request
  responses : List Response

/-- Who asks: what the base address has behind its host, the token, and the interface version. -/
structure Client where
  basePath : String
  token : String
  version : String

/-- A text that a header may hold. -/
def isHeaderText (s : String) : Bool :=
  s.toList.all fun c => c = '\t' || (0x20 ≤ c.toNat && c.toNat ≠ 0x7F)

/-- The paths of the interface, with ids as they are. -/
inductive Resource where
  | databases
  | database (id : String)
  | dataSource (id : String)
  | dataSourceQuery (id : String)
  | pages
  | page (id : String)
  deriving DecidableEq, Repr

namespace Resource

def path : Resource → String
  | databases => "databases"
  | database id => "databases/" ++ id
  | dataSource id => "data_sources/" ++ id
  | dataSourceQuery id => "data_sources/" ++ id ++ "/query"
  | pages => "pages"
  | page id => "pages/" ++ id

end Resource

namespace Client

def target? (c : Client) (r : Resource) : Option Url.Target :=
  Url.target? (c.basePath ++ "/v1/" ++ r.path)

/-- The request for a resource, when it can be written. -/
def request? (c : Client) (verb : Verb) (r : Resource) (body : Option Json) : Option Request := do
  let target ← c.target? r
  if isHeaderText c.token && isHeaderText c.version then
    return ⟨verb, target, "Bearer " ++ c.token, c.version, body⟩
  else none

/-- Makes a request and reads its answer. -/
def ask {α : Type} (c : Client) (verb : Verb) (r : Resource) (body : Option Json)
    (read : Json.Outline → Option α) : StoreM Exchange α := fun x =>
  match c.request? verb r body with
  | none => (.error .noResponse, x)
  | some request =>
    let x := { x with requests := x.requests ++ [request] }
    match x.responses with
    | [] => (.error .noResponse, x)
    | response :: rest =>
      (response.interpret request.target.path read, { x with responses := rest })

end Client

end DocTables.Http
