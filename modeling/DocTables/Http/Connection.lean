/-! Connections to a remote store, and how the environment overrides them. -/
namespace DocTables

/-- Where a store is and how to speak to it. The timeout is in seconds. -/
structure Connection where
  address : String := "https://api.notion.com"
  token : String := ""
  version : String := "2025-09-03"
  timeout : Nat := 30
  deriving DecidableEq, Repr

inductive ConnectionError where
  | noToken
  deriving DecidableEq, Repr

namespace Connection

def tokenVariable : String := "DOCORM_API_TOKEN"

def addressVariable : String := "DOCORM_BASE_URL"

def versionVariable : String := "DOCORM_API_VERSION"

def trimSlashes (s : String) : String :=
  String.ofList (s.toList.reverse.dropWhile (· == '/')).reverse

/-- A connection with the variables that are set and not empty in place of its own settings. -/
def withVariables (lookup : String → Option String) (c : Connection) : Connection :=
  let set? (name : String) := (lookup name).filter fun v => v ≠ ""
  { c with
    token := (set? tokenVariable).getD c.token
    address := ((set? addressVariable).map trimSlashes).getD c.address
    version := (set? versionVariable).getD c.version }

/-- Nothing is asked without a token. -/
def authorized (c : Connection) : Except ConnectionError Connection :=
  if c.token = "" then .error .noToken else .ok c

/-- The usual connection as the environment sets it. -/
def ofEnvironment (lookup : String → Option String) : Except ConnectionError Connection :=
  (withVariables lookup {}).authorized

end Connection

namespace ConnectionError

def message : ConnectionError → String
  | noToken => Connection.tokenVariable ++ " is not set"

end ConnectionError
end DocTables
