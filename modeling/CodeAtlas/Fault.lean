/-!
What can go wrong, by cause, and the text of each cause.
-/

namespace CodeAtlas

/-- The causes for which an operation fails. -/
inductive Fault where
  /-- A file could not be read or written. -/
  | io (message : String)
  /-- A setting or a reference has no meaning. -/
  | config (message : String)
  /-- The repository's host refused a request or lacks what was asked for. -/
  | provider (message : String)
  /-- The repository's host answered with a status that is no success. -/
  | providerStatus (status : Nat) (message : String)
  /-- The repository's host could not be reached. -/
  | providerUnreachable (message : String)
  /-- A source could not be read as code. -/
  | parse (message : String)
  /-- The language model failed or answered nonsense. -/
  | model (message : String)
  /-- The caller gave up. -/
  | cancelled
  /-- An attempt took longer than its budget, given in milliseconds. -/
  | timeout (operation : String) (budget : Nat)
  /-- A value could not be read as JSON of the expected shape. -/
  | serialization
  /-- A configuration file is not TOML of the expected shape. -/
  | toml
  /-- Nothing has the name that was given. -/
  | notFound (message : String)
  deriving Repr, DecidableEq, Inhabited

namespace Fault

/-- What is said about a fault. -/
def message : Fault → String
  | io m => "IO error: " ++ m
  | config m => "configuration error: " ++ m
  | provider m => "repository provider error: " ++ m
  | providerStatus status m =>
    "repository provider error: HTTP " ++ toString status ++ ": " ++ m
  | providerUnreachable m => "repository provider unreachable: " ++ m
  | parse m => "parse error: " ++ m
  | model m => "LLM error: " ++ m
  | cancelled => "operation cancelled"
  | timeout operation budget =>
    operation ++ " timed out after " ++ toString (budget / 1000) ++ "s"
  | serialization => "serialization error"
  | toml => "TOML parse error"
  | notFound m => "not found: " ++ m

/-- Statuses after which the same request may succeed. -/
def retryStatuses : List Nat :=
  [429, 500, 502, 503, 504]

/-- Whether the same request may succeed after a fault. -/
def mayPass : Fault → Bool
  | timeout _ _ => true
  | providerUnreachable _ => true
  | providerStatus status _ => retryStatuses.contains status
  | _ => false

end Fault

end CodeAtlas
