import CodeAtlas.Fault
import CodeAtlas.Text.Path

/-!
References to repositories: owner and name with a slash between them, and after an at sign the
branch, if one is meant. Where a token is given, it goes to the host of such a repository and to no
directory on disk.
-/

namespace CodeAtlas

/-- A repository, on its default branch unless one is named. -/
structure RepoReference where
  owner : String
  repo : String
  branch : Option String
  deriving Repr, DecidableEq, Inhabited

namespace RepoReference

/-- A reference as it is written. -/
def text (r : RepoReference) : String :=
  r.owner ++ "/" ++ r.repo ++ ((r.branch.map ("@" ++ ·)).getD "")

/-- The fault of a reference that has no form at all. -/
def malformed (reference : String) : Fault :=
  .config ("invalid repository reference '" ++ reference ++ "', expected owner/repo[@branch]")

/-- The fault of a reference that ends at its at sign. -/
def emptyBranch (reference : String) : Fault :=
  .config ("invalid repository reference '" ++ reference ++ "', branch after '@' is empty")

/-- Cuts a text at the first place where a character stands. -/
def cutAt (sep : Char) (cs : List Char) : List Char × Option (List Char) :=
  match cs.dropWhile (· ≠ sep) with
  | [] => (cs, none)
  | _ :: after => (cs.takeWhile (· ≠ sep), some after)

/-- Reads a reference: the first at sign starts the branch, the first slash before it the name. -/
def parse (reference : String) : Except Fault RepoReference :=
  let (ownerRepo, branch) := cutAt '@' reference.toList
  if branch = some [] then .error (emptyBranch reference)
  else
    match cutAt '/' ownerRepo with
    | (owner, some repo) =>
      if owner = [] ∨ repo = [] ∨ '/' ∈ repo then .error (malformed reference)
      else .ok ⟨String.ofList owner, String.ofList repo, branch.map String.ofList⟩
    | (_, none) => .error (malformed reference)

end RepoReference

/-- A secret that is sent to a repository's host; the empty one stands for none. -/
structure Credential where
  secret : String
  deriving DecidableEq, Inhabited

namespace Credential

/-- The credential of someone who has none. -/
def anonymous : Credential :=
  ⟨""⟩

/-- Whether there is no secret. -/
def isAbsent (c : Credential) : Bool :=
  c.secret == ""

/-- What is shown of a credential: never the secret. -/
def shown (_ : Credential) : String :=
  "Credential(***)"

end Credential

/-- Where the sources of a graph come from. -/
inductive RepoOrigin where
  /-- A directory on disk; its name is the name of the repository. -/
  | directory (path name : String)
  | hosted (reference : RepoReference)
  deriving Repr, DecidableEq

namespace RepoOrigin

/-- The owner of every directory on disk. -/
def directoryOwner : String :=
  "local"

/-- The owner of a repository. -/
def owner : RepoOrigin → String
  | directory _ _ => directoryOwner
  | hosted r => r.owner

/-- The name of a repository. -/
def repo : RepoOrigin → String
  | directory _ name => name
  | hosted r => r.repo

/-- The branch that is asked for, if one is. -/
def branch : RepoOrigin → Option String
  | directory _ _ => none
  | hosted r => r.branch

/-- The credential for a source, given the token of the settings. -/
def credential (token : Option String) : RepoOrigin → Credential
  | directory _ _ => .anonymous
  | hosted _ => ⟨token.getD ""⟩

end RepoOrigin

end CodeAtlas
