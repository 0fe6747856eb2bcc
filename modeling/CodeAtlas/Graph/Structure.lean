/-!
Communities and flows: the two kinds of structure that are read off the edges of a graph.
-/

namespace CodeAtlas

/-- A cluster of symbols. -/
structure Community where
  id : String
  /-- Where most members live, and the word most common in their names. -/
  name : String
  keywords : List String
  /-- The share of pairs of members that are joined. -/
  cohesion : Float
  symbolCount : Nat
  memberIds : List String
  deriving Repr, Inhabited

/-- A path of calls from an entry point. -/
structure Flow where
  id : String
  name : String
  entryPoint : String
  terminalPoint : String
  /-- The ids of the nodes on the path. -/
  steps : List String
  stepCount : Nat
  /-- Whether the steps belong to more than one community. -/
  crossCommunity : Bool
  deriving Repr, DecidableEq, Inhabited

end CodeAtlas
