import CodeAtlas.Graph.Basic
import CodeAtlas.Settings

/-!
A cache of graphs, one for each repository. An entry is live for a fixed time after it was inserted
and answers requests for its branch; the cache holds a bounded number of entries and gives up those
that expire first. Time is counted in milliseconds and never runs backwards, but the clock has an
end: whoever keeps a graph that would be live beyond it is stopped.

Every operation is made of the steps that nothing else can come between: reading the store, judging
what was read, removing an entry that is still expired, inserting, and invalidating.
-/

namespace CodeAtlas

/-- A graph in the cache. -/
structure StoredGraph where
  graph : RepoGraph
  /-- The branch that was asked for when the graph was built; absent for the default branch. -/
  requestedBranch : Option String
  /-- The first moment at which the entry is no longer live. -/
  expiresAt : Nat
  deriving Repr, Inhabited

namespace StoredGraph

/-- Whether the entry answers a request for a branch. A build of the default branch also answers
requests that name the branch it turned out to be. -/
def answersFor (e : StoredGraph) : Option String → Bool
  | none => e.requestedBranch.isNone
  | some branch => e.graph.branch == branch

/-- Whether the entry is live at a moment. -/
def isLive (e : StoredGraph) (now : Nat) : Bool :=
  decide (now < e.expiresAt)

end StoredGraph

/-- The end of the clock, which counts seconds in 63 bits. -/
def clockEnd : Nat :=
  9223372036854775808 * 1000

/-- Graphs by the names of their repositories, at most one for each, with counts of what happened to
the requests. -/
structure GraphStore where
  /-- How long an entry is live. -/
  ttl : Nat
  /-- How many entries there may be, at least one. -/
  capacity : Nat
  entries : List (String × StoredGraph)
  hits : Nat
  misses : Nat
  /-- How many live entries had to make room. -/
  evictions : Nat
  deriving Repr, Inhabited

namespace GraphStore

/-- The empty cache with the limits of the settings. -/
def empty (s : CacheSettings) : GraphStore :=
  ⟨s.ttlSecs * 1000, max s.capacity 1, [], 0, 0, 0⟩

/-- The name under which the graph of a repository is kept. -/
def keyOf (owner repo : String) : String :=
  owner ++ "/" ++ repo

/-- The entry under a name. -/
def find? (c : GraphStore) (key : String) : Option StoredGraph :=
  (c.entries.find? (·.1 == key)).map (·.2)

/-- The cache without the entry under a name. -/
def erase (c : GraphStore) (key : String) : GraphStore :=
  { c with entries := c.entries.filter (·.1 != key) }

/-- The cache with an entry under a name, in the place of the one that is there. -/
def put (c : GraphStore) (key : String) (e : StoredGraph) : GraphStore :=
  { c with entries := (c.erase key).entries ++ [(key, e)] }

/-- What a request makes of the entry it has read. -/
inductive Judgement where
  | absent
  | expired
  | otherBranch
  | hit (graph : RepoGraph)

/-- Judges what was read at a moment that may be later. -/
def judge (read : Option StoredGraph) (now : Nat) (branch : Option String) : Judgement :=
  match read with
  | none => .absent
  | some e =>
    if !e.isLive now then .expired
    else if e.answersFor branch then .hit e.graph
    else .otherBranch

/-- Counts a request by what became of it. -/
def count (c : GraphStore) : Judgement → GraphStore
  | .hit _ => { c with hits := c.hits + 1 }
  | _ => { c with misses := c.misses + 1 }

/-- Removes the entry under a name, unless it is live. -/
def dropExpired (c : GraphStore) (now : Nat) (key : String) : GraphStore :=
  match c.find? key with
  | some e => if e.isLive now then c else c.erase key
  | none => c

/-- The graph that answers a request, where there is one, and the cache after the request. -/
def get (c : GraphStore) (now : Nat) (owner repo : String) (branch : Option String) :
    Option RepoGraph × GraphStore :=
  let key := keyOf owner repo
  match judge (c.find? key) now branch with
  | .hit graph => (some graph, c.count (.hit graph))
  | .expired => (none, (c.dropExpired now key).count .expired)
  | other => (none, c.count other)

/-- The order in which entries give way: those that expire first, then by name. -/
def givesWayBefore (a b : String × StoredGraph) : Bool :=
  if a.2.expiresAt < b.2.expiresAt then true
  else if b.2.expiresAt < a.2.expiresAt then false
  else decide (a.1 ≤ b.1)

/-- The live entries under other names than the given one, those that give way first in front. -/
def others (c : GraphStore) (now : Nat) (key : String) : List (String × StoredGraph) :=
  (c.entries.filter fun (k, e) => e.isLive now && k != key).mergeSort givesWayBefore

/-- How many of so many other entries have to make room for one more. -/
def excess (c : GraphStore) (others : Nat) : Nat :=
  min (others + 1 - c.capacity) others

/-- The entries that have to make room for one under a name. -/
def outgoing (c : GraphStore) (now : Nat) (key : String) : List (String × StoredGraph) :=
  let others := c.others now key
  others.take (c.excess others.length)

/-- Expired entries go, then as many live ones as one more entry under a name demands. -/
def makeRoom (c : GraphStore) (now : Nat) (key : String) : GraphStore :=
  let outgoing := c.outgoing now key
  { c with
    entries := c.entries.filter fun (k, e) => e.isLive now && outgoing.all (·.1 != k)
    evictions := c.evictions + outgoing.length }

/-- The moment at which an entry of now expires, if the clock reaches it. -/
def expiry? (c : GraphStore) (now : Nat) : Option Nat :=
  if now + c.ttl < clockEnd then some (now + c.ttl) else none

/-- Whether a caller who keeps a graph now is stopped. -/
def stops (c : GraphStore) (now : Nat) : Bool :=
  (c.expiry? now).isNone

/-- Keeps a graph that was built for a request, after room was made for it. A caller who is stopped
has made the room, but nothing is kept. -/
def insert (c : GraphStore) (now : Nat) (graph : RepoGraph) (requested : Option String) :
    GraphStore :=
  let c := c.makeRoom now graph.key
  match c.expiry? now with
  | some moment => c.put graph.key ⟨graph, requested, moment⟩
  | none => c

/-- Drops the graph of a repository; whether there was one comes with the cache. -/
def invalidate (c : GraphStore) (owner repo : String) : Bool × GraphStore :=
  let key := keyOf owner repo
  ((c.find? key).isSome, c.erase key)

/-- The graph that answers a request: the one that is kept, else the one that a build gives after
some time, which is kept from then on. Nothing is kept of a build that fails. The outcome does not reach
a caller who is stopped. -/
def getElse (c : GraphStore) (now : Nat) (owner repo : String) (branch : Option String)
    (build : Unit → Except Fault RepoGraph) (took : Nat := 0) :
    Except Fault RepoGraph × GraphStore :=
  match c.get now owner repo branch with
  | (some graph, c) => (.ok graph, c)
  | (none, c) =>
    match build () with
    | .ok graph => (.ok graph, c.insert (now + took) graph branch)
    | .error e => (.error e, c)

/-- Whether a request that may build is stopped: it builds, and what it has built cannot be kept. -/
def stopsElse (c : GraphStore) (now : Nat) (owner repo : String) (branch : Option String)
    (build : Unit → Except Fault RepoGraph) (took : Nat := 0) : Bool :=
  match c.get now owner repo branch with
  | (some _, _) => false
  | (none, c) =>
    match build () with
    | .ok _ => c.stops (now + took)
    | .error _ => false

end GraphStore

end CodeAtlas
