import CodeAtlas.Graph.Adjacency
import CodeAtlas.Pattern.Basic
import CodeAtlas.Scalar

/-!
Entry points of flows. A function or class scores for what it calls, for a name that tells of an
entry point, and for not being called itself.
-/

namespace CodeAtlas

namespace EntryPoint

open Pattern

/-- Whether two characters are the same letter in any case. Besides the two cases of the Latin
letters, the long s and the Kelvin sign count as forms of s and k. -/
def sameLetter (letter c : Char) : Bool :=
  c.toLower == letter.toLower || (letter.toLower == 's' && c.toNat == 0x17F) ||
    (letter.toLower == 'k' && c.toNat == 0x212A)

/-- A text whose letters may be in any case. -/
def anyCase (s : String) : Pattern :=
  sequence (s.toList.map fun letter => one (sameLetter letter))

/-- The first of several texts that fits, in any case. -/
def anyCaseOf (texts : List String) : Pattern :=
  oneOf (texts.map anyCase)

/-- A capital Latin letter. -/
def capital (c : Char) : Bool :=
  c.isUpper

/-- A Latin letter in any case, or one of their two further forms. -/
def letter (c : Char) : Bool :=
  c.isAlpha || c.toNat == 0x17F || c.toNat == 0x212A

/-- Patterns of names, each with its bonus. -/
def bonusPatterns : List (Pattern × Float) :=
  [(sequence [textStart, anyCaseOf ["main", "run", "start", "serve", "bootstrap", "app"], textEnd],
      2.5),
    (sequence [textStart,
      anyCaseOf ["get", "post", "put", "patch", "delete", "head", "options"], textEnd], 2.0),
    (alt (sequence [textStart, literal "handle", one fun c => capital c || c == '_'])
      (seq (anyCase "handler") textEnd), 2.0),
    (anyCaseOf ["controller", "router", "route", "endpoint", "resolver", "rpc"], 1.5),
    (seq textStart (oneOf [anyCase "init", anyCase "initialize", anyCase "setup",
      anyCase "bootstrap", anyCase "start",
      sequence [anyCase "create", optional (char '_'), anyCase "app"], anyCase "register"]), 1.5),
    (alt (anyCase "middleware") (sequence [textStart, anyCase "use", one letter]), 1.0),
    (alt (sequence [textStart, literal "on", one fun c => capital c || c == '_'])
      (sequence [textStart, anyCase "on", char '_']), 1.0),
    (sequence [textStart, anyLiteral ["componentDidMount", "componentWillUnmount", "ngOnInit",
      "ngOnDestroy", "mounted", "created", "__init__", "__call__", "teardown", "dispose"],
      textEnd], 1.0)]

/-- The largest bonus of the patterns that a name fits. -/
def bonusOf (name : String) : Float :=
  ((bonusPatterns.filter fun (p, _) => p.fits name.toList).map (·.2)).foldl Scalar.max 0.0

/-- How many entry points are followed at most. -/
def mostEntries : Nat := 30

/-- The score of the node at a position. -/
def score (ix : Adjacency) (position : Nat) (label : String) : Float :=
  let outgoing := (ix.outgoing position [.calls]).length
  let incoming := (ix.incoming position [.calls]).length
  let score := 0.5 * Float.ofNat outgoing + bonusOf label
  if 0 < outgoing && incoming == 0 then score + 2.0 else score

/-- The positions with a positive score, best first, those of equal score in order of their ids. -/
def candidates (ix : Adjacency) : List (Nat × Float) :=
  let scored := ix.nodes.toList.zipIdx.filterMap fun (n, i) =>
    if n.kind.isCallable then some (i, score ix i n.label) else none
  Scalar.ranked (·.2) (fun a b => decide (ix.idAt a.1 ≤ ix.idAt b.1))
    (scored.filter fun c => decide (0.0 < c.2))

/-- The entry points that are followed, with their scores. -/
def top (ix : Adjacency) : List (Nat × Float) :=
  (candidates ix).take mostEntries

end EntryPoint

end CodeAtlas
