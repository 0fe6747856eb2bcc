import CodeAtlas.Disk.IgnoreSign

/-!
The patterns of files that list what a repository ignores. They are matched byte by byte against the
path from the list's directory: `?` is a byte other than a slash, `*` a run of them, brackets hold a
set, braces hold alternatives, and `**` as a whole component is any number of components. The laws
say which bytes may stand between what comes before a run or a slash and what comes after it.
-/

namespace CodeAtlas

/-- A part of a pattern. -/
inductive IgnorePiece where
  | byte (b : UInt8)
  /-- A byte other than a slash. -/
  | any
  /-- A run of bytes other than slashes. -/
  | run
  /-- Any number of whole components at the beginning. -/
  | leading
  /-- A slash and whatever follows it. -/
  | trailing
  /-- A slash, or any number of whole components between two slashes. -/
  | between
  | set (negated : Bool) (ranges : List (UInt8 × UInt8))
  /-- One of several branches; without any it stands for nothing. -/
  | oneOf (branches : List (List IgnorePiece))

/-- The parts of a pattern, in order. -/
abbrev IgnorePattern : Type :=
  List IgnorePiece

namespace IgnorePattern

/-- The byte between the parts of a path. -/
def slash : UInt8 := 47

/-- Whether a test holds for the bytes or some end of them. -/
def someEnd (test : List UInt8 → Bool) : List UInt8 → Bool
  | [] => test []
  | b :: rest => test (b :: rest) || someEnd test rest

/-- Whether a test holds for what follows some slash. -/
def afterSlash (test : List UInt8 → Bool) : List UInt8 → Bool
  | [] => false
  | b :: rest => (b == slash && test rest) || afterSlash test rest

/-- Whether a test holds for the bytes after some run without a slash. -/
def afterRun (test : List UInt8 → Bool) : List UInt8 → Bool
  | [] => test []
  | b :: rest => test (b :: rest) || (b != slash && afterRun test rest)

/-- An end of the bytes is what is left behind any beginning of them. -/
theorem someEnd_iff {test : List UInt8 → Bool} {bytes : List UInt8} :
    someEnd test bytes = true ↔ ∃ before after, bytes = before ++ after ∧ test after = true := by
  induction bytes with
  | nil =>
    constructor
    · exact fun h => ⟨[], [], rfl, h⟩
    · rintro ⟨before, after, split, h⟩
      rwa [(List.nil_eq_append_iff.mp split).2] at h
  | cons b rest ih =>
    rw [someEnd, Bool.or_eq_true, ih]
    constructor
    · rintro (h | ⟨before, after, rfl, h⟩)
      · exact ⟨[], b :: rest, rfl, h⟩
      · exact ⟨b :: before, after, rfl, h⟩
    · rintro ⟨before, after, split, h⟩
      cases before with
      | nil => exact .inl (by simpa [split] using h)
      | cons c before => exact .inr ⟨before, after, (List.cons.inj split).2, h⟩

/-- What follows a slash stands behind it, whatever stands before it. -/
theorem afterSlash_iff {test : List UInt8 → Bool} {bytes : List UInt8} :
    afterSlash test bytes = true ↔
      ∃ before after, bytes = before ++ slash :: after ∧ test after = true := by
  induction bytes with
  | nil => simp [afterSlash]
  | cons b rest ih =>
    rw [afterSlash, Bool.or_eq_true, ih, Bool.and_eq_true, beq_iff_eq]
    constructor
    · rintro (⟨rfl, h⟩ | ⟨before, after, rfl, h⟩)
      · exact ⟨[], rest, rfl, h⟩
      · exact ⟨b :: before, after, rfl, h⟩
    · rintro ⟨before, after, split, h⟩
      cases before with
      | nil =>
        obtain ⟨first, tail⟩ := List.cons.inj split
        exact .inl ⟨first, by rw [tail]; exact h⟩
      | cons c before => exact .inr ⟨before, after, (List.cons.inj split).2, h⟩

/-- A run holds no slash, and any beginning without one is a run. -/
theorem afterRun_iff {test : List UInt8 → Bool} {bytes : List UInt8} :
    afterRun test bytes = true ↔
      ∃ run after, bytes = run ++ after ∧ slash ∉ run ∧ test after = true := by
  induction bytes with
  | nil =>
    constructor
    · exact fun h => ⟨[], [], rfl, List.not_mem_nil, h⟩
    · rintro ⟨run, after, split, _, h⟩
      rwa [(List.nil_eq_append_iff.mp split).2] at h
  | cons b rest ih =>
    rw [afterRun, Bool.or_eq_true, Bool.and_eq_true, ih, bne_iff_ne]
    constructor
    · rintro (h | ⟨other, run, after, rfl, none, h⟩)
      · exact ⟨[], b :: rest, rfl, List.not_mem_nil, h⟩
      · refine ⟨b :: run, after, rfl, ?_, h⟩
        rw [List.mem_cons, not_or]
        exact ⟨Ne.symm other, none⟩
    · rintro ⟨run, after, split, none, h⟩
      cases run with
      | nil => exact .inl (by simpa [split] using h)
      | cons c run =>
        obtain ⟨first, tail⟩ := List.cons.inj split
        rw [List.mem_cons, not_or] at none
        exact .inr ⟨by rw [first]; exact Ne.symm none.1, run, after, tail, none.2, h⟩

mutual

/-- Whether the part stands for a beginning of the bytes whose rest passes a test. -/
def pieceThen (test : List UInt8 → Bool) : IgnorePiece → List UInt8 → Bool
  | .run, bytes => afterRun test bytes
  | .leading, bytes => test bytes || afterSlash test bytes
  | .oneOf branches, bytes => branches.isEmpty && test bytes || someThen test branches bytes
  | .byte b, c :: bytes => b == c && test bytes
  | .any, c :: bytes => c != slash && test bytes
  | .trailing, c :: bytes => c == slash && someEnd test bytes
  | .between, c :: bytes => c == slash && (test bytes || afterSlash test bytes)
  | .set negated ranges, c :: bytes =>
    (ranges.any fun (low, high) => decide (low ≤ c) && decide (c ≤ high)) != negated && test bytes
  | _, [] => false

/-- Whether the parts stand for a beginning of the bytes whose rest passes a test. -/
def allThen (test : List UInt8 → Bool) : List IgnorePiece → List UInt8 → Bool
  | [], bytes => test bytes
  | piece :: pieces, bytes => pieceThen (allThen test pieces) piece bytes

/-- Whether some branch stands for a beginning of the bytes whose rest passes a test. -/
def someThen (test : List UInt8 → Bool) : List (List IgnorePiece) → List UInt8 → Bool
  | [], _ => false
  | branch :: branches, bytes => allThen test branch bytes || someThen test branches bytes

end

/-- Whether a pattern stands for a path; `**` alone stands for every path. -/
def fits : IgnorePattern → String → Bool
  | [.leading], _ => true
  | pieces, path => allThen List.isEmpty pieces path.toUTF8.toList

/-- The bytes of a character. -/
def bytesOf (c : Char) : List UInt8 :=
  (String.singleton c).toUTF8.toList

/-- Adds the bytes of a character to parts that are kept backwards. -/
def pushChar (c : Char) (read : List IgnorePiece) : List IgnorePiece :=
  ((bytesOf c).map IgnorePiece.byte).reverse ++ read

/-- The ranges of bytes that a range of characters stands for: the hyphen joins the last byte of the
first character to the first byte of the second, and the other bytes are members by themselves. -/
def byteRanges (first last : Char) : List (UInt8 × UInt8) :=
  let singles (bytes : List UInt8) := bytes.map fun b => (b, b)
  if first = last then singles (bytesOf first)
  else
    match (bytesOf first).getLast?, bytesOf last with
    | some low, high :: more => singles (bytesOf first).dropLast ++ (low, high) :: singles more
    | _, _ => []

/-- Whether the part stands for nothing whatever comes before and after it. -/
def isVoid : IgnorePiece → Bool
  | .oneOf branches => branches.isEmpty
  | _ => false

/-- The alternatives of braces; branches that stand for nothing do not count. -/
def choice (branches : List (List IgnorePiece)) : IgnorePiece :=
  .oneOf (branches.filter fun branch => !branch.all isVoid)

/-- The part for `**` after a slash, in place of the part before it. -/
def components (atEnd : Bool) : List IgnorePiece → List IgnorePiece
  | .leading :: earlier => .leading :: earlier
  | .trailing :: earlier => .trailing :: earlier
  | _ :: earlier => (if atEnd then .trailing else .between) :: earlier
  | [] => []

/-- What `**` makes of the parts so far, which are kept backwards, given the character before it and
the signs behind it, and whether it takes the slash behind it along. As a whole component it does;
within a component it is two runs. -/
def pushDoubleStar (inside : Bool) (before : Option Char) (read : List IgnorePiece)
    (rest : List IgnoreSign) : List IgnorePiece × Bool :=
  let atSlash := rest.head? == some (.plain '/' false)
  let atEnd := rest.isEmpty
  let atBranchEnd :=
    inside && (rest.head? == some .comma || rest.head? == some .closing)
  let startsComponent :=
    before == some '/' || (inside && (before == some ',' || before == some '\x7b'))
  if read.isEmpty && (atEnd || atSlash) then (.leading :: read, atSlash)
  else if !read.isEmpty && startsComponent && (atEnd || atBranchEnd) then
    (components true read, false)
  else if !read.isEmpty && startsComponent && atSlash then (components false read, true)
  else (.run :: .run :: read, false)

/-- Braces that are open: the parts before them, backwards, and their finished branches,
backwards. -/
structure OpenBraces where
  outer : List IgnorePiece
  branches : List (List IgnorePiece)

/-- Reads on with the parts of the current branch, backwards, after the character `before`. All
braces have to be closed in the end. -/
def ofSigns? (opened : List OpenBraces) (before : Option Char) (read : List IgnorePiece) :
    List IgnoreSign → Option IgnorePattern
  | [] => if opened.isEmpty then some read.reverse else none
  | sign :: rest =>
    match sign with
    | .plain c _ => ofSigns? opened (some c) (pushChar c read) rest
    | .question => ofSigns? opened (some '?') (.any :: read) rest
    | .star => ofSigns? opened (some '*') (.run :: read) rest
    | .doubleStar =>
      match pushDoubleStar (!opened.isEmpty) before read rest, rest with
      | (read, true), _ :: rest => ofSigns? opened (some '/') read rest
      | (read, _), rest => ofSigns? opened (some '*') read rest
    | .brackets negated members =>
      let ranges := members.flatMap fun (first, last) => byteRanges first last
      ofSigns? opened (some ']') (.set negated ranges :: read) rest
    | .opening => ofSigns? (⟨read, []⟩ :: opened) (some '\x7b') [] rest
    | .comma =>
      match opened with
      | [] => ofSigns? [] (some ',') (pushChar ',' read) rest
      | inner :: opened =>
        ofSigns? (⟨inner.outer, read.reverse :: inner.branches⟩ :: opened) (some ',') [] rest
    | .closing =>
      match opened with
      | [] => none
      | inner :: opened =>
        let branches := (read.reverse :: inner.branches).reverse
        ofSigns? opened (some '\x7d') (choice branches :: inner.outer) rest

/-- Plain characters make a pattern of their bytes. -/
theorem ofSigns?_plain (before : Option Char) (read : List IgnorePiece) (cs : List Char) :
    ofSigns? [] before read (cs.map (IgnoreSign.plain · true)) =
      some (read.reverse ++ cs.flatMap fun c => (bytesOf c).map .byte) := by
  induction cs generalizing before read with
  | nil => simp [ofSigns?]
  | cons c rest ih => simp [ofSigns?, ih, pushChar]

/-- Reads a pattern. -/
def parse? (text : List Char) : Option IgnorePattern :=
  (IgnoreSign.ofText? true text).bind (ofSigns? [] none [])

end IgnorePattern

end CodeAtlas
