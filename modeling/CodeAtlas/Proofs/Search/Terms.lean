import CodeAtlas.Proofs.Clustering.Partition
import CodeAtlas.Proofs.Text.Tally
import CodeAtlas.Search.Engine

/-!
# Terms are words

A text is cut into terms from its end and a name into words from its start, by one rule of where a word
begins. Both give the same pieces, of which the terms leave out the single characters. A blank is always
between two words, so that the terms of a text are those of its parts, and every word that names a
community finds one of its members.
-/

namespace CodeAtlas

namespace Text

/-! ### Words of a name -/

theorem lowerChar_ne_nil (c : Char) : lowerChar c ≠ [] := by
  unfold lowerChar
  split_ifs
  · simp
  · simp
  · split <;> simp

/-- A blank after a letter does not begin a word there, as nothing does. -/
theorem startsWord_blank (before : Char) :
    startsWord before (some ' ') = startsWord before none := by
  have blank : isLowercase ' ' = false := by decide
  simp [startsWord, blank]

/-- What follows a blank is split by itself. -/
theorem splitFrom_append (word : List Char) (before : Char) (left right : List Char) :
    splitFrom word before (left ++ ' ' :: right) =
      splitFrom word before left ++ splitFrom [] ' ' right := by
  induction left generalizing word before with
  | nil =>
    have blank : isAlphanumeric ' ' = false := by decide
    simp [splitFrom, blank]
  | cons c rest ih =>
    have starts : startsWord before (rest ++ ' ' :: right).head? = startsWord before rest.head? := by
      cases rest with
      | nil => exact startsWord_blank before
      | cons d more => rfl
    simp only [List.cons_append, splitFrom, ih, starts]
    split_ifs
    · simp
    · simp
    · rfl

theorem nameWords_append (a b : String) : nameWords (a ++ " " ++ b) = nameWords a ++ nameWords b := by
  have split : (a ++ " " ++ b).toList = a.toList ++ ' ' :: b.toList := by simp
  rw [nameWords, split, splitFrom_append, List.map_append]
  rfl

/-- No word is empty. -/
theorem ne_nil_of_mem_splitFrom {piece word cs : List Char} {before : Char}
    (member : piece ∈ splitFrom word before cs) : piece ≠ [] := by
  have closed : ∀ {word : List Char}, piece ∈ closeWord word → piece ≠ [] := by
    intro word member
    by_cases none : word = []
    · simp [closeWord, none] at member
    · simp_all [closeWord]
  induction cs generalizing word before with
  | nil => exact closed member
  | cons c rest ih =>
    rw [splitFrom] at member
    split_ifs at member with ends begins
    · exact (List.mem_append.mp member).elim closed ih
    · simp only [Bool.and_eq_true, Bool.not_eq_true', List.isEmpty_eq_false_iff] at begins
      cases List.mem_cons.mp member with
      | inl same => simpa [same] using begins.1.2
      | inr later => exact ih later
    · exact ih member

end Text

namespace Search

open Text

/-! ### Terms of a text -/

section

variable {c d : Char} {rest more piece : List Char} {pieces : List (List Char)}

/-- Where a character goes on with the word after it, it is put before the first piece. -/
theorem cut_cons_cons (word : isAlphanumeric c = true) : cut (c :: d :: more) =
    match cut (d :: more) with
    | piece :: pieces =>
      if joined c d more.head? then (c :: piece) :: pieces else [c] :: piece :: pieces
    | [] => [[c]] := by
  rw [cut.eq_def]
  simp only [word, Bool.not_true, Bool.false_eq_true, if_false]
  generalize cut (d :: more) = after
  cases after <;> rfl

theorem cut_cons_of_apart (word : isAlphanumeric c = true) (apart : joined c d more.head? = false) :
    cut (c :: d :: more) = [c] :: cut (d :: more) := by
  rw [cut_cons_cons word]
  cases cut (d :: more) <;> simp [apart]

theorem cut_cons_of_joined (joins : joined c d more.head? = true)
    (found : cut (d :: more) = piece :: pieces) :
    cut (c :: d :: more) = (c :: piece) :: pieces := by
  have word : isAlphanumeric c = true := by
    simp only [joined, Bool.and_eq_true] at joins
    exact joins.1.1
  rw [cut_cons_cons word, found]
  simp [joins]

theorem splitFrom_of_joined {word : List Char} (joins : joined c d more.head? = true) :
    splitFrom word c (d :: more) = splitFrom ((lowerChar d).reverse ++ word) d more := by
  simp only [joined, Bool.and_eq_true, Bool.not_eq_true'] at joins
  have goesOn : (isUppercase d && !word.isEmpty && startsWord c more.head?) = false := by
    rw [Bool.and_right_comm, joins.2, Bool.false_and]
  simp [splitFrom, joins.1.2, goesOn]

theorem splitFrom_of_apart {word : List Char} (opened : word ≠ []) (before : isAlphanumeric c = true)
    (after : isAlphanumeric d = true) (apart : joined c d more.head? = false) :
    splitFrom word c (d :: more) = word.reverse :: splitFrom (lowerChar d).reverse d more := by
  simp only [joined, before, after, Bool.true_and, Bool.not_eq_false', Bool.and_eq_true] at apart
  simp [splitFrom, after, opened, apart]

theorem splitFrom_of_ends {word : List Char} (ends : isAlphanumeric d = false) :
    splitFrom word c (d :: more) = closeWord word ++ splitFrom [] d more := by
  simp [splitFrom, ends]

/-- A word as it is listed, in lower case. -/
def lowered (word : List Char) : List Char :=
  word.flatMap lowerChar

theorem lowered_append (word word' : List Char) :
    lowered (word ++ word') = lowered word ++ lowered word' :=
  List.flatMap_append

theorem lowered_singleton (c : Char) : lowered [c] = lowerChar c :=
  List.flatMap_singleton _ _

theorem lowered_reverse_ne_nil (word : List Char) (c : Char) : (lowered (word ++ [c])).reverse ≠ [] := by
  simp [lowered_append, lowered_singleton, lowerChar_ne_nil]

/-- Both ways to cut a text agree on it, at its beginning and where a word has been opened. What has been
opened are some characters and a last one, from which the text goes on. -/
structure Agree (rest : List Char) : Prop where
  closed : ∀ before, splitFrom [] before rest = (cut rest).map lowered
  opened : ∀ (word : List Char) (c : Char), isAlphanumeric c = true →
    ∃ piece pieces, cut (c :: rest) = piece :: pieces ∧
      splitFrom (lowered (word ++ [c])).reverse c rest =
        lowered (word ++ piece) :: pieces.map lowered

theorem closeWord_lowered (word : List Char) (c : Char) :
    closeWord (lowered (word ++ [c])).reverse = [lowered (word ++ [c])] := by
  rw [closeWord, if_neg (by simpa using lowered_reverse_ne_nil word c), List.reverse_reverse]

/-- Where a word has been opened, the next character goes on with it, begins a word, or ends it. -/
theorem Agree.opened_cons (agree : Agree more) (word : List Char) (isWord : isAlphanumeric c = true) :
    ∃ piece pieces, cut (c :: d :: more) = piece :: pieces ∧
      splitFrom (lowered (word ++ [c])).reverse c (d :: more) =
        lowered (word ++ piece) :: pieces.map lowered := by
  by_cases joins : joined c d more.head? = true
  · have isWord' : isAlphanumeric d = true := by
      simp only [joined, Bool.and_eq_true] at joins
      exact joins.1.2
    obtain ⟨piece, pieces, found, split⟩ := agree.opened (word ++ [c]) d isWord'
    refine ⟨c :: piece, pieces, cut_cons_of_joined joins found, ?_⟩
    have longer : (lowerChar d).reverse ++ (lowered (word ++ [c])).reverse =
        (lowered (word ++ [c] ++ [d])).reverse := by
      rw [lowered_append (word ++ [c]), lowered_singleton, List.reverse_append]
    rw [splitFrom_of_joined joins, longer, split, List.append_assoc, List.singleton_append]
  · have apart : joined c d more.head? = false := by simpa using joins
    refine ⟨[c], cut (d :: more), cut_cons_of_apart isWord apart, ?_⟩
    by_cases isWord' : isAlphanumeric d = true
    · obtain ⟨piece, pieces, found, split⟩ := agree.opened [] d isWord'
      rw [List.nil_append, lowered_singleton, List.nil_append] at split
      rw [splitFrom_of_apart (lowered_reverse_ne_nil word c) isWord isWord' apart, split, found,
        List.reverse_reverse, List.map_cons]
    · have ends : isAlphanumeric d = false := by simpa using isWord'
      have skipped : cut (d :: more) = cut more := by simp [cut, ends]
      rw [splitFrom_of_ends ends, closeWord_lowered, agree.closed, skipped, List.singleton_append]

theorem agree (rest : List Char) : Agree rest := by
  -- The words of a name are known only where they end: for the induction, the one that is open may hold
  -- anything, and it is the first piece of the rest that goes on with it.
  induction rest with
  | nil =>
    refine ⟨fun before => rfl, ?_⟩
    intro word c isWord
    refine ⟨[c], [], by simp [cut, isWord], ?_⟩
    rw [splitFrom, closeWord_lowered, List.map_nil]
  | cons d more ih =>
    refine ⟨?_, fun word c isWord => ih.opened_cons word isWord⟩
    intro before
    by_cases isWord : isAlphanumeric d = true
    · obtain ⟨piece, pieces, found, split⟩ := ih.opened [] d isWord
      rw [List.nil_append, lowered_singleton, List.nil_append] at split
      simp [splitFrom, isWord, found, split]
    · simp [splitFrom, cut, isWord, closeWord, ih.closed]

end

theorem splitFrom_eq_cut (before : Char) (cs : List Char) :
    splitFrom [] before cs = (cut cs).map lowered :=
  (agree cs).closed before

/-- The terms of a text are its words, without those of a single character. -/
theorem termsOf_eq (text : String) :
    termsOf text = (nameWords text).filter fun word => word.length ≠ 1 := by
  have pieces : (cut text.toList).map (·.flatMap lowerChar) = splitFrom [] ' ' text.toList :=
    (splitFrom_eq_cut ' ' text.toList).symm
  rw [termsOf, nameWords, pieces, List.filter_map]
  refine congrArg _ ?_
  apply List.filter_congr
  intro word member
  have some := List.length_pos_of_ne_nil (ne_nil_of_mem_splitFrom member)
  simp only [Function.comp_apply, String.length_ofList]
  grind

/-- A capital with a small letter after it begins a word, and a single character is no term. -/
example : termsOf "x.HTTPServer2Go" = ["http", "server2", "go"] := by
  decide +kernel

theorem termsOf_append (a b : String) : termsOf (a ++ " " ++ b) = termsOf a ++ termsOf b := by
  rw [termsOf_eq, termsOf_eq, termsOf_eq, nameWords_append, List.filter_append]

/-- A node is found under the terms of its name. -/
theorem mem_terms_ofNode {n : Node} {term : String} (listed : term ∈ termsOf n.label) :
    term ∈ (Document.ofNode n).terms := by
  have text : Document.textOf n = n.label ++ " " ++
      (n.kind.name ++ " " ++ n.filePath ++ " " ++ n.directory ++ " " ++ n.language) := by
    simp [Document.textOf, String.append_assoc]
  rw [Document.terms, List.mem_eraseDups, Document.ofNode, text, termsOf_append]
  exact List.mem_append_left _ listed

end Search

/-! ### Keywords of a community -/

namespace Communities

section

variable {nodes members : List Node} {edges : List Edge} {c : Community} {word : String}

/-- A keyword is a longer word of some member's name. -/
theorem exists_of_mem_keywords (listed : word ∈ keywords members) :
    ∃ n ∈ members, word ∈ Text.nameWords n.label ∧ 2 < word.length := by
  obtain ⟨x, taken, rfl⟩ := List.mem_map.mp listed
  have counted := List.mem_mergeSort.mp (List.mem_of_mem_take taken)
  have known := ((Text.tally_counts _).members x.1).mp (List.mem_map_of_mem counted)
  obtain ⟨n, member, inName⟩ := List.mem_flatMap.mp known
  simp only [List.mem_filter, decide_eq_true_eq] at inName
  exact ⟨n, member, inName⟩

/-- Every community is one of symbols, by whose names its keywords are chosen. -/
theorem exists_members (detected : c ∈ ofParts nodes edges) :
    ∃ members, (∀ n ∈ members, n ∈ symbolsOf nodes) ∧ c.memberIds = members.map Node.id ∧
      c.keywords = keywords members := by
  have whole : ∀ {c}, c ∈ [single (symbolsOf nodes)] → ∃ members,
      (∀ n ∈ members, n ∈ symbolsOf nodes) ∧ c.memberIds = members.map Node.id ∧
        c.keywords = keywords members := by
    intro c member
    rw [List.mem_singleton.mp member]
    exact ⟨symbolsOf nodes, fun n => id, rfl, rfl⟩
  unfold ofParts at detected
  dsimp only at detected
  split at detected
  · cases detected
  · split at detected
    · exact whole detected
    · split at detected
      · obtain ⟨id, name?, group, rfl, -⟩ := mem_ofAssignment detected
        refine ⟨Communities.members (symbolsOf nodes).toArray group, ?_, rfl, rfl⟩
        intro n member
        obtain ⟨i, -, found⟩ := List.mem_filterMap.mp member
        exact List.mem_toArray.mp (Array.mem_of_getElem? found)
      · exact whole detected

end

end Communities

namespace Search

/-- Terms are the words of more than one character, those of a text with a blank in it are the terms of
both parts, and every keyword of a community is a term of the document of some member. -/
theorem terms_agree :
    (∀ text, termsOf text = (Text.nameWords text).filter fun word => word.length ≠ 1) ∧
      (∀ a b, termsOf (a ++ " " ++ b) = termsOf a ++ termsOf b) ∧
      ∀ nodes edges, ∀ c ∈ Communities.ofParts nodes edges, ∀ word ∈ c.keywords,
        ∃ d ∈ (Engine.ofNodes nodes).documents,
          d.node.isFile = false ∧ d.node.id ∈ c.memberIds ∧ word ∈ d.terms := by
  refine ⟨termsOf_eq, termsOf_append, ?_⟩
  intro nodes edges c detected word listed
  obtain ⟨members, symbols, ids, words⟩ := Communities.exists_members detected
  rw [words] at listed
  obtain ⟨n, member, inName, long⟩ := Communities.exists_of_mem_keywords listed
  have symbol := List.mem_filter.mp (symbols n member)
  have term : word ∈ termsOf n.label := by
    rw [termsOf_eq, List.mem_filter]
    exact ⟨inName, by simpa using Nat.ne_of_gt (Nat.lt_of_succ_lt long)⟩
  refine ⟨Document.ofNode n, ?_, by simpa [Document.ofNode] using symbol.2, ?_, mem_terms_ofNode term⟩
  · exact List.mem_toArray.mpr (List.mem_map_of_mem symbol.1)
  · rw [ids]
    exact List.mem_map_of_mem member

end Search

end CodeAtlas
