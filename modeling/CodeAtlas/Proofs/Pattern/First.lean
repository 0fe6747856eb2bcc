import CodeAtlas.Proofs.Pattern.Reading
import Mathlib.Data.List.Basic

/-!
# The reading that comes first

Of the readings of a pattern the matcher goes on from one first. If what follows succeeds there, that
is what the matcher finds, whatever the other readings are; and if a pattern has no reading at a place,
it fails there whatever follows. Both are put together along the pattern, so that what a search finds
in a text of a known form is found by following the pattern along the text.
-/

namespace CodeAtlas.Pattern

/-! ### Places -/

/-- The place after some text has been taken. -/
def Place.past (here : Place) (taken : List Char) : Place :=
  { here with
    before := taken.getLast?.or here.before
    offset := here.offset + taken.length
    rest := here.rest.drop taken.length }

/-- The place where a group ends that began at another place. -/
def Place.closing (number : Nat) (start here : Place) : Place :=
  { here with groups := (number, ⟨start.offset, start.rest, here.offset⟩) :: here.groups }

section Places

variable {here : Place} {taken rest : List Char}

@[simp] theorem Place.past_nil (here : Place) : here.past [] = here := by
  simp [Place.past]

@[simp] theorem Place.past_past (here : Place) (taken more : List Char) :
    (here.past taken).past more = here.past (taken ++ more) := by
  simp [Place.past, Nat.add_assoc, List.getLast?_append, Option.or_assoc]

@[simp] theorem Place.past_offset (here : Place) (taken : List Char) :
    (here.past taken).offset = here.offset + taken.length := rfl

@[simp] theorem Place.past_before (here : Place) (taken : List Char) :
    (here.past taken).before = taken.getLast?.or here.before := rfl

theorem Place.past_rest (split : here.rest = taken ++ rest) : (here.past taken).rest = rest := by
  simp [Place.past, split]

theorem Place.past_one_rest {c : Char} (split : here.rest = c :: rest) :
    (here.past [c]).rest = rest :=
  Place.past_rest split

theorem Place.step_eq {c : Char} (split : here.rest = c :: rest) :
    here.step c rest = here.past [c] := by
  simp [Place.step, Place.past, split]

/-- Some text lies between two places, and no group has been taken there. -/
structure Place.Takes (here there : Place) (taken : List Char) : Prop where
  place : there = here.past taken
  start : taken <+: here.rest

theorem Place.Takes.nil (here : Place) : here.Takes here [] :=
  ⟨(Place.past_nil here).symm, List.nil_prefix⟩

theorem Place.Takes.append {mid there : Place} {more : List Char} (first : here.Takes mid taken)
    (second : mid.Takes there more) : here.Takes there (taken ++ more) := by
  obtain ⟨rfl, rest, split⟩ := first
  obtain ⟨rfl, start⟩ := second
  rw [Place.past_rest split.symm] at start
  refine ⟨Place.past_past here taken more, ?_⟩
  rw [← split, List.prefix_append_right_inj]
  exact start

end Places

/-! ### First readings -/

/-- If what follows succeeds at a place, the matcher goes on there and nowhere else. -/
def First (p : Pattern) (here there : Place) : Prop :=
  ∀ (β : Type) (next : Place → Option β) (b : β), next there = some b → p.run here next = some b

/-- The pattern has no reading, whatever follows. -/
def Fails (p : Pattern) (here : Place) : Prop :=
  ∀ (β : Type) (next : Place → Option β), p.run here next = none

section Parts

variable {p q : Pattern} {here mid there : Place} {test : Char → Bool} {c : Char}
  {taken rest : List Char}

theorem First.matchAt (first : First p here there) :
    p.matchAt here = some ⟨here.offset, there⟩ :=
  first _ _ _ rfl

theorem Fails.matchAt (fails : Fails p here) : p.matchAt here = none :=
  fails _ _

/-- A pattern without a reading fails. -/
theorem Fails.of_reads (none : ∀ there, ¬ Reads p here there) : Fails p here := by
  intro β next
  cases found : p.run here next with
  | none => rfl
  | some b =>
    obtain ⟨there, reading, -⟩ := run_sound found
    exact absurd reading (none there)

theorem First.empty (here : Place) : First .empty here here :=
  fun _ _ _ found => found

theorem First.one (split : here.rest = c :: rest) (accepted : test c = true) :
    First (.one test) here (here.past [c]) := by
  intro β next b found
  rw [← Place.step_eq split] at found
  simp only [run, split, accepted, if_true, found]

theorem Fails.one (refused : ∀ c, here.rest.head? = some c → test c = false) :
    Fails (.one test) here := by
  intro β _
  cases split : here.rest with
  | nil => simp only [run, split]
  | cons c rest =>
    have refused : test c = false := refused c (by simp [split])
    simp [run, split, refused]

theorem First.seq (first : First p here mid) (second : First q mid there) :
    First (.seq p q) here there :=
  fun β next b found => first β _ b (second β next b found)

theorem Fails.seq (fails : Fails p here) : Fails (.seq p q) here :=
  fun β _ => fails β _

theorem First.altLeft (first : First p here there) : First (.alt p q) here there := by
  intro β next b found
  simp only [run, first β next b found]

theorem First.altRight (fails : Fails p here) (first : First q here there) :
    First (.alt p q) here there := by
  intro β next b found
  simp only [run, fails β next, first β next b found]

theorem First.group (number : Nat) (first : First p here there) :
    First (.group number p) here (Place.closing number here there) :=
  fun β _ b found => first β _ b found

theorem First.textStart (start : here.before = none) : First .textStart here here := by
  intro β next b found
  simp [run, start, found]

theorem Fails.textStart (inside : here.before ≠ none) : Fails .textStart here := by
  intro β next
  simp [run, Option.isNone_iff_eq_none, inside]

theorem First.textEnd (ended : here.rest = []) : First .textEnd here here := by
  intro β next b found
  simp [run, ended, found]

theorem First.wordEdge (edge : wordSide here.before ≠ wordSide here.rest.head?) :
    First .wordEdge here here := by
  intro β next b found
  simp [run, edge, found]

theorem First.optional_none (fails : Fails p here) : First (Pattern.optional p) here here :=
  .altRight fails (.empty here)

/-! ### Sequences and literals -/

/-- The members of a sequence are read one after the other. -/
theorem run_sequence {β : Type} (p : Pattern) (ps : List Pattern) (here : Place)
    (next : Place → Option β) :
    (Pattern.sequence (p :: ps)).run here next =
      p.run here fun mid => (Pattern.sequence ps).run mid next := by
  cases ps <;> rfl

theorem First.sequence {ps : List Pattern} (first : First p here mid)
    (others : First (Pattern.sequence ps) mid there) :
    First (Pattern.sequence (p :: ps)) here there := by
  intro β next b found
  rw [run_sequence]
  exact first β _ b (others β next b found)

theorem Fails.sequence (fails : Fails p here) (ps : List Pattern) :
    Fails (Pattern.sequence (p :: ps)) here := by
  intro β next
  rw [run_sequence]
  exact fails β _

theorem Fails.after_textStart (fails : Fails p here) : Fails (.seq .textStart p) here := by
  intro β next
  simp [run, fails β next]

theorem Fails.optional_sequence {ps : List Pattern} (fails : Fails p here)
    (others : Fails (Pattern.sequence ps) here) :
    Fails (Pattern.sequence (Pattern.optional p :: ps)) here := by
  intro β next
  rw [run_sequence]
  simp only [Pattern.optional, run, fails β _, others β next]

/-- A text is read where it stands, and nowhere else. -/
theorem run_literal {β : Type} (s : String) (here : Place) (next : Place → Option β) :
    (Pattern.literal s).run here next =
      if s.toList <+: here.rest then next (here.past s.toList) else none := by
  have along : ∀ (cs : List Char) (here : Place),
      (Pattern.sequence (cs.map char)).run here next =
        if cs <+: here.rest then next (here.past cs) else none := by
    intro cs
    induction cs with
    | nil =>
      intro here
      simp [Pattern.sequence, run]
    | cons c cs ih =>
      intro here
      rw [List.map_cons, run_sequence]
      cases split : here.rest with
      | nil => simp [char, run, split]
      | cons d rest =>
        by_cases same : d = c
        · subst same
          simp [char, run, split, ih, Place.step_eq split, Place.past_one_rest split]
        · have different : ¬ c :: cs <+: d :: rest :=
            fun start => same (List.cons_prefix_cons.mp start).1.symm
          simp [char, run, split, same, different]
  exact along s.toList here

theorem First.literal {s : String} (split : here.rest = s.toList ++ rest) :
    First (Pattern.literal s) here (here.past s.toList) := by
  intro β next b found
  rw [run_literal, if_pos (split ▸ List.prefix_append _ _)]
  exact found

theorem Fails.literal {s : String} (differs : ¬ s.toList <+: here.rest) :
    Fails (Pattern.literal s) here := by
  intro β next
  rw [run_literal, if_neg differs]

/-! ### Repetitions -/

/-- Rounds that come first, as many as there are, take a text. -/
inductive Rounds (p : Pattern) : Place → List Char → Prop where
  | stop {here : Place} : Fails p here → Rounds p here []
  | more {here : Place} {taken more : List Char} : taken ≠ [] → First p here (here.past taken) →
      Rounds p (here.past taken) more → Rounds p here (taken ++ more)

theorem First.many (rounds : Rounds p here taken) (split : here.rest = taken ++ rest) :
    First (.many p) here (here.past taken) := by
  have along : ∀ (bound : List Char), taken.length ≤ bound.length → ∀ (β : Type)
      (next : Place → Option β) (b : β), next (here.past taken) = some b →
      Pattern.rounds (fun here next => p.run here next) next bound here = some b := by
    clear split
    induction rounds with
    | stop fails =>
      intro bound _ β next b found
      rw [Place.past_nil] at found
      cases bound with
      | nil => exact found
      | cons c bound => simp only [Pattern.rounds, fails β _, found]
    | @more here taken more nonempty first _ ih =>
      intro bound enough β next b found
      have positive : 0 < taken.length := List.length_pos_iff.mpr nonempty
      rw [List.length_append] at enough
      cases bound with
      | nil =>
        rw [List.length_nil] at enough
        omega
      | cons c bound =>
        rw [← Place.past_past] at found
        rw [List.length_cons] at enough
        have others := ih bound (by omega) β next b found
        have further : here.offset < (here.past taken).offset := by
          rw [Place.past_offset]
          omega
        have step := first β (fun there =>
          if here.offset < there.offset then
            Pattern.rounds (fun here next => p.run here next) next bound there
          else none) b (by rw [if_pos further, others])
        simp only [Pattern.rounds, step]
  intro β next b found
  refine along here.rest ?_ β next b found
  rw [split, List.length_append]
  exact Nat.le_add_right _ _

/-- A class is repeated as long as characters of it follow. -/
theorem Rounds.characters (split : here.rest = taken ++ rest) (all : ∀ c ∈ taken, test c = true)
    (ended : ∀ c, rest.head? = some c → test c = false) : Rounds (.one test) here taken := by
  induction taken generalizing here with
  | nil => exact .stop (Fails.one (by simpa [split] using ended))
  | cons c more ih =>
    have others : Rounds (.one test) (here.past [c]) more :=
      ih (Place.past_one_rest split) fun d later => all d (List.mem_cons_of_mem c later)
    exact .more (List.cons_ne_nil c []) (First.one split (all c List.mem_cons_self)) others

theorem First.characters (split : here.rest = taken ++ rest) (all : ∀ c ∈ taken, test c = true)
    (ended : ∀ c, rest.head? = some c → test c = false) :
    First (.many (.one test)) here (here.past taken) :=
  .many (.characters split all ended) split

theorem Reads.one_takes (reading : Reads (.one test) here there) :
    ∃ c, here.Takes there [c] ∧ test c = true := by
  cases reading with
  | @one _ _ c rest split accepted =>
    exact ⟨c, ⟨Place.step_eq split, split ▸ List.prefix_append [c] rest⟩, accepted⟩

/-- A repeated class takes characters of it. -/
theorem Reads.characters_take (reading : Reads (.many (.one test)) here there) :
    ∃ taken, here.Takes there taken ∧ ∀ c ∈ taken, test c = true := by
  generalize same : Pattern.many (.one test) = p at reading
  induction reading with
  | @manyStop _ here => exact ⟨[], .nil here, by simp⟩
  | @manyMore q here mid there first _ _ ih =>
    obtain rfl := Pattern.many.inj same
    obtain ⟨c, takes, accepted⟩ := first.one_takes
    obtain ⟨more, takesMore, all⟩ := ih rfl
    exact ⟨[c] ++ more, takes.append takesMore, List.forall_mem_cons.mpr ⟨accepted, all⟩⟩
  | _ => cases same

/-- After characters of a class a pattern fails if it does so after any number of them. -/
theorem Fails.after_characters (split : here.rest = taken ++ rest)
    (ended : ∀ c, rest.head? = some c → test c = false)
    (fails : ∀ t, t <+: taken → Fails q (here.past t)) : Fails (.seq (.many (.one test)) q) here := by
  intro β next
  cases found : (Pattern.seq (.many (.one test)) q).run here next with
  | none => rfl
  | some b =>
    obtain ⟨mid, reading, later⟩ := run_sound (p := .many (.one test)) found
    obtain ⟨t, ⟨rfl, start⟩, all⟩ := reading.characters_take
    rw [split] at start
    have inside : t <+: taken := by
      rcases List.prefix_or_prefix_of_prefix start (List.prefix_append taken rest) with short | long
      · exact short
      · obtain ⟨further, rfl⟩ := long
        rw [List.prefix_append_right_inj] at start
        cases further with
        | nil => simp
        | cons c further =>
          obtain ⟨after, rfl⟩ := start
          simp [all c (by simp)] at ended
    rw [fails t inside β next] at later
    cases later

/-- A lazy repetition of a class goes on until what follows succeeds. -/
theorem run_few {β : Type} {next : Place → Option β} {b : β} (split : here.rest = taken ++ rest)
    (all : ∀ c ∈ taken, test c = true)
    (before : ∀ t, t <+: taken → t ≠ taken → next (here.past t) = none)
    (found : next (here.past taken) = some b) : (few (.one test)).run here next = some b := by
  have along : ∀ (bound taken : List Char) (here : Place), taken.length ≤ bound.length →
      here.rest = taken ++ rest → (∀ c ∈ taken, test c = true) →
      (∀ t, t <+: taken → t ≠ taken → next (here.past t) = none) →
      next (here.past taken) = some b →
      fewRounds (fun here next => (Pattern.one test).run here next) next bound here = some b := by
    intro bound
    induction bound with
    | nil =>
      intro taken here enough _ _ _ found
      obtain rfl := List.length_eq_zero_iff.mp (Nat.le_zero.mp enough)
      simpa [fewRounds] using found
    | cons d bound ih =>
      intro taken here enough split all before found
      cases taken with
      | nil =>
        rw [Place.past_nil] at found
        simp only [fewRounds, found]
      | cons c more =>
        have notYet : next here = none := by
          simpa using before [] List.nil_prefix (List.cons_ne_nil c more).symm
        rw [List.length_cons, List.length_cons] at enough
        have others := ih more (here.past [c]) (by omega) (Place.past_one_rest split)
          (fun d later => all d (List.mem_cons_of_mem c later))
          (fun t start short => by
            rw [Place.past_past]
            exact before _ (List.cons_prefix_cons.mpr ⟨rfl, start⟩) (by simpa using short))
          (by simpa using found)
        simp only [fewRounds, notYet]
        apply First.one split (all c List.mem_cons_self)
        rw [if_pos (by simp), others]
  exact along here.rest taken here (by simp [split]) split all before found

end Parts

/-! ### The order of the readings -/

section Order

variable {p : Pattern} {here : Place}

private theorem findSome_flatMap {α γ β : Type} (places : List α) (f : α → List γ)
    (next : γ → Option β) :
    (places.flatMap f).findSome? next = places.findSome? fun a => (f a).findSome? next := by
  induction places with
  | nil => rfl
  | cons a places ih =>
    rw [List.flatMap_cons, List.findSome?_append, ih, List.findSome?_cons]
    cases (f a).findSome? next <;> rfl

private theorem run_round {β : Type} {next later : Place → Option β} {round : List Place}
    {places : Place → List Place} (same : ∀ next : Place → Option β,
      p.run here next = round.findSome? next)
    (after : ∀ there, later there = (places there).findSome? next) :
    (p.run here fun there => if here.offset < there.offset then later there else none) =
      (round.flatMap fun there =>
        if here.offset < there.offset then places there else []).findSome? next := by
  rw [same, findSome_flatMap]
  congr 1
  funext there
  rw [after]
  split <;> rfl

/-- A test lets the matcher go on from where it is, or from nowhere. -/
theorem exists_readings_test (here : Place) (test : Bool) : ∃ places : List Place,
    ∀ (β : Type) (next : Place → Option β),
      (if test then next here else none) = places.findSome? next := by
  cases test with
  | true => exact ⟨[here], fun β next => by simp⟩
  | false => exact ⟨[], fun β next => rfl⟩

section Rounds

variable {round : Place → List Place}
  (same : ∀ (here : Place) (β : Type) (next : Place → Option β),
    p.run here next = (round here).findSome? next)

include same

/-- After the places to which a round and further ones lead comes the place itself. -/
theorem exists_readings_rounds (bound : List Char) (here : Place) : ∃ places : List Place,
    ∀ (β : Type) (next : Place → Option β),
      rounds (fun here next => p.run here next) next bound here = places.findSome? next := by
  induction bound generalizing here with
  | nil => exact ⟨[here], fun β next => by simp [rounds]⟩
  | cons c bound ih =>
    choose places after using ih
    refine ⟨((round here).flatMap fun there =>
      if here.offset < there.offset then places there else []) ++ [here], fun β next => ?_⟩
    have step := run_round (same here β) (after · β next)
    simp only [rounds, step, List.findSome?_append]
    cases ((round here).flatMap _).findSome? next <;> simp

/-- Before the places to which a round and further ones lead comes the place itself. -/
theorem exists_readings_fewRounds (bound : List Char) (here : Place) : ∃ places : List Place,
    ∀ (β : Type) (next : Place → Option β),
      fewRounds (fun here next => p.run here next) next bound here = places.findSome? next := by
  induction bound generalizing here with
  | nil => exact ⟨[here], fun β next => by simp [fewRounds]⟩
  | cons c bound ih =>
    choose places after using ih
    refine ⟨here :: (round here).flatMap fun there =>
      if here.offset < there.offset then places there else [], fun β next => ?_⟩
    have step := run_round (same here β) (after · β next)
    simp only [fewRounds, step, List.findSome?_cons]
    cases next here <;> rfl

end Rounds

/-- The matcher goes on from a list of places, one after the other, whatever follows. -/
theorem exists_readings (p : Pattern) (here : Place) : ∃ places : List Place,
    ∀ (β : Type) (next : Place → Option β), p.run here next = places.findSome? next := by
  induction p generalizing here with
  | empty => exact ⟨[here], fun β next => by simp [run]⟩
  | one test =>
    cases split : here.rest with
    | nil => exact ⟨[], fun β next => by simp [run, split]⟩
    | cons c rest =>
      obtain ⟨places, same⟩ := exists_readings_test (here.step c rest) (test c)
      exact ⟨places, fun β next => by rw [← same β next]; simp only [run, split]⟩
  | seq p q ihp ihq =>
    obtain ⟨mids, same⟩ := ihp here
    choose places after using ihq
    refine ⟨mids.flatMap places, fun β next => ?_⟩
    simp only [run, same, after, findSome_flatMap]
  | alt p q ihp ihq =>
    obtain ⟨left, sameLeft⟩ := ihp here
    obtain ⟨right, sameRight⟩ := ihq here
    refine ⟨left ++ right, fun β next => ?_⟩
    rw [List.findSome?_append, ← sameLeft, ← sameRight]
    cases found : p.run here next <;> simp [run, found]
  | many p ih =>
    choose round same using ih
    exact exists_readings_rounds same here.rest here
  | few p ih =>
    choose round same using ih
    exact exists_readings_fewRounds same here.rest here
  | group number p ih =>
    obtain ⟨places, same⟩ := ih here
    refine ⟨places.map fun there => { there with
      groups := (number, ⟨here.offset, here.rest, there.offset⟩) :: there.groups }, fun β next => ?_⟩
    rw [List.findSome?_map]
    exact same β _
  | textStart => exact exists_readings_test here here.before.isNone
  | textEnd => exact exists_readings_test here here.rest.isEmpty
  | lineStart => exact exists_readings_test here (here.before.isNone || here.before == some '\n')
  | wordEdge => exact exists_readings_test here (wordSide here.before != wordSide here.rest.head?)

/-- At a place a pattern fails, or it has a reading that comes first. -/
theorem fails_or_first (p : Pattern) (here : Place) :
    Fails p here ∨ ∃ there, First p here there := by
  obtain ⟨places, same⟩ := exists_readings p here
  cases places with
  | nil => exact .inl same
  | cons there places =>
    refine .inr ⟨there, fun β next b found => ?_⟩
    rw [same, List.findSome?_cons, found]

theorem First.reads {there : Place} (first : First p here there) : Reads p here there := by
  obtain ⟨place, reading, found⟩ := run_sound (first Place some there rfl)
  obtain rfl := Option.some.inj found
  exact reading

/-- Where every reading takes some text, there are rounds that come first. Each takes a text of the
kind of which the readings are. -/
theorem exists_rounds {Kind : List Char → Prop}
    (takes : ∀ {here there : Place}, Reads p here there →
      ∃ taken, here.Takes there taken ∧ taken ≠ [] ∧ Kind taken)
    (here : Place) : ∃ parts : List (List Char), (∀ part ∈ parts, Kind part) ∧
      Rounds p here parts.flatten ∧ parts.flatten <+: here.rest := by
  induction size : here.rest.length using Nat.strongRecOn generalizing here with
  | _ n ih =>
    subst size
    rcases fails_or_first p here with fails | ⟨there, first⟩
    · exact ⟨[], by simp, .stop fails, List.nil_prefix⟩
    · obtain ⟨taken, ⟨rfl, rest, split⟩, nonempty, kind⟩ := takes first.reads
      have there : (here.past taken).rest = rest := Place.past_rest split.symm
      have positive : 0 < taken.length := List.length_pos_iff.mpr nonempty
      have shorter : rest.length < here.rest.length := by
        rw [← split, List.length_append]
        omega
      obtain ⟨parts, kinds, rounds, start⟩ := ih _ shorter _ (by rw [there])
      refine ⟨taken :: parts, ?_, .more nonempty first rounds, ?_⟩
      · intro part member
        rcases List.mem_cons.mp member with rfl | later
        · exact kind
        · exact kinds part later
      · rw [there] at start
        rw [List.flatten_cons, ← split, List.prefix_append_right_inj]
        exact start

end Order

/-! ### Searches -/

section Search

variable {p : Pattern} {here there : Place} {taken rest : List Char}


/-- A search passes over places where the pattern fails. -/
theorem searchFrom_past (split : here.rest = taken ++ rest)
    (fails : ∀ t, t <+: taken → t ≠ taken → Fails p (here.past t)) :
    p.searchFrom here.rest here = p.searchFrom rest (here.past taken) := by
  induction taken generalizing here with
  | nil => simp [split]
  | cons c more ih =>
    rw [List.cons_append] at split
    have start : Fails p here := by
      simpa using fails [] List.nil_prefix (List.cons_ne_nil c more).symm
    have there : (here.past [c]).rest = more ++ rest := Place.past_one_rest split
    have others := ih there fun t inside short => by
      rw [Place.past_past]
      exact fails _ (List.cons_prefix_cons.mpr ⟨rfl, inside⟩) (by simpa using short)
    rw [Place.past_past, there] at others
    rw [split, searchFrom, start.matchAt]
    simp only
    rw [Place.step_eq split]
    exact others

/-- The group that has been taken last has its text. -/
theorem Match.text_of_groups {m : Match} {number start : Nat} {groups : List (Nat × Span)}
    (held : m.stop.groups = (number, ⟨start, taken ++ rest, start + taken.length⟩) :: groups) :
    m.text number = taken := by
  simp [Match.text, Match.span?, held, Span.text]

theorem First.searchFrom (first : First p here there) (rest : List Char) :
    p.searchFrom rest here = some ⟨here.offset, there⟩ := by
  cases rest with
  | nil => exact first.matchAt
  | cons c rest => simp only [Pattern.searchFrom, first.matchAt]

theorem Fails.searchFrom (fails : ∀ t, t <+: here.rest → Fails p (here.past t)) :
    p.searchFrom here.rest here = none := by
  rw [searchFrom_past (List.append_nil _).symm fun t start _ => fails t start]
  exact (fails here.rest (List.prefix_refl _)).matchAt

end Search

end CodeAtlas.Pattern
