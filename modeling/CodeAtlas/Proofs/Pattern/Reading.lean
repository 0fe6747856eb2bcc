import CodeAtlas.Pattern.Basic

/-!
# Readings of a pattern

What a pattern can read from one place of a text to another, said without the order in which the
matcher tries the possibilities. The matcher is sound for it: whatever it finds is a reading, so
a fact about all readings holds of every match. The first such fact is that a group holds only
characters that the tests inside the group accept.
-/

namespace CodeAtlas.Pattern

/-- The pattern can take what lies between two places. -/
inductive Reads : Pattern → Place → Place → Prop where
  | empty {here : Place} : Reads .empty here here
  | one {test : Char → Bool} {here : Place} {c : Char} {rest : List Char} :
      here.rest = c :: rest → test c = true → Reads (.one test) here (here.step c rest)
  | seq {p q : Pattern} {here mid there : Place} :
      Reads p here mid → Reads q mid there → Reads (.seq p q) here there
  | altLeft {p q : Pattern} {here there : Place} : Reads p here there → Reads (.alt p q) here there
  | altRight {p q : Pattern} {here there : Place} : Reads q here there → Reads (.alt p q) here there
  | manyStop {p : Pattern} {here : Place} : Reads (.many p) here here
  | manyMore {p : Pattern} {here mid there : Place} :
      Reads p here mid → Reads (.many p) mid there → Reads (.many p) here there
  | fewStop {p : Pattern} {here : Place} : Reads (.few p) here here
  | fewMore {p : Pattern} {here mid there : Place} :
      Reads p here mid → Reads (.few p) mid there → Reads (.few p) here there
  | group {number : Nat} {p : Pattern} {here there : Place} :
      Reads p here there → Reads (.group number p) here
        { there with
          groups := (number, ⟨here.offset, here.rest, there.offset⟩) :: there.groups }
  | textStart {here : Place} : here.before = none → Reads .textStart here here
  | textEnd {here : Place} : here.rest = [] → Reads .textEnd here here
  | lineStart {here : Place} :
      here.before = none ∨ here.before = some '\n' → Reads .lineStart here here
  | wordEdge {here : Place} :
      wordSide here.before ≠ wordSide here.rest.head? → Reads .wordEdge here here

/-- A reading of a sequence is one of its first member and then one of the others. -/
theorem Reads.sequence_cons {p : Pattern} {ps : List Pattern} {here there : Place}
    (reading : Reads (sequence (p :: ps)) here there) :
    ∃ mid, Reads p here mid ∧ Reads (sequence ps) mid there := by
  cases ps with
  | nil => exact ⟨there, reading, .empty⟩
  | cons q ps =>
    cases reading with
    | seq first others => exact ⟨_, first, others⟩

section Soundness

variable {β : Type}

section Rounds

variable {p : Pattern} (sound : ∀ {here : Place} {next : Place → Option β} {b : β},
  p.run here next = some b → ∃ there, Reads p here there ∧ next there = some b)

include sound

/-- Greedy rounds of a sound step end in a reading of the repetition. -/
private theorem rounds_sound {next : Place → Option β} {b : β} (bound : List Char) {here : Place}
    (h : rounds (fun here next => p.run here next) next bound here = some b) :
    ∃ there, Reads (.many p) here there ∧ next there = some b := by
  induction bound generalizing here with
  | nil => exact ⟨here, .manyStop, h⟩
  | cons c bound ih =>
    unfold rounds at h
    split at h
    · next b' found =>
      obtain rfl : b' = b := by simpa using h
      obtain ⟨mid, first, more⟩ := sound found
      obtain ⟨-, more⟩ := Option.ite_none_right_eq_some.mp more
      obtain ⟨there, rest, done⟩ := ih more
      exact ⟨there, .manyMore first rest, done⟩
    · exact ⟨here, .manyStop, h⟩

/-- Lazy rounds of a sound step end in a reading of the repetition. -/
private theorem fewRounds_sound {next : Place → Option β} {b : β} (bound : List Char) {here : Place}
    (h : fewRounds (fun here next => p.run here next) next bound here = some b) :
    ∃ there, Reads (.few p) here there ∧ next there = some b := by
  induction bound generalizing here with
  | nil => exact ⟨here, .fewStop, h⟩
  | cons c bound ih =>
    unfold fewRounds at h
    split at h
    · next b' found =>
      obtain rfl : b' = b := by simpa using h
      exact ⟨here, .fewStop, found⟩
    · obtain ⟨mid, first, more⟩ := sound h
      obtain ⟨-, more⟩ := Option.ite_none_right_eq_some.mp more
      obtain ⟨there, rest, done⟩ := ih more
      exact ⟨there, .fewMore first rest, done⟩

end Rounds

/-- The matcher is sound: when it succeeds, it has gone on from the end of a reading. -/
theorem run_sound {p : Pattern} {here : Place} {next : Place → Option β} {b : β}
    (h : p.run here next = some b) : ∃ there, Reads p here there ∧ next there = some b := by
  induction p generalizing here next b with
  | empty => exact ⟨here, .empty, h⟩
  | one test =>
    unfold run at h
    split at h
    · next c rest found =>
      obtain ⟨accepted, done⟩ := Option.ite_none_right_eq_some.mp h
      exact ⟨_, .one found accepted, done⟩
    · cases h
  | seq p q ihp ihq =>
    obtain ⟨mid, first, more⟩ := ihp h
    obtain ⟨there, second, done⟩ := ihq more
    exact ⟨there, .seq first second, done⟩
  | alt p q ihp ihq =>
    unfold run at h
    split at h
    · next b' found =>
      obtain rfl : b' = b := by simpa using h
      obtain ⟨there, left, done⟩ := ihp found
      exact ⟨there, .altLeft left, done⟩
    · obtain ⟨there, right, done⟩ := ihq h
      exact ⟨there, .altRight right, done⟩
  | many p ih => exact rounds_sound ih _ h
  | few p ih => exact fewRounds_sound ih _ h
  | group number p ih =>
    obtain ⟨there, inner, done⟩ := ih h
    exact ⟨_, .group inner, done⟩
  | textStart =>
    obtain ⟨start, done⟩ := Option.ite_none_right_eq_some.mp h
    exact ⟨here, .textStart (by simpa using start), done⟩
  | textEnd =>
    obtain ⟨ended, done⟩ := Option.ite_none_right_eq_some.mp h
    exact ⟨here, .textEnd (by simpa using ended), done⟩
  | lineStart =>
    obtain ⟨start, done⟩ := Option.ite_none_right_eq_some.mp h
    exact ⟨here, .lineStart (by simpa using start), done⟩
  | wordEdge =>
    obtain ⟨edge, done⟩ := Option.ite_none_right_eq_some.mp h
    exact ⟨here, .wordEdge (by simpa using edge), done⟩

end Soundness

/-! ### What groups hold -/

/-- Every character that the pattern takes is of a kind. -/
def Within (ok : Char → Prop) : Pattern → Prop
  | one test => ∀ c, test c = true → ok c
  | seq p q => Within ok p ∧ Within ok q
  | alt p q => Within ok p ∧ Within ok q
  | many p => Within ok p
  | few p => Within ok p
  | group _ p => Within ok p
  | _ => True

/-- Every character that a group of the given number takes is of a kind. -/
def GroupWithin (number : Nat) (ok : Char → Prop) : Pattern → Prop
  | seq p q => GroupWithin number ok p ∧ GroupWithin number ok q
  | alt p q => GroupWithin number ok p ∧ GroupWithin number ok q
  | many p => GroupWithin number ok p
  | few p => GroupWithin number ok p
  | group n p => (n = number → Within ok p) ∧ GroupWithin number ok p
  | _ => True

section Groups

variable {number : Nat} {ok : Char → Prop} {p : Pattern} {here there : Place}

/-- A reading takes the text between its places, and only characters that the pattern allows. -/
theorem Reads.taken (reading : Reads p here there) (within : Within ok p) :
    ∃ taken, here.rest = taken ++ there.rest ∧ there.offset = here.offset + taken.length ∧
      ∀ c ∈ taken, ok c := by
  induction reading with
  | @one test here c rest found accepted =>
    refine ⟨[c], by simpa [Place.step] using found, rfl, ?_⟩
    intro d member
    obtain rfl := List.mem_singleton.mp member
    exact within d accepted
  | seq _ _ ihp ihq =>
    obtain ⟨first, rest₁, offset₁, all₁⟩ := ihp within.1
    obtain ⟨second, rest₂, offset₂, all₂⟩ := ihq within.2
    refine ⟨first ++ second, by simp [rest₁, rest₂], by simp [offset₁, offset₂, Nat.add_assoc], ?_⟩
    intro c member
    exact (List.mem_append.mp member).elim (all₁ c) (all₂ c)
  | altLeft _ ih => exact ih within.1
  | altRight _ ih => exact ih within.2
  | manyMore _ _ ihp ihq | fewMore _ _ ihp ihq =>
    obtain ⟨first, rest₁, offset₁, all₁⟩ := ihp within
    obtain ⟨second, rest₂, offset₂, all₂⟩ := ihq within
    refine ⟨first ++ second, by simp [rest₁, rest₂], by simp [offset₁, offset₂, Nat.add_assoc], ?_⟩
    intro c member
    exact (List.mem_append.mp member).elim (all₁ c) (all₂ c)
  | group _ ih => exact ih within
  | empty | manyStop | fewStop | textStart | textEnd | lineStart | wordEdge =>
    exact ⟨[], rfl, rfl, by simp⟩

/-- The text of a group that a reading has taken is of the group's kind. -/
theorem Reads.groups (reading : Reads p here there) (within : GroupWithin number ok p)
    (before : ∀ s, (number, s) ∈ here.groups → ∀ c ∈ s.text, ok c) :
    ∀ s, (number, s) ∈ there.groups → ∀ c ∈ s.text, ok c := by
  induction reading with
  | seq _ _ ihp ihq => exact ihq within.2 (ihp within.1 before)
  | altLeft _ ih => exact ih within.1 before
  | altRight _ ih => exact ih within.2 before
  | manyMore _ _ ihp ihq | fewMore _ _ ihp ihq => exact ihq within (ihp within before)
  | @group n q here there inner ih =>
    intro s member
    rcases List.mem_cons.mp member with head | old
    · obtain ⟨rfl, rfl⟩ := Prod.mk.inj head
      obtain ⟨taken, rest, offset, all⟩ := inner.taken (within.1 rfl)
      intro c inside
      apply all c
      simpa [Span.text, rest, offset] using inside
    · exact ih within.2 before s old
  | one | empty | manyStop | fewStop | textStart | textEnd | lineStart | wordEdge => exact before

/-- A sequence keeps to a kind if its members do. -/
@[simp] theorem groupWithin_sequence (ps : List Pattern) :
    GroupWithin number ok (sequence ps) ↔ ∀ p ∈ ps, GroupWithin number ok p := by
  fun_induction sequence ps with
  | case1 => simp [GroupWithin]
  | case2 p => simp
  | case3 p rest _ ih => simp [GroupWithin, ih]

/-- A choice keeps to a kind if its members do. -/
@[simp] theorem groupWithin_oneOf (ps : List Pattern) :
    GroupWithin number ok (oneOf ps) ↔ ∀ p ∈ ps, GroupWithin number ok p := by
  fun_induction oneOf ps with
  | case1 => simp [GroupWithin]
  | case2 p => simp
  | case3 p rest _ ih => simp [GroupWithin, ih]

@[simp] theorem groupWithin_literal (s : String) : GroupWithin number ok (literal s) := by
  simp [literal, char, GroupWithin]

@[simp] theorem groupWithin_anyLiteral (texts : List String) :
    GroupWithin number ok (anyLiteral texts) := by
  simp [anyLiteral]

end Groups

end CodeAtlas.Pattern
