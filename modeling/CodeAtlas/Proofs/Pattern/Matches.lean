import CodeAtlas.Proofs.Pattern.Reading

/-!
# Matches lie in their text

Every place that the matcher comes to lies in the text that it searches: what has been taken and
what is left make up the text. So each of the matches of a pattern in a text is a reading from one
place of the text to another. What a group of it holds is a piece of the text, and it is of the kind
that the pattern allows there.
-/

namespace CodeAtlas.Pattern

/-- A place lies in a text: the text is what has been taken and what is left. -/
def Place.In (cs : List Char) (here : Place) : Prop :=
  ∃ taken, cs = taken ++ here.rest ∧ here.offset = taken.length ∧ here.before = taken.getLast?

section

variable {cs : List Char} {p : Pattern} {here there : Place} {m : Match}

theorem Place.in_ofText (cs : List Char) : (Place.ofText cs).In cs :=
  ⟨[], rfl, rfl, rfl⟩

theorem Place.In.step {c : Char} {rest : List Char} (inText : here.In cs)
    (split : here.rest = c :: rest) : (here.step c rest).In cs := by
  obtain ⟨taken, rfl, offset, -⟩ := inText
  exact ⟨taken ++ [c], by simp [Place.step, split], by simp [Place.step, offset],
    by simp [Place.step]⟩

theorem Place.In.rest_eq (inText : here.In cs) : here.rest = cs.drop here.offset := by
  obtain ⟨taken, rfl, offset, -⟩ := inText
  rw [offset, List.drop_left]

theorem Place.In.before_eq (inText : here.In cs) :
    here.before = (cs.take here.offset).getLast? := by
  obtain ⟨taken, split, offset, before⟩ := inText
  rw [before, split, offset, List.take_left]

/-! ### Readings in a text -/

theorem Reads.in_text (reading : Reads p here there) (inText : here.In cs) : there.In cs := by
  induction reading with
  | one split _ => exact inText.step split
  | seq _ _ ihp ihq | manyMore _ _ ihp ihq | fewMore _ _ ihp ihq => exact ihq (ihp inText)
  | altLeft _ ih | altRight _ ih | group _ ih => exact ih inText
  | empty | manyStop | fewStop | textStart | textEnd | lineStart | wordEdge => exact inText

theorem Reads.offset_le (reading : Reads p here there) : here.offset ≤ there.offset := by
  induction reading with
  | one => exact Nat.le_succ _
  | seq _ _ ihp ihq | manyMore _ _ ihp ihq | fewMore _ _ ihp ihq => exact Nat.le_trans ihp ihq
  | altLeft _ ih | altRight _ ih | group _ ih => exact ih
  | empty | manyStop | fewStop | textStart | textEnd | lineStart | wordEdge => exact Nat.le_refl _

/-- What groups have taken stays a piece of the text. -/
theorem Reads.groups_infix (reading : Reads p here there) (inText : here.In cs)
    (before : ∀ entry ∈ here.groups, entry.2.text <:+: cs) :
    ∀ entry ∈ there.groups, entry.2.text <:+: cs := by
  induction reading with
  | seq first _ ihp ihq | manyMore first _ ihp ihq | fewMore first _ ihp ihq =>
    exact ihq (first.in_text inText) (ihp inText before)
  | altLeft _ ih | altRight _ ih => exact ih inText before
  | group _ ih =>
    refine List.forall_mem_cons.mpr ⟨?_, ih inText before⟩
    obtain ⟨taken, rfl, -⟩ := inText
    exact (List.take_prefix _ _).isInfix.trans (List.suffix_append _ _).isInfix
  | one | empty | manyStop | fewStop | textStart | textEnd | lineStart | wordEdge => exact before

/-- A match is a reading from one place of a text to another, without anything taken before. -/
structure Match.Of (m : Match) (p : Pattern) (cs : List Char) (start : Place) : Prop where
  inText : start.In cs
  start_eq : m.start = start.offset
  fresh : start.groups = []
  reading : Reads p start m.stop

theorem searchFrom_of (rest : List Char) (whole : here.rest = rest) (inText : here.In cs)
    (fresh : here.groups = []) (found : p.searchFrom rest here = some m) :
    ∃ start, m.Of p cs start := by
  have atPlace {here : Place} (inText : here.In cs) (fresh : here.groups = [])
      (found : p.matchAt here = some m) : ∃ start, m.Of p cs start := by
    obtain ⟨there, reading, done⟩ := run_sound found
    obtain rfl := Option.some.inj done
    exact ⟨here, inText, rfl, fresh, reading⟩
  induction rest generalizing here with
  | nil => exact atPlace inText fresh found
  | cons c rest ih =>
    rw [searchFrom] at found
    split at found
    · next here found' =>
      obtain rfl := Option.some.inj found
      exact atPlace inText fresh found'
    · exact ih rfl (inText.step whole) fresh found

/-- After a match the search goes on at a place of the text. -/
theorem Match.Of.resume {start : Place} (of : m.Of p cs start) (next : m.resume? = some there) :
    there.In cs ∧ there.groups = [] := by
  have stop : m.stop.In cs := of.reading.in_text of.inText
  simp only [resume?] at next
  split at next
  · obtain rfl := Option.some.inj next
    exact ⟨stop, rfl⟩
  · split at next
    · next c rest split =>
      obtain rfl := Option.some.inj next
      have onwards : Place.In cs { m.stop with groups := [] } := stop
      exact ⟨onwards.step split, rfl⟩
    · cases next

theorem matchesFrom_of (bound : List Char) (inText : here.In cs) (fresh : here.groups = []) :
    ∀ m ∈ p.matchesFrom bound here, ∃ start, m.Of p cs start := by
  induction bound generalizing here with
  | nil =>
    rw [matchesFrom]
    split
    · exact fun m none => absurd none List.not_mem_nil
    · next m found =>
      intro m' member
      obtain rfl := List.mem_singleton.mp member
      exact searchFrom_of _ rfl inText fresh found
  | cons c bound ih =>
    rw [matchesFrom]
    split
    · exact fun m none => absurd none List.not_mem_nil
    · next m found =>
      obtain ⟨start, of⟩ := searchFrom_of _ rfl inText fresh found
      refine List.forall_mem_cons.mpr ⟨⟨start, of⟩, ?_⟩
      cases next : m.resume? with
      | none => exact fun m none => absurd none List.not_mem_nil
      | some there =>
        obtain ⟨inText', fresh'⟩ := of.resume next
        exact ih inText' fresh'

theorem matchesIn_of (found : m ∈ p.matchesIn cs) : ∃ start, m.Of p cs start :=
  matchesFrom_of cs (Place.in_ofText cs) rfl m found

theorem search_of (found : p.search cs = some m) : ∃ start, m.Of p cs start :=
  searchFrom_of cs rfl (Place.in_ofText cs) rfl found

/-! ### What the groups of a match hold -/

theorem Match.text_cases (m : Match) (number : Nat) :
    m.text number = [] ∨ ∃ s, (number, s) ∈ m.stop.groups ∧ m.text number = s.text := by
  unfold text span?
  cases found : m.stop.groups.find? (·.1 == number) with
  | none => exact .inl rfl
  | some entry =>
    obtain ⟨n, s⟩ := entry
    obtain rfl : n = number := by simpa using List.find?_some found
    exact .inr ⟨s, List.mem_of_find?_eq_some found, rfl⟩

/-- What a group of a match holds is a piece of the text. -/
theorem Match.Of.text_infix {start : Place} (of : m.Of p cs start) (number : Nat) :
    m.text number <:+: cs := by
  rcases m.text_cases number with none | ⟨s, taken, same⟩
  · rw [none]
    exact List.nil_infix
  · rw [same]
    exact of.reading.groups_infix of.inText (by simp [of.fresh]) (number, s) taken

theorem Match.Of.string_infix {start : Place} (of : m.Of p cs start) (number : Nat) :
    (m.string number).toList <:+: cs := by
  rw [string, String.toList_ofList]
  exact of.text_infix number

/-- What a group of a match holds is of the group's kind. -/
theorem search_text_within {number : Nat} {ok : Char → Prop} (found : p.search cs = some m)
    (within : GroupWithin number ok p) : ∀ c ∈ m.text number, ok c := by
  obtain ⟨start, of⟩ := search_of found
  rcases m.text_cases number with none | ⟨s, taken, same⟩
  · simp [none]
  · rw [same]
    exact of.reading.groups within (by simp [of.fresh]) s taken

end

end CodeAtlas.Pattern
