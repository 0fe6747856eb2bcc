import CodeAtlas.Repository.Reference
import Mathlib.Data.List.TakeWhile

/-!
# References are read exactly

A reference is read by two cuts: at the first at sign, and before it at the first slash. Names without
either separator are therefore found again, whatever stands in the branch behind them. Each text has one
reading at most, printing that reading gives the text back, and a text without one is refused with a
fault that says what it lacks.
-/

namespace CodeAtlas.RepoReference

/-! ### Cuts -/

section

variable {sep : Char} {cs before after : List Char}

theorem cutAt_of_notMem (absent : sep ∉ cs) : cutAt sep cs = (cs, none) := by
  have kept : cs.dropWhile (· ≠ sep) = [] := by
    rw [List.dropWhile_eq_nil_iff]
    intro c member
    simpa using ne_of_mem_of_not_mem member absent
  simp only [cutAt, kept]

theorem cutAt_append (absent : sep ∉ before) (after : List Char) :
    cutAt sep (before ++ sep :: after) = (before, some after) := by
  have others : ∀ c ∈ before, decide (c ≠ sep) = true := by
    intro c member
    simpa using ne_of_mem_of_not_mem member absent
  have dropped : (before ++ sep :: after).dropWhile (· ≠ sep) = sep :: after := by
    rw [List.dropWhile_append_of_pos others]
    simp
  have taken : (before ++ sep :: after).takeWhile (· ≠ sep) = before := by
    rw [List.takeWhile_append_of_pos others]
    simp
  simp only [cutAt, dropped, taken]

/-- A text is left whole if it lacks the separator, and is cut at the first one otherwise. -/
theorem cutAt_cases (sep : Char) (cs : List Char) :
    (sep ∉ cs ∧ cutAt sep cs = (cs, none)) ∨
      ∃ before after, cs = before ++ sep :: after ∧ sep ∉ before ∧
        cutAt sep cs = (before, some after) := by
  by_cases member : sep ∈ cs
  · obtain ⟨before, after, rfl, absent⟩ := List.eq_append_cons_of_mem member
    exact .inr ⟨before, after, rfl, absent, cutAt_append absent after⟩
  · exact .inl ⟨member, cutAt_of_notMem member⟩

end

/-! ### The form of a reference -/

/-- A name that a reference can hold: it is not empty and has no separator in it. -/
structure IsName (name : String) : Prop where
  nonempty : name ≠ ""
  noSlash : '/' ∉ name.toList
  noAt : '@' ∉ name.toList

theorem isName_ofList {cs : List Char} (some : cs ≠ []) (noSlash : '/' ∉ cs) (noAt : '@' ∉ cs) :
    IsName (String.ofList cs) :=
  ⟨by simpa using some, by simpa using noSlash, by simpa using noAt⟩

/-- The texts that stand for references. A branch may hold anything but must not be empty. -/
inductive Written : RepoReference → String → Prop
  | plain {owner repo : String} (isOwner : IsName owner) (isRepo : IsName repo) :
      Written ⟨owner, repo, none⟩ (owner ++ "/" ++ repo)
  | branched {owner repo branch : String} (isOwner : IsName owner) (isRepo : IsName repo)
      (nonempty : branch ≠ "") :
      Written ⟨owner, repo, some branch⟩ (owner ++ "/" ++ repo ++ "@" ++ branch)

/-- A reference whose parts can be written: both names are names, and a branch is not empty. -/
structure WellFormed (r : RepoReference) : Prop where
  owner : IsName r.owner
  repo : IsName r.repo
  branch : r.branch ≠ some ""

/-- The first at sign of a text is its last character. -/
def LacksBranch (reference : String) : Prop :=
  ∃ before, '@' ∉ before ∧ reference.toList = before ++ ['@']

section

variable {owner repo reference : String} {r : RepoReference}

theorem Written.text_eq (written : Written r reference) : r.text = reference := by
  cases written with
  | plain => simp [text]
  | branched => simp [text, String.append_assoc]

theorem Written.wellFormed (written : Written r reference) : r.WellFormed := by
  cases written with
  | plain isOwner isRepo => exact ⟨isOwner, isRepo, by simp⟩
  | branched isOwner isRepo nonempty => exact ⟨isOwner, isRepo, by simpa using nonempty⟩

theorem WellFormed.written (wellFormed : r.WellFormed) : Written r r.text := by
  obtain ⟨owner, repo, branch⟩ := r
  cases branch with
  | none =>
    have written := Written.plain wellFormed.owner wellFormed.repo
    rwa [← written.text_eq] at written
  | some branch =>
    have nonempty : branch ≠ "" := fun empty => wellFormed.branch (congrArg some empty)
    have written := Written.branched wellFormed.owner wellFormed.repo nonempty
    rwa [← written.text_eq] at written

theorem noAt_names (isOwner : IsName owner) (isRepo : IsName repo) :
    '@' ∉ (owner ++ "/" ++ repo).toList := by
  simp [isOwner.noAt, isRepo.noAt]

theorem cutAt_names (isOwner : IsName owner) (repo : String) :
    cutAt '/' (owner ++ "/" ++ repo).toList = (owner.toList, some repo.toList) := by
  have split : (owner ++ "/" ++ repo).toList = owner.toList ++ '/' :: repo.toList := by simp
  rw [split, cutAt_append isOwner.noSlash]

/-- The names of a reference pass the checks of reading. -/
theorem IsName.accepted (isOwner : IsName owner) (isRepo : IsName repo) :
    ¬ (owner.toList = [] ∨ repo.toList = [] ∨ '/' ∈ repo.toList) := by
  simp [isOwner.nonempty, isRepo.nonempty, isRepo.noSlash]

/-- What has the form of a reference is read as that reference. -/
theorem Written.parse_eq (written : Written r reference) : parse reference = .ok r := by
  cases written with
  | plain isOwner isRepo =>
    unfold parse
    rw [cutAt_of_notMem (noAt_names isOwner isRepo)]
    simp only [cutAt_names isOwner, if_neg (isOwner.accepted isRepo)]
    simp
  | @branched owner repo branch isOwner isRepo nonempty =>
    have split : (owner ++ "/" ++ repo ++ "@" ++ branch).toList =
        (owner ++ "/" ++ repo).toList ++ '@' :: branch.toList := by simp
    unfold parse
    rw [split, cutAt_append (noAt_names isOwner isRepo)]
    simp only [cutAt_names isOwner, if_neg (isOwner.accepted isRepo)]
    simp [nonempty]

/-! ### Reading -/

/-- What stands before the at sign, if no branch is missing after it, is two names or is refused. -/
theorem parse_of_cutAt {names : List Char} {branch : Option (List Char)}
    (cut : cutAt '@' reference.toList = (names, branch)) (some : branch ≠ some [])
    (noAt : '@' ∉ names) :
    (∃ owner repo, IsName owner ∧ IsName repo ∧ (owner ++ "/" ++ repo).toList = names ∧
        parse reference = .ok ⟨owner, repo, branch.map String.ofList⟩) ∨
      parse reference = .error (malformed reference) := by
  unfold parse
  rw [cut]
  simp only [if_neg some]
  rcases cutAt_cases '/' names with ⟨-, cut'⟩ | ⟨owner, repo, rfl, noSlash, cut'⟩
  · exact .inr (by simp only [cut'])
  · simp only [cut']
    by_cases refused : owner = [] ∨ repo = [] ∨ '/' ∈ repo
    · exact .inr (if_pos refused)
    · simp only [not_or] at refused
      obtain ⟨ownerSome, repoSome, repoNoSlash⟩ := refused
      simp only [List.mem_append, List.mem_cons, not_or] at noAt
      refine .inl ⟨_, _, isName_ofList ownerSome noSlash noAt.1,
        isName_ofList repoSome repoNoSlash noAt.2.2, by simp, ?_⟩
      exact if_neg (by simp [ownerSome, repoSome, repoNoSlash])

/-- A text is read as the reference that it stands for, or refused because its branch is missing or
because it has no form at all. -/
theorem parse_cases (reference : String) :
    (∃ r, Written r reference ∧ parse reference = .ok r) ∨
      (LacksBranch reference ∧ parse reference = .error (emptyBranch reference)) ∨
      (¬ LacksBranch reference ∧ parse reference = .error (malformed reference)) := by
  rcases cutAt_cases '@' reference.toList with ⟨noAt, cut⟩ | ⟨names, branch, split, noAt, cut⟩
  · have whole : ¬ LacksBranch reference := by
      intro ⟨before, _, ends⟩
      simp [ends] at noAt
    rcases parse_of_cutAt cut (by simp) noAt with ⟨owner, repo, isOwner, isRepo, same, read⟩ | refused
    · refine .inl ⟨_, ?_, read⟩
      rw [← String.toList_inj.mp same]
      exact .plain isOwner isRepo
    · exact .inr (.inr ⟨whole, refused⟩)
  · by_cases missing : branch = []
    · subst missing
      refine .inr (.inl ⟨⟨names, noAt, split⟩, ?_⟩)
      unfold parse
      rw [cut]
      rfl
    · have whole : ¬ LacksBranch reference := by
        intro ⟨before, noAt', ends⟩
        -- The first at sign is where the text is cut, so that nothing would stand behind it.
        rw [ends, cutAt_append noAt'] at cut
        exact missing (Option.some.inj (Prod.mk.inj cut).2).symm
      rcases parse_of_cutAt cut (by simpa using missing) noAt with
        ⟨owner, repo, isOwner, isRepo, same, read⟩ | refused
      · refine .inl ⟨_, ?_, read⟩
        have printed : reference = owner ++ "/" ++ repo ++ "@" ++ String.ofList branch := by
          apply String.toList_inj.mp
          simp [split, ← same]
        rw [printed]
        exact .branched isOwner isRepo (by simpa using missing)
      · exact .inr (.inr ⟨whole, refused⟩)

/-- Exactly what has the form of a reference is read as one. -/
theorem parse_eq_ok_iff : parse reference = .ok r ↔ Written r reference := by
  refine ⟨?_, Written.parse_eq⟩
  intro read
  rcases parse_cases reference with ⟨r', written, read'⟩ | ⟨-, refused⟩ | ⟨-, refused⟩
  · rw [read] at read'
    cases read'
    exact written
  · simp [read] at refused
  · simp [read] at refused

/-- The owner in a reference has no slash. -/
theorem parse_plain (read : parse reference = .ok r) : '/' ∉ r.owner.toList := by
  cases parse_eq_ok_iff.mp read with
  | plain isOwner => exact isOwner.noSlash
  | branched isOwner => exact isOwner.noSlash

end

/-- How a text is read: as what it stands for, which gives the text back when it is printed, or not at
all; and a reference that is printed is read back. -/
structure ReadExactly (reference : String) : Prop where
  accepted : ∀ r, parse reference = .ok r ↔ Written r reference
  printed : ∀ r, parse reference = .ok r → r.WellFormed ∧ r.text = reference
  readBack : ∀ r : RepoReference, r.WellFormed → r.text = reference → parse reference = .ok r
  refused : (∀ r, ¬ Written r reference) → ∃ message, parse reference = .error (.config message)
  /-- Of the two faults, the one of a missing branch goes first. -/
  fault : (∀ r, ¬ Written r reference) →
    (LacksBranch reference → parse reference = .error (emptyBranch reference)) ∧
      (¬ LacksBranch reference → parse reference = .error (malformed reference))

/-- References are read exactly. -/
theorem parse_exact (reference : String) : ReadExactly reference where
  accepted r := parse_eq_ok_iff
  printed r read := by
    have written := parse_eq_ok_iff.mp read
    exact ⟨written.wellFormed, written.text_eq⟩
  readBack r wellFormed same := by
    subst same
    exact wellFormed.written.parse_eq
  refused unwritten := by
    rcases parse_cases reference with ⟨r, written, -⟩ | ⟨-, refused⟩ | ⟨-, refused⟩
    · exact absurd written (unwritten r)
    · exact ⟨_, refused⟩
    · exact ⟨_, refused⟩
  fault unwritten := by
    rcases parse_cases reference with ⟨r, written, -⟩ | ⟨lacks, refused⟩ | ⟨whole, refused⟩
    · exact absurd written (unwritten r)
    · exact ⟨fun _ => refused, fun whole => absurd lacks whole⟩
    · exact ⟨fun lacks => absurd lacks whole, fun _ => refused⟩

/-- A branch may hold both separators. -/
example : parse "owner/repo@fix/a@2" = .ok ⟨"owner", "repo", some "fix/a@2"⟩ := by
  decide +kernel

end CodeAtlas.RepoReference
