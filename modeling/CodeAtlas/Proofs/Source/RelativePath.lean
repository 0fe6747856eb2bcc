import CodeAtlas.Proofs.Text.Path
import CodeAtlas.Source.Resolution
import Mathlib.Data.List.Infix
import Mathlib.Logic.Relation

/-!
# Following a relative path

A relative path leads above the root exactly if some beginning of it has more steps back than there are
segments that these can take back: those of the directory and the plain ones of the beginning. Else the
path that it leads to is the only plain one that is left of directory and relative path when segments
that stand for nothing are left out, and plain ones together with the step back behind them.
-/

namespace CodeAtlas.Source

/-- A segment that stands for nothing. -/
def IdleSegment (s : String) : Prop :=
  s = "" ∨ s = "."

/-- A segment that names a file or a directory. -/
def PlainSegment (s : String) : Prop :=
  s ≠ "" ∧ s ≠ "." ∧ s ≠ ".."

instance (s : String) : Decidable (IdleSegment s) :=
  inferInstanceAs (Decidable (_ ∨ _))

instance (s : String) : Decidable (PlainSegment s) :=
  inferInstanceAs (Decidable (_ ∧ _))

/-- A segment that stands for nothing is left out, or a plain one with the step back behind it. -/
inductive Shortens : List String → List String → Prop
  | idle {s : String} (before after : List String) (idle : IdleSegment s) :
    Shortens (before ++ s :: after) (before ++ after)
  | back {s : String} (before after : List String) (plain : PlainSegment s) :
    Shortens (before ++ s :: ".." :: after) (before ++ after)

/-- Some beginning of a relative path has more steps back than it has plain segments and the directory
has levels. -/
def Climbs (depth : Nat) (steps : List String) : Prop :=
  ∃ first, first <+: steps ∧ depth + first.countP (PlainSegment ·) < first.count ".."

instance (depth : Nat) (steps : List String) : Decidable (Climbs depth steps) :=
  decidable_of_iff (∃ first ∈ steps.inits,
    depth + first.countP (PlainSegment ·) < first.count "..") (by simp only [Climbs, List.mem_inits])

theorem IdleSegment.not_plain {s : String} (idle : IdleSegment s) : ¬ PlainSegment s := by
  rcases idle with rfl | rfl
  · exact fun plain => plain.1 rfl
  · exact fun plain => plain.2.1 rfl

theorem IdleSegment.ne_back {s : String} (idle : IdleSegment s) : s ≠ ".." := by
  rcases idle with rfl | rfl <;> decide

/-- A segment stands for nothing, is a step back or is plain. -/
theorem segment_cases (s : String) : IdleSegment s ∨ s = ".." ∨ PlainSegment s := by
  unfold IdleSegment PlainSegment
  tauto

section

variable {dir out steps steps' more parts : List String} {s : String} {depth : Nat}

/-! ### Single steps -/

theorem walk_idle (idle : IdleSegment s) (dir steps : List String) :
    walk dir (s :: steps) = walk dir steps :=
  if_pos idle

theorem walk_root_back (steps : List String) : walk [] (".." :: steps) = none := by
  rw [walk, if_neg (by decide), if_pos rfl]

theorem walk_back (s : String) (dir steps : List String) :
    walk (s :: dir) (".." :: steps) = walk dir steps := by
  rw [walk, if_neg (by decide), if_pos rfl]

theorem walk_plain (plain : PlainSegment s) (dir steps : List String) :
    walk dir (s :: steps) = walk (s :: dir) steps := by
  have busy : ¬ (s = "" ∨ s = ".") := fun idle => IdleSegment.not_plain idle plain
  exact (if_neg busy).trans (if_neg plain.2.2)

theorem walk_append (dir steps more : List String) :
    walk dir (steps ++ more) = (walk dir steps).bind (walk · more) := by
  induction steps generalizing dir with
  | nil => rfl
  | cons s rest ih =>
    rw [List.cons_append]
    rcases segment_cases s with idle | rfl | plain
    · rw [walk_idle idle, walk_idle idle, ih]
    · cases dir with
      | nil => rw [walk_root_back, walk_root_back, Option.bind_none]
      | cons t up => rw [walk_back, walk_back, ih]
    · rw [walk_plain plain, walk_plain plain, ih]

/-! ### Above the root -/

theorem climbs_nil : ¬ Climbs depth [] := by
  rintro ⟨first, beginning, more⟩
  rw [List.prefix_nil.mp beginning] at more
  simp at more

theorem climbs_cons : Climbs depth (s :: steps) ↔
    ∃ first, first <+: steps ∧ depth + (s :: first).countP (PlainSegment ·) < (s :: first).count ".."
    := by
  constructor
  · rintro ⟨first, beginning, more⟩
    rcases List.prefix_cons_iff.mp beginning with rfl | ⟨rest, rfl, beginning'⟩
    · simp at more
    · exact ⟨rest, beginning', more⟩
  · rintro ⟨first, beginning, more⟩
    exact ⟨s :: first, List.prefix_cons_inj s |>.mpr beginning, more⟩

theorem climbs_idle (idle : IdleSegment s) : Climbs depth (s :: steps) ↔ Climbs depth steps := by
  rw [climbs_cons]
  refine exists_congr fun first => and_congr_right fun _ => ?_
  rw [List.countP_cons_of_neg (by simpa using idle.not_plain), List.count_cons_of_ne idle.ne_back]

theorem climbs_plain (plain : PlainSegment s) :
    Climbs depth (s :: steps) ↔ Climbs (depth + 1) steps := by
  rw [climbs_cons]
  refine exists_congr fun first => and_congr_right fun _ => ?_
  rw [List.countP_cons_of_pos (by simpa using plain), List.count_cons_of_ne plain.2.2,
    Nat.add_assoc, Nat.add_comm 1]

theorem climbs_root_back : Climbs 0 (".." :: steps) :=
  climbs_cons.mpr ⟨[], List.nil_prefix, by decide⟩

theorem climbs_back : Climbs (depth + 1) (".." :: steps) ↔ Climbs depth steps := by
  rw [climbs_cons]
  refine exists_congr fun first => and_congr_right fun _ => ?_
  rw [List.countP_cons_of_neg (by decide), List.count_cons_self]
  omega

/-- There is no way exactly for what climbs. -/
theorem walk_eq_none_iff : walk dir steps = none ↔ Climbs dir.length steps := by
  induction steps generalizing dir with
  | nil => exact iff_of_false (by simp [walk]) climbs_nil
  | cons s rest ih =>
    rcases segment_cases s with idle | rfl | plain
    · rw [walk_idle idle, climbs_idle idle, ih]
    · cases dir with
      | nil => exact iff_of_true (walk_root_back rest) climbs_root_back
      | cons t up => rw [walk_back, List.length_cons, climbs_back, ih]
    · rw [walk_plain plain, climbs_plain plain, ih, List.length_cons]

theorem exists_walk (dir steps : List String) (stays : ¬ Climbs dir.length steps) :
    ∃ out, walk dir steps = some out :=
  Option.ne_none_iff_exists'.mp (mt walk_eq_none_iff.mp stays)

/-! ### The path that is reached -/

/-- Where a way leads from a directory it leads from one further down. -/
theorem walk_under (found : walk dir steps = some out) (up : List String) :
    walk (dir ++ up) steps = some (out ++ up) := by
  induction steps generalizing dir with
  | nil => rw [walk] at found ⊢; rw [Option.some.inj found]
  | cons s rest ih =>
    rcases segment_cases s with idle | rfl | plain
    · rw [walk_idle idle] at found ⊢
      exact ih found
    · cases dir with
      | nil => rw [walk_root_back] at found; cases found
      | cons t below =>
        rw [List.cons_append, walk_back]
        rw [walk_back] at found
        exact ih found
    · rw [walk_plain plain] at found ⊢
      exact ih found

/-- Each step back takes back one segment of the directory or a plain one of the path. -/
theorem length_walk (found : walk dir steps = some out) :
    out.length + steps.count ".." = dir.length + steps.countP (PlainSegment ·) := by
  induction steps generalizing dir with
  | nil => rw [walk] at found; rw [Option.some.inj found]; rfl
  | cons s rest ih =>
    rcases segment_cases s with idle | rfl | plain
    · rw [walk_idle idle] at found
      rw [List.countP_cons_of_neg (by simpa using idle.not_plain),
        List.count_cons_of_ne idle.ne_back]
      exact ih found
    · cases dir with
      | nil => rw [walk_root_back] at found; cases found
      | cons t below =>
        rw [walk_back] at found
        rw [List.countP_cons_of_neg (by decide), List.count_cons_self, List.length_cons]
        have balance := ih found
        omega
    · rw [walk_plain plain] at found
      rw [List.countP_cons_of_pos (by simpa using plain), List.count_cons_of_ne plain.2.2]
      have balance := ih found
      rw [List.length_cons] at balance
      omega

theorem Shortens.walk_eq (shortens : Shortens steps steps') (dir : List String) :
    walk dir steps = walk dir steps' := by
  cases shortens with
  | idle before after idle =>
    rw [walk_append, walk_append]
    exact Option.bind_congr fun here _ => walk_idle idle here after
  | back before after plain =>
    rw [walk_append, walk_append]
    refine Option.bind_congr fun here _ => ?_
    rw [walk_plain plain, walk_back]

theorem walk_eq_of_shortens (shortens : Relation.ReflTransGen Shortens steps steps') :
    walk dir steps = walk dir steps' := by
  induction shortens with
  | refl => rfl
  | tail _ step ih => exact ih.trans (step.walk_eq dir)

/-- A plain path that is left of another one without what stands for nothing and what is taken back. -/
structure Normalizes (steps parts : List String) : Prop where
  plain : ∀ s ∈ parts, PlainSegment s
  shortens : Relation.ReflTransGen Shortens steps parts

theorem walk_plain_path (plain : ∀ s ∈ parts, PlainSegment s) (dir : List String) :
    walk dir parts = some (parts.reverse ++ dir) := by
  induction parts generalizing dir with
  | nil => rfl
  | cons s rest ih =>
    obtain ⟨here, later⟩ := List.forall_mem_cons.mp plain
    rw [walk_plain here, ih later, List.reverse_cons, List.append_assoc, List.singleton_append]

/-- A path has at most one normal form: the one to which it leads from the root. -/
theorem Normalizes.walk_eq (normal : Normalizes steps parts) : walk [] steps = some parts.reverse := by
  rw [walk_eq_of_shortens normal.shortens, walk_plain_path normal.plain, List.append_nil]

theorem Normalizes.unique (normal : Normalizes steps parts) (normal' : Normalizes steps more) :
    more = parts := by
  have same := normal'.walk_eq.symm.trans normal.walk_eq
  exact List.reverse_injective (Option.some.inj same)

theorem shortens_of_walk (plain : ∀ s ∈ dir, PlainSegment s) (found : walk dir steps = some out) :
    Normalizes (dir.reverse ++ steps) out.reverse := by
  induction steps generalizing dir with
  | nil =>
    rw [walk] at found
    rw [← Option.some.inj found, List.append_nil]
    exact ⟨fun s member => plain s (List.mem_reverse.mp member), .refl⟩
  | cons s rest ih =>
    rcases segment_cases s with idle | rfl | named
    · rw [walk_idle idle] at found
      have normal := ih plain found
      exact ⟨normal.plain, .head (.idle _ _ idle) normal.shortens⟩
    · cases dir with
      | nil => rw [walk_root_back] at found; cases found
      | cons t below =>
        rw [walk_back] at found
        obtain ⟨top, others⟩ := List.forall_mem_cons.mp plain
        have normal := ih others found
        refine ⟨normal.plain, .head ?_ normal.shortens⟩
        rw [List.reverse_cons, List.append_assoc, List.singleton_append]
        exact .back _ _ top
    · rw [walk_plain named] at found
      have normal := ih (List.forall_mem_cons.mpr ⟨named, plain⟩) found
      rwa [List.reverse_cons, List.append_assoc, List.singleton_append] at normal

end

end CodeAtlas.Source
