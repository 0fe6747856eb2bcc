import CodeAtlas.Disk.IgnorePattern

/-!
# What a pattern of an ignore list stands for

Each part of a pattern stands for certain bytes, whatever comes before and after them. The matcher
goes through the parts with a test for what is left; it accepts a path exactly if the bytes of the
path are bytes that the parts stand for, one after the other.
-/

namespace CodeAtlas.IgnorePattern

mutual

/-- Whether a part stands for some bytes. -/
def Stands : IgnorePiece → List UInt8 → Prop
  | .byte b, bytes => bytes = [b]
  | .any, bytes => ∃ b, bytes = [b] ∧ b ≠ slash
  | .run, bytes => slash ∉ bytes
  | .leading, bytes => bytes = [] ∨ ∃ above, bytes = above ++ [slash]
  | .trailing, bytes => ∃ below, bytes = slash :: below
  | .between, bytes => bytes = [slash] ∨ ∃ inside, bytes = slash :: (inside ++ [slash])
  | .set negated ranges, bytes =>
    ∃ b, bytes = [b] ∧ ((∃ range ∈ ranges, range.1 ≤ b ∧ b ≤ range.2) ↔ negated = false)
  | .oneOf branches, bytes => branches = [] ∧ bytes = [] ∨ SomeStands branches bytes

/-- Whether parts stand for some bytes, one after the other. -/
def AllStand : List IgnorePiece → List UInt8 → Prop
  | [], bytes => bytes = []
  | piece :: pieces, bytes =>
    ∃ front rest, bytes = front ++ rest ∧ Stands piece front ∧ AllStand pieces rest

/-- Whether one of several branches stands for some bytes. -/
def SomeStands : List (List IgnorePiece) → List UInt8 → Prop
  | [], _ => False
  | branch :: branches, bytes => AllStand branch bytes ∨ SomeStands branches bytes

end

/-- Whether some bytes begin with what is wanted and the rest passes a test. -/
def Begins (wanted : List UInt8 → Prop) (test : List UInt8 → Bool) (bytes : List UInt8) : Prop :=
  ∃ front rest, bytes = front ++ rest ∧ wanted front ∧ test rest = true

section

variable {test : List UInt8 → Bool} {wanted wanted' : List UInt8 → Prop} {bytes : List UInt8}

theorem begins_nil : Begins wanted test [] ↔ wanted [] ∧ test [] = true := by
  constructor
  · rintro ⟨front, rest, split, fits, passes⟩
    obtain ⟨rfl, rfl⟩ := List.nil_eq_append_iff.mp split
    exact ⟨fits, passes⟩
  · rintro ⟨fits, passes⟩
    exact ⟨[], [], rfl, fits, passes⟩

/-- What is wanted is nothing, or it starts with the first byte. -/
theorem begins_cons {b : UInt8} :
    Begins wanted test (b :: bytes) ↔
      wanted [] ∧ test (b :: bytes) = true ∨ Begins (fun w => wanted (b :: w)) test bytes := by
  constructor
  · rintro ⟨front, rest, split, fits, passes⟩
    rcases List.cons_eq_append_iff.mp split with ⟨rfl, rfl⟩ | ⟨front', rfl, rfl⟩
    · exact .inl ⟨fits, passes⟩
    · exact .inr ⟨front', rest, rfl, fits, passes⟩
  · rintro (⟨fits, passes⟩ | ⟨front, rest, rfl, fits, passes⟩)
    · exact ⟨[], b :: bytes, rfl, fits, passes⟩
    · exact ⟨b :: front, rest, rfl, fits, passes⟩

theorem begins_empty : Begins (· = []) test bytes ↔ test bytes = true := by
  constructor
  · rintro ⟨_, rest, rfl, rfl, passes⟩
    exact passes
  · exact fun passes => ⟨[], bytes, rfl, rfl, passes⟩

theorem begins_or :
    Begins (fun w => wanted w ∨ wanted' w) test bytes ↔
      Begins wanted test bytes ∨ Begins wanted' test bytes := by
  constructor
  · rintro ⟨front, rest, split, fits | fits, passes⟩
    · exact .inl ⟨front, rest, split, fits, passes⟩
    · exact .inr ⟨front, rest, split, fits, passes⟩
  · rintro (⟨front, rest, split, fits, passes⟩ | ⟨front, rest, split, fits, passes⟩)
    · exact ⟨front, rest, split, .inl fits, passes⟩
    · exact ⟨front, rest, split, .inr fits, passes⟩

theorem begins_and {condition : Prop} :
    Begins (fun w => condition ∧ wanted w) test bytes ↔ condition ∧ Begins wanted test bytes := by
  constructor
  · rintro ⟨front, rest, split, ⟨holds, fits⟩, passes⟩
    exact ⟨holds, front, rest, split, fits, passes⟩
  · rintro ⟨holds, front, rest, split, fits, passes⟩
    exact ⟨front, rest, split, ⟨holds, fits⟩, passes⟩

theorem begins_const {condition : Prop} :
    Begins (fun _ => condition) test bytes ↔ condition ∧ someEnd test bytes = true := by
  rw [someEnd_iff]
  constructor
  · rintro ⟨front, rest, split, holds, passes⟩
    exact ⟨holds, front, rest, split, passes⟩
  · rintro ⟨holds, front, rest, split, passes⟩
    exact ⟨front, rest, split, holds, passes⟩

theorem begins_byte_nil {accepted : UInt8 → Prop} :
    ¬ Begins (fun w => ∃ b, w = [b] ∧ accepted b) test [] := by
  simp [begins_nil]

theorem begins_byte_cons {accepted : UInt8 → Prop} {b : UInt8} :
    Begins (fun w => ∃ c, w = [c] ∧ accepted c) test (b :: bytes) ↔
      accepted b ∧ test bytes = true := by
  have first : (fun w => ∃ c, b :: w = [c] ∧ accepted c) = fun w => accepted b ∧ w = [] := by
    funext w
    rw [eq_iff_iff]
    constructor
    · rintro ⟨c, same, ok⟩
      obtain ⟨rfl, rfl⟩ := List.cons.inj same
      exact ⟨ok, rfl⟩
    · rintro ⟨ok, rfl⟩
      exact ⟨b, rfl, ok⟩
  rw [begins_cons, first, begins_and, begins_empty]
  simp

theorem begins_slash :
    Begins (fun w => ∃ above, w = above ++ [slash]) test bytes ↔ afterSlash test bytes = true := by
  rw [afterSlash_iff]
  constructor
  · rintro ⟨_, rest, rfl, ⟨above, rfl⟩, passes⟩
    exact ⟨above, rest, List.append_assoc _ _ _, passes⟩
  · rintro ⟨above, rest, rfl, passes⟩
    exact ⟨above ++ [slash], rest, List.append_cons _ _ _, ⟨above, rfl⟩, passes⟩

end

mutual

/-- A part accepts the bytes that begin with what it stands for. -/
theorem pieceThen_iff (test : List UInt8 → Bool) (piece : IgnorePiece) (bytes : List UInt8) :
    pieceThen test piece bytes = true ↔ Begins (Stands piece) test bytes := by
  cases piece with
  | run => simp [pieceThen, afterRun_iff, Begins, Stands]
  | leading =>
    simp only [pieceThen, Bool.or_eq_true, Stands, begins_or, begins_empty, begins_slash]
  | oneOf branches =>
    simp only [pieceThen, Bool.or_eq_true, Bool.and_eq_true, List.isEmpty_iff, Stands, begins_or,
      begins_and, begins_empty, someThen_iff]
  | byte b =>
    cases bytes with
    | nil => simp [pieceThen, begins_nil, Stands]
    | cons c bytes => simp [pieceThen, begins_cons, begins_and, begins_empty, Stands, @eq_comm _ c]
  | any =>
    cases bytes with
    | nil => simp [pieceThen, Stands, begins_byte_nil]
    | cons c bytes => simp [pieceThen, Stands, begins_byte_cons]
  | trailing =>
    cases bytes with
    | nil => simp [pieceThen, begins_nil, Stands]
    | cons c bytes => simp [pieceThen, begins_cons, begins_const, Stands]
  | between =>
    cases bytes with
    | nil => simp [pieceThen, begins_nil, Stands]
    | cons c bytes =>
      simp [pieceThen, begins_cons, begins_or, begins_and, begins_empty, begins_slash, Stands,
        and_or_left]
  | set negated ranges =>
    cases bytes with
    | nil => simp [pieceThen, Stands, begins_byte_nil]
    | cons c bytes =>
      simp only [pieceThen, Stands, begins_byte_cons, Bool.and_eq_true]
      cases negated <;> simp

theorem allThen_iff (test : List UInt8 → Bool) (pieces : List IgnorePiece) (bytes : List UInt8) :
    allThen test pieces bytes = true ↔ Begins (AllStand pieces) test bytes := by
  cases pieces with
  | nil => simp only [allThen, AllStand, begins_empty]
  | cons piece pieces =>
    rw [allThen, pieceThen_iff]
    constructor
    · rintro ⟨front, _, rfl, fits, passes⟩
      obtain ⟨more, rest, rfl, fits', passes'⟩ := (allThen_iff test pieces _).mp passes
      exact ⟨front ++ more, rest, (List.append_assoc _ _ _).symm, ⟨front, more, rfl, fits, fits'⟩,
        passes'⟩
    · rintro ⟨_, rest, rfl, ⟨front, more, rfl, fits, fits'⟩, passes⟩
      exact ⟨front, more ++ rest, List.append_assoc _ _ _, fits,
        (allThen_iff test pieces _).mpr ⟨more, rest, rfl, fits', passes⟩⟩

theorem someThen_iff (test : List UInt8 → Bool) (branches : List (List IgnorePiece))
    (bytes : List UInt8) :
    someThen test branches bytes = true ↔ Begins (SomeStands branches) test bytes := by
  cases branches with
  | nil => simp [someThen, Begins, SomeStands]
  | cons branch branches =>
    rw [someThen, Bool.or_eq_true, allThen_iff test branch, someThen_iff test branches]
    exact begins_or.symm

end

/-- A pattern fits a path if and only if its parts stand for the bytes of the path. -/
theorem fits_iff {pattern : IgnorePattern} (other : pattern ≠ [.leading]) (path : String) :
    pattern.fits path = true ↔ AllStand pattern path.toUTF8.toList := by
  have whole : pattern.fits path = allThen List.isEmpty pattern path.toUTF8.toList := by
    unfold fits
    split
    · exact absurd rfl other
    · rfl
  rw [whole, allThen_iff]
  constructor
  · rintro ⟨front, rest, split, stand, ended⟩
    rwa [split, List.isEmpty_iff.mp ended, List.append_nil]
  · exact fun stand => ⟨_, [], (List.append_nil _).symm, stand, rfl⟩

theorem allStand_bytes {written bytes : List UInt8} :
    AllStand (written.map .byte) bytes ↔ bytes = written := by
  induction written generalizing bytes with
  | nil => rfl
  | cons b rest ih => simp [AllStand, Stands, ih]

/-- With a backslash before every character a pattern fits the path of these characters alone. -/
theorem fits_escaped (cs : List Char) (path : String) :
    ∃ pattern, parse? (cs.flatMap fun c => ['\\', c]) = some pattern ∧
      (pattern.fits path = true ↔ path.toUTF8.toList = cs.flatMap bytesOf) := by
  have bytes : (cs.flatMap fun c => (bytesOf c).map IgnorePiece.byte) =
      (cs.flatMap bytesOf).map .byte := List.map_flatMap.symm
  have read : parse? (cs.flatMap fun c => ['\\', c]) =
      some ((cs.flatMap bytesOf).map .byte) := by
    rw [parse?, IgnoreSign.ofText?_escaped, Option.bind_some, ofSigns?_plain, bytes]
    rfl
  refine ⟨_, read, (fits_iff ?_ path).trans allStand_bytes⟩
  intro same
  have first : IgnorePiece.leading ∈ (cs.flatMap bytesOf).map .byte := by simp [same]
  simp at first

end CodeAtlas.IgnorePattern
