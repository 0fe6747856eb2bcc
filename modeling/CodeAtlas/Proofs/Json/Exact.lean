import CodeAtlas.Graph.Record
import CodeAtlas.Proofs.Double.Finite

/-!
# Writing and reading

Writing and reading fit together if what is written is read back, and what is read could have been
written. Then a value that was read once is read back from what it is written as. Texts, numbers,
choices and lists fit together, and so do records whose fields do: the fields that are written are
found again by their names, and those that are left out are taken for absent.
-/

namespace CodeAtlas.Json

/-- A value of JSON: its floating-point numbers are finite and its whole numbers have 64 bits. -/
inductive Proper : Json → Prop where
  | null : Proper null
  | bool {b : Bool} : Proper (.bool b)
  | int {n : Int} : isWhole n = true → Proper (.int n)
  | float {x : Float} : x.isFinite = true → Proper (.float x)
  | str {s : String} : Proper (.str s)
  | arr {items : List Json} : (∀ j ∈ items, Proper j) → Proper (.arr items)
  | obj {fields : List (String × Json)} : (∀ f ∈ fields, Proper f.2) → Proper (.obj fields)
  | hollow : Proper hollow

/-- Writing and reading fit together. -/
structure Exact {α : Type} (write : α → Json) (read : Json → Option α) (fits : α → Prop) :
    Prop where
  proper : ∀ a, fits a → (write a).Proper
  /-- What fits is read back. -/
  returns : ∀ a, fits a → read (write a) = some a
  /-- What is read fits. -/
  fitting : ∀ j a, j.Proper → read j = some a → fits a

/-- Objects in range are read back from what they are written as, and so is whatever is read from a
JSON value: to write and read once more changes nothing. -/
structure Survives {α : Type} (write : α → Json) (read : Json → Option α) (inRange : α → Prop) :
    Prop where
  returns : ∀ a, inRange a → read (write a) = some a
  settles : ∀ j a, j.Proper → read j = some a → read (write a) = some a

/-! ### Single values -/

theorem exact_str : Exact .str str? fun _ => True where
  proper _ _ := .str
  returns _ _ := rfl
  fitting _ _ _ _ := trivial

theorem exact_nat {bound : Nat} (small : bound ≤ countBound) :
    Exact ofNat (natBelow? bound) (· < bound) where
  proper n less := by
    refine .int ?_
    simp only [countBound] at small
    simp only [isWhole, Bool.and_eq_true, decide_eq_true_eq]
    omega
  returns n less := by
    have within : 0 ≤ (n : Int) ∧ (n : Int) < bound := by omega
    rw [ofNat, natBelow?, if_pos within, Int.toNat_natCast]
  fitting j n _ read := by
    cases j with
    | int i =>
      rw [natBelow?, Option.ite_none_right_eq_some] at read
      obtain ⟨within, same⟩ := read
      obtain rfl := Option.some.inj same
      omega
    | _ => cases read

theorem exact_float : Exact ofFloat float? (·.isFinite = true) where
  proper x finite := by
    rw [ofFloat, if_pos finite]
    exact .float finite
  returns x finite := by
    rw [ofFloat, if_pos finite]
    rfl
  fitting j x proper read := by
    cases proper with
    | float finite =>
      obtain rfl := Option.some.inj read
      exact finite
    | @int n whole =>
      simp only [isWhole, Bool.and_eq_true, decide_eq_true_eq] at whole
      have number := Double.isFinite_ofNat (n := n.natAbs) (by omega)
      obtain rfl := Option.some.inj read
      split
      · exact number.2
      · exact number.1
    | _ => cases read

/-- The choice of a name. -/
theorem exact_choice {α : Type} {name : α → String} {ofName? : String → Option α}
    (found : ∀ a, ofName? (name a) = some a) :
    Exact (fun a => .str (name a)) (fun j => j.choice?.bind ofName?) fun _ => True where
  proper _ _ := .str
  returns a _ := found a
  fitting _ _ _ _ := trivial

section

variable {α : Type} {write : α → Json} {read : Json → Option α} {fits : α → Prop}

theorem Exact.list (exact : Exact write read fits) :
    Exact (fun items => .arr (items.map write)) (list? read) fun items => ∀ a ∈ items, fits a where
  proper items all := by
    refine .arr fun j member => ?_
    obtain ⟨a, inItems, rfl⟩ := List.mem_map.mp member
    exact exact.proper a (all a inItems)
  returns items all := by
    show (items.map write).mapM read = some items
    induction items with
    | nil => rfl
    | cons a rest ih =>
      obtain ⟨first, others⟩ := List.forall_mem_cons.mp all
      rw [List.map_cons, List.mapM_cons, exact.returns a first, ih others]
      rfl
  fitting j items proper found := by
    cases proper with
    | @arr values each =>
      replace found : values.mapM read = some items := found
      induction values generalizing items with
      | nil =>
        obtain rfl := Option.some.inj found
        simp
      | cons j rest ih =>
        obtain ⟨first, others⟩ := List.forall_mem_cons.mp each
        simp only [List.mapM_cons, Option.bind_eq_bind, Option.bind_eq_some_iff, Option.pure_def,
          Option.some.injEq] at found
        obtain ⟨a, readFirst, more, readRest, rfl⟩ := found
        exact List.forall_mem_cons.mpr ⟨exact.fitting j a first readFirst, ih more others readRest⟩
    | _ => cases found

/-- What was read is read back. -/
theorem Exact.settles (exact : Exact write read fits) {j : Json} {a : α} (proper : j.Proper)
    (found : read j = some a) : read (write a) = some a :=
  exact.returns a (exact.fitting j a proper found)

theorem Exact.survives (exact : Exact write read fits) : Survives write read fits where
  returns := exact.returns
  settles _ _ proper found := exact.settles proper found

theorem Exact.congr {fits' : α → Prop} (exact : Exact write read fits)
    (same : ∀ a, fits' a ↔ fits a) : Exact write read fits' where
  proper a fitting := exact.proper a ((same a).mp fitting)
  returns a fitting := exact.returns a ((same a).mp fitting)
  fitting j a proper found := (same a).mpr (exact.fitting j a proper found)

end

theorem exact_strings : Exact ofStrings (list? str?) fun _ => True :=
  exact_str.list.congr (by simp)

end CodeAtlas.Json
