import CodeAtlas.Proofs.Json.Exact

/-!
# Records

A record is written as an object with the fields that are present, each under its own name. Read by
those names the object gives back every field: a value for one that is present, and none for the
others. Whatever else is read as a record, its fields are values of JSON themselves.
-/

namespace CodeAtlas.Json

/-- The fields that are present, with their names. -/
def present (fields : List (String × Option Json)) : List (String × Json) :=
  fields.filterMap fun f => f.2.map (f.1, ·)

/-! ### Writing -/

/-- A field is found by its name. -/
theorem findIdx_name {before after : List (String × Option Json)} {name : String}
    {value : Option Json} (absent : name ∉ before.map Prod.fst) :
    ((before ++ (name, value) :: after).map fun f => [f.1]).findIdx? (·.contains name) =
      some before.length := by
  have none : (before.map fun f => [f.1]).findIdx? (·.contains name) = none := by
    rw [List.findIdx?_eq_none_iff]
    intro names member
    obtain ⟨f, inBefore, rfl⟩ := List.mem_map.mp member
    have different : name ≠ f.1 := fun same => absent (same ▸ List.mem_map_of_mem inBefore)
    simpa using different
  rw [List.map_append, List.findIdx?_append, none]
  simp [List.findIdx?_cons]

/-- The fields that are left are put at their places after the others. -/
theorem placeFields_present {before after : List (String × Option Json)}
    (distinct : ((before ++ after).map Prod.fst).Nodup) :
    placeFields ((before ++ after).map fun f => [f.1]) (present after)
        (before.map Prod.snd ++ after.map fun _ => none) =
      some ((before ++ after).map Prod.snd) := by
  induction after generalizing before with
  | nil => simp [present, placeFields]
  | cons f rest ih =>
    obtain ⟨name, value⟩ := f
    have moved : before ++ (name, value) :: rest = (before ++ [(name, value)]) ++ rest := by simp
    rw [moved] at distinct
    have later := ih distinct
    rw [← moved] at later
    cases value with
    | none => simpa [present] using later
    | some j =>
      have absent : name ∉ before.map Prod.fst := by
        simp at distinct
        grind
      have placed : place before.length j (before.map Prod.snd ++ none :: rest.map fun _ => none) =
          some ((before ++ [(name, some j)]).map Prod.snd ++ rest.map fun _ => none) := by
        simp [place]
      show placeFields _ ((name, j) :: present rest) _ = _
      rw [placeFields, findIdx_name absent]
      simp only [List.map_cons, placed, Option.bind_some]
      exact later

/-- The fields of a record are read back. -/
theorem record?_present {fields : List (String × Option Json)} {names : List (List String)}
    (spelled : (fields.map fun f => [f.1]) = names) (distinct : names.Nodup) :
    (obj (present fields)).record? names = some ⟨fields.map Prod.snd, false⟩ := by
  subst spelled
  have distinctNames : (fields.map Prod.fst).Nodup := by
    apply List.Nodup.of_map fun name => [name]
    rwa [List.map_map]
  have placed := @placeFields_present [] fields distinctNames
  simp only [List.nil_append, List.map_nil] at placed
  have absent : (fields.map fun f => [f.1]).map (fun _ => (none : Option Json)) =
      fields.map fun _ => none := by
    rw [List.map_map]
    rfl
  rw [record?, absent, placed]
  rfl

theorem present_proper {fields : List (String × Option Json)}
    (proper : ∀ f ∈ fields, ∀ v, f.2 = some v → v.Proper) : (obj (present fields)).Proper := by
  refine .obj fun f member => ?_
  obtain ⟨field, inFields, same⟩ := List.mem_filterMap.mp member
  obtain ⟨v, given, rfl⟩ := Option.map_eq_some_iff.mp same
  exact proper field inFields v given

/-! ### Reading -/

/-- The values of a record's fields are values of JSON. -/
def Record.Proper (r : Record) : Prop :=
  ∀ v, some v ∈ r.values → v.Proper

theorem placeFields_proper {names : List (List String)} {fields : List (String × Json)}
    {values values' : List (Option Json)} (placed : placeFields names fields values = some values')
    (proper : ∀ f ∈ fields, f.2.Proper) (properBefore : ∀ v, some v ∈ values → v.Proper) :
    ∀ v, some v ∈ values' → v.Proper := by
  induction fields generalizing values with
  | nil =>
    obtain rfl := Option.some.inj placed
    exact properBefore
  | cons f rest ih =>
    obtain ⟨name, j⟩ := f
    obtain ⟨first, others⟩ := List.forall_mem_cons.mp proper
    rw [placeFields] at placed
    split at placed
    · exact ih placed others properBefore
    · obtain ⟨values'', put, later⟩ := Option.bind_eq_some_iff.mp placed
      refine ih later others fun v member => ?_
      unfold place at put
      split at put
      · obtain rfl := Option.some.inj put
        rcases List.mem_or_eq_of_mem_set member with before | same
        · exact properBefore v before
        · obtain rfl := Option.some.inj same
          exact first
      · cases put

/-- What is read as a record has values of JSON in its fields. -/
theorem record?_proper {names : List (List String)} {j : Json} {r : Record} (proper : j.Proper)
    (taken : j.record? names = some r) : r.Proper := by
  cases proper with
  | obj fields =>
    obtain ⟨values, placed, rfl⟩ := Option.map_eq_some_iff.mp taken
    exact placeFields_proper placed fields (by simp)
  | arr items =>
    rw [record?, Option.ite_none_right_eq_some] at taken
    obtain ⟨-, same⟩ := taken
    obtain rfl := Option.some.inj same
    intro v member
    simp only [List.mem_append, List.mem_map, Option.some.injEq, exists_eq_right,
      List.mem_replicate, reduceCtorEq, and_false, or_false] at member
    exact items v member
  | _ => cases taken

section

variable {α : Type} {write : α → Json} {read : Json → Option α} {fits : α → Prop} {r : Record}
  {position : Nat}

theorem Record.Proper.value (proper : r.Proper) {v : Json} (given : r.value? position = some v) :
    v.Proper :=
  proper v (List.mem_of_getElem? (Option.join_eq_some_iff.mp given))

/-- What is read from a field that is required fits. -/
theorem Exact.required (exact : Exact write read fits) (proper : r.Proper) {a : α}
    (found : r.required position read = some a) : fits a := by
  obtain ⟨v, given, taken⟩ := Option.bind_eq_some_iff.mp found
  exact exact.fitting v a (proper.value given) taken

/-- What is read from a field that may be absent fits. -/
theorem Exact.optional (exact : Exact write read fits) (proper : r.Proper) {value : Option α}
    (found : r.optional position read = some value) : ∀ a ∈ value, fits a := by
  rintro a rfl
  unfold Record.optional at found
  split at found
  · next v given =>
    unfold option? at found
    split at found
    · cases found
    · obtain ⟨a', taken, same⟩ := Option.map_eq_some_iff.mp found
      obtain rfl := Option.some.inj same
      exact exact.fitting _ a' (proper.value given) taken
  · split at found
    · cases found
    · cases found

theorem Exact.required_returns (exact : Exact write read fits) {a : α}
    (given : r.value? position = some (write a)) (fitting : fits a) :
    r.required position read = some a := by
  rw [Record.required, given, Option.bind_some, exact.returns a fitting]

/-- A field that may be absent is read back, if it is not written as `null`. -/
theorem Exact.optional_returns (exact : Exact write read fits) (nonnull : ∀ a, write a ≠ null)
    {value : Option α} (given : r.value? position = value.map write) (named : r.positional = false)
    (fitting : ∀ a ∈ value, fits a) : r.optional position read = some value := by
  unfold Record.optional
  rw [given]
  cases value with
  | none => simp [named]
  | some a =>
    have written : option? read (write a) = (read (write a)).map some := by
      unfold option?
      split
      · next null => exact absurd null (nonnull a)
      · rfl
    rw [Option.map_some]
    simp only [written, exact.returns a (fitting a rfl), Option.map_some]

end

end CodeAtlas.Json
