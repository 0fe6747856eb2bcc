import CodeAtlas.Proofs.Source.Plain
import CodeAtlas.Graph.Edge
import Mathlib.Data.List.Infix

/-!
# Ids tell nodes and edges apart

Ids are texts put together from kinds, paths and names. Names are plain, so the id of a symbol gives
back its kind, its path and its name, whatever the path is. The id of an edge gives back its ends if
there is no arrow in the paths; that of the edge from a symbol to its file does so for every path,
because the path stands in it twice.
-/

namespace CodeAtlas

/-! ### Cutting a text at a separator -/

section Cuts

variable {α : Type} {a : α} {x₁ x₂ z₁ z₂ : List α}

/-- Two texts that agree are cut alike at the first place of a separator. -/
theorem cut_first (absent₁ : a ∉ x₁) (absent₂ : a ∉ x₂) (h : x₁ ++ a :: z₁ = x₂ ++ a :: z₂) :
    x₁ = x₂ ∧ z₁ = z₂ := by
  induction x₁ generalizing x₂ with
  | nil =>
    cases x₂ with
    | nil => simpa using h
    | cons c x₂ =>
      obtain ⟨rfl, -⟩ := List.cons.inj h
      exact absurd List.mem_cons_self absent₂
  | cons b x₁ ih =>
    cases x₂ with
    | nil =>
      obtain ⟨rfl, -⟩ := List.cons.inj h
      exact absurd List.mem_cons_self absent₁
    | cons c x₂ =>
      obtain ⟨rfl, rest⟩ := List.cons.inj h
      obtain ⟨rfl, same⟩ := ih (List.not_mem_of_not_mem_cons absent₁)
        (List.not_mem_of_not_mem_cons absent₂) rest
      exact ⟨rfl, same⟩

/-- Two texts that agree are cut alike at the last place of a separator. -/
theorem cut_last (absent₁ : a ∉ z₁) (absent₂ : a ∉ z₂) (h : x₁ ++ a :: z₁ = x₂ ++ a :: z₂) :
    x₁ = x₂ ∧ z₁ = z₂ := by
  have mirrored := congrArg List.reverse h
  simp only [List.reverse_append, List.reverse_cons, List.append_assoc, List.singleton_append]
    at mirrored
  obtain ⟨ends, starts⟩ := cut_first (by simpa using absent₁) (by simpa using absent₂) mirrored
  exact ⟨List.reverse_inj.mp starts, List.reverse_inj.mp ends⟩

end Cuts

/-- A text without the arrow that stands between the ends of an edge. -/
def Arrowless (cs : List Char) : Prop :=
  ¬ ['-', '>'] <:+: cs

/-- Two texts that agree are cut alike at the first arrow. -/
theorem cut_arrow {x₁ x₂ z₁ z₂ : List Char} (free₁ : Arrowless x₁) (free₂ : Arrowless x₂)
    (h : x₁ ++ '-' :: '>' :: z₁ = x₂ ++ '-' :: '>' :: z₂) : x₁ = x₂ ∧ z₁ = z₂ := by
  have longer : ∀ {x y z₁ z₂ : List Char}, Arrowless (x ++ y) →
      x ++ '-' :: '>' :: z₁ = x ++ y ++ '-' :: '>' :: z₂ → y = [] := by
    intro x y z₁ z₂ free same
    rw [List.append_assoc, List.append_cancel_left_eq] at same
    match y, same with
    | [], _ => rfl
    | [c], same => simp at same
    | c :: d :: y, same =>
      obtain ⟨rfl, rfl, -⟩ : '-' = c ∧ '>' = d ∧ _ := by simpa using same
      exact absurd ⟨x, y, by simp⟩ free
  rcases List.append_eq_append_iff.mp h with ⟨y, rfl, -⟩ | ⟨y, rfl, -⟩
  · obtain rfl := longer free₂ h
    simpa using h
  · obtain rfl := longer free₁ h.symm
    simpa using h

/-- A text in front that cannot begin an arrow makes none. -/
theorem Arrowless.append_left {x y : List Char} (before : '-' ∉ x) (greater : '>' ∉ x)
    (free : Arrowless y) : Arrowless (x ++ y) := by
  induction x with
  | nil => exact free
  | cons c x ih =>
    have rest : Arrowless (x ++ y) :=
      ih (fun h => before (List.mem_cons_of_mem c h)) (fun h => greater (List.mem_cons_of_mem c h))
    intro inside
    rcases List.infix_cons_iff.mp inside with start | later
    · obtain ⟨rest, same⟩ := start
      obtain ⟨rfl, -⟩ := List.cons.inj same
      exact before List.mem_cons_self
    · exact rest later

/-- A text behind in which no arrow ends makes none. -/
theorem Arrowless.append_right {x y : List Char} (free : Arrowless x) (greater : '>' ∉ y) :
    Arrowless (x ++ y) := by
  rintro ⟨before, after, same⟩
  rcases List.append_eq_append_iff.mp same with ⟨z, hx, -⟩ | ⟨z, hx, hy⟩
  · exact free ⟨before, z, hx.symm⟩
  · have last := congrArg List.getLast? hx
    cases found : z.getLast? with
    | none =>
      obtain rfl := List.getLast?_eq_none_iff.mp found
      exact free ⟨before, [], by simpa using hx⟩
    | some c =>
      obtain rfl : '>' = c := by simpa [List.getLast?_append, found] using last
      apply greater
      rw [hy]
      exact List.mem_append_left after (List.mem_of_getLast? found)

/-! ### Ids of nodes -/

/-- No kind of node has a colon in its name. -/
theorem NodeKind.colon_notMem_name (k : NodeKind) : ':' ∉ k.name.toList := by
  cases k <;> decide

theorem NodeKind.name_inj {k l : NodeKind} (h : k.name = l.name) : k = l := by
  have found := NodeKind.ofName?_name k
  rw [h, NodeKind.ofName?_name] at found
  exact (Option.some.inj found).symm

namespace Node

theorem toList_idOfFile (path : String) :
    (idOfFile path).toList = NodeKind.file.name.toList ++ ':' :: path.toList := by
  simp [idOfFile, NodeKind.name]

theorem toList_idOfSymbol (kind : NodeKind) (path name : String) :
    (idOfSymbol kind path name).toList =
      kind.name.toList ++ ':' :: (path.toList ++ ':' :: ':' :: name.toList) := by
  simp [idOfSymbol]

theorem idOfFile_inj {p q : String} (h : idOfFile p = idOfFile q) : p = q := by
  have same := congrArg String.toList h
  rw [toList_idOfFile, toList_idOfFile, List.append_cancel_left_eq] at same
  exact String.toList_inj.mp (List.cons.inj same).2

theorem idOfSymbol_ne_idOfFile {kind : NodeKind} (symbol : kind ≠ .file) (path name file : String) :
    idOfSymbol kind path name ≠ idOfFile file := by
  intro h
  have same := congrArg String.toList h
  rw [toList_idOfSymbol, toList_idOfFile] at same
  have kinds := (cut_first kind.colon_notMem_name NodeKind.file.colon_notMem_name same).1
  exact symbol (NodeKind.name_inj (String.toList_inj.mp kinds))

theorem colon_notMem_of_plain {name : String} (plain : PlainName name) : ':' ∉ name.toList :=
  fun member => (plain ':' member).1 rfl

theorem greater_notMem_of_plain {name : String} (plain : PlainName name) : '>' ∉ name.toList :=
  fun member => (plain '>' member).2 rfl

/-- The id of a symbol with a plain name gives back its kind, path and name. -/
theorem idOfSymbol_inj {k l : NodeKind} {p q m n : String} (plainM : PlainName m)
    (plainN : PlainName n) (h : idOfSymbol k p m = idOfSymbol l q n) : k = l ∧ p = q ∧ m = n := by
  have same := congrArg String.toList h
  rw [toList_idOfSymbol, toList_idOfSymbol] at same
  obtain ⟨kinds, rest⟩ := cut_first k.colon_notMem_name l.colon_notMem_name same
  have split : (p.toList ++ [':']) ++ ':' :: m.toList = (q.toList ++ [':']) ++ ':' :: n.toList := by
    simpa using rest
  obtain ⟨paths, names⟩ := cut_last (colon_notMem_of_plain plainM) (colon_notMem_of_plain plainN)
    split
  exact ⟨NodeKind.name_inj (String.toList_inj.mp kinds),
    String.toList_inj.mp (List.append_cancel_right paths), String.toList_inj.mp names⟩

/-- No arrow is in the id of a file unless one is in its path. -/
theorem arrowless_idOfFile {path : String} (free : Arrowless path.toList) :
    Arrowless (idOfFile path).toList := by
  rw [toList_idOfFile, List.append_cons]
  exact free.append_left (by decide) (by decide)

/-- No arrow is in the id of a symbol with a plain name unless one is in its path. -/
theorem arrowless_idOfSymbol {kind : NodeKind} {path name : String}
    (free : Arrowless path.toList) (plain : PlainName name) :
    Arrowless (idOfSymbol kind path name).toList := by
  have ends : '>' ∉ ':' :: ':' :: name.toList := by
    simpa using greater_notMem_of_plain plain
  rw [toList_idOfSymbol, List.append_cons]
  exact (free.append_right ends).append_left (by cases kind <;> decide) (by cases kind <;> decide)

end Node

/-! ### Ids of edges -/

namespace Edge

theorem toList_idOf (kind : EdgeKind) (source target : String) :
    (idOf kind source target).toList =
      kind.name.toList ++ ':' :: (source.toList ++ '-' :: '>' :: target.toList) := by
  simp [idOf]

/-- The id of an edge gives back its kind, and its ends with an arrow between them. -/
theorem idOf_cut {k l : EdgeKind} {s t s' t' : String} (h : idOf k s t = idOf l s' t') :
    k = l ∧ s.toList ++ '-' :: '>' :: t.toList = s'.toList ++ '-' :: '>' :: t'.toList := by
  have same := congrArg String.toList h
  rw [toList_idOf, toList_idOf] at same
  obtain ⟨kinds, rest⟩ := cut_first (by cases k <;> decide) (by cases l <;> decide) same
  refine ⟨?_, rest⟩
  have found := EdgeKind.ofName?_name k
  rw [String.toList_inj.mp kinds, EdgeKind.ofName?_name] at found
  exact (Option.some.inj found).symm

/-- The id of an edge from a node without an arrow in its id gives back kind and ends. -/
theorem idOf_inj {k l : EdgeKind} {s t s' t' : String} (free : Arrowless s.toList)
    (free' : Arrowless s'.toList) (h : idOf k s t = idOf l s' t') : k = l ∧ s = s' ∧ t = t' := by
  obtain ⟨kinds, ends⟩ := idOf_cut h
  obtain ⟨sources, targets⟩ := cut_arrow free free' ends
  exact ⟨kinds, String.toList_inj.mp sources, String.toList_inj.mp targets⟩

/-- A text between two copies of a path determines the path if it has no colon where a longer path
would need one. -/
private theorem path_unique {p x m n : List Char} (plain : ':' ∉ m)
    (h : ':' :: ':' :: m ++ "->file:".toList ++ p =
      x ++ ':' :: ':' :: n ++ "->file:".toList ++ (p ++ x)) : x = [] := by
  by_contra nonempty
  have positive : 0 < x.length := List.length_pos_iff.mpr nonempty
  have lengths := congrArg List.length h
  simp only [List.length_append, List.length_cons] at lengths
  have within : x.length - 1 < m.length := by omega
  -- the second colon after the longer path falls into the name after the shorter one
  have at_colon := congrArg (fun cs => cs[x.length + 1]?) h
  have right : (x ++ ':' :: ':' :: n ++ "->file:".toList ++ (p ++ x))[x.length + 1]? =
      some ':' := by
    simp
  have left : (':' :: ':' :: m ++ "->file:".toList ++ p)[x.length + 1]? = m[x.length - 1]? := by
    obtain ⟨k, hk⟩ : ∃ k, x.length = k + 1 := ⟨x.length - 1, by omega⟩
    have inside : k < m.length := by omega
    rw [hk]
    simp [List.getElem?_append_left, inside]
  simp only [right, left] at at_colon
  exact plain (List.mem_of_getElem? at_colon)

/-- The edge from a symbol with a plain name to its file gives back kind, path and name. -/
theorem idOf_definedIn_inj {k l : NodeKind} {p q m n : String} (plainM : PlainName m)
    (plainN : PlainName n)
    (h : idOf .definedIn (Node.idOfSymbol k p m) (Node.idOfFile p) =
      idOf .definedIn (Node.idOfSymbol l q n) (Node.idOfFile q)) : k = l ∧ p = q ∧ m = n := by
  have ends := (idOf_cut h).2
  rw [Node.toList_idOfSymbol, Node.toList_idOfSymbol, Node.toList_idOfFile,
    Node.toList_idOfFile, List.append_assoc, List.append_assoc, List.cons_append,
    List.cons_append] at ends
  obtain ⟨kinds, rest⟩ := cut_first k.colon_notMem_name l.colon_notMem_name ends
  have body : p.toList ++ (':' :: ':' :: m.toList ++ "->file:".toList ++ p.toList) =
      q.toList ++ (':' :: ':' :: n.toList ++ "->file:".toList ++ q.toList) := by
    simpa [NodeKind.name] using rest
  have paths : p = q := by
    apply String.toList_inj.mp
    rcases List.append_eq_append_iff.mp body with ⟨x, hq, hx⟩ | ⟨x, hp, hx⟩
    · rw [hq] at hx
      have := path_unique (Node.colon_notMem_of_plain plainM) (by simpa using hx)
      simpa [this] using hq.symm
    · rw [hp] at hx
      have := path_unique (Node.colon_notMem_of_plain plainN) (by simpa using hx)
      simpa [this] using hp
  subst paths
  have names : m.toList = n.toList := by simpa using body
  exact ⟨NodeKind.name_inj (String.toList_inj.mp kinds), rfl, String.toList_inj.mp names⟩

end Edge

end CodeAtlas
