import DefTally.Proofs.FileSystem.Lookup

/-!
# Trees that paths do not tell apart

A relation between nodes is a likeness if related nodes are of one shape and look-ups of one name in
them lead to related nodes again (`Likeness`). Then a name comes to the same in trees that are alike,
whether it is looked up or goes to a parent (`lookUp_alike`), a walk takes the same steps through links
as well (`walk_alike`), and a path leads to alike nodes at the same place, or fails in the same way
(`locate_alike`, `resolve_alike`).
-/

namespace DefTally.FileSystem

open DefTally.Text

variable {L : Node → Node → Prop}

/-- Two nodes are of one shape, and a name leads from both of them to related nodes or from neither
of them to one. -/
inductive Shaped (L : Node → Node → Prop) : Node → Node → Prop where
  | file (content content' : Bytes) : Shaped L (.file content) (.file content')
  | directory {entries entries' : List (Bytes × Node)}
      (lookups : ∀ name, Option.Rel L (entries.lookup name) (entries'.lookup name)) :
      Shaped L (.directory entries) (.directory entries')
  | link (target : Path) : Shaped L (.link target) (.link target)
  | special (content : Bytes) : Shaped L (.special content) (.special content)
  | shut (isDirectory : Bool) (failure : Failure) :
      Shaped L (.shut isDirectory failure) (.shut isDirectory failure)

/-- A relation between nodes that walks cannot leave. -/
def Likeness (L : Node → Node → Prop) : Prop := ∀ a b : Node, L a b → Shaped L a b

theorem Shaped.kind_eq {a b : Node} (shaped : Shaped L a b) : a.kind = b.kind := by
  cases shaped <;> rfl

/-- What two walks come to: the same failure, the same missing name, or places with the same names
whose nodes are related. -/
inductive FoundAlike (L : Node → Node → Prop) : Except Failure Found → Except Failure Found → Prop where
  | failure (e : Failure) : FoundAlike L (.error e) (.error e)
  | missing (directory : List Bytes) (name : Bytes) :
      FoundAlike L (.ok (.missing directory name)) (.ok (.missing directory name))
  | place (names : List Bytes) {a b : Node} (alike : L a b) :
      FoundAlike L (.ok (.place ⟨names, a⟩)) (.ok (.place ⟨names, b⟩))

/-- What a name comes to in two trees: the same failure, the same absence, a link to one target, or
places with the same names whose nodes are related. -/
inductive LookupAlike (L : Node → Node → Prop) : Lookup → Lookup → Prop where
  | refused (e : Failure) : LookupAlike L (.refused e) (.refused e)
  | place (names : List Bytes) {a b : Node} (alike : L a b) :
      LookupAlike L (.place ⟨names, a⟩) (.place ⟨names, b⟩)
  | link (target : Path) (alike : L (.link target) (.link target)) :
      LookupAlike L (.link target) (.link target)
  | absent : LookupAlike L .absent .absent

namespace Likeness

variable {root root' : Node}

theorem descend (likeness : Likeness L) (names : List Bytes) : ∀ {a b : Node}, L a b →
    Option.Rel L (a.descend names) (b.descend names) := by
  induction names with
  | nil => exact fun alike => .some alike
  | cons name rest ih =>
    intro a b alike
    cases likeness _ _ alike with
    | file | link | special | shut => exact .none
    | @directory entries entries' lookups =>
      have child := lookups name
      rw [Node.descend, Node.descend]
      generalize entries.lookup name = first, entries'.lookup name = second at child ⊢
      cases child with
      | none => exact .none
      | some below => exact ih below

theorem parent_alike (likeness : Likeness L) (roots : L root root') (names : List Bytes) (a b : Node) :
    (parent root ⟨names, a⟩).names = (parent root' ⟨names, b⟩).names ∧
      L (parent root ⟨names, a⟩).node (parent root' ⟨names, b⟩).node := by
  have above := likeness.descend names.dropLast roots
  refine ⟨rfl, ?_⟩
  simp only [parent]
  generalize root.descend names.dropLast = first, root'.descend names.dropLast = second at above ⊢
  cases above with
  | none => exact roots
  | some alike => exact alike

theorem lookUp_alike (likeness : Likeness L) (roots : L root root') (names : List Bytes) {a b : Node}
    (alike : L a b) (name : Bytes) :
    LookupAlike L (lookUp root ⟨names, a⟩ name) (lookUp root' ⟨names, b⟩ name) := by
  rw [lookUp, lookUp]
  cases likeness _ _ alike with
  | file | link | special | shut => exact .refused _
  | @directory entries entries' lookups =>
    have child := lookups name
    dsimp only
    split
    · exact .place names alike
    split
    · exact .place _ (likeness.parent_alike roots names _ _).2
    split
    · exact .refused _
    generalize entries.lookup name = first, entries'.lookup name = second at child ⊢
    cases child with
    | none => exact .absent
    | some below =>
      cases likeness _ _ below with
      | file | directory | special | shut => exact .place _ below
      | link target => exact .link target below

theorem walkNames_alike (likeness : Likeness L) (roots : L root root') {follow : Bool}
    {onLink onLink' : Bool → Place → Path → List Bytes → Except Failure Found}
    (goesOn : ∀ asks names a b target rest, L a b →
      FoundAlike L (onLink asks ⟨names, a⟩ target rest) (onLink' asks ⟨names, b⟩ target rest))
    (asks : Bool) (path : List Bytes) : ∀ names a b, L a b →
      FoundAlike L (walkNames root follow onLink asks ⟨names, a⟩ path)
        (walkNames root' follow onLink' asks ⟨names, b⟩ path) := by
  induction path with
  | nil =>
    intro names a b alike
    rw [walkNames, walkNames, (likeness _ _ alike).kind_eq]
    split
    · exact .failure _
    · exact .place names alike
  | cons name rest ih =>
    intro names a b alike
    have looked := likeness.lookUp_alike roots names alike name
    rw [walkNames_cons, walkNames_cons]
    generalize lookUp root ⟨names, a⟩ name = first, lookUp root' ⟨names, b⟩ name = second
      at looked ⊢
    cases looked with
    | refused e => exact .failure e
    | place names' there => exact ih names' _ _ there
    | link target link =>
      dsimp only
      split
      · exact .place _ link
      · exact goesOn asks names _ _ target rest alike
    | absent =>
      dsimp only
      split
      · exact .missing names name
      · exact .failure _

theorem walk_alike (likeness : Likeness L) (roots : L root root') (follow : Bool) (links : Nat) :
    ∀ asks path names a b, L a b → FoundAlike L (walk root follow links asks ⟨names, a⟩ path)
      (walk root' follow links asks ⟨names, b⟩ path) := by
  induction links with
  | zero =>
    exact fun asks path => likeness.walkNames_alike roots (fun _ _ _ _ _ _ _ => .failure _) asks path
  | succ links ih =>
    refine fun asks path => likeness.walkNames_alike roots (fun asks names a b target rest alike => ?_)
      asks path
    split
    · exact ih _ _ [] root root' roots
    · exact ih _ _ names a b alike

end Likeness

section Resolve

variable {fs fs' : FileSystem}

/-- A path leads to the same place in file systems that are alike. -/
theorem locate_alike (likeness : Likeness L) (roots : L fs.root fs'.root)
    (working : fs.working = fs'.working) (follow : Bool) (p : Path) :
    FoundAlike L (fs.locate follow p) (fs'.locate follow p) := by
  rcases locate_cases p with ⟨e, refused⟩ | ⟨-, -, -, walked⟩
  · rw [refused, refused]
    exact .failure e
  obtain ⟨node, at_⟩ := exists_working fs
  obtain ⟨node', at_'⟩ := exists_working fs'
  rw [walked, walked, startOf_eq at_, startOf_eq at_', ← working]
  split
  · exact likeness.walk_alike roots follow maxLinks _ _ [] _ _ roots
  · have below := likeness.descend fs.working roots
    rw [at_, working, at_', Option.rel_some_some] at below
    exact likeness.walk_alike roots follow maxLinks _ _ fs.working _ _ below

/-- A path leads to alike nodes in file systems that are alike, or fails in both of them in the same
way. -/
theorem resolve_alike (likeness : Likeness L) (roots : L fs.root fs'.root)
    (working : fs.working = fs'.working) (follow : Bool) (p : Path) :
    (∃ e, fs.resolve follow p = .error e ∧ fs'.resolve follow p = .error e) ∨
      ∃ a b, fs.resolve follow p = .ok a ∧ fs'.resolve follow p = .ok b ∧ L a b := by
  have found := locate_alike likeness roots working follow p
  rw [resolve, resolve]
  generalize fs.locate follow p = first, fs'.locate follow p = second at found ⊢
  cases found with
  | failure e => exact .inl ⟨e, rfl, rfl⟩
  | missing => exact .inl ⟨_, rfl, rfl⟩
  | place _ alike => exact .inr ⟨_, _, rfl, rfl, alike⟩

end Resolve

end DefTally.FileSystem
