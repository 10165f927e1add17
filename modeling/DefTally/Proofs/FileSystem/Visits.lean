import DefTally.Proofs.FileSystem.Entries
import DefTally.Proofs.FileSystem.Lookup

/-!
# What a walk from a root visits

A walk resolves its root twice, without and with following a link. The two answers differ only
where the path leads to a link (`resolve_false`), so what is visited below the root is what is inside
the node that the root leads to (`visitsBelow_of_ok`).
-/

namespace DefTally.FileSystem

open DefTally.Text

/-- What a path leads to with links followed, as against what it leads to without: the same,
unless that is a link. -/
def AgreesOrLink (followed plain : Except Failure Found) : Prop :=
  plain = followed ∨ ∃ names target, plain = .ok (.place ⟨names, .link target⟩)

theorem walkNames_agrees {root : Node} {followLink plainLink : Bool → Place → Path → List Bytes →
      Except Failure Found}
    (onLink : ∀ asks here target rest,
      AgreesOrLink (followLink asks here target rest) (plainLink asks here target rest))
    (asks : Bool) (names : List Bytes) : ∀ here,
    AgreesOrLink (walkNames root true followLink asks here names)
      (walkNames root false plainLink asks here names) := by
  induction names with
  | nil => exact fun _ => .inl rfl
  | cons name rest ih =>
    intro here
    rw [walkNames_cons, walkNames_cons]
    cases lookUp root here name with
    | refused | absent => exact .inl rfl
    | place there => exact ih there
    | link target =>
      by_cases stays : rest.isEmpty && !asks
      · exact .inr ⟨here.names ++ [name], target, by simp_all⟩
      · have followed : (rest.isEmpty && !true && !asks) = false := by simp
        have plain : (rest.isEmpty && !false && !asks) = false := by simpa using stays
        simp only [followed, plain]
        exact onLink asks here target rest

theorem walk_agrees (root : Node) (links : Nat) : ∀ asks here names,
    AgreesOrLink (walk root true links asks here names) (walk root false links asks here names) := by
  induction links with
  | zero => exact fun asks here names => walkNames_agrees (fun _ _ _ _ => .inl rfl) asks names here
  | succ links ih =>
    exact fun asks here names => walkNames_agrees (fun _ _ _ _ => ih _ _ _) asks names here

theorem locate_agrees (fs : FileSystem) (p : Path) :
    AgreesOrLink (fs.locate true p) (fs.locate false p) := by
  rcases locate_cases p with ⟨e, refused⟩ | ⟨-, -, -, walked⟩
  · exact .inl (by rw [refused, refused])
  · rw [walked, walked]
    exact walk_agrees fs.root maxLinks p.endsInSlash (startOf fs p) p.names

/-- Following links makes no difference to a path that does not lead to a link. -/
theorem resolve_false (fs : FileSystem) (p : Path) :
    fs.resolve false p = fs.resolve true p ∨ ∃ target, fs.resolve false p = .ok (.link target) := by
  unfold resolve
  rcases locate_agrees fs p with same | ⟨_, target, link⟩
  · exact .inl (by rw [same])
  · exact .inr ⟨target, by rw [link]⟩

/-- A path that leads somewhere is not too long. -/
theorem length_le_of_resolve {fs : FileSystem} {follow : Bool} {p : Path} {node : Node}
    (h : fs.resolve follow p = .ok node) : p.text.length ≤ maxPath := by
  obtain ⟨here, -, located⟩ := locate_of_resolve h
  rcases locate_cases p with ⟨e, refused⟩ | ⟨-, -, short, -⟩
  · rw [refused] at located
    cases located
  · exact short

/-- What a walk comes to below its root: the nodes that names lead to from the node that the root
leads to. -/
def entriesBelow (fs : FileSystem) (root : Path) : List (List Bytes × Node) :=
  match fs.resolve true root with
  | .ok top => top.sorted.trailInside root
  | .error _ => []

/-- A root that leads nowhere is all that a walk tells of. -/
theorem visitsBelow_of_error {fs : FileSystem} {root : Path} {failure : Failure}
    (refused : fs.resolve true root = .error failure) :
    fs.visitsBelow root = [.unreadable root failure] := by
  rw [visitsBelow, visits]
  rcases resolve_false fs root with same | ⟨target, link⟩
  · rw [same, refused]
  · rw [link, refused]

/-- Below a root that leads somewhere, a walk visits what is inside the node that it leads to. -/
theorem visitsBelow_of_ok {fs : FileSystem} {root : Path} {top : Node}
    (found : fs.resolve true root = .ok top) : fs.visitsBelow root = top.sorted.visitsInside root := by
  rw [visitsBelow, visits]
  rcases resolve_false fs root with same | ⟨target, link⟩
  · rw [same, found]
    cases top <;> rfl
  · rw [link, found]

/-- A walk comes to the entries below its root in the order of their trail. -/
theorem entries_visitsBelow (fs : FileSystem) (root : Path) :
    (fs.visitsBelow root).filterMap Visit.entry? =
      (fs.entriesBelow root).map (Node.located root) := by
  rw [entriesBelow]
  cases found : fs.resolve true root with
  | error e =>
    rw [visitsBelow_of_error found]
    rfl
  | ok top =>
    rw [visitsBelow_of_ok found]
    exact Node.entries_visitsInside root _

end DefTally.FileSystem
