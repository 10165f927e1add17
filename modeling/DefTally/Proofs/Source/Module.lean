import DefTally.Proofs.Grammar.Trace
import DefTally.Proofs.Source.Nesting
import DefTally.Source.Module

/-!
# The parser of modules

The parser of modules does what the kernels of its grammar say (`moduleTable_traced`), so that
every tree it finds is derived from the grammar (`moduleTree?_derived`).
-/

namespace DefTally.Source

open DefTally.Grammar

theorem number_lt (t : Token) : t.number < syntaxGrammar.tokens := by
  cases t <;> decide

/-- Only a keyword has a plain meaning: it is a name too. -/
theorem eq_name_of_plain {t meant : Nat} (plain : moduleReader.plain t = some meant) :
    (Token.ofNat t).isKeyword = true ∧ meant = Token.name.number := by
  simp only [moduleReader] at plain
  split at plain
  · next keyword => exact ⟨keyword, (Option.some.inj plain).symm⟩
  · cases plain

theorem moduleReader_within : moduleReader.Within syntaxGrammar where
  next expects place token after read := by
    obtain ⟨⟨t, after'⟩, -, same⟩ := Option.map_eq_some_iff.1 read
    cases same
    exact number_lt t
  plain token meant plain := by
    rw [(eq_name_of_plain plain).2]
    exact number_lt .name

/-- What is known of the grammar of modules. -/
def moduleFacts : Facts := .ofGrammar syntaxGrammar

theorem moduleFacts_closed : moduleFacts.grammar.Closed := syntaxGrammar_closed

/-- The parser of modules does what the kernels of its states say. -/
theorem moduleTable_mirrors :
    Mirrors syntaxGrammar moduleTable.automaton moduleFacts.automaton moduleTable.kernelOf :=
  build_mirrors moduleFacts_closed 20000

/-- What the parser of modules does can be worked out from the grammar. -/
theorem moduleTable_traced : Traced moduleFacts moduleTable.automaton moduleTable.kernelOf :=
  ⟨moduleTable_mirrors, moduleFacts_closed, Facts.spread_ofGrammar syntaxGrammar⟩

/-- The tree of a module is derived from the grammar of modules. -/
theorem moduleTree?_derived {text : List Char} {tree : Tree} (h : moduleTree? text = some tree) :
    syntaxGrammar.Derived tree ∧ tree.symbol = .phrase Phrase.module.number :=
  parse_derives (f := moduleFacts) moduleTable_mirrors moduleFacts_closed moduleReader_within h

/-! ## Steps -/

/-- A thread of the parser of modules. -/
abbrev ModuleThread := Thread Table.State Place

/-- The tokens that can stand where a thread has come to. -/
def expected (th : ModuleThread) (t : Token) : Bool :=
  (moduleTable.automaton.action (moduleTable.automaton.top th.stack) t.number).possible

theorem step_eq (th : ModuleThread) (chain : Nat) :
    th.step moduleTable.automaton moduleReader chain =
      (th.place.next (expected th)).elim [] fun found =>
        if found.1.isIgnored then [.onward { th with place := found.2 }]
        else resolve moduleTable.automaton moduleReader found.2 (chain * (th.stack.length + 1))
          found.1.number th.stack := by
  have read : moduleReader.next (fun t =>
      (moduleTable.automaton.action (moduleTable.automaton.top th.stack) t).possible) th.place =
        (th.place.next (expected th)).map fun found => (found.1.number, found.2) := rfl
  rw [Thread.step, read]
  cases th.place.next (expected th) with
  | none => rfl
  | some found =>
    have ignored : moduleReader.ignored found.1.number = found.1.isIgnored := by
      simp only [moduleReader, ofNat_number]
    simp only [Option.map_some, Option.elim_some, ignored]

/-- What a step leads to comes of the token that it reads. -/
theorem mem_step {th : ModuleThread} {chain : Nat} {progress : Progress Table.State Place}
    (stepped : progress ∈ th.step moduleTable.automaton moduleReader chain) :
    ∃ t after, th.place.next (expected th) = some (t, after) ∧
      (t.isIgnored = true ∧ progress = .onward { th with place := after } ∨
        progress ∈ resolve moduleTable.automaton moduleReader after (chain * (th.stack.length + 1))
          t.number th.stack) := by
  rw [step_eq] at stepped
  cases read : th.place.next (expected th) with
  | none =>
    rw [read] at stepped
    cases stepped
  | some found =>
    obtain ⟨t, after⟩ := found
    refine ⟨t, after, rfl, ?_⟩
    rw [read, Option.elim_some] at stepped
    split at stepped
    · next ignored => exact .inl ⟨ignored, List.mem_singleton.1 stepped⟩
    · exact .inr stepped

end DefTally.Source
