import DefTally.Proofs.Source.Reading

/-!
# Blocks of a module

Thirteen kinds of top-level block, each with its text: two kinds that define a function that is
counted, ten that define none, and one that is no part of any module. `Block.script` cuts each text
into lexemes, and `Block.text_eq` and `Block.legible` say that it is cut where the reader of modules
will cut it.
-/

namespace DefTally.Source

open DefTally.Text

/-- A top-level block of a module. -/
inductive Block where
  | nested (i : Nat)
  | decorated (i : Nat)
  | asynchronous (i : Nat)
  | decoratedAsynchronous (i : Nat)
  | classWithMethod
  | decoratedClass
  | conditional
  | loop
  | repetition
  | context
  | guarded
  | constant
  | broken
  deriving DecidableEq

namespace Block

/-- The text of a block. -/
def text : Block → String
  | nested i => "def function_" ++ toString i ++
      "():\n    def helper():\n        pass\n    return helper\n\n"
  | decorated i => "@decorator\ndef function_" ++ toString i ++ "():\n    pass\n\n"
  | asynchronous i => "async def function_" ++ toString i ++ "():\n    pass\n\n"
  | decoratedAsynchronous i =>
    "@decorator\nasync def function_" ++ toString i ++ "():\n    pass\n\n"
  | classWithMethod => "class Service:\n    def method(self):\n        pass\n\n"
  | decoratedClass => "@dataclass\nclass Point:\n    x: int\n\n"
  | conditional => "if True:\n    def conditional():\n        pass\n\n"
  | loop => "for _ in range(2):\n    def looped():\n        pass\n\n"
  | repetition => "while False:\n    def spin():\n        pass\n\n"
  | context => "with open(__file__) as handle:\n    def scoped():\n        pass\n\n"
  | guarded => "try:\n    def guarded():\n        pass\nexcept Exception:\n    pass\n\n"
  | constant => "VALUE = 1\n"
  | broken => "def broken(:\n    pass\n"

/-- The block is a plain definition. -/
def isCounted : Block → Bool
  | nested _ | decorated _ => true
  | _ => false

end Block

/-! ## Scripts of blocks -/

/-- The end of a line, and the indentation of the next one. -/
def line (width : Nat) : List Char := '\n' :: List.replicate width ' '

namespace Piece

/-- A keyword. -/
def keyword (blanks : List Char) (t : Token) : Piece :=
  ⟨blanks, (t.spelling.getD "").toList, .word [t]⟩

/-- A mark right after the lexeme before. -/
def mark (t : Token) : Piece := ⟨[], (t.spelling.getD "").toList, .mark t⟩

/-- A name that is spelled like no keyword. -/
def name (blanks : List Char) (w : String) : Piece := ⟨blanks, w.toList, .word []⟩

/-- The name of a function with a number. -/
def numbered (i : Nat) : Piece := ⟨[' '], "function_".toList ++ Nat.toDigits 10 i, .word []⟩

/-- A statement that does nothing. -/
def pass (width : Nat) : Piece := keyword (line width) .kwPass

end Piece

namespace Block

open Piece

/-- What comes after the name of a function without parameters. -/
def heading : List Piece := [mark .parenOpen, mark .parenClose, mark .colon]

/-- A function that does nothing, inside a block. -/
def inner (w : String) : List Piece :=
  keyword (line 4) .kwDef :: name [' '] w :: (heading ++ [pass 8])

/-- The lexemes of a block. -/
def script : Block → List Piece
  | nested i => keyword [] .kwDef :: numbered i :: (heading ++ inner "helper" ++
      [keyword (line 4) .kwReturn, name [' '] "helper"])
  | decorated i => mark .at :: name [] "decorator" :: keyword (line 0) .kwDef :: numbered i ::
      (heading ++ [pass 4])
  | asynchronous i => keyword [] .kwAsync :: keyword [' '] .kwDef :: numbered i ::
      (heading ++ [pass 4])
  | decoratedAsynchronous i => mark .at :: name [] "decorator" :: keyword (line 0) .kwAsync ::
      keyword [' '] .kwDef :: numbered i :: (heading ++ [pass 4])
  | classWithMethod => [keyword [] .kwClass, name [' '] "Service", mark .colon,
      keyword (line 4) .kwDef, name [' '] "method", mark .parenOpen, name [] "self",
      mark .parenClose, mark .colon, pass 8]
  | decoratedClass => [mark .at, name [] "dataclass", keyword (line 0) .kwClass,
      name [' '] "Point", mark .colon, name (line 4) "x", mark .colon, name [' '] "int"]
  | conditional => keyword [] .kwIf :: keyword [' '] .kwTrue :: mark .colon :: inner "conditional"
  | loop => keyword [] .kwFor :: ⟨[' '], ['_'], .word [.kwUnderscore]⟩ :: keyword [' '] .kwIn ::
      name [' '] "range" :: mark .parenOpen :: ⟨[], ['2'], .mark .integer⟩ :: mark .parenClose ::
      mark .colon :: inner "looped"
  | repetition => keyword [] .kwWhile :: keyword [' '] .kwFalse :: mark .colon :: inner "spin"
  | context => keyword [] .kwWith :: name [' '] "open" :: mark .parenOpen ::
      name [] "__file__" :: mark .parenClose :: keyword [' '] .kwAs :: name [' '] "handle" ::
      mark .colon :: inner "scoped"
  | guarded => keyword [] .kwTry :: mark .colon :: (inner "guarded" ++
      [keyword (line 0) .kwExcept, name [' '] "Exception", mark .colon, pass 4])
  | constant => [name [] "VALUE", ⟨[' '], ['='], .mark .assign⟩, ⟨[' '], ['1'], .mark .integer⟩]
  | broken => [keyword [] .kwDef, name [' '] "broken", mark .parenOpen, mark .colon, pass 4]

/-- The blanks that end a block. -/
def tail : Block → List Char
  | constant | broken => line 0
  | _ => line 0 ++ line 0

theorem toList_around (a c : String) (i : Nat) :
    (a ++ toString i ++ c).toList = a.toList ++ (Nat.toDigits 10 i ++ c.toList) := by
  rw [String.toList_append, String.toList_append, Nat.toString_eq_repr, Nat.toList_repr,
    List.append_assoc]

/-- The text of a block is that of its lexemes. -/
theorem text_eq (b : Block) : b.text.toList = written b.tail b.script := by
  cases b with
  | nested i | decorated i | asynchronous i | decoratedAsynchronous i =>
    show (_ ++ toString i ++ _).toList = _
    rw [toList_around]
    rfl
  | _ => rfl

/-! ## Lexemes that can be told -/

/-- The block with the number 0. -/
def sample : Block → Block
  | nested _ => nested 0
  | decorated _ => decorated 0
  | asynchronous _ => asynchronous 0
  | decoratedAsynchronous _ => decoratedAsynchronous 0
  | b => b

/-- A block of each kind. -/
def samples : List Block :=
  [nested 0, decorated 0, asynchronous 0, decoratedAsynchronous 0, classWithMethod, decoratedClass,
    conditional, loop, repetition, context, guarded, constant, broken]

theorem sample_mem (b : Block) : b.sample ∈ samples := by
  cases b <;> simp [sample, samples]

theorem tail_sample (b : Block) : b.sample.tail = b.tail := by
  cases b <;> rfl

/-- A block differs from its sample in the name of a function at most. -/
theorem script_sample (b : Block) : b.sample.script = b.script ∨
    ∃ i a c, b.script = a ++ numbered i :: c ∧ b.sample.script = a ++ numbered 0 :: c ∧
      (written b.tail c).head? = some '(' := by
  cases b with
  | nested i => exact .inr ⟨i, [keyword [] .kwDef], _, rfl, rfl, rfl⟩
  | decorated i =>
    exact .inr ⟨i, [mark .at, name [] "decorator", keyword (line 0) .kwDef], _, rfl, rfl, rfl⟩
  | asynchronous i =>
    exact .inr ⟨i, [keyword [] .kwAsync, keyword [' '] .kwDef], _, rfl, rfl, rfl⟩
  | decoratedAsynchronous i =>
    exact .inr ⟨i, [mark .at, name [] "decorator", keyword (line 0) .kwAsync,
      keyword [' '] .kwDef], _, rfl, rfl, rfl⟩
  | _ => exact .inl rfl

variable {rest : List Char} {a c : List Piece}

theorem isContinue_of_isDigit {d : Char} (h : d.isDigit = true) : Identifier.isContinue d = true := by
  have all : ∀ n < 58, 48 ≤ n → Identifier.inRanges n Identifier.continueRanges = true := by
    decide
  have digit : 48 ≤ d.toNat ∧ d.toNat ≤ 57 := by
    simpa [Char.isDigit, UInt32.le_iff_toNat_le] using h
  rw [Identifier.isContinue, all d.toNat (by omega) digit.1, Bool.or_true]

/-- No keyword is spelled like a function with a number. -/
theorem rivals_numbered (i : Nat) : rivals ("function_".toList ++ Nat.toDigits 10 i) = [] := by
  have noKeyword : ∀ k ∈ keywords, "function_".toList.isPrefixOf k.2 = false := by decide
  rw [rivals, List.map_eq_nil_iff, List.filter_eq_nil_iff]
  intro k among same
  have other := noKeyword k among
  rw [beq_iff_eq.1 same, List.isPrefixOf_iff_prefix.2 (List.prefix_append _ _)] at other
  cases other

/-- The name of a function with a number is read as a name, up to the bracket after it. -/
theorem numbered_isClear (i : Nat) : (numbered i).isClear '(' = true := by
  have sole : isSole .name ['f'] = true := by decide
  have letters : ("function_".toList ++ Nat.toDigits 10 i).all Identifier.isContinue = true := by
    rw [List.all_append, Bool.and_eq_true]
    refine ⟨by decide, List.all_eq_true.2 fun d inside => ?_⟩
    exact isContinue_of_isDigit (Nat.isDigit_of_mem_toDigits (by decide) (by decide) inside)
  have begins : ∃ others, "function_".toList ++ Nat.toDigits 10 i = ['f', 'u', 'n'] ++ others :=
    ⟨_, rfl⟩
  have plain : isGap [' '] && goesOn ['f'] && opensNone ['f', 'u', 'n'] &&
      Identifier.isStart 'f' && !Identifier.isContinue '(' := by decide
  simp only [Bool.and_eq_true] at plain
  obtain ⟨⟨⟨⟨gap, goes⟩, unopened⟩, starts⟩, stop⟩ := plain
  have noRivals := rivals_numbered i
  simp only [Piece.isClear, numbered, Shape.spells, isWord, letters, noRivals, Bool.and_eq_true]
  obtain ⟨others, begins⟩ := begins
  rw [begins]
  refine ⟨⟨⟨gap, goes⟩, unopened⟩, ⟨⟨⟨starts, trivial⟩, stop⟩, ?_⟩, rfl⟩
  exact isSole_append sole ('u' :: 'n' :: (others ++ ['(']))

/-- The number of a function makes no difference to the lexemes around it. -/
theorem isLegible_numbered (i : Nat) (bracket : (written rest c).head? = some '(') :
    isLegible rest (a ++ numbered i :: c) = isLegible rest (a ++ numbered 0 :: c) := by
  have heads : ∀ a, (written rest (a ++ numbered i :: c)).head? =
      (written rest (a ++ numbered 0 :: c)).head? := by
    intro a
    induction a with
    | nil => rfl
    | cons p ps ih => simp only [List.cons_append, written, List.head?_append, ih]
  induction a with
  | nil =>
    rw [List.nil_append, List.nil_append, isLegible, isLegible, bracket]
    simp [numbered_isClear]
  | cons p ps ih => rw [List.cons_append, List.cons_append, isLegible, isLegible, ih, heads]

theorem samples_legible : ∀ b ∈ samples, isLegible b.tail b.script = true := by
  decide +kernel

/-- Each lexeme of a block can be told from the character after it. -/
theorem legible (b : Block) : isLegible b.tail b.script = true := by
  have checked := samples_legible b.sample b.sample_mem
  rw [tail_sample] at checked
  rcases script_sample b with same | ⟨i, a, c, script, sample, bracket⟩
  · rw [← same]
    exact checked
  · rw [script, isLegible_numbered i bracket, ← sample]
    exact checked

/-! ## Characters -/

/-- A line feed, or a character that is printed in one byte. -/
def isPlain (c : Char) : Bool := c == '\n' || (' ' ≤ c && c ≤ '~')

theorem all_written (q : Char → Bool) (rest : List Char) (a : List Piece) :
    (written rest a).all q = (a.all (fun p => p.blanks.all q && p.text.all q) && rest.all q) := by
  induction a with
  | nil => rfl
  | cons p ps ih =>
    rw [written, List.all_append, List.all_append, ih, List.all_cons, Bool.and_assoc, Bool.and_assoc]

theorem numbered_plain (i : Nat) : (numbered i).text.all isPlain = true := by
  have digits : ∀ d : Char, d.isDigit = true → isPlain d = true := by
    intro d digit
    simp only [Char.isDigit, isPlain, Bool.and_eq_true, Bool.or_eq_true, decide_eq_true_eq] at *
    right
    exact ⟨Char.le_trans (by decide) digit.1, Char.le_trans digit.2 (by decide)⟩
  rw [numbered, List.all_append, Bool.and_eq_true]
  refine ⟨by decide, List.all_eq_true.2 fun d inside => digits d ?_⟩
  exact Nat.isDigit_of_mem_toDigits (by decide) (by decide) inside

/-- The number of a function makes no difference to the characters around it. -/
theorem all_numbered (i : Nat) : (written rest (a ++ numbered i :: c)).all isPlain =
    (written rest (a ++ numbered 0 :: c)).all isPlain := by
  simp only [all_written, List.all_append, List.all_cons, numbered_plain]
  rfl

theorem samples_plain : ∀ b ∈ samples, (written b.tail b.script).all isPlain = true := by
  decide

/-- A block is written in plain characters. -/
theorem plain (b : Block) : b.text.toList.all isPlain = true := by
  have checked := samples_plain b.sample b.sample_mem
  rw [tail_sample] at checked
  rw [text_eq]
  rcases script_sample b with same | ⟨i, a, c, script, sample, -⟩
  · rw [← same]
    exact checked
  · rw [script, all_numbered, ← sample]
    exact checked

end Block

end DefTally.Source
