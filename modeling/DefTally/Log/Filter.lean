import DefTally.Log.Event
import DefTally.Text.Identifier
import DefTally.Text.Split

/-!
# Log filters

A filter is a list of directives. A directive says how much is shown of what comes from the
targets that begin with a text; of those that apply to a target, the one with the longest text
decides, and of equal texts the last. Where none applies nothing is shown.

Read here are plain directives only, whose targets are made of the characters of words, colons and
dashes. A text with any other directive is not read as a filter (`Filter.ofText?`).
-/

namespace DefTally.Log

open DefTally.Text

/-- How much is shown of a target: nothing, or the levels up to one. -/
inductive Threshold where
  | off
  | upTo (level : Level)
  deriving DecidableEq, Repr

namespace Threshold

/-- A threshold shows an event of the given level. -/
def shows (t : Threshold) (level : Level) : Bool :=
  match t with
  | off => false
  | upTo highest => level.rank ≤ highest.rank

/-- The threshold of a number. -/
def ofNumber? : Nat → Option Threshold
  | 0 => some off
  | 1 => some (upTo .error)
  | 2 => some (upTo .warn)
  | 3 => some (upTo .info)
  | 4 => some (upTo .debug)
  | 5 => some (upTo .trace)
  | _ => none

/-- The threshold of a name, in letters of any case, or of a number, with zeros before it or
without. -/
def ofName? (name : List Char) : Option Threshold :=
  match String.ofList (name.map Char.toLower) with
  | "off" => some off
  | "error" => some (upTo .error)
  | "warn" => some (upTo .warn)
  | "info" => some (upTo .info)
  | "debug" => some (upTo .debug)
  | "trace" => some (upTo .trace)
  | _ =>
    if !name.isEmpty && name.all Char.isDigit then ofNumber? (Nat.ofDigitChars 10 name 0) else none

end Threshold

/-- How much is shown of the targets that begin with a text. -/
structure Directive where
  target : List Char
  threshold : Threshold
  deriving DecidableEq, Repr

namespace Directive

/-- A character that may stand in a plain target. -/
def isTargetChar (c : Char) : Bool := Identifier.isContinue c || c == ':' || c == '-'

/-- A character that a plain target may begin with. The two signs that are left out begin
identifiers without being letters. -/
def beginsTarget (c : Char) : Bool :=
  (Identifier.isStart c && c != '\u2118' && c != '\u212e') || c.isDigit || c == ':' || c == '-'

/-- A plain target, which could not be taken for a level. -/
def isTarget (text : List Char) : Bool :=
  text.head?.any beginsTarget && text.all isTargetChar && (Threshold.ofName? text).isNone

/-- Reads a plain directive: a level for all targets, a target with a level, or a target of which
everything is shown. -/
def ofText? (text : List Char) : Option Directive :=
  match Threshold.ofName? text with
  | some threshold => some ⟨[], threshold⟩
  | none =>
    let target := text.takeWhile (· != '=')
    if isTarget target then
      match text.drop (target.length + 1) with
      | [] => some ⟨target, .upTo .trace⟩
      | level => (Threshold.ofName? level).map (⟨target, ·⟩)
    else none

/-- A directive says something about a target. -/
def applies (d : Directive) (target : List Char) : Bool := d.target.isPrefixOf target

end Directive

/-- The directives of a filter, in the order in which they are given. -/
structure Filter where
  directives : List Directive
  deriving DecidableEq, Repr

namespace Filter

/-- Reads plain directives with commas between them. Empty ones are passed over. -/
def ofText? (text : List Char) : Option Filter :=
  (((splitAt ',' text).filter (· ≠ [])).mapM Directive.ofText?).map Filter.mk

/-- Of two directives the one that decides, the second if they are as long as each other. -/
def stronger (a b : Directive) : Directive := if a.target.length ≤ b.target.length then b else a

/-- The directive that decides about a target. -/
def deciding? (f : Filter) (target : List Char) : Option Directive :=
  (f.directives.filter (·.applies target)).foldl
    (fun best d => some (match best with
      | none => d
      | some b => stronger b d)) none

/-- A filter shows an event. -/
def shows (f : Filter) (e : Event) : Bool :=
  match f.deciding? e.target.toList with
  | some d => d.threshold.shows e.level
  | none => false

end Filter

end DefTally.Log
