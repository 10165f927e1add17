import DefTally.Log.Filter
import DefTally.Text.Blank

/-!
# Log settings

A setting says which events go to the log. Without one, or if it is blank or no text, none do. A
setting of plain directives shows what their filter shows. What any other setting comes to is up
to a `SettingReader`; it may have something to say of the setting itself, which comes first in the
log.
-/

namespace DefTally.Log

open DefTally.Text

/-- What a setting makes of a log: what is said of the setting, and the events that are shown. -/
structure Logging where
  notice : String
  shows : Event → Bool

/-- A reader of settings that are not made of plain directives. -/
abbrev SettingReader := List Char → Logging

/-- The reader that keeps the plain directives, and says of every other one that it is ignored. -/
def SettingReader.lenient : SettingReader := fun text =>
  let given := (splitAt ',' text).filter (· ≠ [])
  let ignored := given.filter fun directive => (Directive.ofText? directive).isNone
  { notice := String.join (ignored.map fun directive =>
      "ignoring `" ++ String.ofList directive ++ "`: invalid filter directive\n")
    shows := (Filter.mk (given.filterMap Directive.ofText?)).shows }

/-- The lines of the events that are shown. -/
def linesOf (shows : Event → Bool) (events : List Event) : String :=
  String.join ((events.filter shows).map Event.line)

namespace Logging

/-- No log. -/
def off : Logging := ⟨"", fun _ => false⟩

/-- What a setting asks for. -/
def ofSetting (reader : SettingReader) (setting : Option Bytes) : Logging :=
  match setting.bind Utf8.decode? with
  | none => off
  | some text =>
    if text.all isWhiteSpace then off
    else match Filter.ofText? text with
      | some filter => ⟨"", filter.shows⟩
      | none => reader text

/-- The log of some events. -/
def log (l : Logging) (events : List Event) : String := l.notice ++ linesOf l.shows events

end Logging

end DefTally.Log
