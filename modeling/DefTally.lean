import DefTally.Main
import DefTally.Proofs.FileSystem.Entries
import DefTally.Proofs.FileSystem.Visits
import DefTally.Proofs.FileSystem.Places
import DefTally.Proofs.LastEntry
import DefTally.Proofs.Scan.Sources
import DefTally.Proofs.Grammar.Derivation
import DefTally.Proofs.Source.Nesting
import DefTally.Proofs.Source.Statements
import DefTally.Proofs.Count.Definitions
import DefTally.Proofs.Grammar.Trace
import DefTally.Proofs.Grammar.Closure
import DefTally.Proofs.Text.Longest
import DefTally.Proofs.Source.Lexing
import DefTally.Proofs.Source.Reading
import DefTally.Proofs.Source.Blocks
import DefTally.Proofs.Source.Series
import DefTally.Proofs.Count.Blocks
import DefTally.Proofs.Json.Escape
import DefTally.Proofs.Json.RoundTrip
import DefTally.Proofs.Output.Blame
import DefTally.Proofs.DistinctKeys
import DefTally.Proofs.Path.Chain
import DefTally.Proofs.Text.Cut
import DefTally.Proofs.Scan.Keys
import DefTally.Proofs.FileSystem.Along
import DefTally.Proofs.Scan.Composition
import DefTally.Proofs.Source.LastLine
import DefTally.Proofs.Grammar.Words
import DefTally.Proofs.Grammar.Rounds
import DefTally.Proofs.Source.Rounds
import DefTally.Proofs.Source.Ended
import DefTally.Proofs.Text.Reference
import DefTally.Proofs.Text.LineEnds
import DefTally.Proofs.Count.LineEnds
import DefTally.Proofs.Grammar.Memory
import DefTally.Proofs.Count.Counter
import DefTally.Proofs.Process.Run
import DefTally.Proofs.Process.Session
import DefTally.Proofs.FileSystem.Contents
import DefTally.Proofs.Scan.Independence
import DefTally.Proofs.Output.Buffer
import DefTally.Proofs.Command.Contract
import DefTally.Proofs.Text.Sound
import DefTally.Proofs.Log.Filter
import DefTally.Proofs.Log.Account
import DefTally.Proofs.Log.Apart
import DefTally.Proofs.Count.Errors
import DefTally.Proofs.Path.Extended
import DefTally.Proofs.Scan.Order
import DefTally.Proofs.FileSystem.Extended
import DefTally.Proofs.Scan.Spelling
import DefTally.Proofs.KeyOrder
import DefTally.Proofs.Json.Fragments
import DefTally.Proofs.Json.Printable
import DefTally.Proofs.Output.Printable
import DefTally.Proofs.Path.Places
import DefTally.Proofs.Scan.Relative
