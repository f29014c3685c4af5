import QueryFilter.Calendar.Fields
import QueryFilter.Calendar.Pattern
import QueryFilter.CommandLine.Arguments
import QueryFilter.CommandLine.Report
import QueryFilter.Config
import QueryFilter.Dictionary
import QueryFilter.Filter
import QueryFilter.Grammar
import QueryFilter.Json.Reader
import QueryFilter.Json.Record
import QueryFilter.Json.Text
import QueryFilter.Main
import QueryFilter.Numeral
import QueryFilter.Proofs.CommandLine.Run
import QueryFilter.Proofs.Config.Coverage
import QueryFilter.Proofs.Config.RoundTrip
import QueryFilter.Proofs.Filter.Append
import QueryFilter.Proofs.Filter.Partition
import QueryFilter.Proofs.Filter.Replay
import QueryFilter.Proofs.Grammar.Acceptance
import QueryFilter.Proofs.Grammar.EmptyValues
import QueryFilter.Proofs.Grammar.Encoding
import QueryFilter.Proofs.Grammar.FirstGroup
import QueryFilter.Proofs.Grammar.Flaws
import QueryFilter.Proofs.Grammar.Machine
import QueryFilter.Proofs.Grammar.Reports
import QueryFilter.Proofs.Grammar.Sequencing
import QueryFilter.Proofs.Schema.Containers
import QueryFilter.Proofs.Schema.Keys
import QueryFilter.Proofs.Schema.Profiles
import QueryFilter.Proofs.Schema.Reading
import QueryFilter.Proofs.Sql.Agreement
import QueryFilter.Proofs.Sql.Compilation
import QueryFilter.Proofs.Sql.Lines
import QueryFilter.Proofs.Sql.Placeholders
import QueryFilter.Proofs.Sql.Prefixes
import QueryFilter.Proofs.Sql.Refusals
import QueryFilter.Proofs.Sql.Rendering
import QueryFilter.Proofs.Token.Boundary
import QueryFilter.Proofs.Token.Calls
import QueryFilter.Proofs.Token.Lexer
import QueryFilter.Proofs.Token.Pairs
import QueryFilter.Proofs.Token.Tiling
import QueryFilter.Sql.Condition
import QueryFilter.Sql.Statement
import QueryFilter.Text
import QueryFilter.Token
import QueryFilter.Vocabulary
