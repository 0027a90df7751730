import LinkQuery.Main
import LinkQuery.Page.Stream
import LinkQuery.Registry
import LinkQuery.Proofs.Outcome
import LinkQuery.Proofs.Emit
import LinkQuery.Proofs.NameMap
import LinkQuery.Proofs.Number.Rounding
import LinkQuery.Proofs.Number.Interchange
import LinkQuery.Proofs.Number.Integer
import LinkQuery.Proofs.Json.Members
import LinkQuery.Proofs.Filter.Conditions
import LinkQuery.Proofs.Sql.Fragment
import LinkQuery.Proofs.Sql.Token
import LinkQuery.Proofs.Sql.Lexing
import LinkQuery.Proofs.Sql.StatementTokens
import LinkQuery.Proofs.Sql.Casts
import LinkQuery.Proofs.Page.Statement
import LinkQuery.Proofs.Page.Walk
import LinkQuery.Proofs.Page.Ordered
import LinkQuery.Proofs.Sql.Expression
import LinkQuery.Proofs.Sql.Reading
import LinkQuery.Proofs.Filter.Meaning
import LinkQuery.Proofs.Linked.Delivery
import LinkQuery.Proofs.Linked.Demands
import LinkQuery.Proofs.Linked.Filters
import LinkQuery.Proofs.Linked.Result
import LinkQuery.Proofs.Linked.Clear
import LinkQuery.Proofs.Operands.Mention
import LinkQuery.Proofs.Operands.Level
import LinkQuery.Proofs.Operands.Statement
import LinkQuery.Proofs.Json.Literal
import LinkQuery.Proofs.Json.Scan
import LinkQuery.Proofs.Text.Base64Url
import LinkQuery.Proofs.Text.Blank
import LinkQuery.Proofs.Json.ReadBack
import LinkQuery.Proofs.Json.Sound
import LinkQuery.Proofs.Page.CursorToken
import LinkQuery.Proofs.Page.Replay
import LinkQuery.Proofs.Faults
import LinkQuery.Proofs.Page.Continuation
import LinkQuery.Proofs.Json.FloatRange
import LinkQuery.Proofs.Page.Visit
import LinkQuery.Proofs.Page.Adjacent
import LinkQuery.Proofs.Page.Resume
import LinkQuery.Proofs.Page.Return
import LinkQuery.Proofs.Page.More
import LinkQuery.Proofs.Page.Follow
import LinkQuery.Proofs.Schema.LinkName
import LinkQuery.Proofs.Linked.Included
import LinkQuery.Proofs.Linked.Kept
import LinkQuery.Proofs.Linked.Order
import LinkQuery.Proofs.Linked.Resolved
import LinkQuery.Proofs.Page.Pageable
import LinkQuery.Proofs.Sql.Names
import LinkQuery.Proofs.Naturality
import LinkQuery.Proofs.Filter.Form
import LinkQuery.Proofs.Operands.Alike
import LinkQuery.Proofs.Text.Like
import LinkQuery.Proofs.Text.EditDistance
import LinkQuery.Proofs.Linked.Addresses
import LinkQuery.Proofs.Page.Exchange
import LinkQuery.Proofs.Sql.Block
import LinkQuery.Proofs.Linked.Correlated
import LinkQuery.Proofs.Path.Grammar
import LinkQuery.Proofs.Linked.WellFormed
import LinkQuery.Proofs.Linked.Merged
import LinkQuery.Proofs.Filter.Members
import LinkQuery.Proofs.Filter.Spread
import LinkQuery.Proofs.Linked.Pruned
import LinkQuery.Proofs.Page.TotalOrder
import LinkQuery.Proofs.Schema.Column
import LinkQuery.Proofs.Linked.NameFaults
import LinkQuery.Proofs.Linked.Columns
import LinkQuery.Proofs.Linked.OwnColumns
import LinkQuery.Proofs.Linked.OutputNames
import LinkQuery.Proofs.Page.OpenTable
import LinkQuery.Proofs.Sql.CastTypes
import LinkQuery.Proofs.Filter.Types
import LinkQuery.Proofs.Page.Positions
import LinkQuery.Proofs.Page.Length
import LinkQuery.Proofs.Page.Refused
import LinkQuery.Proofs.Linked.WholeRow
import LinkQuery.Proofs.Document.Spelling
import LinkQuery.Proofs.Schema.Spelling
import LinkQuery.Proofs.Postgres.Cell
import LinkQuery.Proofs.Operands.Covered
import LinkQuery.Proofs.Postgres.Integer
import LinkQuery.Proofs.CommandLine.Report
import LinkQuery.Proofs.CommandLine.Reading
import LinkQuery.Proofs.CommandLine.Agreement
