import LinkedRows.Binary64
import LinkedRows.Binary64.Arithmetic
import LinkedRows.Binary64.Pair
import LinkedRows.Catalog
import LinkedRows.Connector
import LinkedRows.Decimal.Layout
import LinkedRows.Decimal.Reader
import LinkedRows.Decimal.Shortest
import LinkedRows.Delete
import LinkedRows.Dialect
import LinkedRows.Document
import LinkedRows.Engine.Affinity
import LinkedRows.Engine.Change
import LinkedRows.Engine.Change.Progress
import LinkedRows.Engine.Command
import LinkedRows.Engine.Command.Reader
import LinkedRows.Engine.Connection
import LinkedRows.Engine.Database
import LinkedRows.Engine.Datum
import LinkedRows.Engine.Declaration
import LinkedRows.Engine.Declaration.Reader
import LinkedRows.Engine.Execution
import LinkedRows.Engine.Expr
import LinkedRows.Engine.Expr.Names
import LinkedRows.Engine.Expr.Reader
import LinkedRows.Engine.Expr.Value
import LinkedRows.Engine.Function
import LinkedRows.Engine.Function.Aggregate
import LinkedRows.Engine.Function.Bytes
import LinkedRows.Engine.Function.Pattern
import LinkedRows.Engine.Function.Scalar
import LinkedRows.Engine.Interface
import LinkedRows.Engine.Issue
import LinkedRows.Engine.Location
import LinkedRows.Engine.Numeral
import LinkedRows.Engine.Numeral.Printed
import LinkedRows.Engine.Order
import LinkedRows.Engine.Plan
import LinkedRows.Engine.References
import LinkedRows.Engine.ResultCode
import LinkedRows.Engine.Route
import LinkedRows.Engine.Route.Estimate
import LinkedRows.Engine.Route.Loop
import LinkedRows.Engine.Route.Sorted
import LinkedRows.Engine.Route.Term
import LinkedRows.Engine.Selection
import LinkedRows.Engine.Selection.Rows
import LinkedRows.Engine.Settings
import LinkedRows.Engine.Token
import LinkedRows.Engine.Token.Reads
import LinkedRows.Engine.Version
import LinkedRows.Fault
import LinkedRows.Fetch
import LinkedRows.Forest
import LinkedRows.Forest.Assign
import LinkedRows.Forest.Resolve
import LinkedRows.Forest.Traversal
import LinkedRows.Magnitude
import LinkedRows.Naming
import LinkedRows.Options
import LinkedRows.Path
import LinkedRows.Path.Reader
import LinkedRows.Proofs.Action
import LinkedRows.Proofs.Alike
import LinkedRows.Proofs.Attempts
import LinkedRows.Proofs.CatalogAgreement
import LinkedRows.Proofs.CatalogFreshness
import LinkedRows.Proofs.Chains
import LinkedRows.Proofs.Coherence
import LinkedRows.Proofs.Database
import LinkedRows.Proofs.Decimal.Nearest
import LinkedRows.Proofs.Decimal.RoundTrip
import LinkedRows.Proofs.Decimal.Rounding
import LinkedRows.Proofs.Decimal.Shortest
import LinkedRows.Proofs.Decimal.Spelling
import LinkedRows.Proofs.DeclaredDefault
import LinkedRows.Proofs.DeletedOnce
import LinkedRows.Proofs.DeletedRecords
import LinkedRows.Proofs.Described
import LinkedRows.Proofs.Edits
import LinkedRows.Proofs.Errands
import LinkedRows.Proofs.FailedSaves
import LinkedRows.Proofs.Fetched
import LinkedRows.Proofs.FieldOrder
import LinkedRows.Proofs.Flushing
import LinkedRows.Proofs.Following
import LinkedRows.Proofs.Forest.Access
import LinkedRows.Proofs.Forest.Below
import LinkedRows.Proofs.Forest.Changes
import LinkedRows.Proofs.Forest.Filled
import LinkedRows.Proofs.Forest.Growth
import LinkedRows.Proofs.Forest.InStep
import LinkedRows.Proofs.Forest.Intact
import LinkedRows.Proofs.Forest.Joining
import LinkedRows.Proofs.Forest.Kept
import LinkedRows.Proofs.Forest.KeptOrder
import LinkedRows.Proofs.Forest.Knowledge
import LinkedRows.Proofs.Forest.Learning
import LinkedRows.Proofs.Forest.Lines
import LinkedRows.Proofs.Forest.Lone
import LinkedRows.Proofs.Forest.Mirror
import LinkedRows.Proofs.Forest.Rebinding
import LinkedRows.Proofs.Forest.Registration
import LinkedRows.Proofs.Forest.Settling
import LinkedRows.Proofs.Forest.Shape
import LinkedRows.Proofs.Forest.Steady
import LinkedRows.Proofs.Forest.Tracking
import LinkedRows.Proofs.Forest.TwinPaths
import LinkedRows.Proofs.Forest.Twins
import LinkedRows.Proofs.Forest.Ways
import LinkedRows.Proofs.Forest.WellFormed
import LinkedRows.Proofs.FoundPaths
import LinkedRows.Proofs.Handles
import LinkedRows.Proofs.KeptTruth
import LinkedRows.Proofs.KeyedRecords
import LinkedRows.Proofs.LeftJoin
import LinkedRows.Proofs.Lexis
import LinkedRows.Proofs.Lexis.Literal
import LinkedRows.Proofs.LineReading
import LinkedRows.Proofs.LineSaving
import LinkedRows.Proofs.LinkTurns
import LinkedRows.Proofs.MaintainedTables
import LinkedRows.Proofs.MalformedCalls
import LinkedRows.Proofs.Merging
import LinkedRows.Proofs.OnlyReads
import LinkedRows.Proofs.Operations
import LinkedRows.Proofs.PathGrammar
import LinkedRows.Proofs.PathGrammar.Complete
import LinkedRows.Proofs.PathGrammar.Offender
import LinkedRows.Proofs.PathGrammar.Sound
import LinkedRows.Proofs.PathReading
import LinkedRows.Proofs.PathRoundTrip
import LinkedRows.Proofs.PathSteps
import LinkedRows.Proofs.Places
import LinkedRows.Proofs.Reachable
import LinkedRows.Proofs.ReachedRows
import LinkedRows.Proofs.ReadAgain
import LinkedRows.Proofs.ReadBeforeInsert
import LinkedRows.Proofs.Reading
import LinkedRows.Proofs.ReadingRun
import LinkedRows.Proofs.RejectedPaths
import LinkedRows.Proofs.Relinking
import LinkedRows.Proofs.Request
import LinkedRows.Proofs.Resolving
import LinkedRows.Proofs.RetriedSaves
import LinkedRows.Proofs.SaveAgain
import LinkedRows.Proofs.SaveLinks
import LinkedRows.Proofs.SaveNew
import LinkedRows.Proofs.SaveOrder
import LinkedRows.Proofs.SavePoints
import LinkedRows.Proofs.SaveThenSelect
import LinkedRows.Proofs.SaveUnchanged
import LinkedRows.Proofs.SavedTruth
import LinkedRows.Proofs.Saving
import LinkedRows.Proofs.SavingTwins
import LinkedRows.Proofs.SelectionText
import LinkedRows.Proofs.Sessions
import LinkedRows.Proofs.SharedCatalog
import LinkedRows.Proofs.ShownRows
import LinkedRows.Proofs.StatementFaults
import LinkedRows.Proofs.StatementReading
import LinkedRows.Proofs.StatementTokens
import LinkedRows.Proofs.StorableRecords
import LinkedRows.Proofs.StoredRows
import LinkedRows.Proofs.TableRun
import LinkedRows.Proofs.Tables
import LinkedRows.Proofs.Traversals
import LinkedRows.Proofs.Turns
import LinkedRows.Proofs.TwinReading
import LinkedRows.Proofs.TwinRun
import LinkedRows.Proofs.Unbinding
import LinkedRows.Proofs.UpToDate
import LinkedRows.Record
import LinkedRows.Record.Described
import LinkedRows.Row
import LinkedRows.Save
import LinkedRows.Schema
import LinkedRows.Schema.DeclaredDefault
import LinkedRows.Script
import LinkedRows.Statement
import LinkedRows.Table
import LinkedRows.Text.Blank
import LinkedRows.Text.Letter
import LinkedRows.Text.Quoted
import LinkedRows.Text.Utf8
import LinkedRows.Value
import LinkedRows.Value.Document
import LinkedRows.Write
