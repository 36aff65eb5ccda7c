import EquityScreen.Bounds
import EquityScreen.Calculation
import EquityScreen.Catalog
import EquityScreen.Cell
import EquityScreen.Cell.Affinity
import EquityScreen.CommandLine
import EquityScreen.CommandLine.Arguments
import EquityScreen.CommandLine.Help
import EquityScreen.Compilation
import EquityScreen.Database
import EquityScreen.Database.Answer
import EquityScreen.Database.File
import EquityScreen.Database.Name
import EquityScreen.Database.Scalar
import EquityScreen.Decimal
import EquityScreen.Decimal.Dyadic
import EquityScreen.FileEntry
import EquityScreen.Filter
import EquityScreen.Json
import EquityScreen.Json.Printer
import EquityScreen.Json.Reader
import EquityScreen.Literal
import EquityScreen.Main
import EquityScreen.Metric
import EquityScreen.Period
import EquityScreen.Placeholder
import EquityScreen.Predicate
import EquityScreen.Predicate.Meaning
import EquityScreen.Proofs.ConditionReading
import EquityScreen.Quantity
import EquityScreen.Quantity.Binary64
import EquityScreen.Report
import EquityScreen.Request
import EquityScreen.Resolution
import EquityScreen.Screen
import EquityScreen.Settings
import EquityScreen.Settings.Reader
import EquityScreen.Statement
import EquityScreen.Store
import EquityScreen.Store.Canned
import EquityScreen.Text.Blank
import EquityScreen.Text.Parts
import EquityScreen.Truth
import EquityScreen.Validation
import EquityScreen.Violation
import EquityScreen.Vocabulary
import EquityScreen.Width
import EquityScreen.Proofs.CompiledForm
import EquityScreen.Proofs.CompiledTree
import EquityScreen.Proofs.ProperPredicate
import EquityScreen.Proofs.SqlTokens
import EquityScreen.Proofs.PlaceholderText
import EquityScreen.Proofs.PlainNames
import EquityScreen.Proofs.PredicatePlaceholders
import EquityScreen.Proofs.ParameterOrder
import EquityScreen.Proofs.CompiledSelection
import EquityScreen.Proofs.LiteralIndependence
import EquityScreen.Proofs.ValidatedTree
import EquityScreen.Proofs.SelectionPlaceholders
import EquityScreen.Proofs.ValidatedQuery
import EquityScreen.Proofs.Subqueries
import EquityScreen.Proofs.OperandQueries
import EquityScreen.Proofs.SqlReader
import EquityScreen.Proofs.SqlReading
import EquityScreen.Proofs.OperandTokens
import EquityScreen.Proofs.PredicateReading
import EquityScreen.Proofs.CompiledMeaning
import EquityScreen.Proofs.CandidateVerdicts
import EquityScreen.Proofs.WorkerSchedules
import EquityScreen.Proofs.ScheduledRun
import EquityScreen.Proofs.BoundTracking
import EquityScreen.Proofs.ConflictScopes
import EquityScreen.Proofs.PredicateNames
import EquityScreen.Proofs.SelectionNames
import EquityScreen.Proofs.FactNames
import EquityScreen.Proofs.ResolvedNames
import EquityScreen.Proofs.JoinedRows
import EquityScreen.Proofs.WellFormedTree
import EquityScreen.Proofs.CandidateTruth
import EquityScreen.Proofs.SelectQuery
import EquityScreen.Proofs.SelectedCompanies
import EquityScreen.Proofs.MatchedCompanies
import EquityScreen.Proofs.CellOrder
import EquityScreen.Proofs.OwnRows
import EquityScreen.Proofs.CompanyLocality
import EquityScreen.Proofs.ResolvableConditions
import EquityScreen.Proofs.RowBounds
import EquityScreen.Proofs.BoundedTexts
import EquityScreen.Proofs.ResourceBounds
import EquityScreen.Proofs.TighterBounds
import EquityScreen.Proofs.KeySort
import EquityScreen.Proofs.PeriodText
import EquityScreen.Proofs.CashFlowMerge
import EquityScreen.Proofs.YearCashFlow
import EquityScreen.Proofs.CompoundGrowth
import EquityScreen.Proofs.RowOrder
import EquityScreen.Proofs.ExactNumbers
import EquityScreen.Proofs.FactSeries
import EquityScreen.Proofs.TrendMeaning
import EquityScreen.Proofs.AggregateMeaning
import EquityScreen.Proofs.CrossedBounds
import EquityScreen.Proofs.CompositionalValidation
import EquityScreen.Proofs.ConflictMeaning
import EquityScreen.Proofs.PlaceText
import EquityScreen.Proofs.PayloadGrammar
import EquityScreen.Proofs.PayloadReading
import EquityScreen.Proofs.RangeComparisons
import EquityScreen.Proofs.RangeMeaning
import EquityScreen.Proofs.NewestQuarter
import EquityScreen.Proofs.FieldAliases
import EquityScreen.Proofs.AliasMeaning
import EquityScreen.Proofs.PayloadSpellings
import EquityScreen.Proofs.RespelledReading
import EquityScreen.Proofs.MetricInputs
import EquityScreen.Proofs.MetricDivisions
import EquityScreen.Proofs.MetricValues
import EquityScreen.Proofs.DerivedWindows
import EquityScreen.Proofs.PlaceholderScan
import EquityScreen.Proofs.PeriodOrder
