import BcRuntime.Foundation.Fallible
import BcRuntime.Config.Store
import BcRuntime.Foundation.KeyedList
import BcRuntime.Foundation.RunMerging
import BcRuntime.Config.StoreSpec
import BcRuntime.Config.EntryOrder
import BcRuntime.Config.StoreSort
import BcRuntime.Config.StoreLookup
import BcRuntime.Config.StoreRefinement
import BcRuntime.Config.FileLoader
import BcRuntime.Config.LineGrammar
import BcRuntime.Config.StoreCalls
import BcRuntime.Config.LoadFailures
import BcRuntime.Config.FileKeys
import BcRuntime.Config.ProcessBindings
import BcRuntime.Config.FileReading
import BcRuntime.App.Lifecycle
import BcRuntime.App.Precedence
import BcRuntime.Cli.Parse
import BcRuntime.Cli.Tokens
import BcRuntime.Cli.Plan
import BcRuntime.Cli.PlanFollowed
import BcRuntime.Cli.Grammar
import BcRuntime.Cli.OptionRuns
import BcRuntime.Cli.Sentences
import BcRuntime.Cli.Acceptance
import BcRuntime.Cli.Content
import BcRuntime.Config.Getters
import BcRuntime.Cli.TypedReading
import BcRuntime.Cli.BufferWrites
import BcRuntime.Cli.PrefixBuffers
import BcRuntime.Foundation.Runs
import BcRuntime.Log.Machine
import BcRuntime.Log.Record
import BcRuntime.Log.Counter
import BcRuntime.Log.Delivery
import BcRuntime.App.ErrorCollector
import BcRuntime.App.LifeHistory
import BcRuntime.Config.Holdings
import BcRuntime.App.Unwinding
import BcRuntime.Config.StoreInvariant
import BcRuntime.App.Metrics
import BcRuntime.Cli.Builtins
import BcRuntime.Config.ReadCalls
import BcRuntime.Config.Chunking
import BcRuntime.App.ReadErrors
import BcRuntime.Config.CheckedSort
import BcRuntime.Config.FailedOperations
import BcRuntime.Foundation.Checked
import BcRuntime.Log.CheckedRecord
import BcRuntime.Log.BufferContents
import BcRuntime.Config.CheckedLoads
import BcRuntime.Cli.Diagnostics
import BcRuntime.Cli.Help
import BcRuntime.Foundation.Lines
import BcRuntime.App.ErrorReport
import BcRuntime.Cli.GlobalValues
import BcRuntime.Cli.ListValues
import BcRuntime.Foundation.FixedFields
import BcRuntime.Log.Timestamps
import BcRuntime.App.CollectorHistory
import BcRuntime.App.CollectorProgress
import BcRuntime.App.SettableKeys
import BcRuntime.Config.FileText
import BcRuntime.Log.Outcomes
import BcRuntime.Cli.OptionOrder
import BcRuntime.Cli.Rendering
import BcRuntime.Log.SharedLog
import BcRuntime.App.Session
import BcRuntime.Config.Comparisons
import BcRuntime.Log.Transcript
import BcRuntime.Cli.Attempts
import BcRuntime.App.PartialReport
import BcRuntime.Cli.Rejection
import BcRuntime.Cli.HelpListing
import BcRuntime.Config.Interchange
import BcRuntime.App.TypedAnswers
import BcRuntime.Log.BufferedPath
