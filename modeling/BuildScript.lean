import BuildScript.Command.Arguments
import BuildScript.Command.Execute
import BuildScript.Command.Report
import BuildScript.Config
import BuildScript.Coordinate
import BuildScript.Error
import BuildScript.FileTree.Basic
import BuildScript.FileTree.Ignore
import BuildScript.FileTree.Walk
import BuildScript.Glob
import BuildScript.Graph.Basic
import BuildScript.Graph.Configuration
import BuildScript.Graph.Reach
import BuildScript.Json
import BuildScript.Lexeme.Basic
import BuildScript.Lexeme.Scan
import BuildScript.LineDiff.Basic
import BuildScript.LineDiff.Report
import BuildScript.Main
import BuildScript.Marker
import BuildScript.Node.Basic
import BuildScript.Node.Parse
import BuildScript.Node.Print
import BuildScript.Ordered
import BuildScript.Path
import BuildScript.Recipe.Edit
import BuildScript.Recipe.Insert
import BuildScript.Recipe.Options
import BuildScript.Recipe.Plan
import BuildScript.Recipe.Run
import BuildScript.Recipe.Scan
import BuildScript.Regex.Basic
import BuildScript.Regex.Class
import BuildScript.Regex.Parse
import BuildScript.Regex.Property
import BuildScript.Script.Declaration
import BuildScript.Script.Suites
import BuildScript.SourceFile.Basic
import BuildScript.SourceFile.Condition
import BuildScript.SourceFile.Cursor
import BuildScript.SourceFile.Edit
import BuildScript.SourceFile.Visit
import BuildScript.Text.Alphabetic
import BuildScript.Text.CaseFold
import BuildScript.Text.Category
import BuildScript.Text.Cut
import BuildScript.Text.Escape
import BuildScript.Text.Property
import BuildScript.Text.Script
import BuildScript.Toml.Basic
import BuildScript.Toml.Parse
import BuildScript.Toml.Quoted
import BuildScript.Toml.Scalar
import BuildScript.TypeUse.Imports
import BuildScript.TypeUse.Pattern
import BuildScript.Version.Basic
import BuildScript.Version.Resolver
import BuildScript.Version.Selector
import BuildScript.Workspace.Basic
import BuildScript.Workspace.Project
import BuildScript.Proofs.Acyclic
import BuildScript.Proofs.Agreement
import BuildScript.Proofs.BareTrees
import BuildScript.Proofs.BestMatch
import BuildScript.Proofs.BlankCharacters
import BuildScript.Proofs.Coordinates
import BuildScript.Proofs.Coverage
import BuildScript.Proofs.Cutting
import BuildScript.Proofs.DeclaredBlocks
import BuildScript.Proofs.Declaring
import BuildScript.Proofs.DependencyText
import BuildScript.Proofs.DirectoryWalks
import BuildScript.Proofs.Enclosure
import BuildScript.Proofs.Extents
import BuildScript.Proofs.FiniteWalks
import BuildScript.Proofs.Formatting
import BuildScript.Proofs.Frame
import BuildScript.Proofs.Grammar
import BuildScript.Proofs.Growth
import BuildScript.Proofs.ImportLines
import BuildScript.Proofs.Indentation
import BuildScript.Proofs.Inheritance
import BuildScript.Proofs.Isolation
import BuildScript.Proofs.LeadingNumbers
import BuildScript.Proofs.ListingOrder
import BuildScript.Proofs.Lists
import BuildScript.Proofs.Lossless
import BuildScript.Proofs.Matching
import BuildScript.Proofs.Numerals
import BuildScript.Proofs.Outline
import BuildScript.Proofs.Ownership
import BuildScript.Proofs.PackagePatterns
import BuildScript.Proofs.ParsedTrees
import BuildScript.Proofs.PatternExpressions
import BuildScript.Proofs.Pieces
import BuildScript.Proofs.Planning
import BuildScript.Proofs.Positions
import BuildScript.Proofs.ProjectGraphs
import BuildScript.Proofs.Protocol
import BuildScript.Proofs.QuoteStyle
import BuildScript.Proofs.Ranges
import BuildScript.Proofs.Reachability
import BuildScript.Proofs.Readers
import BuildScript.Proofs.Reading
import BuildScript.Proofs.Refitting
import BuildScript.Proofs.Reload
import BuildScript.Proofs.Remembering
import BuildScript.Proofs.Reparsing
import BuildScript.Proofs.Rereading
import BuildScript.Proofs.Rerun
import BuildScript.Proofs.Rescanning
import BuildScript.Proofs.Roundtrip
import BuildScript.Proofs.Rules
import BuildScript.Proofs.ScanOrder
import BuildScript.Proofs.Scanning
import BuildScript.Proofs.Schedules
import BuildScript.Proofs.Seeking
import BuildScript.Proofs.SelectorGrammar
import BuildScript.Proofs.Snippets
import BuildScript.Proofs.Splicing
import BuildScript.Proofs.StringRewriting
import BuildScript.Proofs.Subtrees
import BuildScript.Proofs.SuiteAgreement
import BuildScript.Proofs.SuiteDiscovery
import BuildScript.Proofs.SuitePlacement
import BuildScript.Proofs.Tables
import BuildScript.Proofs.Targets
import BuildScript.Proofs.Termination
import BuildScript.Proofs.Tidiness
import BuildScript.Proofs.Transparency
import BuildScript.Proofs.Trees
import BuildScript.Proofs.TypePatterns
import BuildScript.Proofs.Validation
import BuildScript.Proofs.VersionOrder
import BuildScript.Proofs.Visibility
import BuildScript.Proofs.Visiting
import BuildScript.Proofs.Visits
import BuildScript.Proofs.WellFormed
import BuildScript.Proofs.WrittenFields
