import ClassLinker.Cache
import ClassLinker.Claims
import ClassLinker.CommandLine
import ClassLinker.Config.Basic
import ClassLinker.Config.Reader
import ClassLinker.Definition
import ClassLinker.Descriptor
import ClassLinker.Diagnostic
import ClassLinker.Glob.Basic
import ClassLinker.Glob.Parser
import ClassLinker.Imports.Basic
import ClassLinker.Imports.Walk
import ClassLinker.Json.Basic
import ClassLinker.Json.Parser
import ClassLinker.Json.Printer
import ClassLinker.Json.Reader
import ClassLinker.Main
import ClassLinker.ParentCall
import ClassLinker.Problem
import ClassLinker.Record
import ClassLinker.Registry
import ClassLinker.Report
import ClassLinker.Resolver
import ClassLinker.Script.Cursor
import ClassLinker.Script.Grammar.Expression
import ClassLinker.Script.Grammar.Literal
import ClassLinker.Script.Grammar.Markup
import ClassLinker.Script.Grammar.Member
import ClassLinker.Script.Grammar.Statement
import ClassLinker.Script.Lexeme
import ClassLinker.Script.Node
import ClassLinker.Script.Pattern
import ClassLinker.Script.Point
import ClassLinker.Script.Semicolon
import ClassLinker.Script.Tree
import ClassLinker.Server.Basic
import ClassLinker.Server.Connection
import ClassLinker.Server.Params
import ClassLinker.Session.Analysis
import ClassLinker.Session.Basic
import ClassLinker.Session.Change
import ClassLinker.Session.Discovery
import ClassLinker.Session.Transform
import ClassLinker.Collections
import ClassLinker.Text.Bytes
import ClassLinker.Text.Digest
import ClassLinker.Text.Parts
import ClassLinker.Text.Utf8
import ClassLinker.Toml.Parser
import ClassLinker.Toml.Scalar
import ClassLinker.Toml.Section
import ClassLinker.Uri
import ClassLinker.WebPath
import ClassLinker.Workspace.Basic
import ClassLinker.Workspace.Disk
import ClassLinker.Workspace.Search
import ClassLinker.Proofs.Registry
import ClassLinker.Proofs.RegistryLog
import ClassLinker.Proofs.NameIndex
import ClassLinker.Proofs.DeclaredNames
import ClassLinker.Proofs.Runs
import ClassLinker.Proofs.Walk
import ClassLinker.Proofs.Definitions
import ClassLinker.Proofs.Operations
import ClassLinker.Proofs.ImportClaims
import ClassLinker.Proofs.Dependence
import ClassLinker.Proofs.CacheHits
import ClassLinker.Proofs.Missing
import ClassLinker.Proofs.Search
import ClassLinker.Proofs.Incremental
import ClassLinker.Proofs.Substitution
import ClassLinker.Proofs.Deduplication
import ClassLinker.Proofs.Ownership
import ClassLinker.Proofs.RequestOrder
import ClassLinker.Proofs.Answers
import ClassLinker.Proofs.Shift
import ClassLinker.Proofs.Parallel
import ClassLinker.Proofs.Parallel.Literals
import ClassLinker.Proofs.Parallel.Expressions
import ClassLinker.Proofs.Parallel.Statements
import ClassLinker.Proofs.ImportBlock
import ClassLinker.Proofs.ValidCode
import ClassLinker.Proofs.RecordedClasses
import ClassLinker.Proofs.LastDefinition
import ClassLinker.Proofs.MissingReport
import ClassLinker.Proofs.NormalPaths
import ClassLinker.Proofs.WorkspaceFiles
import ClassLinker.Proofs.GlobAnchors
import ClassLinker.Proofs.Scope
import ClassLinker.Proofs.FailedCalls
import ClassLinker.Proofs.Repetition
import ClassLinker.Proofs.Initialisation
import ClassLinker.Proofs.Shape
import ClassLinker.Proofs.Shape.Expressions
import ClassLinker.Proofs.Shape.Statements
import ClassLinker.Proofs.SiteOrder
import ClassLinker.Proofs.Rewriting
import ClassLinker.Proofs.RewrittenSource
import ClassLinker.Proofs.DepthFirst
import ClassLinker.Proofs.WalkSearch
import ClassLinker.Proofs.ImportGraph
import ClassLinker.Proofs.SharedImports
import ClassLinker.Proofs.AlternateNames
import ClassLinker.Proofs.Configuration
import ClassLinker.Proofs.NamespaceMappings
import ClassLinker.Proofs.ClassPaths
import ClassLinker.Proofs.MappedDirectories
import ClassLinker.Proofs.DisabledReferences
import ClassLinker.Proofs.FileKeys
import ClassLinker.Proofs.Redirections
import ClassLinker.Proofs.GlobExpansion
import ClassLinker.Proofs.Specifiers
import ClassLinker.Proofs.WrittenConfiguration
import ClassLinker.Proofs.WalkCalls
import ClassLinker.Proofs.WalkTermination
import ClassLinker.Proofs.FileEdits
import ClassLinker.Proofs.ReportedEdits
