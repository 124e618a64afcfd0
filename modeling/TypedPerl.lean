import TypedPerl.Access
import TypedPerl.Calendar
import TypedPerl.Catalog
import TypedPerl.Catalog.Build
import TypedPerl.Catalog.Stored
import TypedPerl.Cli.Args
import TypedPerl.Cli.Run
import TypedPerl.Collection
import TypedPerl.Compile.Assign
import TypedPerl.Compile.Builtin
import TypedPerl.Compile.Expr
import TypedPerl.Compile.Operator
import TypedPerl.Compile.Resolve
import TypedPerl.Compile.State
import TypedPerl.Compile.Statement
import TypedPerl.Compile.Unit
import TypedPerl.Compile.Value
import TypedPerl.Compile.Walk
import TypedPerl.Conversion
import TypedPerl.Diagnostic
import TypedPerl.Document.Expr
import TypedPerl.Document.Fields
import TypedPerl.Document.SourceUnit
import TypedPerl.Document.Stmt
import TypedPerl.ElementType
import TypedPerl.Host.Basic
import TypedPerl.Host.Memory
import TypedPerl.Java.Class
import TypedPerl.Java.Layout
import TypedPerl.Java.Literal
import TypedPerl.Java.Ty
import TypedPerl.Keyed
import TypedPerl.Main
import TypedPerl.Name.Alias
import TypedPerl.Name.Reserved
import TypedPerl.Numeral.Binary
import TypedPerl.Numeral.Read
import TypedPerl.Numeral.Shortest
import TypedPerl.Numeral.Word
import TypedPerl.Operand
import TypedPerl.PathName
import TypedPerl.Pending
import TypedPerl.Proofs.Walk.Blocks
import TypedPerl.Proofs.Fault.Raised
import TypedPerl.Proofs.Walk.Steady
import TypedPerl.Scope.Package
import TypedPerl.Scope.Table
import TypedPerl.Settings.Basic
import TypedPerl.Settings.Parse
import TypedPerl.Sigil
import TypedPerl.Text.Base64
import TypedPerl.Text.Class
import TypedPerl.Text.Quoted
import TypedPerl.Toml.Document
import TypedPerl.Toml.Scalar
import TypedPerl.Toml.Statement
import TypedPerl.Tree.Basic
import TypedPerl.Tree.Part
import TypedPerl.Tree.Predicates
import TypedPerl.Ty.Basic
import TypedPerl.Ty.Cbor
import TypedPerl.Ty.Pragma
import TypedPerl.Ty.Tag
import TypedPerl.Usage
import TypedPerl.Yaml.Cursor
import TypedPerl.Yaml.Datum
import TypedPerl.Yaml.Directive
import TypedPerl.Yaml.Node
import TypedPerl.Yaml.Scalar
import TypedPerl.Yaml.Token
import TypedPerl.Yaml.Value
import TypedPerl.Proofs.Walk.Expr
import TypedPerl.Proofs.Walk.OwnStep
import TypedPerl.Proofs.Walk.Plan
import TypedPerl.Proofs.Walk.Outcome
import TypedPerl.Proofs.Walk.Calls
import TypedPerl.Proofs.Walk.Balance
import TypedPerl.Proofs.Walk.Recovery
import TypedPerl.Proofs.Walk.Hoisting
import TypedPerl.Proofs.Conversion.Linear
import TypedPerl.Proofs.Conversion.Convertible
import TypedPerl.Proofs.Scope.Aliases
import TypedPerl.Proofs.Scope.Fields
import TypedPerl.Proofs.Text.Within
import TypedPerl.Proofs.Conversion.Kept
import TypedPerl.Proofs.Walk.Texts
import TypedPerl.Proofs.Tree.Parts
import TypedPerl.Proofs.Walk.Along
import TypedPerl.Proofs.Walk.Paths
import TypedPerl.Proofs.Walk.Settled
import TypedPerl.Proofs.Walk.Effects
import TypedPerl.Proofs.Walk.ExprStatements
import TypedPerl.Proofs.Walk.TreeEffects
import TypedPerl.Proofs.Walk.Nullness
import TypedPerl.Proofs.Text.ByteOrder
import TypedPerl.Proofs.Ty.Stored
import TypedPerl.Proofs.Ty.WellFormed
import TypedPerl.Proofs.Catalog.Packages
import TypedPerl.Proofs.Catalog.History
import TypedPerl.Proofs.Twin.Agree
import TypedPerl.Proofs.Twin.Value
import TypedPerl.Proofs.Twin.Table
import TypedPerl.Proofs.Twin.State
import TypedPerl.Proofs.Twin.Step
import TypedPerl.Proofs.Twin.Resolve
import TypedPerl.Proofs.Twin.Expr
import TypedPerl.Proofs.Twin.Statement
import TypedPerl.Proofs.Twin.Walk
import TypedPerl.Proofs.Twin.Unit
import TypedPerl.Proofs.Twin.Options
import TypedPerl.Proofs.Twin.Import
import TypedPerl.Proofs.Scope.Visible
import TypedPerl.Proofs.Walk.Visits
import TypedPerl.Proofs.Walk.Draws
import TypedPerl.Proofs.Walk.Resolving
import TypedPerl.Proofs.Walk.Lexical
import TypedPerl.Proofs.Text.Split
import TypedPerl.Proofs.Scope.ClassNames
import TypedPerl.Proofs.Walk.ClassFiles
import TypedPerl.Proofs.Walk.Variables
import TypedPerl.Proofs.Walk.Growing
import TypedPerl.Proofs.Walk.Generated
import TypedPerl.Proofs.Walk.Declared
import TypedPerl.Proofs.Scope.Taken
import TypedPerl.Proofs.Walk.Redeclared
import TypedPerl.Proofs.Walk.Nesting
import TypedPerl.Proofs.Text.Trim
import TypedPerl.Proofs.Ty.Rows
import TypedPerl.Proofs.Ty.Grammar
import TypedPerl.Proofs.Yaml.Acyclic
import TypedPerl.Proofs.Document.Described
import TypedPerl.Proofs.Document.Settled
import TypedPerl.Proofs.Text.Quiet
import TypedPerl.Proofs.Conversion.Quiet
import TypedPerl.Proofs.Conversion.OddRows
import TypedPerl.Proofs.Conversion.InOrder
import TypedPerl.Proofs.Conversion.Referents
import TypedPerl.Proofs.Conversion.Elements
import TypedPerl.Proofs.Conversion.ElementTypes
import TypedPerl.Proofs.Conversion.NullChecks
import TypedPerl.Proofs.Walk.Choices
import TypedPerl.Proofs.Access.ReadWrite
import TypedPerl.Proofs.Access.Captured
import TypedPerl.Proofs.Access.Repeated
import TypedPerl.Proofs.Access.Acceptance
import TypedPerl.Proofs.Numeral.Whole
import TypedPerl.Proofs.Numeral.Literals
import TypedPerl.Proofs.Numeral.Truncation
import TypedPerl.Proofs.Walk.ListAssignment
import TypedPerl.Proofs.Java.SourceText
import TypedPerl.Proofs.Java.StringLiterals
import TypedPerl.Proofs.Walk.Comments
import TypedPerl.Proofs.Numeral.Written
import TypedPerl.Proofs.Walk.Equality
import TypedPerl.Proofs.Walk.Methods
import TypedPerl.Proofs.Walk.DefaultReturns
import TypedPerl.Proofs.Walk.FailedStatements
import TypedPerl.Proofs.Tree.Renumbered
import TypedPerl.Proofs.Document.Looks
import TypedPerl.Proofs.Document.Following
import TypedPerl.Proofs.Document.Levels
import TypedPerl.Proofs.Yaml.Copy
import TypedPerl.Proofs.Document.Looked
import TypedPerl.Proofs.Document.Meant
import TypedPerl.Proofs.Document.Aliases
import TypedPerl.Proofs.Scope.ReservedClasses
import TypedPerl.Proofs.Numeral.Characters
import TypedPerl.Proofs.Scope.FileClasses
import TypedPerl.Proofs.Text.Styles
import TypedPerl.Proofs.Fault.Wrapping
import TypedPerl.Proofs.Java.Balanced
import TypedPerl.Proofs.Conversion.LoopCode
import TypedPerl.Proofs.Conversion.Expressions
import TypedPerl.Proofs.Conversion.LoopScopes
import TypedPerl.Proofs.Conversion.BalancedText
import TypedPerl.Proofs.Ty.LinearForm
import TypedPerl.Proofs.Java.Erasure
import TypedPerl.Proofs.Conversion.CommonTypes
