import WidgetBridge.ComponentGrammar.Constant
import WidgetBridge.ComponentGrammar.Lexical
import WidgetBridge.ComponentGrammar.Literal
import WidgetBridge.ComponentGrammar.MarkupText
import WidgetBridge.ComponentGrammar.Parser
import WidgetBridge.ComponentGrammar.Production.Expressions
import WidgetBridge.ComponentGrammar.Production.Markup
import WidgetBridge.ComponentGrammar.Production.Statements
import WidgetBridge.ComponentGrammar.Production.Types
import WidgetBridge.ComponentGrammar.Source
import WidgetBridge.ComponentGrammar.SyntaxTree
import WidgetBridge.Config.Lenient
import WidgetBridge.Config.Session
import WidgetBridge.Config.Settings
import WidgetBridge.Conversion
import WidgetBridge.Failure
import WidgetBridge.FileName
import WidgetBridge.Framework
import WidgetBridge.Imports
import WidgetBridge.Mapping.Bundled
import WidgetBridge.Mapping.Entry
import WidgetBridge.Mapping.Record
import WidgetBridge.Mapping.Table
import WidgetBridge.Mapping.Transform
import WidgetBridge.Motion.Easing
import WidgetBridge.Motion.Emission
import WidgetBridge.Motion.Keyframes
import WidgetBridge.Motion.Props
import WidgetBridge.Motion.Spec
import WidgetBridge.Motion.Wrappers
import WidgetBridge.Node
import WidgetBridge.Number.Binary
import WidgetBridge.Number.Numeral
import WidgetBridge.Number.Shortest
import WidgetBridge.PropValue
import WidgetBridge.Reading.ComponentRoot
import WidgetBridge.Reading.ComponentSource
import WidgetBridge.Reading.ComponentTree
import WidgetBridge.Reading.Parts
import WidgetBridge.Reading.WidgetSource
import WidgetBridge.Reading.WidgetTree
import WidgetBridge.Report
import WidgetBridge.Route.Assembly
import WidgetBridge.Route.ComponentRouter
import WidgetBridge.Route.Emission
import WidgetBridge.Route.Guard
import WidgetBridge.Route.Path
import WidgetBridge.Route.Schema
import WidgetBridge.Route.WidgetRouter
import WidgetBridge.Schema.Binding
import WidgetBridge.Schema.Document
import WidgetBridge.Schema.Field
import WidgetBridge.Schema.Motion
import WidgetBridge.State.Binding
import WidgetBridge.State.ComponentScan
import WidgetBridge.State.Expansion
import WidgetBridge.State.Mutation
import WidgetBridge.State.Typing
import WidgetBridge.State.WidgetScan
import WidgetBridge.Text.Basic
import WidgetBridge.Text.CharClass
import WidgetBridge.Text.CharTable
import WidgetBridge.Text.Entity
import WidgetBridge.Text.EntityTable
import WidgetBridge.Text.Indent
import WidgetBridge.Text.Pattern
import WidgetBridge.Text.Url
import WidgetBridge.Text.Utf8
import WidgetBridge.Validation
import WidgetBridge.Value
import WidgetBridge.WidgetGrammar.Expr
import WidgetBridge.WidgetGrammar.Lexeme
import WidgetBridge.WidgetGrammar.Literal
import WidgetBridge.WidgetGrammar.Member
import WidgetBridge.WidgetGrammar.TokenTree
import WidgetBridge.Writing.Component
import WidgetBridge.Writing.Draft
import WidgetBridge.Writing.Widget
import WidgetBridge.Writing.WidgetCode
import WidgetBridge.Proofs.Text.Layout
import WidgetBridge.Proofs.Text.Indent
import WidgetBridge.Proofs.WidgetGrammar.Boundary
import WidgetBridge.Proofs.WidgetGrammar.Quoted
import WidgetBridge.Proofs.WidgetGrammar.Outline
import WidgetBridge.Proofs.WidgetGrammar.Spelling
import WidgetBridge.Proofs.WidgetGrammar.Phrase
import WidgetBridge.Proofs.Number.Numeral
import WidgetBridge.Proofs.WidgetGrammar.Expressions
import WidgetBridge.Proofs.WidgetGrammar.Constants
import WidgetBridge.Proofs.Writing.WidgetCode
import WidgetBridge.Proofs.Writing.Draft
import WidgetBridge.Proofs.Reading.WidgetTree
import WidgetBridge.Proofs.Writing.Widget
import WidgetBridge.Proofs.RoundTrip.PlainTree
import WidgetBridge.Proofs.RoundTrip.Placeholder
import WidgetBridge.Proofs.RoundTrip.TextRun
import WidgetBridge.Proofs.Writing.Arity
import WidgetBridge.Proofs.Writing.Coverage
import WidgetBridge.Proofs.Text.Pattern
import WidgetBridge.Proofs.Route.Guard
import WidgetBridge.Proofs.Route.Recognition
import WidgetBridge.Proofs.WidgetGrammar.SourceText
import WidgetBridge.Proofs.WidgetGrammar.Template
import WidgetBridge.Proofs.WidgetGrammar.Forms
import WidgetBridge.Proofs.Route.Page
import WidgetBridge.Proofs.Schema.Plain
import WidgetBridge.Proofs.Writing.Carried
import WidgetBridge.Proofs.Writing.Verbatim
import WidgetBridge.Proofs.State.Mutation
import WidgetBridge.Proofs.WidgetGrammar.Declaration
import WidgetBridge.Proofs.State.Calls
import WidgetBridge.Proofs.State.SettingMethod
import WidgetBridge.Proofs.State.StateField
import WidgetBridge.Proofs.State.SetState
import WidgetBridge.Proofs.State.Declared
import WidgetBridge.Proofs.Writing.Props
import WidgetBridge.Proofs.Text.Match
import WidgetBridge.Proofs.Number.Readable
import WidgetBridge.Proofs.WidgetGrammar.Lexing
import WidgetBridge.Proofs.WidgetGrammar.Slices
import WidgetBridge.Proofs.WidgetGrammar.MemberSlices
import WidgetBridge.Proofs.Mapping.Backward
import WidgetBridge.Proofs.Reading.Hazards
import WidgetBridge.Proofs.Reading.Faults
import WidgetBridge.Proofs.Route.Tree
import WidgetBridge.Proofs.Route.GuardTable
import WidgetBridge.Proofs.Route.Router
import WidgetBridge.Proofs.WidgetGrammar.Field
import WidgetBridge.Proofs.WidgetGrammar.Block
import WidgetBridge.Proofs.ComponentGrammar.MarkupText
import WidgetBridge.Proofs.Validation
import WidgetBridge.Proofs.Imports
import WidgetBridge.Proofs.Writing.ImportBlock
import WidgetBridge.Proofs.WidgetGrammar.Extension
import WidgetBridge.Proofs.WidgetGrammar.Transplant
import WidgetBridge.Proofs.WidgetGrammar.Likeness
import WidgetBridge.Proofs.WidgetGrammar.Passage
import WidgetBridge.Proofs.Motion.Builder
import WidgetBridge.Proofs.Motion.Gestures
import WidgetBridge.Proofs.Motion.Chain
import WidgetBridge.Proofs.Mapping.Insets
import WidgetBridge.Proofs.Mapping.RoundTrip
import WidgetBridge.Proofs.State.Reducer
import WidgetBridge.Proofs.State.ReducerText
import WidgetBridge.Proofs.Route.Navigation
import WidgetBridge.Proofs.Route.Pruning
import WidgetBridge.Proofs.WidgetGrammar.Comment
import WidgetBridge.Proofs.Mapping.Table
import WidgetBridge.Proofs.Mapping.Carrying
import WidgetBridge.Proofs.Route.PathPattern
import WidgetBridge.Proofs.Route.Address
import WidgetBridge.Proofs.WidgetGrammar.Positions
import WidgetBridge.Proofs.WidgetGrammar.Brackets
import WidgetBridge.Proofs.WidgetGrammar.Scanners
import WidgetBridge.Proofs.WidgetGrammar.Tiling
import WidgetBridge.Proofs.WidgetGrammar.Balance
import WidgetBridge.Proofs.WidgetGrammar.Partners
import WidgetBridge.Proofs.WidgetGrammar.Measure
import WidgetBridge.Proofs.WidgetGrammar.Splitting
import WidgetBridge.Proofs.WidgetGrammar.Nesting
import WidgetBridge.Proofs.Node.Paths
import WidgetBridge.Proofs.State.Unconverted
import WidgetBridge.Proofs.ComponentGrammar.Quoted
import WidgetBridge.Proofs.Route.Naming
import WidgetBridge.Proofs.ComponentGrammar.ImportForm
import WidgetBridge.Proofs.ComponentGrammar.ImportReading
import WidgetBridge.Proofs.Writing.ImportFold
import WidgetBridge.Proofs.Writing.LineFeeds
import WidgetBridge.Proofs.State.Update
import WidgetBridge.Proofs.State.Canonical
