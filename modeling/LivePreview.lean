import LivePreview.Answer.Fence
import LivePreview.Answer.Marker
import LivePreview.Answer.Normalize
import LivePreview.Bundled
import LivePreview.Component
import LivePreview.Declaration.Basic
import LivePreview.Declaration.Collect
import LivePreview.Declaration.Scan
import LivePreview.Diagnostics
import LivePreview.Digest.Sha256
import LivePreview.Erasure.Binding
import LivePreview.Erasure.Declaration
import LivePreview.Erasure.EnumObject
import LivePreview.Erasure.Report
import LivePreview.Erasure.State
import LivePreview.Erasure.Step
import LivePreview.Erasure.Word
import LivePreview.Failure
import LivePreview.Json.Basic
import LivePreview.Json.Read
import LivePreview.Json.Write
import LivePreview.Lifecycle.Basic
import LivePreview.Lifecycle.Controller
import LivePreview.Lifecycle.Message
import LivePreview.Module.Import
import LivePreview.Module.Statement
import LivePreview.Module.Strip
import LivePreview.Options
import LivePreview.Page.Basic
import LivePreview.Page.Build
import LivePreview.Page.Escape
import LivePreview.Page.Library
import LivePreview.Page.Notice
import LivePreview.Page.Prelude
import LivePreview.Page.RunId
import LivePreview.Page.Runtime
import LivePreview.Platform
import LivePreview.Preview
import LivePreview.Processing
import LivePreview.Program.Expression
import LivePreview.Program.Function
import LivePreview.Program.Markup
import LivePreview.Program.Operand
import LivePreview.Program.Parse
import LivePreview.Program.Pattern
import LivePreview.Program.Reader
import LivePreview.Program.Statement
import LivePreview.Program.Token
import LivePreview.Program.Tree
import LivePreview.Script.Extent
import LivePreview.Script.TypeExtent
import LivePreview.Script.Word
import LivePreview.Session
import LivePreview.SourceFile.Basic
import LivePreview.SourceFile.Inclusion
import LivePreview.SourceFile.Merge
import LivePreview.SourceFile.Split
import LivePreview.Text.Basic
import LivePreview.Text.Case
import LivePreview.Text.Cased
import LivePreview.Text.Choice
import LivePreview.Text.LineStart
import LivePreview.Text.Quoted
import LivePreview.Text.Word
import LivePreview.Verification
import LivePreview.Proofs.Answer.FencedAnswer
import LivePreview.Proofs.Answer.MarkerPath
import LivePreview.Proofs.Answer.Plain
import LivePreview.Proofs.Answer.PlainMarker
import LivePreview.Proofs.Bundled
import LivePreview.Proofs.Component.Tiers
import LivePreview.Proofs.Declaration.Agreement
import LivePreview.Proofs.Declaration.Brackets
import LivePreview.Proofs.Declaration.Composition
import LivePreview.Proofs.Declaration.Forms
import LivePreview.Proofs.Declaration.Lookahead
import LivePreview.Proofs.Declaration.Place
import LivePreview.Proofs.Erasure.Advance
import LivePreview.Proofs.Erasure.AliasRemoval
import LivePreview.Proofs.Erasure.ByteEnums
import LivePreview.Proofs.Erasure.ByteLookahead
import LivePreview.Proofs.Erasure.ByteRuns
import LivePreview.Proofs.Erasure.ByteSlices
import LivePreview.Proofs.Erasure.ByteSteps
import LivePreview.Proofs.Erasure.ByteTokens
import LivePreview.Proofs.Erasure.Bytewise
import LivePreview.Proofs.Erasure.ClassErasure
import LivePreview.Proofs.Erasure.ClassHeader
import LivePreview.Proofs.Erasure.Cuts
import LivePreview.Proofs.Erasure.Deletion
import LivePreview.Proofs.Erasure.EnumBody
import LivePreview.Proofs.Erasure.EnumConversion
import LivePreview.Proofs.Erasure.EnumMembers
import LivePreview.Proofs.Erasure.EnumOverflow
import LivePreview.Proofs.Erasure.Frame
import LivePreview.Proofs.Erasure.FreeForm
import LivePreview.Proofs.Erasure.FreeFormErasure
import LivePreview.Proofs.Erasure.FreeFormStep
import LivePreview.Proofs.Erasure.InterfaceRemoval
import LivePreview.Proofs.Erasure.Lookahead
import LivePreview.Proofs.Erasure.LoopBound
import LivePreview.Proofs.Erasure.MarkupErasure
import LivePreview.Proofs.Erasure.MarkupStep
import LivePreview.Proofs.Erasure.MarkupTree
import LivePreview.Proofs.Erasure.OrdinaryMarkup
import LivePreview.Proofs.Erasure.Progress
import LivePreview.Proofs.Erasure.Removal
import LivePreview.Proofs.Erasure.Resumption
import LivePreview.Proofs.Erasure.StatementSearch
import LivePreview.Proofs.Erasure.Token
import LivePreview.Proofs.Erasure.TopLevel
import LivePreview.Proofs.Erasure.Totality
import LivePreview.Proofs.Erasure.TypedErasure
import LivePreview.Proofs.Erasure.TypedProgram
import LivePreview.Proofs.Json.Grammar
import LivePreview.Proofs.Json.Reading
import LivePreview.Proofs.Lifecycle.Controller
import LivePreview.Proofs.Lifecycle.Invariant
import LivePreview.Proofs.Lifecycle.LastStart
import LivePreview.Proofs.Lifecycle.MountedPage
import LivePreview.Proofs.Lifecycle.Run
import LivePreview.Proofs.Lifecycle.TimerLog
import LivePreview.Proofs.Lifecycle.Transition
import LivePreview.Proofs.Module.DefaultExports
import LivePreview.Proofs.Module.DefaultForms
import LivePreview.Proofs.Module.DefaultOrder
import LivePreview.Proofs.Module.ExportForms
import LivePreview.Proofs.Module.GivenNames
import LivePreview.Proofs.Module.ImportClause
import LivePreview.Proofs.Module.ImportDecoding
import LivePreview.Proofs.Module.ImportForms
import LivePreview.Proofs.Module.Layout
import LivePreview.Proofs.Module.LayoutExpected
import LivePreview.Proofs.Module.LayoutFirstWords
import LivePreview.Proofs.Module.LayoutLeft
import LivePreview.Proofs.Module.LayoutPasses
import LivePreview.Proofs.Module.LayoutReading
import LivePreview.Proofs.Module.LayoutRows
import LivePreview.Proofs.Module.LayoutStart
import LivePreview.Proofs.Module.MergedCode
import LivePreview.Proofs.Module.Passes
import LivePreview.Proofs.Module.ReaderEnd
import LivePreview.Proofs.Module.Remaining
import LivePreview.Proofs.Module.Removal
import LivePreview.Proofs.Module.SecondStrip
import LivePreview.Proofs.Module.StatementReading
import LivePreview.Proofs.Module.StatementText
import LivePreview.Proofs.Module.StrippedCode
import LivePreview.Proofs.Page.Bindings
import LivePreview.Proofs.Page.BoundNames
import LivePreview.Proofs.Page.Captures
import LivePreview.Proofs.Page.Closings
import LivePreview.Proofs.Page.DeclaredNames
import LivePreview.Proofs.Page.EscapedCode
import LivePreview.Proofs.Page.Mountable
import LivePreview.Proofs.Page.NoticeTags
import LivePreview.Proofs.Page.Outcome
import LivePreview.Proofs.Page.RunId
import LivePreview.Proofs.Page.ScriptEnds
import LivePreview.Proofs.Platform
import LivePreview.Proofs.Program.Names
import LivePreview.Proofs.Records
import LivePreview.Proofs.Script.AngleList
import LivePreview.Proofs.Script.BracketWord
import LivePreview.Proofs.Script.ByteReading
import LivePreview.Proofs.Script.ByteTypes
import LivePreview.Proofs.Script.Extent
import LivePreview.Proofs.Script.FreeWords
import LivePreview.Proofs.Script.GroupCalls
import LivePreview.Proofs.Script.Offsets
import LivePreview.Proofs.Script.Prefix
import LivePreview.Proofs.Script.TokenText
import LivePreview.Proofs.Script.TypeEnd
import LivePreview.Proofs.Script.TypeGrammar
import LivePreview.Proofs.Script.TypeGrammarReading
import LivePreview.Proofs.Script.TypeParameter
import LivePreview.Proofs.Script.TypeReading
import LivePreview.Proofs.Script.TypeSyntax
import LivePreview.Proofs.Script.TypeTree
import LivePreview.Proofs.Script.Word
import LivePreview.Proofs.SecondRun
import LivePreview.Proofs.Session.History
import LivePreview.Proofs.Session.LateTimer
import LivePreview.Proofs.Session.Refinement
import LivePreview.Proofs.Settings
import LivePreview.Proofs.SourceFile.MergedFiles
import LivePreview.Proofs.SourceFile.Segments
import LivePreview.Proofs.Syntax.Declaration
import LivePreview.Proofs.Syntax.Token
import LivePreview.Proofs.Text.Bytes
import LivePreview.Proofs.Text.Choice
import LivePreview.Proofs.Text.LineStart
import LivePreview.Proofs.Text.Lines
import LivePreview.Proofs.Text.Place
import LivePreview.Proofs.Text.Quoted
import LivePreview.Proofs.Text.Reading
import LivePreview.Proofs.Text.Visible
import LivePreview.Proofs.Text.Words
