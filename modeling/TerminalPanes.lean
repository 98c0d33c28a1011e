import TerminalPanes.Text.Basic
import TerminalPanes.Text.Decimal
import TerminalPanes.Text.Measure
import TerminalPanes.Text.Property
import TerminalPanes.Text.Cluster
import TerminalPanes.Text.Width
import TerminalPanes.Text.Clip
import TerminalPanes.Text.Utf8
import TerminalPanes.Text.Tables
import TerminalPanes.Grid.Point
import TerminalPanes.Grid.Size
import TerminalPanes.Grid.Rect
import TerminalPanes.Fraction
import TerminalPanes.Color
import TerminalPanes.Style.Attribute
import TerminalPanes.Style.Basic
import TerminalPanes.Escape.Basic
import TerminalPanes.Escape.Stream
import TerminalPanes.Style.Replay
import TerminalPanes.Markup.Basic
import TerminalPanes.Markup.Reader
import TerminalPanes.Markup.Writer
import TerminalPanes.Markup.Cut
import TerminalPanes.Cursor
import TerminalPanes.Key.Basic
import TerminalPanes.Key.Decoder
import TerminalPanes.Key.Reader
import TerminalPanes.Sink
import TerminalPanes.Failure
import TerminalPanes.Terminal.Basic
import TerminalPanes.Terminal.Operation
import TerminalPanes.Pane.Glyphs
import TerminalPanes.Pane.Forest
import TerminalPanes.Pane.Canvas
import TerminalPanes.Pane.Border
import TerminalPanes.Workspace.Basic
import TerminalPanes.Workspace.Prompt
import TerminalPanes.Workspace.Operation
import TerminalPanes.Showcase.Options
import TerminalPanes.Showcase.Screen
import TerminalPanes.Showcase.Guard
import TerminalPanes.Showcase.Program
import TerminalPanes.Main
import TerminalPanes.Proofs.ActionLaws
import TerminalPanes.Proofs.KeyStream
import TerminalPanes.Proofs.ColorText
import TerminalPanes.Proofs.MarkupText
import TerminalPanes.Proofs.StyleActs
import TerminalPanes.Proofs.TerminalEndings
import TerminalPanes.Proofs.StyleRecord
import TerminalPanes.Proofs.StyleNews
import TerminalPanes.Proofs.MarkupShown
import TerminalPanes.Proofs.FractionRounding
import TerminalPanes.Proofs.PaneForest
import TerminalPanes.Proofs.PaneParts
import TerminalPanes.Proofs.PaneShape
import TerminalPanes.Proofs.PaneBinding
import TerminalPanes.Proofs.WorkspaceReach
import TerminalPanes.Proofs.ScreenHold
import TerminalPanes.Proofs.CursorReplay
import TerminalPanes.Proofs.SectionCut
import TerminalPanes.Proofs.TextFront
import TerminalPanes.Proofs.KeyEncoding
import TerminalPanes.Proofs.KeyReading
import TerminalPanes.Proofs.RefusedEmission
import TerminalPanes.Proofs.SinkLimit
import TerminalPanes.Proofs.LimitedRun
import TerminalPanes.Proofs.PaneRefusals
import TerminalPanes.Proofs.PaneMemory
import TerminalPanes.Proofs.ShowcaseScreen
import TerminalPanes.Proofs.ClusterWidth
import TerminalPanes.Proofs.SectionFit
import TerminalPanes.Proofs.MarkupGrammar
import TerminalPanes.Proofs.OperationParts
import TerminalPanes.Proofs.HistoryLimit
import TerminalPanes.Proofs.ShowcaseEnding
import TerminalPanes.Proofs.Strokes
import TerminalPanes.Proofs.SingleCells
import TerminalPanes.Proofs.DrawnRows
import TerminalPanes.Proofs.PaneDrawing
import TerminalPanes.Proofs.DrawnInside
import TerminalPanes.Proofs.FramePainted
import TerminalPanes.Proofs.TitlePlace
import TerminalPanes.Proofs.ClippedWriting
import TerminalPanes.Proofs.BlankedArea
import TerminalPanes.Proofs.WrittenLines
import TerminalPanes.Proofs.Confirmation
import TerminalPanes.Proofs.HistoryShape
import TerminalPanes.Proofs.PaddingSum
import TerminalPanes.Proofs.LongestFront
import TerminalPanes.Proofs.WordLiteral
import TerminalPanes.Proofs.ColorGrammar
import TerminalPanes.Proofs.PointText
import TerminalPanes.Proofs.ShortestWay
import TerminalPanes.Proofs.KeyProgress
