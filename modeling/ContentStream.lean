import ContentStream.CommandLine.Arguments
import ContentStream.CommandLine.Directory
import ContentStream.CommandLine.Dump
import ContentStream.CommandLine.Help
import ContentStream.Content.Byte
import ContentStream.Content.Cursor
import ContentStream.Content.InlineData
import ContentStream.Content.InlineDict
import ContentStream.Content.Item
import ContentStream.Content.Token
import ContentStream.Decimal.Basic
import ContentStream.Decimal.Binary64
import ContentStream.Decimal.Quotient
import ContentStream.Decimal.Shortest
import ContentStream.Decimal.Text
import ContentStream.Error
import ContentStream.Font.Basic
import ContentStream.Font.CidWidths
import ContentStream.Font.CodeMap
import ContentStream.Font.Load
import ContentStream.Font.ToUnicode
import ContentStream.Graphics.Clip
import ContentStream.Graphics.Color
import ContentStream.Graphics.Geometry
import ContentStream.Graphics.Path
import ContentStream.Graphics.State
import ContentStream.Main
import ContentStream.Object.Basic
import ContentStream.Object.Operands
import ContentStream.Object.Written
import ContentStream.Operator
import ContentStream.Output.EventLines
import ContentStream.Output.JsonText
import ContentStream.Output.Tags
import ContentStream.Resource.Chain
import ContentStream.Resource.ColorSpaces
import ContentStream.Resource.Table
import ContentStream.Run.Event
import ContentStream.Run.Execute
import ContentStream.Run.ExternalObjects
import ContentStream.Run.Fonts
import ContentStream.Run.Instruction
import ContentStream.Run.Nested
import ContentStream.Run.Outcome
import ContentStream.Run.Pages
import ContentStream.Run.Painting
import ContentStream.Run.PathBuilder
import ContentStream.Run.Perform
import ContentStream.Run.Processor
import ContentStream.Run.Sections
import ContentStream.Run.ShowText
import ContentStream.Run.StateChange
import ContentStream.Run.StateDict
import ContentStream.Text.Hidden
import ContentStream.Text.Markup
import ContentStream.Text.Quoted
import ContentStream.Text.Utf16
import ContentStream.Text.Utf8
import ContentStream.Proofs.Steps
import ContentStream.Proofs.Isolation
import ContentStream.Proofs.Failure
import ContentStream.Proofs.SaveRestore
import ContentStream.Proofs.Brackets
import ContentStream.Proofs.DecimalOrder
import ContentStream.Proofs.Confinement
import ContentStream.Proofs.Segments
import ContentStream.Proofs.Utf8Text
import ContentStream.Proofs.DecimalText
import ContentStream.Proofs.Locality
import ContentStream.Proofs.Printing
import ContentStream.Proofs.Offsets
import ContentStream.Proofs.InlineData
import ContentStream.Proofs.InlineImages
import ContentStream.Proofs.Nesting
import ContentStream.Proofs.WellFormed
import ContentStream.Proofs.Bookkeeping
import ContentStream.Proofs.Bounds
import ContentStream.Proofs.StoppingEarly
import ContentStream.Proofs.SegmentCursor
import ContentStream.Proofs.SegmentReader
import ContentStream.Proofs.ReadsInRange
import ContentStream.Proofs.Composition
import ContentStream.Proofs.ItemReader
import ContentStream.Proofs.ItemOrder
import ContentStream.Proofs.DeeperNesting
import ContentStream.Proofs.PatternSpaces
import ContentStream.Proofs.Activation
import ContentStream.Proofs.Termination
import ContentStream.Proofs.TagDump
import ContentStream.Proofs.OperatorOffsets
import ContentStream.Proofs.PendingPath
import ContentStream.Proofs.RoundEffects
import ContentStream.Proofs.Visits
import ContentStream.Proofs.FormInvocations
import ContentStream.Proofs.Breakdowns
import ContentStream.Proofs.DiagnosticPlaces
import ContentStream.Proofs.GlyphPlacement
import ContentStream.Proofs.TextSplitting
import ContentStream.Proofs.ClipRegions
import ContentStream.Proofs.StateDictOrder
import ContentStream.Proofs.Abbreviations
import ContentStream.Proofs.PaintedPaths
import ContentStream.Proofs.TokenPlaces
import ContentStream.Proofs.StringTokens
import ContentStream.Proofs.NameTokens
import ContentStream.Proofs.NumberTokens
import ContentStream.Proofs.CodeMaps
import ContentStream.Proofs.TokenSequences
import ContentStream.Proofs.UnicodePrograms
import ContentStream.Proofs.UnicodeSections
import ContentStream.Proofs.CidWidths
import ContentStream.Proofs.AlikeFonts
import ContentStream.Proofs.FontCache
import ContentStream.Proofs.CursorMoves
import ContentStream.Proofs.ResourceLayers
import ContentStream.Proofs.CompatSections
import ContentStream.Proofs.ExactDecimals
import ContentStream.Proofs.Conventions
import ContentStream.Proofs.ExpandedDicts
