import Unmangle.Main
import Unmangle.Document.Reader
import Unmangle.Document.Writer
import Unmangle.Json.Reader
import Unmangle.Json.Printer
import Unmangle.Renderer
import Unmangle.Rendering.Method
import Unmangle.Origin.Call
import Unmangle.Exception.Graph
import Unmangle.Source.Resolve
import Unmangle.Source.Method
import Unmangle.GeneratedName.Suffix
import Unmangle.GeneratedName.Fragment
import Unmangle.Metadata.Enclosing
import Unmangle.Text.Blank
import Unmangle.Proofs.Traversal
import Unmangle.Proofs.Reach
import Unmangle.Proofs.MarkupText
import Unmangle.Proofs.MarkupTurns
import Unmangle.Proofs.DepthLimit
import Unmangle.Proofs.Hoisting
import Unmangle.Proofs.Nesting
import Unmangle.Proofs.KeptTraces
import Unmangle.Proofs.Guards
import Unmangle.Proofs.Resolution
import Unmangle.Proofs.JsonLiterals
import Unmangle.Proofs.JsonFields
import Unmangle.Proofs.Validity
import Unmangle.Proofs.DocumentRoundTrip
import Unmangle.Proofs.Moves
import Unmangle.Proofs.ShownNames
import Unmangle.Proofs.WrapperArguments
import Unmangle.Proofs.TerminalStyles
import Unmangle.Proofs.FrameLine
import Unmangle.Proofs.TreeLines
import Unmangle.Proofs.GraphHistory
import Unmangle.Proofs.OutputFormats
import Unmangle.Proofs.NodeCount
import Unmangle.Proofs.NameGrammar
import Unmangle.Proofs.NameSuffixes
import Unmangle.Proofs.TypeDepth
import Unmangle.Proofs.NestedClosures
import Unmangle.Proofs.OutwardSearch
import Unmangle.Proofs.TrustedNames
import Unmangle.Proofs.SegmentArguments
import Unmangle.Proofs.CallShape
import Unmangle.Proofs.Refusals
import Unmangle.Proofs.RuntimeTypes
import Unmangle.Proofs.TraceLines
import Unmangle.Proofs.HiddenDetails
import Unmangle.Proofs.UnitParameters
import Unmangle.Proofs.RenderableTypes
