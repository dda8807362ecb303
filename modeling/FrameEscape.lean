import FrameEscape.Body.Builder
import FrameEscape.Body.Json
import FrameEscape.Check
import FrameEscape.Diagnostic.Finding
import FrameEscape.Diagnostic.Json
import FrameEscape.Diagnostic.Terminal
import FrameEscape.Json.Limits
import FrameEscape.Proofs.Check.Levels
import FrameEscape.Proofs.Check.Stores
import FrameEscape.Proofs.Check.Repair
import FrameEscape.Proofs.Check.Order
import FrameEscape.Proofs.Check.Resolution
import FrameEscape.Proofs.Check.Derivation
import FrameEscape.Proofs.Check.StoreReturn
import FrameEscape.Proofs.Check.Returns
import FrameEscape.Proofs.Check.Coverage
import FrameEscape.Proofs.Check.Locations
import FrameEscape.Proofs.Check.Poison
import FrameEscape.Proofs.Check.Thresholds
import FrameEscape.Proofs.Check.Trust
import FrameEscape.Proofs.Check.Renumbering
import FrameEscape.Proofs.Check.Statements
import FrameEscape.Proofs.Check.MixingSwitch
import FrameEscape.Proofs.Check.PostOrder
import FrameEscape.Proofs.Check.Unused
import FrameEscape.Proofs.HashTable
import FrameEscape.Proofs.Check.Unordered
import FrameEscape.Proofs.Json.Number
import FrameEscape.Proofs.Json.RoundTrip
import FrameEscape.Proofs.Json.Members
import FrameEscape.Proofs.Body.Spelling
import FrameEscape.Proofs.Diagnostic.ReadBack
import FrameEscape.Proofs.Diagnostic.Verdict
import FrameEscape.Proofs.Check.Respelling
import FrameEscape.Proofs.Diagnostic.Suggestions
import FrameEscape.Proofs.Body.Descent
import FrameEscape.Proofs.Check.DyingFrame
import FrameEscape.Proofs.Diagnostic.ComparedLevels
import FrameEscape.Proofs.Check.Candidates
import FrameEscape.Proofs.Body.DepthLimit
import FrameEscape.Proofs.Body.Building
import FrameEscape.Proofs.Text.EditDistance
import FrameEscape.Proofs.Text.DistanceRows
import FrameEscape.Proofs.Text.Nearest
import FrameEscape.Proofs.Text.Lines
import FrameEscape.Proofs.Text.Positions
import FrameEscape.Proofs.Diagnostic.Layout
import FrameEscape.Proofs.Diagnostic.Underline
import FrameEscape.Proofs.Diagnostic.Colour
import FrameEscape.Proofs.Diagnostic.ShownRows
import FrameEscape.Proofs.Diagnostic.Whereabouts
import FrameEscape.Proofs.Diagnostic.ShownPaths
