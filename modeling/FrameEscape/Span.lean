/-!
# Spans

A span is a range of bytes in a source text, given by two 64-bit offsets. Nothing keeps
`stop` from lying before `start`; such a span is empty.
-/

namespace FrameEscape

/-- A range of bytes in a source text. -/
structure Span where
  start : UInt64
  stop : UInt64
  deriving DecidableEq

namespace Span

/-- The empty span at offset zero, carried by nodes that have no source text. -/
def zero : Span := ⟨0, 0⟩

/-- Whether the span holds no byte, as a backwards one does. -/
def isEmpty (span : Span) : Bool := decide (span.stop ≤ span.start)

/-- The number of bytes in the span. -/
def length (span : Span) : Nat := span.stop.toNat - span.start.toNat

end Span

end FrameEscape
