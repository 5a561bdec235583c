/-! Half-open ranges of byte offsets into a file's text. -/

namespace SymbolGraph

/-- The bytes from `start` up to but not including `stop`. -/
structure Span where
  start : Nat
  stop : Nat
  deriving Repr, BEq, DecidableEq

namespace Span

/-- Whether `inner` lies entirely within the span. -/
def contains (s inner : Span) : Bool := s.start ≤ inner.start && inner.stop ≤ s.stop

/-- The number of bytes, zero if the ends are the wrong way round. -/
def length (s : Span) : Nat := s.stop - s.start

/-- Whether the span holds no byte. -/
def isEmpty (s : Span) : Bool := s.length == 0

end Span
end SymbolGraph
