/-!
# Source spans

A span is a range of lines, counted from one, with their text. The span that found nothing has
both numbers zero.
-/

namespace TerraIndex

structure Span where
  startLine : Int
  endLine : Int
  source : String
deriving DecidableEq, Inhabited

namespace Span

def empty : Span := ⟨0, 0, ""⟩

def found (span : Span) : Bool := 0 < span.startLine

end Span

end TerraIndex
