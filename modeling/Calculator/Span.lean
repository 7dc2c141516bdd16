/-!
# Spans

A span says which characters of a text something was read from. Offsets count characters from
zero, and the end is the offset after the last one.
-/

namespace Calculator

/-- A stretch of a text, from `start` up to and without `stop`. -/
structure Span where
  start : Nat
  stop : Nat
deriving DecidableEq, Repr

namespace Span

/-- The empty span at an offset. -/
def point (offset : Nat) : Span :=
  ⟨offset, offset⟩

/-- The least span that covers two spans and what lies between them. -/
def merge (a b : Span) : Span :=
  ⟨min a.start b.start, max a.stop b.stop⟩

/-- The number of characters of a span; a span that ends before it starts has none. -/
def length (s : Span) : Nat :=
  s.stop - s.start

/-- Whether a span has no characters. -/
def isEmpty (s : Span) : Bool :=
  s.length == 0

/-- A span is written as its two offsets with two points between them. -/
def text (s : Span) : String :=
  Nat.repr s.start ++ ".." ++ Nat.repr s.stop

end Span

end Calculator
