import LineCheck.Text.Bytes

/-!
# LineCheck.Text.Span — stretches of a line

A span is a half-open range of byte offsets, and its start never lies behind its end: that is a field of the type, so
bounds from outside go through `Span.ofBounds?`.  `Span.slice` reads the stretch off a text; `slice_append` says that
the span of the middle part of a text gives that part.
-/

namespace LineCheck

open Text

/-- The bytes from offset `start` up to, not including, offset `stop`. -/
structure Span where
  start : Nat
  stop : Nat
  start_le_stop : start ≤ stop := by omega
  deriving DecidableEq, Repr

namespace Span

/-- What is wrong with bounds that make no span. -/
def reversedBounds : String := "Span start must be <= end"

/-- The span with these bounds, unless they stand in the wrong order. -/
def ofBounds? (start stop : Nat) : Option Span :=
  if h : start ≤ stop then some ⟨start, stop, h⟩ else none

/-- The number of bytes that the span covers. -/
def length (s : Span) : Nat :=
  s.stop - s.start

/-- The span covers no byte. -/
def isEmpty (s : Span) : Bool :=
  s.stop ≤ s.start

/-- The part of the text that the span covers, empty when a bound is outside the text or inside a character. -/
def slice (s : Span) (text : String) : String :=
  String.ofList (((dropBytes s.start text.toList).bind (takeBytes s.length)).getD [])

theorem isEmpty_iff (s : Span) : s.isEmpty = true ↔ s.length = 0 := by
  simp [isEmpty, length, Nat.sub_eq_zero_iff_le]

/-- The span of the middle of three parts gives the middle part. -/
theorem slice_append (before here after : List Char) (s : Span) (hstart : s.start = byteLength before)
    (hstop : s.stop = byteLength before + byteLength here) :
    s.slice (String.ofList (before ++ (here ++ after))) = String.ofList here := by
  have hlen : s.length = byteLength here := by simp [length, hstart, hstop]
  simp [slice, hstart, hlen]

end Span

end LineCheck
