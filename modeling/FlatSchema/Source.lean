import FlatSchema.Text.Units

/-!
# Sources, positions and spans

A source is a named piece of schema text.  Its positions count UTF-16 code
units: `offset` from the start of the text, `line` and `column` from one, a
line ending after each line feed.

`Source.position` finds the position of an offset from the starts of the lines
and clamps offsets outside the text; `Position.advance` carries a position
over one character.  A span is a half-open stretch of one file.
-/

namespace FlatSchema

/-- A place in a source: line and column from one, offset from zero. -/
structure Position where
  line : Nat
  column : Nat
  offset : Nat
deriving DecidableEq, Inhabited, Repr

namespace Position

def start : Position := ⟨1, 1, 0⟩

def advance (position : Position) (char : Char) : Position :=
  if char = '\n' then
    ⟨position.line + 1, 1, position.offset + 1⟩
  else
    ⟨position.line, position.column + Text.width char,
      position.offset + Text.width char⟩

def advanceAll (position : Position) (chars : List Char) : Position :=
  chars.foldl advance position

@[simp]
theorem advanceAll_nil (position : Position) : position.advanceAll [] = position :=
  rfl

@[simp]
theorem advanceAll_cons (position : Position) (char : Char) (rest : List Char) :
    position.advanceAll (char :: rest) = (position.advance char).advanceAll rest :=
  rfl

end Position

structure Span where
  file : Text
  start : Position
  stop : Position
deriving DecidableEq, Inhabited, Repr

/-- From the earlier start of two spans to their later end. -/
def Span.join (first snd : Span) : Span where
  file := first.file
  start := if first.start.offset ≤ snd.start.offset then first.start else snd.start
  stop := if snd.stop.offset ≤ first.stop.offset then first.stop else snd.stop

def Span.locate (span : Span) : Text :=
  span.file ++ (":" ++ toString span.start.line ++ ":" ++ toString span.start.column : String)

/-- A named text of characters; one with lone surrogates is no source. -/
structure Source where
  path : Text
  text : String
deriving DecidableEq, Inhabited, Repr

namespace Source

variable (src : Source)

def units : List UInt16 :=
  (Text.ofString src.text).units

def lineStartsFrom (off : Nat) : List UInt16 → List Nat
  | [] => []
  | unit :: rest =>
    if unit = 10 then (off + 1) :: lineStartsFrom (off + 1) rest
    else lineStartsFrom (off + 1) rest

def lineStarts : List Nat :=
  0 :: lineStartsFrom 0 src.units

def length : Nat :=
  src.units.length

/-- The offset of the text that is nearest to a number. -/
def clamp (off : Int) : Nat :=
  (max 0 (min off src.length)).toNat

theorem clamp_eq {src : Source} {off : Nat} (fits : off ≤ src.length) : src.clamp off = off := by
  unfold clamp
  omega

/-- The last line from `lo` to `hi` that begins at an offset or before it, found by halving. -/
def lineAt (starts : List Nat) (off lo hi : Nat) : Nat :=
  if lo < hi then
    let mid := (lo + hi + 1) / 2
    if starts.getD mid 0 ≤ off then lineAt starts off mid hi
    else lineAt starts off lo (mid - 1)
  else lo
termination_by hi - lo

/-- The line, column and offset of a clamped offset. -/
def position (off : Int) : Position :=
  let clamped := src.clamp off
  let starts := src.lineStarts
  let line := lineAt starts clamped 0 (starts.length - 1)
  ⟨line + 1, clamped - starts.getD line 0 + 1, clamped⟩

def span (start stop : Int) : Span :=
  ⟨src.path, src.position start, src.position stop⟩

def wholeSpan : Span :=
  ⟨src.path, Position.start, Position.start.advanceAll src.text.toList⟩

end Source

end FlatSchema
