import FlatSchema.Number.Arithmetic
import FlatSchema.Source

/-!
# Places at offsets that need not be whole

An offset can be any floating-point number.  Like a whole offset it is first
clamped to the text; a fraction stands in the line of the whole offset below
it, and what is not a number in the first line.
-/

namespace FlatSchema

/-- A place in a source whose offset and column need not be whole. -/
structure Spot where
  line : Nat
  column : Double
  offset : Double
deriving DecidableEq, Inhabited, Repr

namespace Spot

def ofPosition (pos : Position) : Spot :=
  ⟨pos.line, Double.ofInt pos.column, Double.ofInt pos.offset⟩

def earlier (first snd : Spot) : Spot :=
  if first.offset.atMost snd.offset then first else snd

def later (first snd : Spot) : Spot :=
  if snd.offset.atMost first.offset then first else snd

end Spot

def Source.spot (src : Source) (off : Double) : Spot :=
  if off.isNaN then ⟨1, Double.nan, Double.nan⟩
  else if off.isNegative then Spot.ofPosition (src.position 0)
  else
    match off.truncate?.filter fun whole => whole < (src.length : Int) with
    | some whole =>
      let pos := src.position whole
      let lineStart := Double.ofInt (pos.offset + 1 - pos.column : Nat)
      ⟨pos.line, off - lineStart + 1, off⟩
    | none => Spot.ofPosition (src.position src.length)

end FlatSchema
