import FlatSchema.Text.Units

/-!
# Writing source text

A writer collects lines and indents them by the depth of the blocks they stand
in.  Empty lines carry no indentation, and `blank` never writes two of them in
a row.  Documentation becomes a block comment that its own lines cannot end.
-/

namespace FlatSchema

structure Writer where
  unit : Text
  lines : Array Text
  depth : Nat
deriving Inhabited, Repr

namespace Writer

def start (unit : Text) : Writer :=
  ⟨unit, #[], 0⟩

variable (writer : Writer)

def indentation : Text :=
  ⟨(List.replicate writer.depth writer.unit.units).flatten⟩

def line (text : Text) : Writer :=
  let raw := if text.isEmpty then Text.empty else writer.indentation ++ text
  { writer with lines := writer.lines.push raw }

/-- Write an empty line, unless one stands before or nothing has been written. -/
def blank : Writer :=
  match writer.lines.back? with
  | none => writer
  | some last =>
    if last.isEmpty then writer else { writer with lines := writer.lines.push Text.empty }

def indent : Writer :=
  { writer with depth := writer.depth + 1 }

def dedent : Writer :=
  { writer with depth := writer.depth - 1 }

/-- The units of a documentation line with a backslash inside each end of a comment. -/
def escapeComment : List UInt16 → List UInt16
  | 42 :: 47 :: rest => 42 :: 92 :: 47 :: escapeComment rest
  | unit :: rest => unit :: escapeComment rest
  | [] => []

def commentLine (text : Text) : Text :=
  if text.isEmpty then " *" else Text.ofString " * " ++ text

def doc (lines : List Text) : Writer :=
  match lines.map fun line => Text.mk (escapeComment line.units) with
  | [] => writer
  | [only] => writer.line (Text.ofString "/** " ++ only ++ Text.ofString " */")
  | several =>
    (several.foldl (fun writer text => writer.line (commentLine text))
      (writer.line "/**")).line " */"

def render (lineEnding : Text) : Text :=
  let lines := (writer.lines.toList.reverse.dropWhile Text.isEmpty).reverse
  Text.join lineEnding lines ++ lineEnding

end Writer

end FlatSchema
