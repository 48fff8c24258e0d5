import FlatSchema.Number.Arithmetic
import FlatSchema.Number.Decimal
import FlatSchema.Source
import FlatSchema.Text.Collation

/-!
# Diagnostics

What a phase reports about a schema: a stable identifier, a severity, a
message and, where it is known, the place.  Reports of unmet grammar also say
what was expected and what was found.

For display, diagnostics are sorted by file, line, column, severity,
identifier and message.  A missing line or column sorts last; where both sides
miss it the two reports count as equal and keep their order.

Lines and columns are integers.  Reports from elsewhere may count them in
floating-point numbers; `LineNumber` is what display asks of either.
-/

namespace FlatSchema

inductive Severity where
  | error
  | warning
  | info
deriving DecidableEq, Inhabited, Repr

namespace Severity

def name : Severity → String
  | .error => "error"
  | .warning => "warning"
  | .info => "info"

def rank : Severity → Nat
  | .error => 0
  | .warning => 1
  | .info => 2

end Severity

class LineNumber (ν : Type) where
  text : ν → String
  /-- The comparison of two numbers of which either may be missing; `none` where it is
  undecided. -/
  compare? : Option ν → Option ν → Option Ordering

namespace LineNumber

/-- Integers in their order; a missing one comes last, and two of them are undecided. -/
def compareIntegers? : Option Int → Option Int → Option Ordering
  | some left, some right => some (compare left right)
  | some _, none => some .lt
  | none, some _ => some .gt
  | none, none => none

instance : LineNumber Int where
  text := toString
  compare? := compareIntegers?

@[simp]
theorem text_int (num : Int) : text num = toString num :=
  rfl

@[simp]
theorem compare?_int (left right : Option Int) :
    compare? left right = compareIntegers? left right :=
  rfl

/-- The sign of the difference of two floating-point numbers, of which a missing one counts as
infinite. -/
def compareDoubles? (left right : Option Double) : Option Ordering :=
  let infinity := Double.infinity false
  let difference := left.getD infinity - right.getD infinity
  if difference.isNaN then none
  else if difference.isZero then some .eq
  else some (if difference.isNegative then .lt else .gt)

instance : LineNumber Double where
  text := Double.toText
  compare? := compareDoubles?

end LineNumber

structure DiagnosticAt (ν : Type) where
  id : String
  severity : Severity
  message : Text
  file : Text
  line : Option ν
  column : Option ν
  expected : Option Text
  found : Option Text
deriving DecidableEq, Inhabited, Repr

abbrev Diagnostic := DiagnosticAt Int

namespace Diagnostic

def errorAtPosition (id : String) (msg : Text) (file : Text) (pos : Position) :
    Diagnostic :=
  ⟨id, .error, msg, file, some (pos.line : Int), some (pos.column : Int), none,
    none⟩

def errorAt (id : String) (msg : Text) (span : Span) : Diagnostic :=
  errorAtPosition id msg span.file span.start

def errorIn (id : String) (msg : Text) (file : Text) : Diagnostic :=
  ⟨id, .error, msg, file, none, none, none, none⟩

end Diagnostic

namespace DiagnosticAt

variable {ν : Type}

def isError (d : DiagnosticAt ν) : Bool :=
  d.severity = .error

def hasErrors (diags : List (DiagnosticAt ν)) : Bool :=
  diags.any isError

def sortFile (d : DiagnosticAt ν) : Text :=
  ⟨d.file.units.map fun unit => if unit = 92 then 47 else unit⟩

def compareRest (left right : DiagnosticAt ν) : Ordering :=
  (compare left.severity.rank right.severity.rank).then
    ((Collation.compareTexts (Text.ofString left.id) (Text.ofString right.id)).then
      (Collation.compareTexts left.message right.message))

variable [LineNumber ν]

/-- The place of a report as it is displayed: with line and column only if both are known. -/
def place (d : DiagnosticAt ν) : Text :=
  match d.line, d.column with
  | some line, some column =>
    d.file ++
      (":" ++ LineNumber.text line ++ ":" ++ LineNumber.text column : String)
  | _, _ => d.file

/-- The line in which a diagnostic is shown. -/
def render (d : DiagnosticAt ν) : Text :=
  d.place ++
    (": " ++ d.severity.name ++ ": [" ++ d.id ++ "] " : String) ++
    d.message

def compareForDisplay (left right : DiagnosticAt ν) : Ordering :=
  match Collation.compareTexts left.sortFile right.sortFile with
  | .eq =>
    match LineNumber.compare? left.line right.line with
    | some .eq =>
      match LineNumber.compare? left.column right.column with
      | some .eq => compareRest left right
      | some decided => decided
      | none => .eq
    | some decided => decided
    | none => .eq
  | decided => decided

def sortForDisplay (diags : List (DiagnosticAt ν)) : List (DiagnosticAt ν) :=
  diags.mergeSort fun left right => compareForDisplay left right != .gt

end DiagnosticAt

end FlatSchema
