import FlatSchema.Check.Context

/-!
# Enumerations

An enumeration has an integral underlying type and at least one value.  Values
have distinct names and ascend; one without a number follows its predecessor,
the first at zero.  With bit flags the numbers are positions of bits and the
values powers of two.  Every value fits the underlying type.
-/

namespace FlatSchema.Check

/-- The values of an enumeration that have been checked so far.  `previous` is the number of
the last one, and `sound` says that nothing was wrong. -/
structure EnumState where
  names : List String
  previous : Option Int
  values : List Catalog.EnumValue
  sound : Bool
deriving Inhabited

def EnumState.start : EnumState := ⟨[], none, [], true⟩

def EnumState.spoil (s : EnumState) : EnumState :=
  { s with sound := false }

/-- The number of a value: the written one, else the successor of the last one, else zero. -/
def EnumState.number (s : EnumState) (v : EnumValue) : Int :=
  match v.value, s.previous with
  | some raw, _ => raw
  | none, some prev => prev + 1
  | none, none => 0

def EnumState.ascend (s : EnumState) (v : EnumValue) (num : Int) :
    Report EnumState := do
  let next := { s with names := s.names ++ [v.name], previous := some num }
  match s.previous with
  | some prev =>
    if num ≤ prev then do
      (Problem.enumOrder v.name num prev).report v.span
      return next.spoil
    else return next
  | none => return next

def EnumState.accept (s : EnumState) (base : ScalarKind) (v : EnumValue)
    (num : Int) : Report EnumState :=
  if base.holds num then
    return { s with values := s.values ++ [⟨v.name, num, v.doc⟩] }
  else do
    (Problem.enumRange v.name num base).report v.span
    return s.spoil

def EnumState.acceptFlag (s : EnumState) (base : ScalarKind) (v : EnumValue)
    (pos : Int) : Report EnumState :=
  if pos < 0 || (8 * base.size : Nat) ≤ pos then do
    (Problem.enumBitPosition v.name pos base).report v.span
    return s.spoil
  else s.accept base v (Nat.pow 2 pos.toNat : Nat)

def enumValue (enum : String) (base : ScalarKind) (bitFlags : Bool) (s : EnumState)
    (v : EnumValue) : Report EnumState :=
  if s.names.contains v.name then do
    (Problem.duplicateEnumValue v.name enum).report v.span
    return s.spoil
  else do
    let num := s.number v
    let next ← s.ascend v num
    if bitFlags then next.acceptFlag base v num
    else next.accept base v num

def integralType? : TypeExpr → Option ScalarKind
  | .scalar kind _ => if kind.isIntegral then some kind else none
  | _ => none

def enumType (ctx : Context) (sym : Symbol) (base : TypeExpr)
    (vs : List EnumValue) : Report (Option Catalog.EnumType) := do
  ctx.attributes sym.decl.attributes
  match integralType? base with
  | none => do
      (Problem.enumUnderlying sym.fullName).report base.span
      return none
  | some kind =>
    if vs.isEmpty then do
      (Problem.emptyEnum sym.fullName).report sym.decl.span
      return none
    else do
      let bitFlags := Attribute.has sym.decl.attributes "bit_flags"
      let s ← Report.through (enumValue sym.fullName kind bitFlags) EnumState.start vs
      return if s.sound then some ⟨kind, bitFlags, s.values⟩ else none

abbrev EnumTypes := List (Nat × Catalog.EnumType)

def enumTypes (ctx : Context) : Report EnumTypes := do
  let checked ← Report.forEach
    (fun sym : Symbol =>
      match sym.decl.body with
      | .enum base vs => do
          let ty ← enumType ctx sym base vs
          return ty.map fun ty => (sym.id, ty)
      | _ => return none)
    ctx.symbols.entries
  return checked.filterMap id

end FlatSchema.Check
