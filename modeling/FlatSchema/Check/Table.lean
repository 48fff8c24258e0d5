import FlatSchema.Catalog.Member
import FlatSchema.Check.Enum

/-!
# Tables

Each field of a table has a slot, and a union field a slot before it for the
tag of its variant.  Slots follow declaration order unless every field gives
its own by an `id` attribute; then the slots in use must be distinct and
without gaps.  Scalar and enumeration fields have a default.  No two fields may
generate one member, and at most one field is the key.
-/

namespace FlatSchema.Check

def maxSlot : Nat := 0xfffe

def scalarDefault (kind : ScalarKind) (lit : Option LiteralValue) :
    Except DefaultFault DefaultValue :=
  match kind with
  | .bool =>
    match lit with
    | none => .ok (.bool false)
    | some (.bool v) => .ok (.bool v)
    | some (.int v) =>
      if v = 0 || v = 1 then .ok (.bool (v = 1))
      else .error (.notBool (toString v))
    | some other => .error (.notBool other.describe)
  | .float32 | .float64 =>
    match lit with
    | none => .ok (.float Double.zero)
    | some (.float v) => .ok (.float v)
    | some (.int v) => .ok (.float (Double.ofInt v))
    | some other => .error (.notNumber other.describe)
  | integral =>
    match lit with
    | none => .ok (.int 0)
    | some (.int v) =>
      if integral.holds v then .ok (.int v) else .error (.outOfRange v integral)
    | some other => .error (.notInteger other.describe)

/-- Whether a number is a value of an enumeration; with bit flags every number is one. -/
def isEnumNumber (enum : Catalog.EnumType) (num : Int) : Bool :=
  enum.bitFlags || enum.values.any fun v => v.value = num

def enumDefault (name : String) (enum : Catalog.EnumType) (lit : Option LiteralValue) :
    Except DefaultFault DefaultValue :=
  match lit with
  | none => if isEnumNumber enum 0 then .ok (.int 0) else .error (.noZeroValue name)
  | some (.name raw) =>
    match enum.values.find? fun v => v.name == raw with
    | some v => .ok (.int v.value)
    | none => .error (.notEnumName raw name)
  | some (.int v) =>
    if isEnumNumber enum v && enum.underlying.holds v then .ok (.int v)
    else .error (.notEnumValue (toString v) name)
  | some other => .error (.notEnumValue other.describe name)

def absentDefault (lit : Option LiteralValue) : Except DefaultFault DefaultValue :=
  if lit.isSome then .error .notAllowed else .ok .absent

variable (ctx : Context) (enums : EnumTypes)

def defaultOf? (ty : FieldType)
    (lit : Option LiteralValue) : Option (Except DefaultFault DefaultValue) :=
  match ty with
  | .scalar kind => some (scalarDefault kind lit)
  | .named id =>
    match enums.lookup id with
    | some enum => some (enumDefault (ctx.symbols.fullName id) enum lit)
    | none =>
      if ctx.symbols.kind? id = some .enum then none else some (absentDefault lit)
  | _ => some (absentDefault lit)

def fieldDefault (t : String) (f : Field) (ty : FieldType) : Report (Option DefaultValue) :=
  match defaultOf? ctx enums ty (f.default.map Literal.value) with
  | none => return none
  | some (.ok v) => return some v
  | some (.error fault) => do
      let span := match f.default with
        | some lit => lit.span
        | none => f.span
      (Problem.invalidDefault t f.name fault).report span
      return none

structure FieldSlots where
  typeSlot : Option Nat
  slot : Nat
deriving DecidableEq, Inhabited

def FieldSlots.toList (slots : FieldSlots) : List Nat :=
  slots.typeSlot.toList ++ [slots.slot]

def FieldSlots.next (first : Nat) (isUnion : Bool) : FieldSlots :=
  if isUnion then ⟨some first, first + 1⟩ else ⟨none, first⟩

def idValue? (lit : Option Literal) : Option Nat :=
  match lit.map Literal.value with
  | some (.int v) => if 0 ≤ v && v ≤ maxSlot then some v.toNat else none
  | _ => none

def explicitSlots (t : String) (f : Field) (isUnion : Bool) (raw : Attribute) :
    Report (Option FieldSlots) :=
  match idValue? raw.value with
  | none => do
      (Problem.invalidId t f.name).report raw.span
      return none
  | some slot =>
    if isUnion then
      if slot = 0 then do
        (Problem.unionIdZero t f.name).report raw.span
        return none
      else return some ⟨some (slot - 1), slot⟩
    else return some ⟨none, slot⟩

/-- A table whose first fields have been checked.  `owners` tells which field took each slot. -/
structure TableState where
  fields : List Catalog.TableField
  owners : List (Nat × String)
  nextSlot : Nat
  keys : Nat
deriving Inhabited

def TableState.start : TableState := ⟨[], [], 0, 0⟩

def claimSlot (t : String) (f : Field) (span : Span) (owners : List (Nat × String))
    (slot : Nat) : Report (List (Nat × String)) :=
  match owners.lookup slot with
  | some owner => do
      (Problem.reusedId t f.name slot owner).report span
      return owners
  | none => return owners ++ [(slot, f.name)]

def requiredScalar (t : String) (f : Field) (ty : FieldType) : Report Unit :=
  let scalarLike := match ty with
    | .scalar _ => true
    | other => ctx.isNamed .enum other
  match Attribute.find? f.attributes "required" with
  | some raw =>
    if scalarLike then (Problem.requiredScalar t f.name).report raw.span
    else return ()
  | none => return ()

def slottedField (f : Field) (ty : FieldType) (slots : FieldSlots)
    (fallback : DefaultValue) : Catalog.TableField where
  name := f.name
  type := ty
  slot := slots.slot
  typeSlot := slots.typeSlot
  default := fallback
  required := Attribute.has f.attributes "required"
  deprecated := Attribute.has f.attributes "deprecated"
  key := Attribute.has f.attributes "key"
  doc := f.doc
  attributes := f.attributes.map Attribute.toCatalog

def acceptField (t : String) (s : TableState)
    (f : Field) (ty : FieldType) (slots : FieldSlots) : Report TableState := do
  let fallback ← fieldDefault ctx enums t f ty
  requiredScalar ctx t f ty
  let keys := if Attribute.has f.attributes "key" then s.keys + 1 else s.keys
  let next := { s with keys := keys }
  match fallback with
  | none => return next
  | some v =>
    return { next with fields := next.fields ++ [slottedField f ty slots v] }

def slotsOf (t : String) (explicit : Bool) (s : TableState) (f : Field)
    (isUnion : Bool) : Report (Option FieldSlots) :=
  if explicit then
    match Attribute.find? f.attributes "id" with
    | none => return none
    | some raw => explicitSlots t f isUnion raw
  else return some (FieldSlots.next s.nextSlot isUnion)

def tableField (sym : Symbol) (explicit : Bool)
    (s : TableState) (f : Field) : Report TableState := do
  let t := sym.fullName
  ctx.attributes f.attributes
  let resolved ← ctx.fieldType sym.decl.scope f.type
  if resolved.any (ctx.isNamed .service) then do
    (Problem.serviceField t f.name).report f.type.span
    return s
  else do
    let chosen ← slotsOf t explicit s f (resolved.any (ctx.isNamed .union))
    match chosen with
    | none => return s
    | some slots => do
        let span := match Attribute.find? f.attributes "id" with
          | some raw => raw.span
          | none => f.span
        let owners ← Report.through (claimSlot t f span) s.owners slots.toList
        let next := { s with owners := owners, nextSlot := slots.slot + 1 }
        match resolved with
        | none => return next
        | some ty => acceptField ctx enums t next f ty slots

def liveMembers (fs : List Catalog.TableField) : List (String × String) :=
  (fs.filter fun f => !f.deprecated).flatMap fun f =>
    f.members.map fun mem => (mem, f.name)

/-- Report each member that another field generates too.  `owners` holds the first field of each
member. -/
def memberClashes (sym : Symbol) (declared : List Field) (owners : List (String × String)) :
    List (String × String) → List Diagnostic
  | [] => []
  | (mem, name) :: rest =>
    match owners.lookup mem with
    | none => memberClashes sym declared (owners ++ [(mem, name)]) rest
    | some owner =>
      let tail := memberClashes sym declared owners rest
      if owner = name then tail
      else
        let span := match declared.find? fun f => f.name == name with
          | some f => f.span
          | none => sym.decl.span
        (Problem.memberClash sym.fullName owner name mem).diagnostic span :: tail

def slotCountOf (owners : List (Nat × String)) : Nat :=
  owners.foldl (fun n owner => max n (owner.1 + 1)) 0

def gappedSlots (sym : Symbol) (owners : List (Nat × String)) : Report Unit :=
  let n := slotCountOf owners
  if owners.length ≠ n then
    let missing := (List.range n).filter fun slot => (owners.lookup slot).isNone
    (Problem.gappedIds sym.fullName missing).report sym.decl.span
  else return ()

def tableType (sym : Symbol) (fs : List Field) : Report Catalog.TableType := do
  ctx.attributes sym.decl.attributes
  Report.found (repeatedFields sym.fullName [] fs)
  let numbered := fs.filter fun f => Attribute.has f.attributes "id"
  let explicit := !numbered.isEmpty
  if explicit && numbered.length ≠ fs.length then
    (Problem.mixedIds sym.fullName).report sym.decl.span
  let s ← Report.through (tableField ctx enums sym explicit) TableState.start fs
  Report.found (memberClashes sym fs [] (liveMembers s.fields))
  if 1 < s.keys then (Problem.severalKeys sym.fullName).report sym.decl.span
  if explicit then gappedSlots sym s.owners
  return ⟨s.fields, slotCountOf s.owners⟩

end FlatSchema.Check
