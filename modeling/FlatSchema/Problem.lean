import FlatSchema.Report
import FlatSchema.Scalar
import FlatSchema.Text.Quoted

/-!
# Problems of a schema

Everything that can be wrong with a set of schemas once each of them has been
read: names that do not resolve, declarations that clash and members that
break a rule of the format.  Each problem has a stable identifier and a
message; where it lies is said by the span it is reported at.
-/

namespace FlatSchema

inductive DefaultFault where
  | notBool (lit : String)
  | notNumber (lit : String)
  | notInteger (lit : String)
  | outOfRange (v : Int) (kind : ScalarKind)
  | noZeroValue (enum : String)
  | notEnumName (name enum : String)
  | notEnumValue (lit enum : String)
  | notAllowed
deriving DecidableEq, Inhabited, Repr

def DefaultFault.reason : DefaultFault → String
  | .notBool lit => s!"{lit} is not a bool"
  | .notNumber lit => s!"{lit} is not a number"
  | .notInteger lit => s!"{lit} is not an integer"
  | .outOfRange v kind => s!"{v} is out of range for {kind.name}"
  | .noZeroValue enum => s!"enum \"{enum}\" has no value 0, so an explicit default is required"
  | .notEnumName name enum => s!"\"{name}\" is not a value of enum \"{enum}\""
  | .notEnumValue lit enum => s!"{lit} is not a value of enum \"{enum}\""
  | .notAllowed => "only scalar and enum fields can have defaults"

inductive MethodRole where
  | request
  | response
deriving DecidableEq, Inhabited, Repr

def MethodRole.name : MethodRole → String
  | .request => "request"
  | .response => "response"

/-- What can be wrong with a set of schemas.  Names of declarations are qualified. -/
inductive Problem where
  | unknownType (name : String) (tried : List String)
  | ambiguousType (name relative absolute : String)
  | duplicateDeclaration (name : String) (first : Text)
  | structCycle (name : String) (path : List String)
  | unknownAttribute (name : String)
  | nestedVector
  | vectorOfUnions
  | vectorOfServices
  | enumUnderlying (enum : String)
  | emptyEnum (enum : String)
  | duplicateEnumValue (v enum : String)
  | enumOrder (v : String) (num prev : Int)
  | enumBitPosition (v : String) (pos : Int) (kind : ScalarKind)
  | enumRange (v : String) (num : Int) (kind : ScalarKind)
  | discriminantClash (union discriminant : String) (declaredAt : Text)
  | emptyUnion (union : String)
  | crowdedUnion (union : String) (limit : Nat)
  | variantNotTable (union alt : String)
  | repeatedVariant (union alt : String)
  | duplicateField (f owner : String)
  | emptyStruct (struct : String)
  | structDefault (struct f : String)
  | structRequired (struct f : String)
  | structFieldType (struct f : String)
  | forceAlign (struct : String) (limit : Nat)
  | invalidDefault (t f : String) (fault : DefaultFault)
  | mixedIds (t : String)
  | serviceField (t f : String)
  | invalidId (t f : String)
  | unionIdZero (t f : String)
  | reusedId (t f : String) (slot : Nat) (owner : String)
  | requiredScalar (t f : String)
  | memberClash (t first snd mem : String)
  | severalKeys (t : String)
  | gappedIds (t : String) (missing : List Nat)
  | messageNotTable (role : MethodRole) (name : String)
  | duplicateMethod (method service : String)
  | streamingMode (given : Option String) (service method : String)
  | rootNotTable (name : String)
  | fileIdentifier (v : Text)
deriving DecidableEq, Inhabited, Repr

namespace Problem

def id : Problem → String
  | .unknownType .. => "FBS300"
  | .ambiguousType .. => "FBS301"
  | .duplicateDeclaration .. | .discriminantClash .. => "FBS302"
  | .structCycle .. => "FBS303"
  | .invalidDefault .. => "FBS400"
  | .messageNotTable .. => "FBS401"
  | .forceAlign .. | .invalidId .. | .streamingMode .. => "FBS402"
  | .mixedIds .. | .unionIdZero .. | .reusedId .. | .gappedIds .. => "FBS403"
  | .duplicateField .. | .memberClash .. | .severalKeys .. | .duplicateMethod .. => "FBS404"
  | .emptyStruct .. | .structDefault .. | .structFieldType .. | .serviceField .. => "FBS405"
  | .emptyUnion .. | .crowdedUnion .. | .variantNotTable .. | .repeatedVariant .. => "FBS406"
  | .enumUnderlying .. | .emptyEnum .. | .duplicateEnumValue .. | .enumOrder ..
  | .enumBitPosition .. | .enumRange .. => "FBS407"
  | .nestedVector | .vectorOfUnions | .vectorOfServices => "FBS408"
  | .rootNotTable .. => "FBS409"
  | .fileIdentifier .. => "FBS410"
  | .unknownAttribute .. => "FBS411"
  | .structRequired .. | .requiredScalar .. => "FBS412"

def quoted (name : String) : String :=
  "\"" ++ name ++ "\""

def message : Problem → Text
  | .unknownType name tried =>
    let candidates := ", ".intercalate (tried.map quoted)
    s!"Unknown type \"{name}\" (tried {candidates})."
  | .ambiguousType name relative absolute =>
    s!"Type reference \"{name}\" is ambiguous: matches both \"{relative}\" and \"{absolute}\"."
  | .duplicateDeclaration name first =>
    Text.ofString s!"Duplicate declaration \"{name}\" (first declared at " ++ first ++
      Text.ofString ")."
  | .structCycle name path =>
    let steps := " -> ".intercalate path
    s!"Struct \"{name}\" contains itself: {steps}."
  | .unknownAttribute name =>
    s!"Unknown attribute \"{name}\"; declare it with `attribute \"{name}\";` first."
  | .nestedVector => "Nested vectors are not supported; wrap the inner vector in a table."
  | .vectorOfUnions => "Vectors of unions are not supported."
  | .vectorOfServices => "Vector elements cannot be RPC services."
  | .enumUnderlying enum => s!"Enum \"{enum}\" must have an integral underlying type."
  | .emptyEnum enum => s!"Enum \"{enum}\" has no values."
  | .duplicateEnumValue v enum => s!"Duplicate value \"{v}\" in enum \"{enum}\"."
  | .enumOrder v num prev =>
    s!"Enum values must be ascending: \"{v}\" = {num} follows {prev}."
  | .enumBitPosition v pos kind =>
    s!"Bit position {pos} of \"{v}\" does not fit in {kind.name}."
  | .enumRange v num kind =>
    s!"Value {num} of \"{v}\" is out of range for {kind.name}."
  | .discriminantClash union discriminant declaredAt =>
    Text.ofString s!"Union \"{union}\" needs the name \"{discriminant}\" for its type enum, " ++
      Text.ofString "but it is already declared at " ++ declaredAt ++ Text.ofString "."
  | .emptyUnion union => s!"Union \"{union}\" has no variants."
  | .crowdedUnion union limit => s!"Union \"{union}\" has more than {limit} variants."
  | .variantNotTable union alt =>
    s!"Union \"{union}\" variant \"{alt}\" must be a table."
  | .repeatedVariant union alt => s!"Union \"{union}\" lists \"{alt}\" more than once."
  | .duplicateField f owner =>
    s!"Field \"{f}\" is declared more than once in \"{owner}\"."
  | .emptyStruct struct => s!"Struct \"{struct}\" must have at least one field."
  | .structDefault struct f =>
    s!"Struct field \"{struct}.{f}\" cannot have a default value."
  | .structRequired struct f =>
    s!"Struct field \"{struct}.{f}\" is always present and cannot be marked required."
  | .structFieldType struct f =>
    s!"Struct field \"{struct}.{f}\" must be a scalar, enum or struct."
  | .forceAlign struct limit =>
    s!"force_align on \"{struct}\" must be a power of two between 1 and {limit}."
  | .invalidDefault t f fault =>
    s!"Invalid default for \"{t}.{f}\": {fault.reason}."
  | .mixedIds t => s!"Either all fields of \"{t}\" must have an id attribute or none."
  | .serviceField t f =>
    s!"Field \"{t}.{f}\" cannot have an RPC service type."
  | .invalidId t f => s!"id of \"{t}.{f}\" must be a non-negative integer."
  | .unionIdZero t f =>
    s!"Union field \"{t}.{f}\" needs id >= 1; id - 1 holds its type."
  | .reusedId t f slot owner =>
    s!"Field \"{t}.{f}\" reuses id {slot} already taken by \"{owner}\"."
  | .requiredScalar t f =>
    s!"Scalar field \"{t}.{f}\" cannot be required; it always reads as its default."
  | .memberClash t first snd mem =>
    s!"Fields \"{t}.{first}\" and \"{t}.{snd}\" both generate the accessor \"{mem}()\"."
  | .severalKeys t => s!"Table \"{t}\" has more than one key field."
  | .gappedIds t missing =>
    let slots := ", ".intercalate (missing.map toString)
    s!"Field ids of \"{t}\" must be contiguous from 0; missing {slots}."
  | .messageNotTable role name => s!"RPC {role.name} type \"{name}\" must be a table."
  | .duplicateMethod method service =>
    s!"Method \"{method}\" is declared more than once in \"{service}\"."
  | .streamingMode given service method =>
    let mode := given.getD "(none)"
    s!"Unknown streaming mode {mode} on \"{service}.{method}\"; " ++
      "expected \"none\", \"server\", \"client\" or \"bidi\"."
  | .rootNotTable name => s!"root_type \"{name}\" must be a table."
  | .fileIdentifier v =>
    let raw := Quoted.quote v
    s!"file_identifier must be exactly 4 ASCII characters, got {raw}."

def diagnostic (problem : Problem) (span : Span) : Diagnostic :=
  Diagnostic.errorAt problem.id problem.message span

def report (problem : Problem) (span : Span) : Report Unit :=
  Report.found [problem.diagnostic span]

@[simp]
theorem diagnostics_report (problem : Problem) (span : Span) :
    (problem.report span).diagnostics = [problem.diagnostic span] :=
  rfl

end Problem

end FlatSchema
