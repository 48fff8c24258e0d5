import FlatSchema.Check.Context

/-!
# Services

A method takes a table and answers with a table.  Its `streaming` attribute,
a string or a name, says which sides send more than one message.
-/

namespace FlatSchema.Check

def messageTable (ctx : Context) (ns : List String) (role : MethodRole) (name : String)
    (span : Span) : Report (Option Nat) := do
  let resolved ← ctx.symbols.resolved name ns span
  match resolved with
  | none => return none
  | some id =>
    if ctx.symbols.kind? id = some .table then return some id
    else do
      (Problem.messageNotTable role name).report span
      return none

def streamingValue? (lit : Option Literal) : Option StreamingMode :=
  match lit.map Literal.value with
  | some (.string v) => StreamingMode.ofText? v
  | some (.name name) => StreamingMode.ofText? name
  | _ => none

def streamingMode (service : String) (method : Method) : Report (Option StreamingMode) :=
  match Attribute.find? method.attributes "streaming" with
  | none => return some .none
  | some raw =>
    match streamingValue? raw.value with
    | some mode => return some mode
    | none => do
        let given := raw.value.map fun lit => lit.value.describe
        (Problem.streamingMode given service method.name).report raw.span
        return none

def serviceMethod (ctx : Context) (sym : Symbol) (seen : List String) (method : Method) :
    Report (Option Catalog.Method) := do
  ctx.attributes method.attributes
  if seen.contains method.name then
    (Problem.duplicateMethod method.name sym.fullName).report method.span
  let ns := sym.decl.scope
  let req ← messageTable ctx ns .request method.requestType method.span
  let resp ← messageTable ctx ns .response method.responseType method.span
  let streaming ← streamingMode sym.fullName method
  match streaming, req, resp with
  | some mode, some req, some resp =>
    return some ⟨method.name, req, resp, mode, method.doc,
      method.attributes.map Attribute.toCatalog⟩
  | _, _, _ => return none

/-- Check methods one after another.  `seen` holds the names of the earlier ones. -/
def serviceMethods (ctx : Context) (sym : Symbol) (seen : List String) :
    List Method → Report (List Catalog.Method)
  | [] => return []
  | method :: rest => do
      let checked ← serviceMethod ctx sym seen method
      let tail ← serviceMethods ctx sym (seen ++ [method.name]) rest
      return checked.toList ++ tail

def serviceType (ctx : Context) (sym : Symbol) (methods : List Method) :
    Report Catalog.ServiceType := do
  ctx.attributes sym.decl.attributes
  let checked ← serviceMethods ctx sym [] methods
  return ⟨checked⟩

end FlatSchema.Check
