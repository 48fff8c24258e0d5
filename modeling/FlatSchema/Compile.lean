import FlatSchema.Check
import FlatSchema.Emit.Canonical
import FlatSchema.Emit.Modules
import FlatSchema.Include

/-!
# Compiling schemas

A compilation loads an entry file with everything it includes, checks the
schemas together and generates the files of each target.  Any error leaves it
without files.
-/

namespace FlatSchema

structure CompileOptions where
  includeDirs : List Text
  targets : List Target
  emit : EmitOptions
deriving Inhabited

def CompileOptions.standard : CompileOptions :=
  ⟨[], [.ts], .standard⟩

structure Compilation where
  diagnostics : List Diagnostic
  artifacts : List Artifact
deriving DecidableEq, Inhabited

/-- Why a compilation ends without a result.  Neither arises from schemas that were read. -/
inductive CompileFault where
  | incomplete
  | emit (err : EmitError)
deriving DecidableEq, Inhabited, Repr

def CompileFault.message : CompileFault → String
  | .incomplete => "IR builder produced no declaration without reporting an error"
  | .emit err => err.message

def Catalog.emit (c : Catalog) (options : EmitOptions) : Target → Except EmitError (List Artifact)
  | .ts => c.emitModules options
  | .fbs => c.emitCanonical options

def Catalog.emitAll (c : Catalog) (options : CompileOptions) :
    Except EmitError (List Artifact) := do
  let files ← options.targets.eraseDups.mapM (c.emit options.emit)
  return files.flatten

namespace Compilation

def ofSchemas (schemas : List Schema) (e : Text) (earlier : List Diagnostic)
    (options : CompileOptions) : Except CompileFault Compilation :=
  let symbols := SymbolTable.ofSchemas schemas
  let pre := earlier ++ symbols.diagnostics
  let checked := Catalog.ofSymbols schemas symbols.value (some e) pre
  let diags := pre ++ checked.diagnostics
  match checked.value with
  | .rejected => .ok ⟨diags, []⟩
  | .incomplete => .error .incomplete
  | .accepted c =>
    match c.emitAll options with
    | .ok artifacts => .ok ⟨diags, artifacts⟩
    | .error err => .error (.emit err)

def run (host : Host) (entryFile : Text) (options : CompileOptions) :
    Except CompileFault Compilation :=
  let loading := Include.load host options.includeDirs entryFile
  match loading.schemas with
  | none => .ok ⟨loading.diagnostics, []⟩
  | some schemas => ofSchemas schemas (host.normalize entryFile) loading.diagnostics options

/-- Compile the sources of a bundle.  The first is the entry file unless another is named. -/
def ofBundle (bundle : Bundle) (entryFile : Option Text) (options : CompileOptions) :
    Except CompileFault Compilation :=
  match entryFile <|> bundle.paths.head? with
  | some e => run (Host.ofBundle bundle) e options
  | none =>
    .ok ⟨[Diagnostic.errorIn "FBS001" "No schema sources given." Text.empty], []⟩

end Compilation

end FlatSchema
