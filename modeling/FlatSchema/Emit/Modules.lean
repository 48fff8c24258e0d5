import FlatSchema.Emit.Enum
import FlatSchema.Emit.Module
import FlatSchema.Emit.Service
import FlatSchema.Emit.Table
import FlatSchema.Emit.Union

/-!
# All generated modules

Each scope of a catalog becomes one module, named for the scope; the module of
the outermost scope has a name of its own.
-/

namespace FlatSchema

namespace Emit

def entryDraft (c : Catalog) (layouts : Layouts) (e : Catalog.Entry) : Draft :=
  match e.body with
  | .enum ty => enumModule e ty
  | .union ty => unionModule e ty
  | .struct ty => structModule c layouts e ty
  | .table ty => tableModule c layouts e ty
  | .service ty => serviceModule e ty

def moduleDraft (c : Catalog) (group : Catalog.Module) : Draft :=
  let layouts := c.structLayouts
  group.ids.flatMap fun id =>
    match c.entry? id with
    | some e => entryDraft c layouts e
    | none => [.missing (.unknownEntry id)]

end Emit

def Catalog.emitModules (c : Catalog) (options : EmitOptions) :
    Except EmitError (List Artifact) :=
  c.modules.mapM fun group => do
    let text ← Emit.moduleText ⟨c, group.scope, options⟩ (Emit.moduleDraft c group)
    return ⟨.ts, moduleStem group.scope options.rootModule ++ ".ts", text⟩

end FlatSchema
