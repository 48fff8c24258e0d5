import FlatSchema.Emit.Draft
import FlatSchema.Emit.Writer

/-!
# Generated modules

A module holds the declarations of one scope.  Names of other scopes are
written behind the name under which their module is imported, and the head of
a module imports just the modules, and the runtime, that its draft refers to.
-/

namespace FlatSchema

def moduleStem (ns rootModule : String) : String :=
  if ns.isEmpty then rootModule else ns

structure ModuleContext where
  catalog : Catalog
  scope : String
  options : EmitOptions
deriving Inhabited

namespace Emit

/-- A character of a local module name: letters, digits, underscores and dollar signs stand for
themselves, each code unit of any other character becomes an underscore. -/
def aliasChar (char : Char) : List Char :=
  if MemberName.isWordChar char || char = '_' || char = '$' then [char]
  else List.replicate (Text.width char) '_'

def importAlias (stem : String) : String :=
  String.ofList ("ns_".toList ++ stem.toList.flatMap aliasChar)

/-- A module that another imports: its local name and its path. -/
structure Import where
  handle : String
  path : String
deriving DecidableEq, Inhabited, Repr

def Import.ofStem (stem : String) : Import :=
  ⟨importAlias stem, s!"./{stem}.js"⟩

/-- Note an import; a local name that is used again gets the new path. -/
def noteImport (imports : List Import) (own : Import) : List Import :=
  if imports.any fun other => other.handle == own.handle then
    imports.map fun other => if other.handle == own.handle then own else other
  else imports ++ [own]

variable (ctx : ModuleContext)

/-- The import that brings the names of an entry into a module, unless it is the module's own. -/
def entryImport? (e : Catalog.Entry) : Option Import :=
  let ns := ".".intercalate e.scope
  if ns = ctx.scope then none
  else some (.ofStem (moduleStem ns ctx.options.rootModule))

def Part.import? : Part → Option Import
  | .entry _ id _ => (ctx.catalog.entry? id).bind (entryImport? ctx)
  | _ => none

def Part.isRuntime : Part → Bool
  | .runtime _ => true
  | _ => false

def Part.text : Part → Except EmitError Text
  | .code text => .ok text
  | .exported keyword name => .ok s!"export {keyword} {name}"
  | .entry pre id post =>
    match ctx.catalog.entry? id with
    | some e =>
      let name := pre ++ e.name ++ post
      match entryImport? ctx e with
      | some own => .ok s!"{own.handle}.{name}"
      | none => .ok name
    | none => .error (.unknownEntry id)
  | .runtime name => .ok s!"fb.{name}"
  | .quoted text => .ok (Text.ofString "'" ++ text ++ Text.ofString "'")

def Element.write (writer : Writer) : Element → Except EmitError Writer
  | .line code => do
      let texts ← code.mapM (Part.text ctx)
      return writer.line (Text.join Text.empty texts)
  | .blank => return writer.blank
  | .doc lines => return writer.doc (lines.map Text.ofString)
  | .indent => return writer.indent
  | .dedent => return writer.dedent
  | .missing err => throw err

/-- The imports of a module that is made of some parts. -/
def imports (parts : List Part) : List Import :=
  (parts.filterMap (Part.import? ctx)).foldl noteImport []

def head (parts : List Part) : Writer :=
  let runtimeLine : List Text :=
    if parts.any Part.isRuntime then [s!"import * as fb from '{ctx.options.runtimeImport}';"]
    else []
  let sorted := (imports ctx parts).mergeSort fun left right =>
    (Text.ofString left.handle).le (Text.ofString right.handle)
  let importLines : List Text := sorted.map fun own =>
    Text.ofString s!"import * as {own.handle} from '{own.path}';"
  ([Text.ofString "// Generated by fbsgen. Do not edit by hand.", Text.empty] ++
    runtimeLine ++ importLines).foldl Writer.line (Writer.start "  ")

def moduleText (draft : Draft) : Except EmitError Text := do
  let body ← draft.foldlM (Element.write ctx) (Writer.start "  ")
  let head := head ctx (draft.flatMap Element.parts)
  return head.render "\n" ++ Text.ofString "\n" ++ body.render "\n"

end Emit

end FlatSchema
