import FlatSchema.Problem
import FlatSchema.Schema

/-!
# Symbols

The symbol table of a set of schemas numbers their declarations and finds them
by qualified name.  Schemas are merged in the order of their paths and
declarations in source order, so the numbers do not depend on the order in
which files were read.  Of two declarations of one name the first keeps it.

A type name written in a scope is looked up in that scope, then in each
enclosing scope and last as written.  A dotted name that means one declaration
inside an enclosing scope and another as written is ambiguous.
-/

namespace FlatSchema

def qualify (ns : List String) (name : String) : String :=
  if ns.isEmpty then name else ".".intercalate ns ++ "." ++ name

structure Symbol where
  id : Nat
  fullName : String
  decl : Decl
deriving DecidableEq, Inhabited, Repr

/-- The declarations of a set of schemas; each stands at the place of its number. -/
structure SymbolTable where
  entries : List Symbol
deriving DecidableEq, Inhabited, Repr

def Schema.sortByPath (schemas : List Schema) : List Schema :=
  schemas.mergeSort fun left right => left.path.le right.path

namespace SymbolTable

def empty : SymbolTable := ⟨[]⟩

variable (t : SymbolTable)

def symbol? (fullName : String) : Option Symbol :=
  t.entries.find? fun symbol => symbol.fullName == fullName

def find? (fullName : String) : Option Nat :=
  (t.symbol? fullName).map Symbol.id

def kind? (id : Nat) : Option DeclKind :=
  t.entries[id]?.map fun symbol => symbol.decl.kind

def fullName (id : Nat) : String :=
  match t.entries[id]? with
  | some symbol => symbol.fullName
  | none => s!"#{id}"

/-- A new symbol, or a report that its name is taken. -/
def declare (decl : Decl) : Report SymbolTable :=
  let name := qualify decl.scope decl.name
  match t.symbol? name with
  | some first => do
      (Problem.duplicateDeclaration name first.decl.span.locate).report decl.span
      return t
  | none => return ⟨t.entries ++ [⟨t.entries.length, name, decl⟩]⟩

def mergedDecls (schemas : List Schema) : List Decl :=
  (Schema.sortByPath schemas).flatMap Schema.decls

def ofSchemas (schemas : List Schema) : Report SymbolTable :=
  Report.through declare empty (mergedDecls schemas)

/-- The scope itself and every scope around it, innermost first, without the outermost. -/
def enclosing (ns : List String) : List (List String) :=
  (List.range ns.length).map fun depth => ns.take (ns.length - depth)

end SymbolTable

/-- What a look-up comes to. -/
inductive Resolution where
  | resolved (id : Nat)
  | unresolved (tried : List String)
  | ambiguous (relative absolute : String)
deriving DecidableEq, Inhabited, Repr

namespace SymbolTable

/-- What a name found in an enclosing scope means: it must not mean another declaration as
written. -/
def settle (t : SymbolTable) (name cand : String) (id : Nat) : Resolution :=
  match name.toList.contains '.', t.find? name with
  | true, some lit =>
    if lit = id then .resolved id else .ambiguous cand name
  | _, _ => .resolved id

/-- Look a name up in the given scopes one after another, then as written. -/
def resolveIn (t : SymbolTable) (name : String) (tried : List String) :
    List (List String) → Resolution
  | [] =>
    match t.find? name with
    | some id => .resolved id
    | none => .unresolved (tried ++ [name])
  | ns :: outer =>
    let cand := qualify ns name
    match t.find? cand with
    | some id => t.settle name cand id
    | none => resolveIn t name (tried ++ [cand]) outer

/-- What a name means in a scope: the scopes around it are asked from the inside. -/
def resolve (t : SymbolTable) (name : String) (ns : List String) : Resolution :=
  t.resolveIn name [] (enclosing ns)

def resolved (t : SymbolTable) (name : String) (ns : List String) (span : Span) :
    Report (Option Nat) :=
  match t.resolve name ns with
  | .resolved id => return some id
  | .ambiguous relative absolute => do
      (Problem.ambiguousType name relative absolute).report span
      return none
  | .unresolved tried => do
      (Problem.unknownType name tried).report span
      return none

end SymbolTable

end FlatSchema
