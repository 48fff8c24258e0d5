import FlatSchema.Symbols

/-!
# Structs that contain themselves

A struct directly contains the structs of its fields.  `SymbolTable.structCycles`
walks this relation depth first from each struct in turn and notes every edge
that leads back into the path walked so far.  Each set of structs on such a path
is reported once, at the struct where the path was entered.
-/

namespace FlatSchema

def TypeExpr.plainName? : TypeExpr → Option String
  | .named name _ => some name
  | _ => none

namespace SymbolTable

variable (t : SymbolTable)

def heldStruct? (ns : List String) (f : Field) : Option Nat :=
  match f.type.plainName? with
  | none => none
  | some name =>
    match t.resolve name ns with
    | .resolved id => if t.kind? id = some .struct then some id else none
    | _ => none

def heldStructs (decl : Decl) : List Nat :=
  match decl.body with
  | .struct fs => fs.filterMap (t.heldStruct? decl.scope)
  | _ => []

def contained (id : Nat) : List Nat :=
  match t.entries[id]? with
  | some sym => t.heldStructs sym.decl
  | none => []

def structIds : List Nat :=
  (t.entries.filter fun sym => sym.decl.kind = .struct).map Symbol.id

end SymbolTable

/-- What a walk has learnt: the structs it is done with, those it found on cycles, the sets of
structs it has reported, and its reports. -/
structure CycleSearch where
  done : List Nat
  onCycle : List Nat
  reported : List (List Nat)
  diagnostics : List Diagnostic
deriving DecidableEq, Inhabited, Repr

namespace CycleSearch

def start : CycleSearch := ⟨[], [], [], []⟩

def ascending (ids : List Nat) : List Nat :=
  ids.mergeSort fun left right => left ≤ right

def note (t : SymbolTable) (search : CycleSearch) (e : Nat) (cycle : List Nat) :
    CycleSearch :=
  let marked := { search with onCycle := search.onCycle ++ cycle }
  let key := ascending cycle
  if search.reported.contains key then marked
  else
    match t.entries[e]? with
    | none => { marked with reported := search.reported ++ [key] }
    | some head =>
      let path := (cycle ++ [e]).map t.fullName
      { marked with
        reported := search.reported ++ [key]
        diagnostics := search.diagnostics ++
          [(Problem.structCycle head.fullName path).diagnostic head.decl.span] }

/-- Walk on from a struct below the structs of `path`, which stand outermost first.  The path
has no repetitions, so the number of structs bounds the depth of the walk. -/
def walk (t : SymbolTable) : Nat → List Nat → CycleSearch → Nat → CycleSearch
  | 0, _, search, _ => search
  | depth + 1, path, search, id =>
    let extended := path ++ [id]
    let searched := (t.contained id).foldl
      (fun search next =>
        if search.done.contains next then search
        else if extended.contains next then
          note t search next (extended.dropWhile (· != next))
        else walk t depth extended search next)
      search
    { searched with done := searched.done ++ [id] }

def run (t : SymbolTable) : CycleSearch :=
  t.structIds.foldl
    (fun search id =>
      if search.done.contains id then search
      else walk t t.entries.length [] search id)
    start

end CycleSearch

/-- The structs on containment cycles in ascending order, with a report for each cycle. -/
def SymbolTable.structCycles (t : SymbolTable) : Report (List Nat) :=
  let search := CycleSearch.run t
  ⟨CycleSearch.ascending search.onCycle.eraseDups, search.diagnostics⟩

end FlatSchema
