import FlatSchema.Number.Arithmetic
import FlatSchema.Scalar

/-!
# Struct layout

Fields of a struct stand in declaration order, each at the first multiple of
its alignment that is free.  The struct is as aligned as its most aligned
field, or more if that is asked for, and is padded to a multiple of its
alignment.

Sizes are counted exactly, as natural numbers; the same rule also runs on
floating-point numbers, whose sums are rounded and which have no multiples of
zero.  `Measure` is what the rule asks of either.

`StructLayout.ofShapes` lays out a family of structs that hold one another.  A
struct has a layout when all structs it holds have one, so those that hold an
invalid field, a struct that is not there or, in the end, themselves have
none.
-/

namespace FlatSchema

/-- Numbers that sizes and offsets are counted in. -/
class Measure (ν : Type) extends Add ν, Sub ν, Max ν where
  nothing : ν
  byte : ν
  alignUp : ν → ν → ν

instance : Measure Nat where
  nothing := 0
  byte := 1
  alignUp v align := (v + align - 1) / align * align

@[simp]
theorem Measure.alignUp_nat (v align : Nat) :
    Measure.alignUp v align = (v + align - 1) / align * align :=
  rfl

instance : Measure Double where
  max left right := if left.below right then right else left
  nothing := 0
  byte := 1
  alignUp v align := (v / align).ceil * align

/-- The room of a field. -/
structure Storage (ν : Type) where
  size : ν
  alignment : ν
deriving DecidableEq, Inhabited, Repr

/-- Where a field stands, and the bytes behind it. -/
structure Placement (ν : Type) where
  offset : ν
  size : ν
  padding : ν
deriving DecidableEq, Inhabited, Repr

structure StructLayout (ν : Type) where
  fields : List (Placement ν)
  size : ν
  alignment : ν
deriving DecidableEq, Inhabited, Repr

def ScalarKind.storage (kind : ScalarKind) : Storage Nat :=
  ⟨kind.size, kind.size⟩

namespace StructLayout

variable {ν : Type} [Measure ν]

/-- The offset of each field when the first may start at a given offset, and the end of the
last field. -/
def offsetsFrom (off : ν) : List (Storage ν) → List ν × ν
  | [] => ([], off)
  | f :: rest =>
    let start := Measure.alignUp off f.alignment
    let (offsets, stop) := offsetsFrom (start + f.size) rest
    (start :: offsets, stop)

/-- The largest alignment of some fields. -/
def alignmentOf (fs : List (Storage ν)) : ν :=
  fs.foldl (fun align f => max align f.alignment) Measure.byte

/-- The fields with the bytes that follow each, up to the next field or the end. -/
def placements (stop : ν) : List (ν × Storage ν) → List (Placement ν)
  | [] => []
  | [(off, f)] => [⟨off, f.size, stop - (off + f.size)⟩]
  | (off, f) :: (next, tail) :: rest =>
    ⟨off, f.size, next - (off + f.size)⟩ ::
      placements stop ((next, tail) :: rest)

/-- The layout of a list of fields; the struct is aligned to `forced` at least. -/
def ofFields (fs : List (Storage ν)) (forced : Option ν) : StructLayout ν :=
  let (offsets, stop) := offsetsFrom Measure.nothing fs
  let align := forced.elim (alignmentOf fs) (max (alignmentOf fs))
  let size := Measure.alignUp stop align
  ⟨placements size (offsets.zip fs), size, align⟩

def storage (layout : StructLayout ν) : Storage ν :=
  ⟨layout.size, layout.alignment⟩

end StructLayout

inductive FieldShape (ι ν : Type) where
  | inline (storage : Storage ν)
  | struct (id : ι)
  | invalid
deriving DecidableEq, Inhabited, Repr

structure StructShape (ι ν : Type) where
  fields : List (FieldShape ι ν)
  forced : Option ν
deriving DecidableEq, Inhabited, Repr

namespace StructLayout

variable {ι ν : Type} [BEq ι] [Measure ν]

/-- A search that may fail, with the layouts found so far, which stay where it fails. -/
abbrev Search (ι ν : Type) :=
  OptionT (StateM (List (ι × StructLayout ν)))

/-- The room of a field, given a search for the layouts of structs. -/
def storageOf (layoutOf : ι → Search ι ν (StructLayout ν)) :
    FieldShape ι ν → Search ι ν (Storage ν)
  | .inline storage => return storage
  | .struct id => return (← layoutOf id).storage
  | .invalid => failure

/-- How many shapes are of structs that are not being visited. -/
def unvisited (shapes : List (ι × StructShape ι ν)) (visiting : List ι) : Nat :=
  shapes.countP fun entry => !visiting.contains entry.1

omit [Measure ν] in
theorem unvisited_cons_lt [LawfulBEq ι] {shapes : List (ι × StructShape ι ν)} {id : ι}
    (known : shapes.lookup id = some shape) (fresh : ¬ visiting.contains id) :
    unvisited shapes (id :: visiting) < unvisited shapes visiting := by
  rcases List.lookup_eq_some_iff.mp known with ⟨before, after, rfl, _⟩
  have le (entries : List (ι × StructShape ι ν)) :
      unvisited entries (id :: visiting) ≤ unvisited entries visiting := by
    refine List.countP_mono_left fun entry _ free => ?_
    simp_all
  have first := le before
  have others := le after
  have own : ((id :: visiting).contains id) = true := by simp
  simp only [unvisited, List.countP_append, List.countP_cons, own, fresh] at first others ⊢
  simp only [Bool.not_true, Bool.false_eq_true, if_false, Bool.not_false, if_true]
  omega

/-- The layout of a struct.  It is looked up if it was found before; otherwise the structs that it
holds are searched first, unless it is being visited itself.  Only success is remembered. -/
def searchLayout [LawfulBEq ι] (shapes : List (ι × StructShape ι ν)) (visiting : List ι) (id : ι) :
    Search ι ν (StructLayout ν) := do
  match (← get).lookup id with
  | some layout => return layout
  | none =>
    match _known : shapes.lookup id with
    | none => failure
    | some shape =>
      if _fresh : visiting.contains id then failure
      else
        let fields ← shape.fields.mapM (storageOf (searchLayout shapes (id :: visiting)))
        let layout := ofFields fields shape.forced
        modify ((id, layout) :: ·)
        return layout
termination_by unvisited shapes visiting
decreasing_by exact unvisited_cons_lt _known _fresh

/-- The shapes without those that a later one of the same name replaces. -/
def standing : List (ι × StructShape ι ν) → List (ι × StructShape ι ν)
  | [] => []
  | (id, shape) :: rest =>
    if rest.any fun later => later.1 == id then standing rest
    else (id, shape) :: standing rest

/-- The layouts of a family of structs, of which the last shape of a name counts. -/
def ofShapes [LawfulBEq ι] (shapes : List (ι × StructShape ι ν)) : List (ι × StructLayout ν) :=
  let family := standing shapes
  family.foldl (fun found entry => ((searchLayout family [] entry.1).run.run found).2) []

end StructLayout

end FlatSchema
