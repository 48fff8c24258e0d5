import FlatSchema.Source

/-!
# Bundles of sources

A bundle holds sources of different paths in the order in which the paths were
first mentioned.  A source of a path that is there already takes the place of
the earlier one.

Different spellings can lead to one file: `Bundle.mapPaths` respells the paths
of a bundle one after another, and among those that become equal the last
counts.
-/

namespace FlatSchema

structure Bundle where
  sources : List Source
deriving DecidableEq, Inhabited, Repr

namespace Bundle

variable (bundle : Bundle)

def paths : List Text :=
  bundle.sources.map Source.path

/-- Put a source in the place of the one of its path, or at the end where there is none. -/
def place (src : Source) : List Source → List Source
  | [] => [src]
  | other :: rest =>
    if other.path = src.path then src :: rest else other :: place src rest

/-- A bundle with one more source, which counts in place of an earlier one of its path. -/
def insert (src : Source) : Bundle :=
  ⟨place src bundle.sources⟩

def ofSources (sources : List Source) : Bundle :=
  sources.foldl insert ⟨[]⟩

/-- The same sources under other paths.  Of sources whose paths become equal the last counts. -/
def mapPaths (respell : Text → Text) (bundle : Bundle) : Bundle :=
  ofSources (bundle.sources.map fun src => ⟨respell src.path, src.text⟩)

/-- More than the greatest number that counts as one in a path. -/
def numberLimit : Nat := 0xFFFFFFFF

def number? (path : Text) : Option Nat :=
  (path.toString?.bind String.toNat?).filter fun number =>
    number < numberLimit && Text.ofInt number == path

/-- The same sources with those whose paths are numbers first, by the size of the number. -/
def numbersFirst : Bundle :=
  let numbered := bundle.sources.filter fun src => (number? src.path).isSome
  let named := bundle.sources.filter fun src => (number? src.path).isNone
  let size (src : Source) : Nat := (number? src.path).getD 0
  ⟨numbered.mergeSort (fun left right => size left ≤ size right) ++ named⟩

end Bundle

end FlatSchema
