import FlatSchema.Text.Units

/-!
# Paths

Paths are texts with slashes between their segments.  Normalizing drops empty
segments and single dots and lets double dots take back the segment before
them; at the start of a relative path double dots stay, after a leading slash
they are dropped.
-/

namespace FlatSchema.Path

def slash : UInt16 := 47

def dot : Text := ⟨[46]⟩

def dotDot : Text := ⟨[46, 46]⟩

def isAbsolute (path : Text) : Bool :=
  path.units.head? == some slash

def endsWithSlash (path : Text) : Bool :=
  path.units.getLast? == some slash

def pushSegment (allowAbove : Bool) (inner : List Text) (segment : Text) : List Text :=
  if segment.isEmpty || segment == dot then inner
  else if segment == dotDot then
    match inner with
    | [] => if allowAbove then [dotDot] else []
    | last :: outer => if last == dotDot then dotDot :: inner else outer
  else segment :: inner

def segments (allowAbove : Bool) (path : Text) : List Text :=
  ((path.splitOn slash).foldl (pushSegment allowAbove) []).reverse

def ofSegments (parts : List Text) : Text :=
  Text.join ⟨[slash]⟩ parts

/-- A path in normal form.  A slash at the end stays. -/
def normalize (path : Text) : Text :=
  let absolute := isAbsolute path
  let trailing := endsWithSlash path
  let inner := ofSegments (segments (!absolute) path)
  if path.isEmpty then dot
  else if inner.isEmpty then
    if absolute then ⟨[slash]⟩ else if trailing then dot ++ ⟨[slash]⟩ else dot
  else
    let closed := if trailing then inner ++ ⟨[slash]⟩ else inner
    if absolute then ⟨[slash]⟩ ++ closed else closed

def join (dir path : Text) : Text :=
  let parts := [dir, path].filter fun part => !part.isEmpty
  if parts.isEmpty then dot else normalize (ofSegments parts)

/-- The directory of a path: what stands before the last slash that has a name after it. -/
def dirname (path : Text) : Text :=
  let isSlash (unit : UInt16) : Bool := unit = slash
  let withoutName := (path.units.reverse.dropWhile isSlash).dropWhile fun unit => !isSlash unit
  if withoutName.length ≥ 2 then
    if isAbsolute path && withoutName.length = 2 then ⟨[slash, slash]⟩
    else ⟨withoutName.tail.reverse⟩
  else if isAbsolute path then ⟨[slash]⟩
  else dot

/-- A path as it is seen from a directory that is an absolute path: absolute and in normal form,
without a slash at the end. -/
def resolve (dir path : Text) : Text :=
  let parts := if isAbsolute path then [path] else [dir, path]
  ⟨[slash]⟩ ++ ofSegments (segments false (ofSegments parts))

end FlatSchema.Path
