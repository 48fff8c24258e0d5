import FlatSchema.Layout
import Mathlib.Algebra.Group.Nat.Defs
import Mathlib.Data.List.Forall2
import Mathlib.Order.Bounds.Defs

/-!
# The layout of a struct

The fields of a struct tile it from its start to its end, each at a multiple
of its alignment.
-/

namespace FlatSchema

open Measure

variable {α β : Type} {rel : α → β → Prop} {lefts : List α} {rights : List β}

/-- A list is mapped by a partial function if each of its elements is. -/
theorem mapM_eq_some_iff {elems : List α} {results : List β} :
    elems.mapM function = some results ↔
      List.Forall₂ (fun elem res => function elem = some res) elems results := by
  induction elems generalizing results with
  | nil => simp [eq_comm]
  | cons hd rest ih =>
    simp only [List.mapM_cons, List.forall₂_cons_left_iff, ← ih]
    simp [Option.bind_eq_some_iff, eq_comm (a := results)]

theorem exists_forall₂
    (each : ∀ elem ∈ elems, ∃ res, rel elem res) : ∃ results, List.Forall₂ rel elems results := by
  induction elems with
  | nil => exact ⟨[], .nil⟩
  | cons hd rest ih =>
    rcases List.forall_mem_cons.mp each with ⟨⟨res, related⟩, others⟩
    exact (ih others).imp' (res :: ·) fun _ all => .cons related all

/-- The element of a list that corresponds to one of another. -/
theorem exists_of_forall₂_left (all : List.Forall₂ rel lefts rights) {i : Nat}
    (hit : lefts[i]? = some left) : ∃ right, rights[i]? = some right ∧ rel left right := by
  induction all generalizing i with
  | nil => cases hit
  | @cons fst snd _ _ related _ ih =>
    grind

theorem exists_of_forall₂_right (all : List.Forall₂ rel lefts rights) {i : Nat}
    (hit : rights[i]? = some right) : ∃ left, lefts[i]? = some left ∧ rel left right :=
  exists_of_forall₂_left all.flip hit

/-- Every element of a list corresponds to an element of the other. -/
theorem exists_mem_of_forall₂
    (all : List.Forall₂ rel lefts rights) {right : β} (mem : right ∈ rights) :
    ∃ left ∈ lefts, rel left right := by
  rcases List.getElem?_of_mem mem with ⟨i, hit⟩
  rcases exists_of_forall₂_right all hit with ⟨left, stands, related⟩
  exact ⟨left, List.mem_of_getElem? stands, related⟩

/-- What a look-up finds stands in the list. -/
theorem mem_of_lookup [BEq ι] [LawfulBEq ι] {es : List (ι × α)} {id : ι}
    (hit : es.lookup id = some v) : (id, v) ∈ es := by
  rcases List.lookup_eq_some_iff.mp hit with ⟨pre, post, rfl, _⟩
  simp

/-- Where keys are distinct, every entry is found. -/
theorem lookup_of_mem [BEq ι] [LawfulBEq ι] {es : List (ι × α)}
    (nodup : (es.map Prod.fst).Nodup) {id : ι} (mem : (id, v) ∈ es) : es.lookup id = some v := by
  rcases List.append_of_mem mem with ⟨pre, post, rfl⟩
  grind

namespace StructLayout

/-- The alignments of the format: powers of two up to sixteen. -/
def IsAlignment (align : Nat) : Prop :=
  ∃ expo, expo ≤ 4 ∧ align = 2 ^ expo

theorem isAlignment_one : IsAlignment 1 :=
  ⟨0, by omega, rfl⟩

theorem IsAlignment.pos (isAlignment : IsAlignment align) : 0 < align := by
  grind [IsAlignment]

theorem IsAlignment.dvd (smallIs : IsAlignment small) (greatIs : IsAlignment great)
    (le : small ≤ great) : small ∣ great := by
  grind [Nat.pow_dvd_pow, Nat.pow_le_pow_iff_right, IsAlignment]

theorem isAlignment_scalarSize (kind : ScalarKind) : IsAlignment kind.size := by
  cases kind with
  | bool | int8 | uint8 => exact ⟨0, by omega, rfl⟩
  | int16 | uint16 => exact ⟨1, by omega, rfl⟩
  | int32 | uint32 | float32 => exact ⟨2, by omega, rfl⟩
  | int64 | uint64 | float64 => exact ⟨3, by omega, rfl⟩

theorem dvd_alignUp (v align : Nat) : align ∣ alignUp v align :=
  Nat.dvd_mul_left align _

theorem le_alignUp (v : Nat) (pos : 0 < align) : v ≤ alignUp v align := by
  rw [alignUp_nat]
  have division := Nat.div_add_mod (v + align - 1) align
  have small := Nat.mod_lt (v + align - 1) pos
  rw [Nat.mul_comm] at division
  omega

theorem alignUp_zero (pos : 0 < align) : alignUp 0 align = 0 := by
  rw [alignUp_nat, Nat.zero_add, Nat.div_eq_of_lt (by omega), Nat.zero_mul]

/-- Places that follow one another from a start to a stop, each with its padding. -/
def Tiles : Nat → List (Placement Nat) → Nat → Prop
  | start, [], stop => start = stop
  | start, place :: rest, stop =>
    place.offset = start ∧ Tiles (start + place.size + place.padding) rest stop

/-- A place that has room for a value, aligned as the value asks. -/
def Holds (cell : Storage Nat) (place : Placement Nat) : Prop :=
  place.size = cell.size ∧ cell.alignment ∣ place.offset

/-- Fields from an offset on tile what lies between the first of them and the stop. -/
theorem tiles_placements (pos : ∀ cell ∈ fst :: rest, 0 < cell.alignment) (off : Nat)
    (fits : (offsetsFrom off (fst :: rest)).2 ≤ stop) :
    Tiles (alignUp off fst.alignment)
      (placements stop ((offsetsFrom off (fst :: rest)).1.zip (fst :: rest))) stop := by
  induction rest generalizing fst off with
  | nil =>
    grind [Tiles, placements, offsetsFrom]
  | cons snd rest ih =>
    have restPositive : ∀ cell ∈ snd :: rest, 0 < cell.alignment := by
      grind
    have next :=
      le_alignUp (alignUp off fst.alignment + fst.size) (restPositive snd List.mem_cons_self)
    grind [Tiles, placements, offsetsFrom]

section

variable (cells : List (Storage Nat))

/-- Each field has a place that holds it. -/
theorem holds_placements (off stop : Nat) :
    List.Forall₂ Holds cells (placements stop ((offsetsFrom off cells).1.zip cells)) := by
  induction cells generalizing off with
  | nil => exact .nil
  | cons fst rest ih =>
    have tail := ih (alignUp off fst.alignment + fst.size)
    cases rest with
    | nil =>
      exact .cons ⟨rfl, dvd_alignUp _ _⟩ .nil
    | cons snd rest =>
      exact .cons ⟨rfl, dvd_alignUp _ _⟩ tail

/-- The alignment of fields is the greatest of theirs and one. -/
theorem isGreatest_alignmentOf :
    IsGreatest {align | align = 1 ∨ ∃ cell ∈ cells, align = cell.alignment}
      (alignmentOf cells) := by
  suffices general :
      ∀ (cells : List (Storage Nat)) (least : Nat),
        IsGreatest {align | align = least ∨ ∃ cell ∈ cells, align = cell.alignment}
          (cells.foldl (fun align cell => max align cell.alignment) least) from
    general cells 1
  intro cells
  induction cells with
  | nil =>
    intro least
    refine ⟨.inl rfl, ?_⟩
    rintro align (rfl | ⟨_, mem, _⟩)
    · exact Nat.le_refl _
    · cases mem
  | cons hd rest ih =>
    intro least
    rcases ih (max least hd.alignment) with ⟨among, above⟩
    constructor
    · rcases among with same | ⟨cell, mem, same⟩
      · rcases Nat.le_total least hd.alignment with le | le
        · exact .inr ⟨hd, List.mem_cons_self, same.trans (Nat.max_eq_right le)⟩
        · exact .inl (same.trans (Nat.max_eq_left le))
      · exact .inr ⟨cell, List.mem_cons_of_mem _ mem, same⟩
    · rintro align (rfl | ⟨cell, mem, rfl⟩)
      · exact Nat.le_trans (Nat.le_max_left _ _) (above (.inl rfl))
      · rcases List.mem_cons.mp mem with rfl | later
        · exact Nat.le_trans (Nat.le_max_right _ _) (above (.inl rfl))
        · exact above (.inr ⟨cell, later, rfl⟩)

/-- The alignment of a struct is the greatest of one, those of its fields and the forced one. -/
theorem isGreatest_alignment (forced : Option Nat) :
    IsGreatest {align | align = 1 ∨ (∃ cell ∈ cells, align = cell.alignment) ∨ align ∈ forced}
      (ofFields cells forced).alignment := by
  rcases isGreatest_alignmentOf cells with ⟨among, above⟩
  cases forced with
  | none => exact ⟨among.imp_right .inl, fun align given => above (by simpa using given)⟩
  | some least =>
    show IsGreatest _ (max (alignmentOf cells) least)
    constructor
    · rcases Nat.le_total (alignmentOf cells) least with le | le
      · exact .inr (.inr (congrArg some (Nat.max_eq_right le)).symm)
      · rw [Nat.max_eq_left le]
        exact among.imp_right .inl
    · rintro align (rfl | given | given)
      · exact Nat.le_trans (above (.inl rfl)) (Nat.le_max_left _ _)
      · exact Nat.le_trans (above (.inr given)) (Nat.le_max_left _ _)
      grind

end

/-- What a layout promises: its fields tile it, and each place and the whole are aligned. -/
structure Sound (cells : List (Storage Nat)) (layout : StructLayout Nat) : Prop where
  isAlignment : IsAlignment layout.alignment
  dvd_size : layout.alignment ∣ layout.size
  tiles : Tiles 0 layout.fields layout.size
  holds : List.Forall₂ Holds cells layout.fields
  dvd_alignment : ∀ cell ∈ cells, cell.alignment ∣ layout.alignment

/-- The fields of a struct tile it. -/
theorem tiles_ofFields (pos : ∀ cell ∈ cells, 0 < cell.alignment) (forced : Option Nat) :
    Tiles 0 (ofFields cells forced).fields (ofFields cells forced).size := by
  have above := (isGreatest_alignment cells forced).2 (.inl rfl)
  cases cells with
  | nil => exact (alignUp_zero above).symm
  | cons hd rest =>
    have tiled := tiles_placements pos 0 (le_alignUp (offsetsFrom 0 (hd :: rest)).2 above)
    rwa [alignUp_zero (pos hd List.mem_cons_self)] at tiled

/-- The layout of aligned fields keeps its promises, whatever alignment is asked for. -/
theorem sound_ofFields (aligned : ∀ cell ∈ cells, IsAlignment cell.alignment)
    (forcedAligned : ∀ align ∈ forced, IsAlignment align) :
    Sound cells (ofFields cells forced) := by
  rcases isGreatest_alignment cells forced with ⟨among, above⟩
  have isAlignment : IsAlignment (ofFields cells forced).alignment := by
    rcases among with same | ⟨cell, mem, same⟩ | given
    · exact same ▸ isAlignment_one
    · exact same ▸ aligned cell mem
    · exact forcedAligned _ given
  refine ⟨isAlignment, dvd_alignUp _ _, ?_, holds_placements cells _ _, ?_⟩
  · exact tiles_ofFields (fun cell mem => (aligned cell mem).pos) forced
  · intro cell mem
    exact (aligned cell mem).dvd isAlignment (above (.inr (.inl ⟨cell, mem, rfl⟩)))

end StructLayout

end FlatSchema
