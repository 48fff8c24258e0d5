import FlatSchema.Source
import Mathlib.Data.List.GetD
import Mathlib.Data.List.Induction

/-!
# Positions are exact

The starts of the lines of a text lie behind its line feeds, so the units before
an offset tell its line and its column.  The search by halving finds the line
whatever the lines are, and positions grow with their offsets.
-/

namespace FlatSchema

/-- One place stands before another: in an earlier line, or before it in the same one. -/
def Position.Earlier (fst snd : Position) : Prop :=
  fst.line < snd.line ∨ fst.line = snd.line ∧ fst.column < snd.column

namespace Source

variable {src : Source} {before after units : List UInt16}

/-! ## Starts of lines -/

theorem lineStartsFrom_append (off : Nat) (before after : List UInt16) :
    lineStartsFrom off (before ++ after) =
      lineStartsFrom off before ++ lineStartsFrom (off + before.length) after := by
  induction before generalizing off with
  | nil => rfl
  | cons unit before ih =>
    have shift : off + (unit :: before).length = off + 1 + before.length := by
      rw [List.length_cons, Nat.add_right_comm]
      rfl
    rw [List.cons_append, lineStartsFrom, lineStartsFrom, ih, shift]
    split <;> rfl

theorem bounds_of_mem_lineStartsFrom (mem : start ∈ lineStartsFrom off units) :
    off < start ∧ start ≤ off + units.length := by
  fun_induction lineStartsFrom off units with
  | case1 => cases mem
  | case2 off rest ih =>
    grind
  | case3 off unit rest plain ih =>
    grind

theorem length_lineStartsFrom (off : Nat) (units : List UInt16) :
    (lineStartsFrom off units).length = units.count 10 := by
  fun_induction lineStartsFrom off units with
  | case1 => rfl
  | case2 off rest ih => rw [List.length_cons, ih, List.count_cons_self]
  | case3 off unit rest plain ih => rw [ih, List.count_cons_of_ne plain]

/-- The last line begins where what stands behind the last line feed does. -/
theorem getLastD_lineStartsFrom (units : List UInt16) :
    (lineStartsFrom 0 units).getLastD 0 + (units.reverse.takeWhile (· ≠ 10)).length =
      units.length := by
  induction units using List.reverseRecOn with
  | nil => rfl
  | append_singleton units unit ih =>
    rw [lineStartsFrom_append, List.length_append]
    by_cases isBreak : unit = 10
    · simp [isBreak, lineStartsFrom]
    · simp [isBreak, lineStartsFrom] at ih ⊢
      omega

/-! ## The search -/

/-- Halving finds the last of the first `n` starts, if these are the ones up to the offset. -/
theorem lineAt_eq
    (divides : ∀ i ≤ hi, starts.getD i 0 ≤ off ↔ i < n) (above : lo < n) (below : n ≤ hi + 1) :
    lineAt starts off lo hi + 1 = n := by
  fun_induction lineAt starts off lo hi with
  | case1 lo hi fewer mid reaches ih =>
    exact ih divides ((divides mid (by omega)).mp reaches) below
  | case2 lo hi fewer mid beyond ih =>
    have past : ¬mid < n := fun within => beyond ((divides mid (by omega)).mpr within)
    exact ih (fun i fits => divides i (by omega)) above (by omega)
  | case3 lo hi found => omega

/-- Among starts up to the offset and then starts behind it, halving finds the last of the first. -/
theorem lineAt_append (nonempty : front ≠ [])
    (reached : ∀ start ∈ front, start ≤ off) (ahead : ∀ start ∈ back, off < start) :
    lineAt (front ++ back) off 0 ((front ++ back).length - 1) + 1 = front.length := by
  have positive := List.length_pos_iff.mpr nonempty
  rw [List.length_append]
  refine lineAt_eq (fun i fits => ?_) positive (by omega)
  by_cases own : i < front.length
  · grind
  · have later : i - front.length < back.length := by omega
    rw [List.getD_append_right _ _ _ _ (by omega), List.getD_eq_getElem _ _ later]
    exact iff_of_false (Nat.not_le.mpr (ahead _ (List.getElem_mem later))) own

/-- The place behind some code units: their line feeds tell the line, and what stands behind the
last of these the column. -/
def placeAfter (before : List UInt16) : Position :=
  ⟨1 + before.count 10, 1 + (before.reverse.takeWhile (· ≠ 10)).length, before.length⟩

theorem position_eq (whole : src.units = before ++ after) (stands : src.clamp off = before.length) :
    src.position off = placeAfter before ∧
      ∃ start, src.lineStarts[before.count 10]? = some start ∧
        start + (placeAfter before).column = before.length + 1 := by
  have starts : src.lineStarts =
      (0 :: lineStartsFrom 0 before) ++ lineStartsFrom before.length after := by
    rw [lineStarts, whole, lineStartsFrom_append, Nat.zero_add, List.cons_append]
  have reached : ∀ start ∈ 0 :: lineStartsFrom 0 before, start ≤ before.length := by
    refine List.forall_mem_cons.mpr ⟨Nat.zero_le _, fun start mem => ?_⟩
    simpa using (bounds_of_mem_lineStartsFrom mem).2
  have line := lineAt_append (List.cons_ne_nil _ _) reached
    fun start (mem : start ∈ lineStartsFrom before.length after) =>
      (bounds_of_mem_lineStartsFrom mem).1
  rw [List.length_cons, length_lineStartsFrom] at line
  have last : src.lineStarts[before.count 10]? = some ((lineStartsFrom 0 before).getLastD 0) := by
    rw [starts, ← length_lineStartsFrom 0]
    cases lineStartsFrom 0 before using List.reverseRecOn <;> simp
  have column := getLastD_lineStartsFrom before
  refine ⟨?_, _, last, ?_⟩
  · simp only [position, stands, placeAfter, Nat.succ.inj line, List.getD_eq_getElem?_getD, last]
    congr 1 <;> grind
  · simp only [placeAfter]
    omega

variable (before : List UInt16)

/-- Units without a line feed only lengthen the line. -/
theorem placeAfter_append (plain : 10 ∉ after) :
    placeAfter (before ++ after) =
      ⟨(placeAfter before).line, (placeAfter before).column + after.length,
        before.length + after.length⟩ := by
  have passed : ∀ unit ∈ after.reverse, decide (unit ≠ 10) = true := by
    grind
  simp only [placeAfter, List.reverse_append, List.takeWhile_append_of_pos passed,
    List.length_append, List.length_reverse, List.count_append,
    List.count_eq_zero_of_not_mem plain]
  congr 1
  omega

theorem earlier_placeAfter (more : after ≠ []) :
    (placeAfter before).Earlier (placeAfter (before ++ after)) := by
  have longer := List.length_pos_iff.mpr more
  by_cases broken : 10 ∈ after
  · refine .inl ?_
    have another := List.count_pos_iff.mpr broken
    simp only [placeAfter, List.count_append]
    omega
  · rw [placeAfter_append before broken]
    exact .inr ⟨rfl, Nat.lt_add_of_pos_right longer⟩

/-- The line of an offset is one more than the line feeds before it and its column one more than
what stands behind the last of these, inside the text and, clamped, outside of it.  So a line
begins a column before its offsets, and positions inside the text grow with them. -/
theorem position_exact (src : Source) (off : Int) :
    src.position off = placeAfter (src.units.take (src.clamp off)) ∧
      (src.position off).offset = src.clamp off ∧
      (∃ start, src.lineStarts[(src.position off).line - 1]? = some start ∧
        start + (src.position off).column = src.clamp off + 1) ∧
      ∀ other : Int, 0 ≤ off → off < other → other ≤ src.length →
        (src.position off).Earlier (src.position other) := by
  have size (off : Int) : (src.units.take (src.clamp off)).length = src.clamp off := by
    rw [List.length_take, clamp, length]
    omega
  have stands (off : Int) :=
    position_eq (List.take_append_drop (src.clamp off) src.units).symm (size off).symm
  refine ⟨(stands off).1, rfl, ?_, fun other inside less fits => ?_⟩
  · rw [(stands off).1]
    simpa [placeAfter, size] using (stands off).2
  · have split : src.units.take (src.clamp other) = src.units.take (src.clamp off) ++
        (src.units.drop (src.clamp off)).take (src.clamp other - src.clamp off) := by
      rw [← List.take_add]
      congr 1
      unfold clamp
      omega
    rw [(stands off).1, (stands other).1, split]
    refine earlier_placeAfter _ (List.length_pos_iff.mp ?_)
    rw [List.length_take, List.length_drop, clamp, clamp, length] at *
    omega

/-- The place before a line feed is earlier than the place behind it. -/
theorem position_exact_break :
    (position ⟨"a.fbs", "a\nb"⟩ 1).Earlier (position ⟨"a.fbs", "a\nb"⟩ 2) :=
  (position_exact ⟨"a.fbs", "a\nb"⟩ 1).2.2.2 2 (by decide) (by decide) (by decide)

/-! ## Positions carried along -/

theorem not_mem_unitsOfChar (other : char ≠ '\n') : 10 ∉ Text.unitsOfChar char := by
  have apart : char.toNat ≠ 10 := fun same => other (Char.toNat_inj.mp same)
  have small : char.val.toNat < 0x110000 := char.valid.elim (by omega) (by omega)
  rw [Char.toNat_val] at small
  unfold Text.unitsOfChar
  split
  all_goals
    simp [← UInt16.toNat_inj]
    omega

theorem advance_placeAfter (char : Char) :
    (placeAfter before).advance char = placeAfter (before ++ Text.unitsOfChar char) := by
  unfold Position.advance
  split
  · next isBreak =>
      rw [isBreak, show Text.unitsOfChar '\n' = [10] from rfl]
      simp [placeAfter]
      omega
  · next other =>
      rw [placeAfter_append before (not_mem_unitsOfChar other), Text.length_unitsOfChar]
      rfl

theorem advanceAll_append (pos : Position) (fst snd : List Char) :
    pos.advanceAll (fst ++ snd) = (pos.advanceAll fst).advanceAll snd :=
  List.foldl_append

/-- Carrying the first position along characters leads to the place behind them. -/
theorem advanceAll_start (chars : List Char) :
    Position.start.advanceAll chars = placeAfter (Text.ofChars chars).units := by
  induction chars using List.reverseRecOn with
  | nil => rfl
  | append_singleton chars char ih =>
    rw [advanceAll_append, ih, Position.advanceAll_cons, advance_placeAfter]
    simp [Text.ofChars]

/-- The code units of some characters. -/
def widthOf (chars : List Char) : Nat :=
  (Text.ofChars chars).units.length

theorem widthOf_append (fst snd : List Char) :
    widthOf (fst ++ snd) = widthOf fst + widthOf snd := by
  simp [widthOf, Text.ofChars]

theorem length_eq_widthOf (src : Source) : src.length = widthOf src.text.toList :=
  rfl

theorem widthOf_le {before after : List Char} (whole : src.text.toList = before ++ after) :
    widthOf before ≤ src.length := by
  rw [length_eq_widthOf, whole, widthOf_append]
  exact Nat.le_add_right _ _

/-- The position behind the first characters of a text is that of their width. -/
theorem position_widthOf {before after : List Char} (whole : src.text.toList = before ++ after) :
    src.position (widthOf before) = Position.start.advanceAll before := by
  have split : src.units = (Text.ofChars before).units ++ (Text.ofChars after).units := by
    simp [units, Text.ofString, Text.ofChars, whole]
  rw [advanceAll_start]
  exact (position_eq split (clamp_eq (widthOf_le whole))).1

end Source

end FlatSchema
