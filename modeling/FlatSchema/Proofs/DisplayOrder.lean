import FlatSchema.Diagnostic
import Mathlib.Data.List.Basic

/-!
# The order of display

Reports are to be displayed by file, line, column, severity, identifier and
message, a missing line or column last.  Two reports of one file that both
miss the line, or miss the column on one line, keep the order in which they
come, so the display is the same for every order of the reports exactly if
such reports read the same.
-/

namespace FlatSchema

open Std Collation

variable {α β : Type} {r : α → α → Ordering} {l k : List α}

theorem transCmp_on (r : α → α → Ordering) [TransCmp r] (f : β → α) :
    TransCmp fun a b => r (f a) (f b) where
  eq_swap := OrientedCmp.eq_swap
  isLE_trans := TransCmp.isLE_trans

theorem transCmp_then {next : α → α → Ordering} (_ : TransCmp r) (_ : TransCmp next) :
    TransCmp fun a b => (r a b).then (next a b) :=
  inferInstanceAs (TransCmp (compareLex r next))

/-! ## Sorting by a comparison -/

/-- A comparison as the relation by which lists are sorted. -/
abbrev notAfter (r : α → α → Ordering) (a b : α) : Bool :=
  r a b != .gt

theorem notAfter_iff {a b : α} : notAfter r a b ↔ (r a b).isLE := by
  cases hit : r a b <;> simp [notAfter, hit]

section

variable [TransCmp r]

theorem notAfter_trans (a b c : α) (fst : notAfter r a b) (snd : notAfter r b c) :
    notAfter r a c := by
  rw [notAfter_iff] at fst snd ⊢
  exact TransCmp.isLE_trans fst snd

theorem notAfter_total (a b : α) : (notAfter r a b || notAfter r b a) = true := by
  rw [notAfter, notAfter, @OrientedCmp.eq_swap _ r _ a]
  cases r b a <;> rfl

theorem eq_of_notAfter {a b : α} (fst : notAfter r a b) (snd : notAfter r b a) :
    r a b = .eq := by
  rw [notAfter, @OrientedCmp.eq_swap _ r] at snd
  cases hit : r a b <;> simp_all [notAfter]

/-- Two sorted arrangements of one list look the same if equal elements do. -/
theorem map_eq_of_perm {f : α → β} (perm : l.Perm k)
    (same : ∀ a ∈ l, ∀ b ∈ l, r a b = .eq → f a = f b)
    (one : l.Pairwise fun a b => notAfter r a b) (two : k.Pairwise fun a b => notAfter r a b) :
    l.map f = k.map f := by
  induction l generalizing k with
  | nil => rw [perm.nil_eq]
  | cons a l ih =>
    rcases List.append_of_mem (perm.subset List.mem_cons_self) with ⟨front, back, rfl⟩
    rcases List.pairwise_cons.mp one with ⟨least, sorted⟩
    have others : l.Perm (front ++ back) := (perm.trans List.perm_middle).cons_inv
    -- what stands before `a` is equal to it, so `a` may as well stand first
    have before : front.map f = List.replicate front.length (f a) := by
      refine List.eq_replicate_iff.mpr ⟨List.length_map _, fun line mem => ?_⟩
      rcases List.mem_map.mp mem with ⟨b, own, rfl⟩
      have later : b ∈ l := others.symm.subset (List.mem_append_left _ own)
      have lower := (List.pairwise_append.mp two).2.2 b own a List.mem_cons_self
      exact same b (List.mem_cons_of_mem _ later) a List.mem_cons_self
        (eq_of_notAfter lower (least b later))
    have rest := ih others (fun b mem c other => same b (List.mem_cons_of_mem _ mem) c
      (List.mem_cons_of_mem _ other)) sorted (two.sublist (by simp))
    rw [List.map_cons, rest, List.map_append, List.map_append, List.map_cons, before,
      ← List.singleton_append, ← List.append_assoc, List.singleton_append, ← List.replicate_succ,
      List.replicate_succ', List.append_assoc, List.singleton_append]

/-- The first element of a list stands in the sorted list behind those that are less. -/
theorem mergeSort_cons_eq (a : α) (l : List α) :
    ∃ front back, (a :: l).mergeSort (notAfter r) = front ++ a :: back ∧
      front.length = (a :: l).countP fun b => r a b = .gt := by
  have ordered := List.pairwise_mergeSort (notAfter_trans (r := r)) notAfter_total (a :: l)
  rcases List.mergeSort_cons (notAfter_trans (r := r)) notAfter_total a l with
    ⟨front, back, hit, _, less⟩
  refine ⟨front, back, hit, ?_⟩
  rw [← (List.mergeSort_perm (a :: l) (notAfter r)).countP_eq, hit]
  rw [hit] at ordered
  have later := (List.pairwise_cons.mp (List.pairwise_append.mp ordered).2.1).1
  have all : front.countP (fun b => r a b = .gt) = front.length :=
    List.countP_eq_length.mpr (by simpa [notAfter] using less)
  have none : back.countP (fun b => r a b = .gt) = 0 :=
    List.countP_eq_zero.mpr (by simpa [notAfter] using later)
  simp [all, none, ReflCmp.compare_self]

/-- Of two equal elements at the front of a list, the other one takes the place of the first if they
are exchanged. -/
theorem eq_of_exchange {f : α → β} {a b : α} (equal : r a b = .eq)
    (same : ((a :: b :: l).mergeSort (notAfter r)).map f =
      ((b :: a :: l).mergeSort (notAfter r)).map f) : f a = f b := by
  rcases mergeSort_cons_eq (r := r) a (b :: l) with ⟨front, back, hit, len⟩
  rcases mergeSort_cons_eq (r := r) b (a :: l) with ⟨front', back', hit', len'⟩
  have lens : front.length = front'.length := by
    rw [len, len', (List.Perm.swap b a l).countP_eq]
    simp only [TransCmp.congr_left equal]
  rw [hit, hit', List.map_append, List.map_append] at same
  have heads := (List.append_inj same (by simpa using lens)).2
  exact (List.cons.inj heads).1

end

/-! ## Comparing reports -/

instance transCmp_compareWeights : TransCmp compareWeights := by
  have same (left right) : compareWeights left right = left.compareLex compare right := by
    fun_induction compareWeights left right with
    | case1 | case2 | case3 => rfl
    | case4 left lefts right rights equal ih =>
      rw [List.compareLex_cons_cons, equal, ih]
      rfl
    | case5 left lefts right rights differ =>
      rw [List.compareLex_cons_cons]
      cases hit : compare left right <;> simp_all
  rw [show compareWeights = List.compareLex compare from funext fun _ => funext fun _ => same _ _]
  infer_instance

instance transCmp_compareTexts : TransCmp compareTexts :=
  have : TransCmp compareElements :=
    transCmp_then (transCmp_on compareWeights _)
      (transCmp_then (transCmp_on compareWeights _) (transCmp_on compareWeights _))
  transCmp_on compareElements _

namespace Diagnostic

/-- Numbers in their order, a missing one last. -/
def compareMissingLast : Option Int → Option Int → Ordering
  | some left, some right => compare left right
  | some _, none => .lt
  | none, some _ => .gt
  | none, none => .eq

/-- The order in which reports are to be displayed. -/
def compareFully (left right : Diagnostic) : Ordering :=
  (compareTexts left.sortFile right.sortFile).then
    ((compareMissingLast left.line right.line).then
      ((compareMissingLast left.column right.column).then (left.compareRest right)))

/-- What is looked at of a report: nothing behind a missing line or column. -/
def seen (d : Diagnostic) : Diagnostic :=
  match d.line, d.column with
  | none, _ => ⟨"", .error, "", d.file, none, none, none, none⟩
  | line, none => ⟨"", .error, "", d.file, line, none, none, none⟩
  | _, _ => d

instance transCmp_compareMissingLast : TransCmp compareMissingLast := by
  have same (a b) : compareMissingLast a b =
      (compare a.isNone b.isNone).then (compare (a.getD 0) (b.getD 0)) := by
    cases a <;> cases b <;> rfl
  rw [show compareMissingLast = _ from funext fun a => funext (same a)]
  exact transCmp_then (transCmp_on compare _) (transCmp_on compare _)

instance transCmp_compareFully : TransCmp compareFully :=
  have rest : TransCmp (@DiagnosticAt.compareRest Int) :=
    transCmp_then (transCmp_on (compare (α := Nat)) _)
      (transCmp_then (transCmp_on compareTexts _) (transCmp_on compareTexts _))
  transCmp_then (transCmp_on compareTexts _)
    (transCmp_then (transCmp_on compareMissingLast _)
      (transCmp_then (transCmp_on compareMissingLast _) rest))

/-- Display looks at what is seen, and leaves equal or orders fully. -/
theorem compareForDisplay_eq (a b : Diagnostic) :
    a.compareForDisplay b = compareFully a.seen b.seen ∧
      (a.compareForDisplay b = .eq ∨ a.compareForDisplay b = compareFully a b) := by
  have files (d : Diagnostic) : d.seen.sortFile = d.sortFile := by
    unfold seen DiagnosticAt.sortFile
    split <;> rfl
  unfold DiagnosticAt.compareForDisplay compareFully
  rw [files, files]
  cases compareTexts a.sortFile b.sortFile with
  | lt | gt => simp
  | eq =>
    rcases a with ⟨id, severity, message, file, line, column, _, _⟩
    rcases b with ⟨id', severity', message', file', line', column', _, _⟩
    cases line <;> cases line' <;> cases column <;> cases column' <;>
      simp only [seen, compareMissingLast, LineNumber.compare?_int, LineNumber.compareIntegers?,
        DiagnosticAt.compareRest, ReflCmp.compare_self, Ordering.then_eq] <;>
      grind [Ordering.then]

instance transCmp_compareForDisplay : TransCmp (@DiagnosticAt.compareForDisplay Int _) := by
  rw [show DiagnosticAt.compareForDisplay = fun a b => compareFully (seen a) (seen b) from
    funext fun a => funext fun b => (compareForDisplay_eq a b).1]
  exact transCmp_on compareFully seen

/-- Reports of one file that both miss the line, or miss the column on one line. -/
def Unordered (a b : Diagnostic) : Prop :=
  a.file = b.file ∧
    (a.line = none ∧ b.line = none ∨ a.line = b.line ∧ a.column = none ∧ b.column = none)

theorem Unordered.compareForDisplay {a b : Diagnostic} (unordered : a.Unordered b) :
    a.compareForDisplay b = .eq := by
  have same : a.seen = b.seen := by
    rcases unordered with ⟨file, ⟨left, right⟩ | ⟨line, left, right⟩⟩
    · simp [seen, file, left, right]
    · cases hit : b.line <;> simp [seen, file, line, left, right, hit]
  rw [(compareForDisplay_eq a b).1, same]
  exact ReflCmp.compare_self

/-- Files, identifiers and messages of some reports are the same where they sort the same. -/
structure ToldApart (ds : List Diagnostic) : Prop where
  file : ∀ a ∈ ds, ∀ b ∈ ds, compareTexts a.sortFile b.sortFile = .eq → a.file = b.file
  id :
    ∀ a ∈ ds, ∀ b ∈ ds, compareTexts (Text.ofString a.id) (Text.ofString b.id) = .eq → a.id = b.id
  message : ∀ a ∈ ds, ∀ b ∈ ds, compareTexts a.message b.message = .eq → a.message = b.message

/-- What reports have in common that display leaves equal. -/
theorem sortFile_of_compareForDisplay {a b : Diagnostic} (equal : a.compareForDisplay b = .eq) :
    compareTexts a.sortFile b.sortFile = .eq ∧
      (a.line = none ∧ b.line = none ∨ a.line = b.line ∧
        (a.column = none ∧ b.column = none ∨ a.column = b.column ∧ a.compareRest b = .eq)) := by
  unfold DiagnosticAt.compareForDisplay at equal
  cases files : compareTexts a.sortFile b.sortFile with
  | lt | gt => simp [files] at equal
  | eq =>
    rcases a with ⟨id, severity, message, file, line, column, _, _⟩
    rcases b with ⟨id', severity', message', file', line', column', _, _⟩
    simp only [files, LineNumber.compare?_int] at equal
    cases line <;> cases line' <;> cases column <;> cases column' <;>
      grind [LineNumber.compareIntegers?, @LawfulEqCmp.compare_eq_iff_eq Int compare]

/-- Reports that display leaves equal read the same unless it does not order them. -/
theorem ToldApart.render_eq {ds : List Diagnostic} (told : ToldApart ds) {a b : Diagnostic}
    (fst : a ∈ ds) (snd : b ∈ ds) (equal : a.compareForDisplay b = .eq) :
    a.Unordered b ∨ a.render = b.render := by
  rcases sortFile_of_compareForDisplay equal with
    ⟨files, missing | ⟨line, missing | ⟨column, rest⟩⟩⟩
  · exact .inl ⟨told.file a fst b snd files, .inl missing⟩
  · exact .inl ⟨told.file a fst b snd files, .inr ⟨line, missing⟩⟩
  · rw [DiagnosticAt.compareRest, Ordering.then_eq_eq, Ordering.then_eq_eq] at rest
    have severity : a.severity = b.severity := by
      cases left : a.severity <;> cases right : b.severity <;> simp_all [Severity.rank]
    refine .inr ?_
    rw [DiagnosticAt.render, DiagnosticAt.render, DiagnosticAt.place, DiagnosticAt.place,
      told.file a fst b snd files, line, column, severity, told.id a fst b snd rest.2.1,
      told.message a fst b snd rest.2.2]

/-- Every order of some reports is displayed in the one full order exactly if those that display
does not order read the same. -/
theorem display_settled_iff {ds : List Diagnostic} (told : ToldApart ds) :
    (∀ es : List Diagnostic, es.Perm ds →
        (DiagnosticAt.sortForDisplay es).map DiagnosticAt.render =
          (ds.mergeSort (notAfter compareFully)).map DiagnosticAt.render) ↔
      ∀ a ∈ ds, ∀ b ∈ ds, a.Unordered b → a.render = b.render := by
  refine ⟨fun settled a fst b snd unordered => ?_, fun same es perm => ?_⟩
  · by_cases equal : a = b
    · rw [equal]
    -- the two reports may be moved to the front in either order
    have front := List.perm_cons_erase fst
    have behind := List.perm_cons_erase ((List.mem_erase_of_ne (Ne.symm equal)).mpr snd)
    have both := front.trans (behind.cons a)
    refine eq_of_exchange (l := (ds.erase a).erase b) unordered.compareForDisplay ?_
    exact (settled _ both.symm).trans (settled _ ((List.Perm.swap a b _).trans both.symm)).symm
  · have sorted (l : List Diagnostic) := List.pairwise_mergeSort
      (notAfter_trans (r := @DiagnosticAt.compareForDisplay Int _)) notAfter_total l
    have full := List.pairwise_mergeSort (notAfter_trans (r := compareFully)) notAfter_total ds
    refine map_eq_of_perm (r := DiagnosticAt.compareForDisplay)
      ((List.mergeSort_perm _ _).trans (perm.trans (List.mergeSort_perm _ _).symm)) ?_
      (sorted es) ?_
    · intro a fst b snd equal
      have own {d : Diagnostic}
          (mem : d ∈ es.mergeSort (notAfter DiagnosticAt.compareForDisplay)) : d ∈ ds :=
        perm.subset (List.mem_mergeSort.mp mem)
      rcases told.render_eq (own fst) (own snd) equal with unordered | read
      · exact same a (own fst) b (own snd) unordered
      · exact read
    · refine full.imp fun {a b} fits => ?_
      rcases (compareForDisplay_eq a b).2 with equal | equal
      · simp [notAfter, equal]
      · rw [notAfter, equal]
        exact fits

theorem toldApart_of_same {ds : List Diagnostic} {d : Diagnostic}
    (same : ∀ a ∈ ds, a.file = d.file ∧ a.id = d.id ∧ a.message = d.message) : ToldApart ds where
  file a fst b snd _ := (same a fst).1.trans (same b snd).1.symm
  id a fst b snd _ := (same a fst).2.1.trans (same b snd).2.1.symm
  message a fst b snd _ := (same a fst).2.2.trans (same b snd).2.2.symm

/-- A report without a line may come twice and stand beside others that have one. -/
theorem display_settled_mixed :
    let whole := errorIn "FBS001" "m" "a"
    let ds : List Diagnostic :=
      [whole, { whole with line := some 2, column := some 3 }, whole,
        { whole with line := some 2, column := some 3, severity := .warning }]
    ToldApart ds ∧ ∀ es : List Diagnostic, es.Perm ds →
      (DiagnosticAt.sortForDisplay es).map DiagnosticAt.render =
        (ds.mergeSort (notAfter compareFully)).map DiagnosticAt.render := by
  intro whole ds
  have told : ToldApart ds := toldApart_of_same (d := whole) (by simp [ds])
  refine ⟨told, (display_settled_iff told).mpr ?_⟩
  simp [ds, Unordered, whole, errorIn]

/-- Two reports without a line are displayed in the order in which they come. -/
theorem display_unsettled :
    let a := errorIn "FBS001" "m" "a"
    let b := { a with severity := .warning }
    ToldApart [a, b] ∧
      (DiagnosticAt.sortForDisplay [a, b]).map DiagnosticAt.render ≠
        (DiagnosticAt.sortForDisplay [b, a]).map DiagnosticAt.render := by
  intro a b
  refine ⟨toldApart_of_same (d := a) (by simp [b]), fun same => ?_⟩
  have unordered : a.Unordered b := ⟨rfl, .inl ⟨rfl, rfl⟩⟩
  have read : a.render = b.render := eq_of_exchange unordered.compareForDisplay same
  exact absurd read (by decide)

end Diagnostic

end FlatSchema
