import FlatSchema.Check
import FlatSchema.Proofs.Grammar
import FlatSchema.Proofs.Symbols
import Mathlib.Data.List.Forall2

/-!
# Checks that are repeated

One declaration can be written in many ways that come to the same catalog.  A
check of one of them `Repeats` the check of another if it finds nothing where
the other finds no error, and both give the same.  Here are the rules for such
pairs of checks and the parts that all checks share: names, attributes and
types.  Where something stands in its file never matters.
-/

namespace FlatSchema

/-! ## Pairs of reports -/

namespace Report

variable {α β γ δ : Type}

/-- If the first report has no error, the second is silent, and their values are related. -/
def Repeats (rel : α → β → Prop) (fst : Report α) (snd : Report β) : Prop :=
  fst.Clean → snd.diagnostics = [] ∧ rel fst.value snd.value

variable {snd : Report β}

namespace Repeats

variable {rel : α → β → Prop} {following : γ → δ → Prop}

theorem pure (related : rel left right) : Repeats rel (Pure.pure left) (Pure.pure right) :=
  fun _ => ⟨rfl, related⟩

/-- An error in the first report settles the matter. -/
theorem ofProblem {problem : Problem} : Repeats rel (problem.report span >>= next) snd := by
  simp_all [Problem.report, Repeats]

theorem bind (start : Repeats rel fst snd) (step :
      fst.Clean → rel fst.value snd.value →
        Repeats following (next fst.value) (nextAgain snd.value)) :
    Repeats following (fst >>= next) (snd >>= nextAgain) := by
  simp_all [Repeats, Clean]

/-- Two reports of which the first fails at least where the second does. -/
theorem refused [Decidable condition] [Decidable conditionAgain]
    (never : ¬ failing.Clean) (same : conditionAgain → condition)
    (otherwise : ¬ condition → Repeats rel fst snd) :
    Repeats rel (if condition then failing else fst)
      (if conditionAgain then failingAgain else snd) := by
  grind [Repeats, Clean]

theorem forEach {step : α → Report γ} {step' : β → Report δ}
    (all :
      List.Forall₂ (fun left right => Repeats following (step left) (step' right)) lefts rights) :
    Repeats (List.Forall₂ following) (Report.forEach step lefts) (Report.forEach step' rights) := by
  induction all with
  | nil => exact pure .nil
  | cons hd _ ih =>
    refine bind hd fun _ head => bind ih fun _ tail => ?_
    exact pure (.cons head tail)

theorem through {step : γ → α → Report γ} {step' : δ → β → Report δ}
    (all : List.Forall₂ rel lefts rights)
    (each :
      ∀ left right, rel left right →
        ∀ s again, states s again →
          Repeats states (step s left) (step' again right)) (start : states s again) :
    Repeats states (Report.through step s lefts) (Report.through step' again rights) := by
  induction all generalizing s again with
  | nil => exact pure start
  | cons hd _ ih =>
    exact bind (each _ _ hd _ _ start) fun _ next => ih next

/-- Silence is all that two lists of findings have to agree in. -/
theorem found {fst snd : List Diagnostic} (silent : DiagnosticAt.hasErrors fst = false → snd = []) :
    Repeats (· = ·) (Report.found fst) (Report.found snd) :=
  fun clean => ⟨silent clean, rfl⟩

end Repeats

end Report

open Report

/-! ## Names -/

namespace Check.Context

/-- Two contexts in which names mean the same. -/
structure Agrees (ctx again : Context) : Prop where
  declared_eq : again.declared = ctx.declared
  find?_eq : ∀ name, again.symbols.find? name = ctx.symbols.find? name
  kind?_eq : ∀ id, again.symbols.kind? id = ctx.symbols.kind? id
  fullName_eq : ∀ id, again.symbols.fullName id = ctx.symbols.fullName id

namespace Agrees

variable {ctx again : Context} (agrees : ctx.Agrees again)
include agrees

theorem resolve_eq (name : String) (ns : List String) :
    again.symbols.resolve name ns = ctx.symbols.resolve name ns := by
  suffices general :
      ∀ (scopes : List (List String)) (tried : List String),
        again.symbols.resolveIn name tried scopes = ctx.symbols.resolveIn name tried scopes from
    general _ _
  intro scopes
  induction scopes with
  | nil =>
    grind [SymbolTable.resolveIn, find?_eq]
  | cons hd rest ih =>
    intro tried
    simp only [SymbolTable.resolveIn, SymbolTable.settle, agrees.find?_eq, ih]

theorem isNamed_eq (kind : DeclKind) (ty : FieldType) :
    again.isNamed kind ty = ctx.isNamed kind ty := by
  cases ty with
  | named id => simp only [isNamed, agrees.kind?_eq]
  | scalar | string | vector => rfl

/-- A name that is found leads to the same declaration again. -/
theorem resolved (name : String) (ns : List String) (span span' : Span) :
    Repeats (· = ·) (ctx.symbols.resolved name ns span) (again.symbols.resolved name ns span') := by
  intro clean
  rcases SymbolTable.resolve_of_clean clean with ⟨id, resolution, v⟩
  rw [v, SymbolTable.resolved, agrees.resolve_eq, resolution]
  exact ⟨rfl, rfl⟩

/-- The declaration of a name is missing in both. -/
theorem symbol?_eq_none (absent : ctx.symbols.symbol? name = none) :
    again.symbols.symbol? name = none := by
  have same := agrees.find?_eq name
  simp_all [SymbolTable.find?]

end Agrees

end Check.Context

/-! ## Attributes -/

namespace Attribute

variable {raw again : List Attribute}

/-- Two lists of attributes that a catalog keeps alike. -/
def Restates (raw again : List Attribute) : Prop :=
  again.map toCatalog = raw.map toCatalog

theorem map_name_toCatalog (attrs : List Attribute) :
    (attrs.map toCatalog).map Catalog.Attribute.name = attrs.map Attribute.name := by
  rw [List.map_map]
  rfl

theorem find?_toCatalog (attrs : List Attribute) (name : String) :
    (find? attrs name).map toCatalog =
      (attrs.map toCatalog).find? fun cand => cand.name == name := by
  rw [List.find?_map]
  rfl

variable (restates : Restates raw again)
include restates

/-- Attributes of a name that are the first in both lists are kept alike. -/
theorem Restates.find?_eq (name : String) :
    (find? again name).map toCatalog = (find? raw name).map toCatalog := by
  rw [find?_toCatalog, find?_toCatalog, restates]

theorem Restates.has_eq (name : String) : has again name = has raw name := by
  have same := congrArg Option.isSome (restates.find?_eq name)
  rw [Option.isSome_map, Option.isSome_map] at same
  exact same

theorem Restates.find?_eq_none {name : String}
    (absent : find? raw name = none) : find? again name = none := by
  grind [find?_eq, Option.map_none, Option.map_eq_none_iff]

/-- An attribute with the same value, as a catalog keeps it. -/
theorem Restates.find?_eq_some {name : String} (hit : find? raw name = some own) :
    ∃ other,
      find? again name = some other ∧
        (other.value.map fun lit => lit.value.toAttributeValue) =
          own.value.map fun lit => lit.value.toAttributeValue := by
  have same := restates.find?_eq name
  rw [hit] at same
  rcases Option.map_eq_some_iff.mp same with ⟨other, stands, alike⟩
  exact ⟨other, stands, congrArg Catalog.Attribute.value alike⟩

end Attribute

namespace Check.Context.Agrees

variable {ctx again : Context} (agrees : ctx.Agrees again)
include agrees

theorem attributes (restates : Attribute.Restates raw restated) :
    Repeats (· = ·) (ctx.attributes raw) (again.attributes restated) := by
  refine .found ?_
  intro clean
  have known : ∀ own ∈ raw, ctx.knows own.name = true := by
    intro own mem
    by_contra unknown
    have reported :
        (Problem.unknownAttribute own.name).diagnostic own.span ∈
          (raw.filter fun e => !ctx.knows e.name).map fun e =>
            (Problem.unknownAttribute e.name).diagnostic e.span := by
      grind
    have silent := List.any_eq_false.mp clean _ reported
    exact silent (Problem.isError_diagnostic _ _)
  have names := congrArg (List.map Catalog.Attribute.name) restates
  rw [Attribute.map_name_toCatalog, Attribute.map_name_toCatalog] at names
  rw [List.map_eq_nil_iff, List.filter_eq_nil_iff]
  intro own mem
  have listed : own.name ∈ raw.map Attribute.name := by
    grind
  rcases List.mem_map.mp listed with ⟨other, fits, same⟩
  have isKnown := known other fits
  rw [same] at isKnown
  unfold knows at isKnown ⊢
  rw [agrees.declared_eq, isKnown]
  decide

/-! ## Types -/

theorem vectorOf (span span' : Span) (elem : FieldType) :
    Repeats (· = ·) (ctx.vectorOf span elem) (again.vectorOf span' elem) := by
  unfold Context.vectorOf
  simp only [agrees.isNamed_eq]
  refine .refused (by simp) id fun _ => ?_
  exact .refused (by simp) id fun _ => .pure rfl

theorem fieldType (ns : List String) (same : restated.unplaced = raw.unplaced) :
    Repeats (· = ·) (ctx.fieldType ns raw) (again.fieldType ns restated) := by
  induction raw generalizing restated with
  | scalar kind span =>
    cases restated <;> cases same
    exact .pure rfl
  | string span =>
    cases restated <;> cases same
    exact .pure rfl
  | named name span =>
    cases restated <;> cases same
    refine .bind (agrees.resolved name ns _ _) fun _ hit => ?_
    rw [hit]
    exact .pure rfl
  | vector elem span ih =>
    cases restated with
    | scalar | string | named => cases same
    | vector other span' =>
      have inner : other.unplaced = elem.unplaced := by injection same
      have following :
          ∀ resolved resolvedAgain, resolved = resolvedAgain →
            Repeats (· = ·)
              (match resolved with
                | some ty => ctx.vectorOf span ty
                | none => return none)
              (match resolvedAgain with
                | some ty => again.vectorOf span' ty
                | none => return none) := by
        grind [Repeats.pure, vectorOf, resolved]
      cases elem with
      | vector => exact .ofProblem
      | scalar | string | named =>
        cases other <;> cases inner
        exact .bind (ih rfl) fun _ hit => following _ _ hit

end Check.Context.Agrees

end FlatSchema
