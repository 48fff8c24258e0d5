import FlatSchema.Emit.Canonical
import FlatSchema.Proofs.Drafts
import FlatSchema.Proofs.Outcome

/-!
# Generators never fail

A generator fails only for a number without an entry or for a field whose type
it cannot write.  Over a closed catalog neither occurs, so every module of
accessors and the canonical schema are written to their end, whatever the
options are.
-/

namespace FlatSchema

open Catalog (Body)

/-! ## Modules -/

namespace Emit

/-- An outcome that is a value. -/
abbrev Emits {α : Type} (out : Except EmitError α) : Prop :=
  FailsOnly (fun _ => False) out

variable {c : Catalog} {ctx : ModuleContext} (own : ctx.catalog = c)
include own

theorem emits_text {part : Part} (sound : part.Sound c) : Emits (part.text ctx) := by
  cases part with
  | entry pre id post =>
    rcases sound with ⟨e, stands⟩
    simp only [Part.text, own, stands]
    split <;> exact .pure _
  | _ => exact .pure _

theorem emits_write {element : Element} (sound : element.Sound c) (writer : Writer) :
    Emits (element.write ctx writer) := by
  cases element with
  | line code =>
    exact .bind (.mapM fun part mem => emits_text own (sound part mem)) fun _ _ => .pure _
  | missing err => exact sound.elim
  | _ => exact .pure _

theorem emits_moduleText (sound : SoundDraft c draft) : Emits (moduleText ctx draft) := by
  have written (writer : Writer) : Emits (draft.foldlM (Element.write ctx) writer) := by
    induction draft generalizing writer with
    | nil => exact .pure _
    | cons element rest ih =>
      rw [soundDraft_cons] at sound
      rw [List.foldlM_cons]
      exact .bind (emits_write own sound.1 writer) fun next _ => ih sound.2 next
  exact .bind (written _) fun _ _ => .pure _

end Emit

/-! ## Canonical schemas -/

namespace Canonical

open Emit (Emits)

variable {c : Catalog}

theorem emits_nameIn (ns : String) {id : Nat} (stands : c.entry? id = some e) :
    Emits (nameIn c ns id) := by
  have hit : entryOf c id = .ok e := by rw [entryOf, stands]
  exact .known hit (.pure _)

theorem emits_typeExpr (ns : String) (span : Span) (isKnown : c.Known ty) :
    Emits (typeExpr c ns span ty) := by
  induction ty with
  | scalar kind => exact .pure _
  | string => exact .pure _
  | vector elem ih => exact .bind (ih isKnown) fun _ _ => .pure _
  | named id =>
    rcases isKnown with ⟨e, stands⟩
    exact .bind (emits_nameIn ns stands) fun _ _ => .pure _

theorem emits_bodyOf (ns : String) (span : Span) {body : Body} (closed : c.ClosedBody body) :
    Emits (bodyOf c ns span body) := by
  have message : ∀ id, c.kind? id = some .table → Emits (nameIn c ns id) := by
    grind [Catalog.entry?_of_kind?, emits_nameIn]
  cases closed with
  | enum ty => exact .pure _
  | union isTable =>
    refine .bind (.mapM fun alt mem => ?_) fun _ _ => .pure _
    exact .bind (message _ (isTable alt mem)) fun _ _ => .pure _
  | struct isInline =>
    refine .bind (.mapM fun f mem => ?_) fun _ _ => .pure _
    have isKnown := (isInline f mem).known
    exact .bind (emits_typeExpr ns span isKnown) fun _ _ => .pure _
  | table isMember _ =>
    refine .bind (.mapM fun f mem => ?_) fun _ _ => .pure _
    have isKnown := (isMember f mem).known
    exact .bind (emits_typeExpr ns span isKnown) fun _ _ => .pure _
  | service isTable =>
    refine .bind (.mapM fun method mem => ?_) fun _ _ => .pure _
    refine .bind (message _ (isTable method mem).1) fun _ _ => ?_
    exact .bind (message _ (isTable method mem).2) fun _ _ => .pure _

variable (closed : c.Closed)
include closed

theorem emits_declOf (ns : String) {id : Nat} (fits : id < c.entries.length) :
    Emits (declOf c ns id) := by
  have stands : c.entry? id = some c.entries[id] := List.getElem?_eq_getElem fits
  have hit : entryOf c id = .ok c.entries[id] := by rw [entryOf, stands]
  refine .known hit (.bind (emits_bodyOf ns _ ?_) fun _ _ => .pure _)
  exact closed.bodies _ (List.getElem_mem fits)

theorem emits_scopeItems (place : Span) (current : String)
    (fits : ∀ group ∈ modules, ∀ id ∈ group.ids, id < c.entries.length) :
    Emits (scopeItems c place current modules) := by
  induction modules generalizing current with
  | nil => exact .pure _
  | cons group rest ih =>
    have others := fun later mem => fits later (List.mem_cons_of_mem _ mem)
    rw [scopeItems]
    split
    · exact ih current others
    · refine .bind (.mapM fun id mem => ?_) fun _ _ => .bind (ih group.scope others)
        fun _ _ => .pure _
      exact emits_declOf closed group.scope (fits group List.mem_cons_self id mem)

theorem emits_items (place : Span) : Emits (items c place) := by
  refine .bind (emits_scopeItems closed place "" closed.listed) fun _ _ => ?_
  refine .bind (.mapM fun id mem => ?_) fun _ _ => .pure _
  rcases Catalog.entry?_of_kind? (closed.rootIsTable id (Option.mem_toList.mp mem)) with
    ⟨e, stands, _⟩
  exact .bind (emits_nameIn _ stands) fun _ _ => .pure _

end Canonical

namespace Catalog

theorem Closed.emitModules {c : Catalog} (closed : c.Closed) (options : EmitOptions) :
    ∃ artifacts, c.emitModules options = .ok artifacts := by
  refine Alike.exists_ok (.mapM fun group mem => ?_)
  exact .bind (Emit.emits_moduleText rfl (Emit.sound_moduleDraft closed mem)) fun _ _ => .pure _

/-- So is its canonical schema. -/
theorem Closed.emitCanonical {c : Catalog} (closed : c.Closed) (options : EmitOptions) :
    ∃ artifacts, c.emitCanonical options = .ok artifacts :=
  Alike.exists_ok (.bind (Canonical.emits_items closed _) fun _ _ => .pure _)

end Catalog

end FlatSchema
