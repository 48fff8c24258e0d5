import FlatSchema.Record.Value

/-!
# Looking types up

What a catalog answers for the number of an entry and for a type, in both
directions: an entry that stands is found, and what is found stands.
-/

namespace FlatSchema.Catalog

variable {t : TableType}

variable {c : Catalog} {id : Nat} {e : Entry} {ty : FieldType}

/-! ## What stands is found -/

section

variable (stands : c.entry? id = some e)
include stands

theorem entryOf_of_entry? : c.entryOf id = .ok e := by
  rw [entryOf, stands]

theorem scalarOf_named :
    c.scalarOf (.named id) =
      .ok (match e.body with
        | .enum enum => some enum.underlying
        | _ => none) := by
  rw [scalarOf, entryOf_of_entry? stands]
  simp only [bind, Except.bind]
  cases e.body <;> rfl

theorem structOf_named :
    c.structOf (.named id) =
      .ok (match e.body with
        | .struct struct => some (e, struct)
        | _ => none) := by
  rw [structOf, entryOf_of_entry? stands]
  simp only [bind, Except.bind]
  cases e.body <;> rfl

theorem tableOf_of_entry? (body : e.body = .table t) : c.tableOf id = .ok (e, t) := by
  simp only [tableOf, entryOf_of_entry? stands, Entry.tableOf, bind, Except.bind, body]
  rfl

end

/-- What an entry declares is found by its number. -/
theorem entryOf_of_body (hit : c.body? id = some body) :
    ∃ e, c.entryOf id = .ok e ∧ e.body = body := by
  grind [body?, entryOf, Option.map_eq_some_iff]

theorem tableOf_of_body (hit : c.body? id = some (.table t)) : ∃ e, c.tableOf id = .ok (e, t) := by
  rw [body?, Option.map_eq_some_iff] at hit
  rcases hit with ⟨e, known, own⟩
  exact ⟨e, tableOf_of_entry? known own⟩

theorem tableAt_of_body [Extent ι] {num : ι}
    (number_eq : (Extent.integer? num).bind Int.toNat? = some id)
    (hit : c.body? id = some (.table t)) : ∃ e, c.tableAt num = .ok (e, t) := by
  rcases tableOf_of_body hit with ⟨e, known⟩
  refine ⟨e, ?_⟩
  rw [tableAt, entryAt, number_eq]
  exact known

theorem scalarOf_of_scalar? (stored : c.scalar? ty = some kind) :
    c.scalarOf ty = .ok (some kind) := by
  unfold scalar? at stored
  split at stored
  · cases stored
    rfl
  · grind [body?, scalarOf_named, Option.map_eq_some_iff]
  · cases stored

/-! ## What is found stands -/

theorem entryOf_eq_ok (hit : c.entryOf id = .ok e) : c.body? id = some e.body := by
  grind [body?, entryOf]

theorem structOf_eq_some (hit : c.structOf ty = .ok (some (e, struct))) :
    ∃ id, ty = .named id ∧ c.body? id = some (.struct struct) := by
  unfold structOf at hit
  split at hit
  · next id =>
      cases known : c.entryOf id with
      | error err =>
        rw [known] at hit
        cases hit
      | ok own =>
        rw [known] at hit
        have body := entryOf_eq_ok known
        simp only [bind, Except.bind] at hit
        split at hit
        · next inner equal =>
            cases hit
            exact ⟨id, rfl, by rw [body, equal]⟩
        · cases hit
  · cases hit

theorem scalarOf_eq_ok (hit : c.scalarOf ty = .ok res) : c.scalar? ty = res := by
  unfold scalarOf at hit
  split at hit
  · cases hit
    rfl
  · next id =>
      cases known : c.entryOf id with
      | error err =>
        rw [known] at hit
        cases hit
      | ok own =>
        rw [known] at hit
        have body := entryOf_eq_ok known
        simp only [bind, Except.bind] at hit
        rw [scalar?, body]
        split at hit
        · next enum equal =>
            cases hit
            rw [equal]
        · next other =>
            cases hit
            grind
  · next notScalar notNamed =>
      cases hit
      grind [scalar?]

theorem tableOf_eq_ok (hit : c.tableOf id = .ok (e, t)) : c.body? id = some (.table t) := by
  unfold tableOf at hit
  cases known : c.entryOf id with
  | error err =>
    rw [known] at hit
    cases hit
  | ok own =>
    rw [known] at hit
    simp only [bind, Except.bind, Entry.tableOf] at hit
    cases body : own.body with
    | table inner =>
      rw [body] at hit
      cases hit
      rw [entryOf_eq_ok known, body]
    | _ =>
      rw [body] at hit
      cases hit

theorem tableAt_eq_ok [Extent ι] {id : ι} (hit : c.tableAt id = .ok (e, t)) :
    ∃ num, (Extent.integer? id).bind Int.toNat? = some num ∧ c.body? num = some (.table t) := by
  unfold tableAt entryAt at hit
  cases known : (Extent.integer? id).bind Int.toNat? with
  | none =>
    rw [known] at hit
    cases hit
  | some num =>
    rw [known] at hit
    exact ⟨num, rfl, tableOf_eq_ok hit⟩

end FlatSchema.Catalog
