import FlatSchema.Proofs.CanonicalNames
import FlatSchema.Proofs.SurvivingDefaults

/-!
# Legal values and defaults

The values of an accepted enumeration have distinct names and ascend within the
range of the underlying kind; a value that is written without a number follows
the one before it.  The default of an accepted field is what its type asks for:
for an enumeration without bit flags one of the declared values, and nothing
exactly where the type is not stored as a scalar.
-/

namespace FlatSchema

open Check

namespace Check

variable {base : ScalarKind} {bitFlags : Bool} {s : EnumState} {vs : List EnumValue}

/-- The numbers of written values; one without a number follows the one before it, from zero. -/
def enumNumbers : Option Int → List EnumValue → List Int
  | _, [] => []
  | previous, v :: rest =>
    let num := v.value.getD (previous.elim 0 (· + 1))
    num :: enumNumbers (some num) rest

/-- Values that a state takes, one after the other. -/
structure EnumState.Numbers (s : EnumState) (base : ScalarKind) (bitFlags : Bool)
    (vs : List EnumValue) (nums : List Int) : Prop where
  fresh : ∀ v ∈ vs, v.name ∉ s.names
  distinct : (vs.map EnumValue.name).Nodup
  above : ∀ previous, s.previous = some previous → ∀ num ∈ nums, previous < num
  ascends : nums.Pairwise (· < ·)
  inside : bitFlags = true → ∀ num ∈ nums, 0 ≤ num ∧ num < (8 * base.size : Nat)
  holds : ∀ num ∈ nums, base.holds (flagged bitFlags num) = true

theorem EnumState.Numbers.cons (admits : s.Admits base bitFlags hd.name num)
    (rest : (s.extend bitFlags hd num).Numbers base bitFlags vs nums) :
    s.Numbers base bitFlags (hd :: vs) (num :: nums) where
  fresh := by
    intro v mem
    rcases List.mem_cons.mp mem with rfl | mem
    · simpa using admits.fresh
    · exact fun known => rest.fresh v mem (List.mem_append_left _ known)
  distinct := by
    refine List.nodup_cons.mpr ⟨?_, rest.distinct⟩
    intro again
    rcases List.mem_map.mp again with ⟨v, mem, same⟩
    exact rest.fresh v mem (List.mem_append_right _ (by simp [same]))
  above previous known := by
    have least := admits.ascends previous known
    exact List.forall_mem_cons.mpr
      ⟨least, fun later mem => Int.lt_trans least (rest.above num rfl later mem)⟩
  ascends := List.pairwise_cons.mpr ⟨rest.above num rfl, rest.ascends⟩
  inside flags := List.forall_mem_cons.mpr ⟨admits.inside flags, rest.inside flags⟩
  holds := List.forall_mem_cons.mpr ⟨admits.holds, rest.holds⟩

theorem EnumState.number_eq (v : EnumValue) :
    s.number v = v.value.getD (s.previous.elim 0 (· + 1)) := by
  grind [number]

/-- What a clean run over written values takes, and what it adds to the values. -/
theorem numbers_of_clean (clean : (Report.through (enumValue enum base bitFlags) s vs).Clean) :
    s.Numbers base bitFlags vs (enumNumbers s.previous vs) ∧
      ∃ kept,
        (Report.through (enumValue enum base bitFlags) s vs).value.values = s.values ++ kept ∧
          kept.map Catalog.EnumValue.name = vs.map EnumValue.name ∧
          kept.map Catalog.EnumValue.value =
            (enumNumbers s.previous vs).map (flagged bitFlags) := by
  induction vs generalizing s with
  | nil =>
    refine ⟨⟨?_, ?_, ?_, ?_, ?_, ?_⟩, [], (List.append_nil _).symm, rfl, rfl⟩ <;> simp [enumNumbers]
  | cons hd rest ih =>
    rw [Report.through_cons, Report.clean_bind] at clean
    have admits := admits_of_clean clean.1
    have stepped : enumValue enum base bitFlags s hd = _ := enumValue_of_admits admits
    rw [stepped] at clean
    rcases ih clean.2 with ⟨numbers, kept, values_eq, names_eq, numbers_eq⟩
    have nums_eq :
        enumNumbers s.previous (hd :: rest) =
          s.number hd :: enumNumbers (some (s.number hd)) rest := by
      rw [enumNumbers, ← EnumState.number_eq]
    rw [nums_eq, Report.through_cons, Report.value_bind, stepped]
    refine ⟨.cons admits numbers, ⟨hd.name, flagged bitFlags (s.number hd), hd.doc⟩ :: kept, ?_,
      congrArg (hd.name :: ·) names_eq, congrArg (flagged bitFlags (s.number hd) :: ·) numbers_eq⟩
    rw [values_eq, EnumState.extend, List.append_assoc, List.singleton_append]

/-- Greater positions stand for greater values. -/
theorem flagged_lt (less : left < right) (pos : bitFlags = true → 0 ≤ left) :
    flagged bitFlags left < flagged bitFlags right := by
  cases bitFlags with
  | false => exact less
  | true =>
    have start := pos rfl
    exact Int.ofNat_lt.mpr (Nat.pow_lt_pow_right (by decide) (by omega))

end Check

namespace Catalog

/-- An enumeration with legal values, as far as these are written. -/
structure EnumType.Legal (ty : EnumType) (raw : List FlatSchema.EnumValue) : Prop where
  nonempty : ty.values ≠ []
  names_eq : ty.values.map EnumValue.name = raw.map FlatSchema.EnumValue.name
  distinct : (ty.values.map EnumValue.name).Nodup
  values_eq :
    ty.values.map EnumValue.value = (enumNumbers none raw).map (flagged ty.bitFlags)
  positions :
    ty.bitFlags = true →
      ∀ num ∈ enumNumbers none raw, 0 ≤ num ∧ num < (8 * ty.underlying.size : Nat)
  ascends : (ty.values.map EnumValue.value).Pairwise (· < ·)
  inside : ∀ v ∈ ty.values, ty.underlying.least ≤ v.value ∧ v.value ≤ ty.underlying.greatest

theorem EnumType.legal_of_clean (clean : (enumType ctx sym base raw).Clean)
    (ok : (enumType ctx sym base raw).value = some ty) : ty.Legal raw := by
  rcases enumType_parts clean ok with ⟨_, _, full, runClean, run_eq⟩
  rcases numbers_of_clean runClean with ⟨numbers, kept, kept_eq, names_eq, values_eq⟩
  have all : kept = ty.values := by
    rw [← run_eq, kept_eq]
    rfl
  rw [all] at names_eq values_eq
  refine ⟨?_, names_eq, names_eq ▸ numbers.distinct, values_eq, numbers.inside, ?_, ?_⟩
  · intro none
    simp_all
  · rw [values_eq, List.pairwise_map]
    refine numbers.ascends.imp_of_mem ?_
    intro left right mem _ less
    exact flagged_lt less fun flags => (numbers.inside flags left mem).1
  · intro v mem
    have holds := holds_of_accepted clean ok v mem
    simpa [ScalarKind.holds] using holds

/-- A default that a field may have; `Suits` fixes its sort and its range. -/
def LegalDefault (c : Catalog) (ty : FieldType) (fallback : DefaultValue) : Prop :=
  match c.scalar? ty with
  | none => fallback = .absent
  | some kind =>
    fallback.Suits kind ∧
      ∀ id enum, ty = .named id → c.body? id = some (.enum enum) → enum.bitFlags = false →
        ∃ v ∈ enum.values, fallback = .int v.value

theorem eq_absent_of_ok (hit : absentDefault lit = .ok fallback) : fallback = .absent := by
  grind [absentDefault]

section

variable {ctx : Context} {c : Catalog} (keeps : Keeps ctx c)

include keeps

/-- Only a type that is stored as a scalar has a default. -/
theorem Keeps.eq_absent (plain : c.scalar? ty = none)
    (hit : defaultOf? ctx (enumTypes ctx).value ty lit = some (.ok fallback)) :
    fallback = .absent := by
  cases ty with
  | scalar kind => cases plain
  | string | vector _ => exact eq_absent_of_ok (Option.some.inj hit)
  | named id =>
    cases known : (enumTypes ctx).value.lookup id with
    | some enum => simp [scalar?, keeps.body_of_enum known] at plain
    | none =>
      simp only [defaultOf?, known] at hit
      split at hit
      · cases hit
      · exact eq_absent_of_ok (Option.some.inj hit)

/-- Without bit flags the default of an enumeration is one of its values. -/
theorem Keeps.default_mem {id : Nat} (sound : SoundEnums (enumTypes ctx).value)
    (body : c.body? id = some (.enum enum)) (plain : enum.bitFlags = false)
    (hit : defaultOf? ctx (enumTypes ctx).value (.named id) lit = some (.ok fallback)) :
    ∃ v ∈ enum.values, fallback = .int v.value := by
  have known := keeps.lookup_of_enum body
  simp only [defaultOf?, known] at hit
  rcases enumDefault_isNumber (sound id enum known) (Option.some.inj hit) with
    ⟨num, rfl, declared, _⟩
  rw [isEnumNumber, plain, Bool.false_or, List.any_eq_true] at declared
  grind

end

/-- The enumerations and the defaults of an accepted catalog are legal.

The values of an enumeration are numbered as they are written, with positions for powers of two if
it has bit flags; a field has the default that its type asks for. -/
theorem enums_defaults_legal {schemas : List Schema} {entry : Option Text}
    {earlier : List Diagnostic} {catalog : Catalog}
    (accepted :
      (ofSymbols schemas (SymbolTable.ofSchemas schemas).value entry earlier).value =
        .accepted catalog) :
    (∀ id enum, catalog.body? id = some (.enum enum) →
      ∃ symbol base written,
        (SymbolTable.ofSchemas schemas).value.entries[id]? = some symbol ∧
          symbol.decl.body = .enum base written ∧
          enum.bitFlags = Attribute.has symbol.decl.attributes "bit_flags" ∧
          integralType? base = some enum.underlying ∧ enum.Legal written) ∧
      ∀ id table, catalog.body? id = some (.table table) →
        ∀ field ∈ table.fields, catalog.LegalDefault field.type field.default := by
  have keeps := keeps_of_accepted accepted
  have clean := (all_of_clean (eq_of_accepted accepted).1).2.1
  have sound := soundEnums_of_clean keeps.regular clean
  constructor
  · intro id enum body
    rcases enumType_of_lookup keeps.regular clean (keeps.lookup_of_enum body) with
      ⟨symbol, base, written, stands, declared, own, given⟩
    rcases enumType_parts own given with ⟨integral, flags, _⟩
    exact ⟨symbol, base, written, stands, declared, flags, integral,
      EnumType.legal_of_clean own given⟩
  · intro id table body field member
    have suits := suitsDefaults_of_accepted accepted id table body field member
    rcases keeps.symbol_of_body body with ⟨symbol, _, kept⟩
    generalize symbol.decl.body = written at kept
    cases kept with
    | table kept =>
      rcases exists_mem_of_forall₂ kept.kept member with ⟨own, _, keepsField⟩
      have found := keepsField.default_eq
      unfold LegalDefault
      split
      · next plain => exact keeps.eq_absent plain found
      · next kind stored =>
          refine ⟨suits kind stored, ?_⟩
          intro inner enum type_eq enumBody plain
          rw [type_eq] at found
          exact keeps.default_mem sound enumBody plain found

/-- An enumeration of each flavour and a table with defaults of both. -/
def valuedSource : Source :=
  ⟨"values.fbs", "enum E:byte\x7bA=-1,B,C=5\x7denum F:ubyte(bit_flags)\x7bX,Y=7\x7d" ++
    "table T\x7be:E=C;f:F;b:bool;s:string;\x7d"⟩

def valuedBodies? (cat : Catalog) : Option (EnumType × EnumType × TableType) :=
  match cat.body? 0, cat.body? 1, cat.body? 2 with
  | some (.enum plain), some (.enum flags), some (.table t) => some (plain, flags, t)
  | _, _, _ => none

/-- The values of both enumerations and the defaults of the table. -/
theorem enums_defaults_legal_valued :
    ∃ schema catalog plain flags table,
      valuedSource.accepted? = some (schema, catalog) ∧
        catalog.body? 0 = some (.enum plain) ∧ catalog.body? 1 = some (.enum flags) ∧
        catalog.body? 2 = some (.table table) ∧ plain.values.map EnumValue.value = [-1, 0, 5] ∧
        flags.values.map EnumValue.value = [1, 128] ∧
        table.fields.map TableField.default = [.int 5, .int 0, .bool false, .absent] ∧
        (plain.values.map EnumValue.name).Nodup ∧
        (flags.values.map EnumValue.value).Pairwise (· < ·) ∧
        ∀ field ∈ table.fields, catalog.LegalDefault field.type field.default := by
  have evaluated :
      (valuedSource.accepted?.bind fun pair =>
        (valuedBodies? pair.2).map fun bodies =>
          (bodies.1.values.map EnumValue.value, bodies.2.1.values.map EnumValue.value,
            bodies.2.2.fields.map TableField.default)) =
        some ([-1, 0, 5], [1, 128], [.int 5, .int 0, .bool false, .absent]) := by
    decide +kernel
  rcases Option.bind_eq_some_iff.mp evaluated with ⟨⟨schema, catalog⟩, found, values⟩
  rcases Option.map_eq_some_iff.mp values with ⟨⟨plain, flags, table⟩, bodies, values⟩
  simp only [Prod.mk.injEq] at values
  unfold valuedBodies? at bodies
  split at bodies
  · next first second third =>
      cases bodies
      rcases Source.of_accepted? found with ⟨_, accepted⟩
      rcases enums_defaults_legal accepted with ⟨enums, defaults⟩
      rcases enums 0 plain first with ⟨_, _, _, _, _, _, _, legal⟩
      rcases enums 1 flags second with ⟨_, _, _, _, _, _, _, flagsLegal⟩
      exact ⟨schema, catalog, plain, flags, table, found, first, second, third, values.1,
        values.2.1, values.2.2, legal.distinct, flagsLegal.ascends, defaults 2 table third⟩
  · cases bodies

end Catalog

end FlatSchema
