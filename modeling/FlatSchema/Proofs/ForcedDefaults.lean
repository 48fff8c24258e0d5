import FlatSchema.Proofs.OmittedDefaults
import FlatSchema.Proofs.SurvivingDefaults

/-!
# Defaults that are stored

Whether defaults are stored or left out, a record that can be written reads
back as the same values, up to the sign of zeros, exactly if every default that
is left out survives storage.  Only defaults of single precision may not.
-/

namespace FlatSchema

open Buffer Builder Double Encode ScalarValue
open Decode (root)
open SymbolTable (ofSchemas)

/-! ## Scalars that are the same -/

theorem Double.isNaN_of_isZero {num : Double} (isZero : num.isZero = true) : num.isNaN = false := by
  grind [isZero, isNaN]

namespace ScalarValue

variable {fst snd third : ScalarValue}

/-- Scalars are the same if they are equal, both zero, or both no number. -/
theorem same_iff :
    fst.same snd = true ↔
      fst = snd ∨
        ∃ left right,
          fst = .number left ∧ snd = .number right ∧
            (left.isZero = true ∧ right.isZero = true ∨
              left.isNaN = true ∧ right.isNaN = true) := by
  constructor
  · intro equal
    cases fst <;> cases snd <;>
      simp only [same, sameValue, Bool.or_eq_true, Bool.and_eq_true, decide_eq_true_eq,
        Bool.false_eq_true] at equal
    · grind
    · exact .inl (congrArg wide equal)
    · exact .inl (congrArg flag equal)
  · rintro (rfl | ⟨left, right, rfl, rfl, zeros | both⟩)
    · exact same_self fst
    · simp only [same, sameValue, isNaN_of_isZero zeros.1,
        isNaN_of_isZero zeros.2, zeros.1, zeros.2, Bool.not_false, Bool.and_self,
        Bool.or_true, Bool.true_or]
    · simp [same, both.1, both.2]

theorem same_symm (equal : fst.same snd = true) : snd.same fst = true := by
  grind [same_iff]

theorem same_trans (equal : fst.same snd = true) (further : snd.same third = true) :
    fst.same third = true := by
  rw [same_iff] at equal further ⊢
  rcases equal with rfl | ⟨left, mid, rfl, rfl, alike⟩
  · exact further
  · rcases further with rfl | ⟨_, right, ⟨⟩, rfl, alikeToo⟩
    · exact .inr ⟨left, mid, rfl, rfl, alike⟩
    · grind [isZero, isNaN]

/-- Scalars that are the same are stored as the same. -/
theorem convert_same (kind : ScalarKind) (equal : fst.same snd = true) :
    (kind.convert fst).same (kind.convert snd) = true := by
  rcases same_iff.mp equal with rfl | ⟨left, right, rfl, rfl, zeros | both⟩
  · exact same_self _
  · have signed :
        ∀ negative other : Bool,
          (kind.convert (.number (.ofMagnitude negative 0))).same
            (kind.convert (.number (.ofMagnitude other 0))) = true := by
      cases kind <;> decide +kernel
    have leftZero : left.magnitude = 0 := by simpa [isZero] using zeros.1
    have rightZero : right.magnitude = 0 := by simpa [isZero] using zeros.2
    rw [← left.ofMagnitude_self, ← right.ofMagnitude_self, leftZero, rightZero]
    exact signed _ _
  · have stored : kind.convert (.number left) = kind.convert (.number right) := by
      cases kind <;>
        simp only [ScalarKind.convert, toNumber, toInteger?, toSingleBits, both.1, both.2,
          truncate?_of_isNaN both.1, truncate?_of_isNaN both.2, Bool.or_true, if_true]
    rw [stored]
    exact same_self _

end ScalarValue

/-! ## Values that agree -/

namespace Value

/-- Values that are equal up to scalars that are the same. -/
inductive Agrees : Value → Value → Prop where
  | null : Agrees .null .null
  | scalar {left right : ScalarValue} (same : left.same right = true) :
      Agrees (.scalar left) (.scalar right)
  | text (text : Text) : Agrees (.text text) (.text text)
  | noItem : Agrees (.list []) (.list [])
  | item {left right : Value} {lefts rights : List Value} (hd : Agrees left right)
      (rest : Agrees (.list lefts) (.list rights)) :
      Agrees (.list (left :: lefts)) (.list (right :: rights))
  | noField : Agrees (.record []) (.record [])
  | field {name : String} {left right : Value} {lefts rights : Fields} (hd : Agrees left right)
      (rest : Agrees (.record lefts) (.record rights)) :
      Agrees (.record ((name, left) :: lefts)) (.record ((name, right) :: rights))

theorem agrees_scalar_iff : Agrees (.scalar left) (.scalar right) ↔ left.same right = true := by
  constructor
  · intro agrees
    cases agrees with
    | scalar same => exact same
  · exact .scalar

theorem agrees_list_iff :
    Agrees (.list lefts) (.list rights) ↔ List.Forall₂ Agrees lefts rights := by
  constructor
  · intro agrees
    induction lefts generalizing rights with
    | nil =>
      cases agrees
      exact .nil
    | cons left lefts ih =>
      cases agrees with
      | item hd rest => exact .cons hd (ih rest)
  · intro all
    induction all with
    | nil => exact .noItem
    | cons hd _ ih => exact .item hd ih

/-- Records of the same names agree if their fields do. -/
theorem agrees_record_map_iff {name : α → String} {left right : α → Value} {fields : List α} :
    Agrees (.record (fields.map fun field => (name field, left field)))
        (.record (fields.map fun field => (name field, right field))) ↔
      ∀ field ∈ fields, Agrees (left field) (right field) := by
  induction fields with
  | nil => exact ⟨fun _ _ mem => absurd mem List.not_mem_nil, fun _ => .noField⟩
  | cons hd rest ih =>
    rw [List.forall_mem_cons, ← ih]
    constructor
    · intro agrees
      cases agrees with
      | field own others => exact ⟨own, others⟩
    · rintro ⟨own, others⟩
      exact .field own others

theorem Agrees.refl (v : Value) : v.Agrees v := by
  induction size : sizeOf v using Nat.strongRecOn generalizing v with
  | ind bound ih =>
  subst size
  cases v with
  | null => exact .null
  | scalar v => exact .scalar (same_self v)
  | text text => exact .text text
  | list items =>
    rw [agrees_list_iff, List.forall₂_same]
    intro item mem
    refine ih (sizeOf item) ?_ item rfl
    have smaller := List.sizeOf_lt_of_mem mem
    rw [Value.list.sizeOf_spec]
    omega
  | record fields =>
    have paired : fields.map (fun field => (field.1, field.2)) = fields := List.map_id fields
    rw [← paired, agrees_record_map_iff]
    rintro ⟨name, inner⟩ mem
    have smaller := List.sizeOf_lt_of_mem mem
    grind

end Value

/-! ## What is left out -/

namespace Catalog

/-- The scalar of a field is left out of a table, if the record lacks it or it is the default. -/
def IsLeftOut (catalog : Catalog) (fields : Fields) (field : TableField) : Prop :=
  ∃ kind,
    catalog.scalar? field.type = some kind ∧
      ∀ v, fields.present? field.name = some v →
        ∃ given,
          v = .scalar given ∧ (kind.coerce given).same (field.default.toScalar kind) = true

/-- The scalar of a field is left out of a table somewhere inside a value of a type. -/
inductive LeavesOut (catalog : Catalog) (left : TableField) : FieldType → Value → Prop where
  | own {id : Nat} {t : TableType} {fields : Fields} (body : catalog.body? id = some (.table t))
      (mem : left ∈ t.fields) (live : left.deprecated = false)
      (isLeftOut : catalog.IsLeftOut fields left) :
      LeavesOut catalog left (.named id) (.record fields)
  | field {id : Nat} {t : TableType} {fields : Fields} {field : TableField} {v : Value}
      (body : catalog.body? id = some (.table t)) (mem : field ∈ t.fields)
      (live : field.deprecated = false) (here : fields.present? field.name = some v)
      (inner : LeavesOut catalog left field.type v) :
      LeavesOut catalog left (.named id) (.record fields)
  | element {element : FieldType} {items : List Value} {item : Value} (mem : item ∈ items)
      (inner : LeavesOut catalog left element item) :
      LeavesOut catalog left (.vector element) (.list items)
  | variant {id : Nat} {union : UnionType} {pick : Fields} {name : Text} {v : Value}
      {variant : Variant} (body : catalog.body? id = some (.union union))
      (named : pick.lookup "type" = some (.text name)) (held : pick.lookup "value" = some v)
      (chosen :
        (union.variants.find? fun variant => Text.ofString variant.name == name) = some variant)
      (inner : LeavesOut catalog left (.named variant.table) v) :
      LeavesOut catalog left (.named id) (.record pick)

/-- The default of a scalar field reads back as the same value. -/
def TableField.Survives (catalog : Catalog) (field : TableField) : Prop :=
  ∀ kind, catalog.scalar? field.type = some kind →
    (field.default.toScalar kind).same (kind.convert (field.default.toScalar kind)) = true

/-- All that is left out of a value reads back as the same where it is stored. -/
def Survives (catalog : Catalog) (ty : FieldType) (v : Value) : Prop :=
  ∀ field, catalog.LeavesOut field ty v → field.Survives catalog

variable {catalog : Catalog} {id : Nat} {fields : Fields}

/-- Nothing is left out of a value that is stored in place. -/
theorem survives_scalar (stored : catalog.scalar? ty = some kind) (v : Value) :
    catalog.Survives ty v := by
  intro left leaves
  cases leaves with
  | own body | field body | variant body => simp [scalar?, body] at stored
  | element => cases stored

theorem survives_struct (hit : catalog.body? id = some (.struct struct)) (v : Value) :
    catalog.Survives (.named id) v := by
  intro left leaves
  cases leaves with
  | own body | field body | variant body => cases hit.symm.trans body

theorem survives_list_iff :
    catalog.Survives (.vector elem) (.list items) ↔ ∀ item ∈ items, catalog.Survives elem item := by
  constructor
  · intro survives item mem left leaves
    exact survives left (.element mem leaves)
  · intro each left leaves
    cases leaves with
    | element mem inner => exact each _ mem left inner

theorem survives_table_iff (hit : catalog.body? id = some (.table t)) :
    catalog.Survives (.named id) (.record fields) ↔
      ∀ field ∈ t.fields, field.deprecated = false →
        (catalog.IsLeftOut fields field → field.Survives catalog) ∧
          ∀ v, fields.present? field.name = some v → catalog.Survives field.type v := by
  constructor
  · intro survives field mem live
    exact ⟨fun isLeftOut => survives field (.own hit mem live isLeftOut),
      fun v here left leaves => survives left (.field hit mem live here leaves)⟩
  · intro each left leaves
    cases leaves with
    | own body mem live isLeftOut =>
      grind
    | field body mem live here inner =>
      cases hit.symm.trans body
      exact (each _ mem live).2 _ here left inner
    | variant body => cases hit.symm.trans body

theorem survives_union_iff (hit : catalog.body? id = some (.union union))
    (named : pick.lookup "type" = some (.text name)) (held : pick.lookup "value" = some v)
    (chosen : (union.variants.find? fun alt => Text.ofString alt.name == name) = some alt) :
    catalog.Survives (.named id) (.record pick) ↔ catalog.Survives (.named alt.table) v := by
  constructor
  · intro survives left leaves
    exact survives left (.variant hit named held chosen leaves)
  · intro survives left leaves
    cases leaves with
    | own body | field body => cases hit.symm.trans body
    | variant body ownNamed ownHeld ownChosen inner =>
      cases hit.symm.trans body
      cases named.symm.trans ownNamed
      cases held.symm.trans ownHeld
      cases chosen.symm.trans ownChosen
      exact survives left inner

/-! ## Reading what was stored -/

/-- A value reads as one that agrees with its normal form exactly if all that is left out of the
normal form survives. -/
def ReadsStored (catalog : Catalog) (ty : FieldType) (v res : Value) : Prop :=
  (catalog.normalForm ty v).Agrees res ↔ catalog.Survives ty v

/-- A scalar that is the same as a default is stored as the same, if the default survives. -/
theorem same_convert_iff {kind : ScalarKind} {fallback actual : ScalarValue}
    (same : actual.same fallback = true) :
    fallback.same (kind.convert actual) = true ↔ fallback.same (kind.convert fallback) = true := by
  grind [convert_same, same_trans, same_symm]

section

variable {field : TableField} {res : Value}

/-- A scalar field agrees with its normal form unless its default is left out and does not
survive. -/
theorem agrees_scalarField_iff (stored : catalog.scalar? field.type = some kind)
    (holds : catalog.FieldReads true catalog.ReadsStored fields field res) :
    (catalog.normalTableField fields field).Agrees res ↔
      (catalog.IsLeftOut fields field → field.Survives catalog) := by
  have survives_iff :
      field.Survives catalog ↔
        (field.default.toScalar kind).same (kind.convert (field.default.toScalar kind)) = true := by
    constructor
    · intro survives
      exact survives kind stored
    · intro survives other storedToo
      grind
  unfold FieldReads at holds
  unfold normalTableField TableField.normalAbsent
  cases here : fields.present? field.name with
  | some v =>
    simp only [stored, here] at holds ⊢
    rcases holds with ⟨given, rfl, rfl⟩
    rw [ScalarKind.normalOr, ScalarKind.slotForm, Bool.not_true, Bool.false_and,
      if_neg Bool.false_ne_true]
    cases same : (kind.coerce given).same (field.default.toScalar kind) with
    | true =>
      have isLeftOut : catalog.IsLeftOut fields field := by
        refine ⟨kind, stored, fun v hit => ?_⟩
        grind
      simp_all [Value.agrees_scalar_iff, same_convert_iff, if_pos]
    | false =>
      refine iff_of_true (.refl _) ?_
      rintro ⟨other, storedToo, each⟩
      grind
  | none =>
    have isLeftOut : catalog.IsLeftOut fields field :=
      ⟨kind, stored, fun v hit => by cases here.symm.trans hit⟩
    simp only [stored, here] at holds ⊢
    rw [holds, ScalarKind.slotForm, Bool.not_true, Bool.false_and, if_neg Bool.false_ne_true,
      Value.agrees_scalar_iff, ← survives_iff]
    exact ⟨fun survives _ => survives, fun survives => survives isLeftOut⟩

theorem agrees_field_iff (holds : catalog.FieldReads true catalog.ReadsStored fields field res) :
    (catalog.normalTableField fields field).Agrees res ↔
      (catalog.IsLeftOut fields field → field.Survives catalog) ∧
        ∀ v, fields.present? field.name = some v → catalog.Survives field.type v := by
  cases stored : catalog.scalar? field.type with
  | some kind =>
    simp_all [agrees_scalarField_iff, survives_scalar, And.left]
  | none =>
    have notLeftOut : ¬catalog.IsLeftOut fields field := by
      rintro ⟨kind, storedToo, _⟩
      cases stored.symm.trans storedToo
    unfold FieldReads at holds
    unfold normalTableField TableField.normalAbsent
    cases here : fields.present? field.name with
    | some v =>
      unfold ReadsStored at holds
      grind
    | none =>
      simp only [stored, here] at holds ⊢
      rw [holds]
      refine iff_of_true .null ⟨fun isLeftOut => (notLeftOut isLeftOut).elim, ?_⟩
      rintro v ⟨⟩

end

/-- Under one catalog, with defaults stored. -/
def storedPassage (sound : catalog.Sound) : Passage where
  writer := catalog
  reader := catalog
  forced := true
  Reads := catalog.ReadsStored
  sound := sound
  readerSound := sound
  extended := .refl catalog
  text text := by
    unfold ReadsStored
    rw [normalForm_text]
    refine iff_of_true (.refl _) fun left leaves => ?_
    cases leaves
  scalar stored given := by
    unfold ReadsStored
    rw [normalForm_scalar stored]
    exact iff_of_true (.refl _) (survives_scalar stored _)
  struct body fields := iff_of_true (.refl _) (survives_struct body _)
  list := by
    intro elem items results all
    unfold ReadsStored
    rw [normalForm_list, Value.agrees_list_iff, survives_list_iff, List.forall₂_map_left_iff]
    induction all with
    | nil => simp
    | cons hd _ ih =>
      rw [List.forall₂_cons, List.forall_mem_cons, ih]
      exact and_congr_left fun _ => hd
  table := by
    rintro id old new extra fields res body also fields_eq each _
    cases body.symm.trans also
    unfold ReadsStored
    rw [normalForm_table body, Value.agrees_record_map_iff, survives_table_iff body]
    constructor
    · grind [agrees_field_iff]
    grind [agrees_field_iff]
  union := by
    intro id union pick name inner alt res body named held chosen reads
    unfold ReadsStored at reads ⊢
    rw [normalForm_union body named held chosen, survives_union_iff body named held chosen, ← reads]
    constructor
    · intro agrees
      cases agrees with
      | field _ rest =>
        cases rest with
        | field own _ => exact own
    · intro agrees
      exact .field (.text name) (.field agrees .noField)

/-! ## Whole buffers -/

theorem LeavesOut.exists_table (leaves : catalog.LeavesOut left ty v) :
    ∃ id t, catalog.body? id = some (.table t) ∧ left ∈ t.fields := by
  induction leaves with
  | own body mem => exact ⟨_, _, body, mem⟩
  | field _ _ _ _ _ ih => exact ih
  | element _ _ ih => exact ih
  | variant _ _ _ _ _ ih => exact ih

/-- Where defaults suit their fields, only those of single precision may not survive. -/
theorem survives_iff_of_suits (suits : catalog.SuitsDefaults) :
    catalog.Survives ty v ↔
      ∀ field, catalog.LeavesOut field ty v → catalog.scalar? field.type = some .float32 →
        ∀ fallback, field.default = .float fallback → fallback.IsSingle := by
  constructor
  · intro survives field leaves stored fallback default_eq
    rcases leaves.exists_table with ⟨id, t, body, mem⟩
    have own := suits id t body field mem .float32 stored
    exact own.survives_iff.mp (survives field leaves _ stored) fallback rfl default_eq
  · intro single field leaves kind stored
    rcases leaves.exists_table with ⟨id, t, body, mem⟩
    refine (suits id t body field mem kind stored).survives_iff.mpr ?_
    grind

section

variable {ι : Type} [Extent ι]

/-- A record that is written to a buffer with its defaults left out is written with them stored too,
unless the buffer outgrows its limit, and both buffers can be read.  What they read as agrees
exactly if single precision holds the default of each of its fields that is left out. -/
theorem forced_agrees_iff (schemas : List Schema) (entry : Option Text) (earlier : List Diagnostic)
    {catalog : Catalog}
    (accepted :
      (ofSymbols schemas (ofSchemas schemas).value entry earlier).value = .accepted catalog)
    (slots : ∀ id table, catalog.body? id = some (.table table) → table.slotCount ≤ 32765)
    (choice : Option ι) (sizePrefix : Bool) (fields : Fields)
    (inline : (builderOf catalog ⟨choice, sizePrefix, false⟩ fields).InlineFits)
    (inlineForced : (builderOf catalog ⟨choice, sizePrefix, true⟩ fields).InlineFits)
    {bytes : List UInt8}
    (written : bytesOf catalog ⟨choice, sizePrefix, false⟩ fields = .ok bytes) :
    bytesOf catalog ⟨choice, sizePrefix, true⟩ fields = .error (.wire .tooLarge) ∧
        growthLimit ≤ (builderOf catalog ⟨choice, sizePrefix, true⟩ fields).capacity ∨
      ∃ forcedBytes id number value forcedValue,
        bytesOf catalog ⟨choice, sizePrefix, true⟩ fields = .ok forcedBytes ∧
          catalog.rootOf choice = .ok id ∧ (Extent.integer? id).bind Int.toNat? = some number ∧
          root (ofList bytes) catalog choice sizePrefix = .ok value ∧
          root (ofList forcedBytes) catalog choice sizePrefix = .ok forcedValue ∧
          (value.Agrees forcedValue ↔
            ∀ field, catalog.LeavesOut field (.named number) (.record fields) →
              catalog.scalar? field.type = some .float32 →
                ∀ default, field.default = .float default → default.IsSingle) := by
  have sound := sound_of_accepted accepted
  have suits := suitsDefaults_of_accepted accepted
  have ran :
      Yields (root catalog ⟨choice, sizePrefix, false⟩ fields)
        (start (standardRoom : Int) false) bytes
        (builderOf catalog ⟨choice, sizePrefix, false⟩ fields) :=
    Prod.ext written rfl
  rcases exists_root ran with ⟨_, _, _, chosen, number_eq, body⟩
  rcases ((normalPassage sound).root_ends chosen number_eq body sizePrefix false fields).yields ran
    with ⟨_, _, brought, finished, _⟩
  have again :=
    ((storedPassage sound).root_ends chosen number_eq body sizePrefix true fields).proceeds
  rcases (normalPassage sound).decode_of_yields slots inline ran with
    ⟨id, number, _, chosen, number_eq, read, rfl⟩
  rcases again with ⟨forcedBytes, final, forced⟩ | ⟨error, final, failed, halts⟩
  · have final_eq : builderOf catalog ⟨choice, sizePrefix, true⟩ fields = final :=
      congrArg Prod.snd forced
    rw [final_eq] at inlineForced
    rcases (storedPassage sound).decode_of_yields slots inlineForced forced with
      ⟨_, _, forcedValue, chosenToo, numberToo, readForced, holds⟩
    cases chosen.symm.trans chosenToo
    cases number_eq.symm.trans numberToo
    refine .inr ⟨forcedBytes, id, number, _, forcedValue, congrArg Prod.fst forced, chosen,
      number_eq, read, readForced, ?_⟩
    rw [← survives_iff_of_suits suits]
    exact holds
  · have final_eq : builderOf catalog ⟨choice, sizePrefix, true⟩ fields = final :=
      congrArg Prod.snd failed
    rw [final_eq] at inlineForced ⊢
    have manageable := manageable_of_accepted accepted slots
    rcases halts rfl manageable brought.typed with (⟨rfl, full⟩ | beyond) | ⟨field, lacks, _⟩
    · exact .inl ⟨congrArg Prod.fst failed, full⟩
    · exact (beyond inlineForced).elim
    · exact (brought.complete manageable (finished.inlineFits inline) field lacks).elim

end

end Catalog

/-- Panels have gauges, whose level is given by default. -/
def panelSchema (level : Double) : Schema where
  path := Text.ofString "panel.fbs"
  span := default
  items :=
    [ .declaration ⟨"Gauge", [], [], [], .table
        [⟨"level", .scalar .float32 default, some ⟨.float level, default⟩, [], [], default⟩],
        default⟩,
      .declaration ⟨"Panel", [], [], [], .table
        [⟨"gauges", .vector (.named "Gauge" default) default, none, [], [], default⟩], default⟩ ]

/-- The table of the gauges. -/
def gaugeTable (level : Double) : Catalog.TableType :=
  ⟨[⟨"level", .scalar .float32, 0, none, .float level, false, false, false, [], []⟩], 1⟩

/-- The table of the panels. -/
def panelTable : Catalog.TableType :=
  ⟨[⟨"gauges", .vector (.named 0), 0, none, .absent, false, false, false, [], []⟩], 1⟩

def panelCatalog (level : Double) : Catalog :=
  ⟨[⟨0, "Gauge", [], "Gauge", [], [], default, .table (gaugeTable level)⟩,
      ⟨1, "Panel", [], "Panel", [], [], default, .table panelTable⟩],
    [⟨"", [0, 1]⟩], none, none, none, []⟩

def half : Double := ⟨0x3fe0000000000000⟩

def tenth : Double := ⟨0x3fb999999999999a⟩

/-- A panel with two gauges, one of them at its default. -/
def panel : Fields :=
  [("gauges", .list [.record [], .record [("level", .scalar (.number tenth))]])]

/-- One half is a number of single precision, so a level of one half may be stored or left out.  The
level of the other gauge is no such number, but it is stored in both buffers. -/
theorem forced_agrees_half :
    ∃ bytes forcedBytes value forcedValue,
      bytesOf (panelCatalog half) ⟨some (1 : Int), true, false⟩ panel = .ok bytes ∧
        bytesOf (panelCatalog half) ⟨some (1 : Int), true, true⟩ panel = .ok forcedBytes ∧
        root (ofList bytes) (panelCatalog half) (some (1 : Int)) true = .ok value ∧
        root (ofList forcedBytes) (panelCatalog half) (some (1 : Int)) true = .ok forcedValue ∧
        value.Agrees forcedValue := by
  have accepted :
      (Catalog.ofSymbols [panelSchema half] (ofSchemas [panelSchema half]).value none []).value =
        .accepted (panelCatalog half) := by
    decide +kernel
  have tables : ∀ id table, (panelCatalog half).body? id = some (.table table) →
      table = gaugeTable half ∨ table = panelTable := by
    intro id table body
    rcases id with _ | _ | id
    · cases body
      exact .inl rfl
    · cases body
      exact .inr rfl
    · cases body
  have inline : ∀ forced,
      (builderOf (panelCatalog half) ⟨some (1 : Int), true, forced⟩ panel).InlineFits := by
    decide +kernel
  rcases exists_ok_of_isOk (by decide +kernel :
    (bytesOf (panelCatalog half) ⟨some (1 : Int), true, false⟩ panel).isOk = true) with
    ⟨bytes, written⟩
  have forcedIsOk :
      (bytesOf (panelCatalog half) ⟨some (1 : Int), true, true⟩ panel).isOk = true := by
    decide +kernel
  rcases Catalog.forced_agrees_iff [panelSchema half] none [] accepted
      (Catalog.slotCount_le (by decide)) (some (1 : Int)) true panel (inline false) (inline true)
      written with
    ⟨failed, _⟩ | ⟨forcedBytes, _, _, value, forcedValue, forced, _, _, read, readForced, holds⟩
  · rw [failed] at forcedIsOk
    cases forcedIsOk
  · refine ⟨bytes, forcedBytes, value, forcedValue, written, forced, read, readForced, ?_⟩
    refine holds.mpr ?_
    intro field leaves stored default default_eq
    rcases leaves.exists_table with ⟨id, table, body, member⟩
    rcases tables id table body with rfl | rfl
    · cases List.mem_singleton.mp member
      cases default_eq
      rfl
    · cases List.mem_singleton.mp member
      cases default_eq

/-- One tenth is no number of single precision, so a level that is left out reads as one tenth and a
stored one as another number. -/
theorem forced_disagrees_tenth :
    (Catalog.ofSymbols [panelSchema tenth] (ofSchemas [panelSchema tenth]).value none []).value =
        .accepted (panelCatalog tenth) ∧
      ∃ bytes forcedBytes value forcedValue,
        bytesOf (panelCatalog tenth) ⟨some (0 : Int), false, false⟩ [] = .ok bytes ∧
          bytesOf (panelCatalog tenth) ⟨some (0 : Int), false, true⟩ [] = .ok forcedBytes ∧
          root (ofList bytes) (panelCatalog tenth) (some (0 : Int)) false = .ok value ∧
          root (ofList forcedBytes) (panelCatalog tenth) (some (0 : Int)) false = .ok forcedValue ∧
          ¬ value.Agrees forcedValue := by
  refine ⟨by decide +kernel, [8, 0, 0, 0, 4, 0, 4, 0, 4, 0, 0, 0],
    [12, 0, 0, 0, 0, 0, 6, 0, 8, 0, 4, 0, 6, 0, 0, 0, 205, 204, 204, 61],
    .record [("level", .scalar (.number tenth))],
    .record [("level", .scalar (.number ⟨0x3fb99999a0000000⟩))],
    by decide +kernel, by decide +kernel, by with_unfolding_all rfl, by with_unfolding_all rfl, ?_⟩
  intro agrees
  cases agrees with
  | field level =>
    have same := Value.agrees_scalar_iff.mp level
    revert same
    decide +kernel

end FlatSchema
