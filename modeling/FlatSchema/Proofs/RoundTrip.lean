import FlatSchema.Proofs.ClosedCatalog
import FlatSchema.Proofs.RecordRoundTrip

/-!
# Buffers are read as they are written

A whole buffer begins with a reference to its root table, after its size if it
is asked for.  Whatever record is written to a buffer under an accepted
catalog, the buffer reads as the normal form of the record.
-/

namespace FlatSchema

open Builder (standardRoom start)
open Catalog (Body ofSymbols)
open SymbolTable (ofSchemas)

variable {sizePrefix : Bool}

open Builder

namespace Build

variable {pre post : Builder Int}

/-- A buffer is finished with a reference to its root, which stands behind the size alone.  It is a
multiple of the greatest alignment long, if that is a power of two. -/
structure Finished (pre : Builder Int) (root : Int) (sizePrefix : Bool)
    (post : Builder Int) : Prop where
  valid : post.Valid
  isSuffix : pre.written <:+ post.written
  vtables_eq : post.vtables = pre.vtables
  finished_eq : post.finished = true
  refers :
    ∃ forward : Nat,
      (forward : Int) = post.written.length - Buffer.prefixSize sizePrefix - root ∧
        Stands post.written (post.written.length - Buffer.prefixSize sizePrefix)
          (littleEndian 4 forward)
  sized :
    sizePrefix = true →
      Stands post.written post.written.length (littleEndian 4 (post.written.length - 4))
  multiple :
    ∀ align : Nat, pre.minAlign = align → IsPower align → 4 ∣ align → align ∣ post.written.length

theorem Finished.inlineFits (finished : Finished pre root sizePrefix post)
    (fits : post.InlineFits) :
    pre.InlineFits := by
  grind [vtables_eq, InlineFits]

/-- Zeros before the root reference align the end of the buffer, and so the reference itself. -/
theorem dvd_of_referring {align extra zeros : Nat}
    (power : IsPower align) (four : 4 ∣ align) (words : 4 ∣ extra)
    (spaces :
      Appends pre
        (List.replicate ((padding pre.offset extra align).toNat + (-pre.space).toNat) 0) spaced)
    (further : spaced.offset = pre.offset + (padding pre.offset extra align).toNat)
    (padded : (zeros : Int) = -spaced.offset % 4) :
    zeros = 0 ∧ align ∣ spaced.written.length + extra ∧
      (pre.Valid → align ∣ pre.written.length + extra →
        spaced.written.length = pre.written.length) := by
  have aligns := Int.toNat_of_nonneg (padding_range power pre.offset extra).1
  rw [padding_eq power] at aligns further spaces
  generalize (-(pre.offset + extra) % align).toNat = n at aligns further spaces
  have multiple : align ∣ spaced.written.length + extra := by
    rw [← Int.natCast_dvd_natCast, Int.natCast_add, ← spaces.valid.offset_eq, further,
      Int.add_comm pre.offset]
    exact Int.dvd_of_emod_eq_zero (emod_of_padding aligns)
  have word := four.trans multiple
  rw [spaces.valid.offset_eq] at padded
  refine ⟨by omega, multiple, fun valid whole => ?_⟩
  have count := spaces.length_eq
  rw [List.length_replicate, valid.gap_eq] at count
  rw [valid.offset_eq, ← Int.natCast_add,
    Int.emod_eq_zero_of_dvd (Int.dvd_neg.mpr (Int.natCast_dvd_natCast.mpr whole))] at aligns
  omega

theorem refer_ends (nonneg : 0 ≤ root) (sizePrefix : Bool) (bounded : pre.Bounded) :
    Ensures (refer root sizePrefix) pre
      (fun _ post =>
        Finished pre root sizePrefix post ∧
          ∀ align : Nat, pre.minAlign = align → IsPower align → 4 ∣ align → pre.Valid →
            align ∣ pre.written.length + (4 + Buffer.prefixSize sizePrefix) →
            post.written.length = pre.written.length + (4 + Buffer.prefixSize sizePrefix))
      fun err post => pre.offset < root ∨ IsFull err post := by
  have words : 4 ∣ 4 + Buffer.prefixSize sizePrefix := by cases sizePrefix <;> decide
  refine .get_bind ((prep_ends bounded (.inl bounded.minAlign_pos) (Int.natCast_nonneg _)).bind
    (fun _ _ full => .inr full.1) ?_)
  rintro _ spaced ⟨zeros, further, _⟩
  refine (addOffset_ends root zeros.valid.toBounded).bind
    (fun _ _ failed => failed.imp_left fun ahead => by omega) ?_
  rintro _ referring ⟨n, forward, padded, put, far, _⟩
  have far := (far nonneg).1
  have whole := zeros.trans put
  have len := put.length_eq
  rw [List.length_append, length_littleEndian, List.length_replicate, zeros.valid.gap_eq] at len
  have exact := fun (align : Nat) (covers : pre.minAlign = align) power four =>
    dvd_of_referring power four words (covers ▸ zeros) (covers ▸ further) padded
  cases sizePrefix with
  | false =>
    refine .modify ⟨⟨whole.valid.of_setting rfl rfl rfl (Int.le_refl _), whole.isSuffix,
      congrArg Setting.vtables whole.setting_eq, rfl, ⟨forward, ?_, put.stands.left⟩,
      (fun sized => by cases sized), ?_⟩, ?_⟩
    · show (forward : Int) = (referring.written.length : Int) - 0 - root
      rw [far, Int.sub_zero]
    · intro align covers power four
      rcases exact align covers power four with ⟨none, multiple, _⟩
      show align ∣ referring.written.length
      rw [len, none, Nat.add_comm]
      exact multiple
    · intro align covers power four valid fits
      rcases exact align covers power four with ⟨none, _, same⟩
      show referring.written.length = _
      rw [len, none, same valid fits, Nat.add_comm]
      rfl
  | true =>
    refine .get_bind ((addWord_ends isAlignment_four put.valid.toBounded _).bind
      (fun _ _ full => .inr full.1) ?_)
    rintro _ sized ⟨gap, gap_eq, sizing, _⟩
    rw [zeros.valid.offset_eq] at padded
    rw [put.valid.offset_eq] at gap_eq
    -- The reference ends at a multiple of four, so the size stands right before it.
    rw [put.valid.gap_eq, show gap = 0 by omega, List.replicate_zero, List.append_nil] at sizing
    have sizedLength := sizing.length_eq
    rw [length_littleEndian] at sizedLength
    have both := whole.trans sizing
    have back : (sized.written.length : Int) - 4 = referring.written.length := by omega
    have total : sized.written.length = referring.written.length + 4 := by omega
    refine .modify ⟨⟨both.valid.of_setting rfl rfl rfl (Int.le_refl _), both.isSuffix,
      congrArg Setting.vtables both.setting_eq, rfl, ⟨forward, ?_, ?_⟩, fun _ => ?_, ?_⟩, ?_⟩
    · show (forward : Int) = (sized.written.length : Int) - 4 - root
      rw [back, far]
    · show Stands sized.written ((sized.written.length : Int) - 4) _
      rw [back]
      exact put.stands.left.mono sizing.isSuffix
    · have room := length_written_le referring
      have limit := put.valid.capacity_lt
      have stands := sizing.stands
      rw [put.valid.offset_eq, toNat_word (by omega)] at stands
      show Stands sized.written sized.written.length (littleEndian 4 (sized.written.length - 4))
      simp_all
    · intro align covers power four
      rcases exact align covers power four with ⟨none, multiple, _⟩
      show align ∣ sized.written.length
      rw [total, len, none, Nat.add_right_comm, Nat.add_comm]
      exact multiple
    · intro align covers power four valid fits
      rcases exact align covers power four with ⟨none, _, same⟩
      show sized.written.length = _
      rw [total, len, none, same valid fits, Nat.add_right_comm, Nat.add_comm]
      rfl

/-- The bytes of a file identifier. -/
def identifierBytes (ident : Text) : List UInt8 :=
  ident.units.map fun unit => UInt8.ofNat (unit.toNat % 256)

/-- The file identifier stands right behind the root reference. -/
theorem finish_ends (nonneg : 0 ≤ root) (ident : Option Text) (sizePrefix : Bool)
    (bounded : pre.Bounded) :
    Ensures (finish root ident sizePrefix) pre
      (fun _ post =>
        Finished pre root sizePrefix post ∧
          ∀ text ∈ ident, ∀ align : Nat, pre.minAlign = align → IsPower align → 4 ∣ align →
            Stands post.written (post.written.length - Buffer.prefixSize sizePrefix - 4)
              (identifierBytes text))
      fun err post =>
        (∃ text ∈ ident, text.length ≠ Buffer.identifierLength) ∨ pre.offset < root ∨
          IsFull err post := by
  unfold finish
  cases ident with
  | none =>
    exact (refer_ends nonneg sizePrefix bounded).mono (fun _ _ => .inr)
      fun _ _ finished => ⟨finished.1, fun text none => by cases none⟩
  | some ident =>
    dsimp only
    split
    · next other => exact .throw_bind (.inl ⟨ident, rfl, other⟩)
    next length_eq =>
    have size : (identifierBytes ident).length = 4 := by
      rw [identifierBytes, List.length_map]
      exact not_not.mp length_eq
    refine .get_bind ((prep_ends bounded (.inl bounded.minAlign_pos) (Int.natCast_nonneg _)).bind
      (fun _ _ full => .inr (.inr full.1)) ?_)
    rintro _ spaced ⟨zeros, further, _, room, minAlign_eq⟩
    refine (put_ends (identifierBytes ident) zeros.valid).bind (fun _ _ lacking => ?_) ?_
    · grind [Bounded.minAlign_pos]
    rintro _ named ⟨text, _, kept⟩
    have whole := zeros.trans text
    have covers : named.minAlign = pre.minAlign := by
      rw [kept, minAlign_eq, max_self]
    have namedLength := text.length_eq
    have first := zeros.valid.offset_eq
    have last := text.valid.offset_eq
    refine (refer_ends nonneg sizePrefix whole.valid.toBounded).mono
      (fun _ _ failed => .inr (failed.imp_left fun ahead => by omega)) ?_
    rintro _ post ⟨finished, exact⟩
    rw [covers] at exact
    refine ⟨⟨finished.valid, whole.isSuffix.trans finished.isSuffix,
      finished.vtables_eq.trans (congrArg Setting.vtables whole.setting_eq),
      finished.finished_eq, finished.refers, finished.sized, ?_⟩, ?_⟩
    · rw [← covers]
      exact finished.multiple
    · rintro _ ⟨⟩ align isMin power four
      rw [isMin, padding_eq power] at further
      have aligns := Int.toNat_of_nonneg (padding_range power pre.offset
        (4 + Buffer.identifierLength + Buffer.prefixSize sizePrefix : Nat)).1
      rw [padding_eq power] at aligns
      have fits : align ∣ named.written.length + (4 + Buffer.prefixSize sizePrefix) := by
        rw [← Int.natCast_dvd_natCast, namedLength, Int.natCast_add, Int.natCast_add,
          ← zeros.valid.offset_eq, further]
        convert Int.dvd_of_emod_eq_zero (emod_of_padding aligns) using 1
        rw [Buffer.identifierLength]
        push_cast
        omega
      have total := exact align isMin power four whole.valid fits
      have stands := text.stands.mono finished.isSuffix
      grind

end Build

section

variable {ι : Type} [Extent ι]

/-- The builder in which a whole buffer has been written. -/
def Encode.builderOf (c : Catalog) (options : Options ι) (fs : Fields) : Builder Int :=
  ((root c options fs).run
    (start standardRoom options.forceDefaults)).2

theorem Encode.exists_root {options : Options ι} {pre final : Builder Int}
    (ran : Yields (root c options fs) pre bs final) :
    ∃ id num t,
      c.rootOf options.table = .ok id ∧ (Extent.integer? id).bind Int.toNat? = some num ∧
        c.body? num = some (.table t) := by
  rcases yields_liftM_bind_iff.mp ran with ⟨id, chosen, tabled⟩
  grind [yields_liftM_bind_iff, Catalog.tableAt_eq_ok]

theorem ready_start (forced : Bool) : (start (standardRoom : Int) forced).Ready forced where
  bounded := (valid_start (by decide) forced).toBounded
  forced_eq := rfl
  stand := by
    intro words vt mem
    cases mem

namespace Passage

variable {p : Passage} {pick : Option ι}

theorem decodeRoot_of_leads {id : ι} (chosen : p.writer.rootOf pick = .ok id)
    (number_eq : (Extent.integer? id).bind Int.toNat? = some num)
    (body : p.writer.body? num = some (.table t))
    (leads : Leads p pre.written (.named num) (.record fs) off 0)
    (finished : Build.Finished pre off sizePrefix post) :
    ∃ res,
      Decode.root (Buffer.ofList post.written) p.reader pick sizePrefix = .ok res ∧
        p.Reads (.named num) (.record fs) res := by
  rcases finished.refers with ⟨forward, far, stands⟩
  have room := length_written_le post
  have limit := finished.valid.capacity_lt
  have positive := leads.positive
  have nearer : off < (post.written.length + 1 : Nat) := by
    omega
  have near : forward < 4294967296 := by omega
  rcases leads.reads _ finished.isSuffix _ nearer _ forward stands far near with
    ⟨res, read, held⟩
  have followed := follow_of_forward stands far near
  have pos :
      spot post.written (post.written.length - Buffer.prefixSize sizePrefix) =
        Buffer.prefixSize sizePrefix := by
    rw [spot]
    omega
  rw [pos] at read followed
  rcases p.extended.exists_table body with ⟨grown, _, grownBody, _, _⟩
  rcases Catalog.tableAt_of_body number_eq grownBody with ⟨_, known⟩
  have alsoChosen : p.reader.rootOf pick = .ok id := (p.extended.rootOf_eq pick).trans chosen
  simp only [readReferred, grownBody, followed, Decode.ofWire, bind, Except.bind] at read
  have size : (Buffer.ofList post.written).size = post.written.length := List.size_toArray
  refine ⟨res, ?_, held⟩
  rw [Decode.root, alsoChosen]
  simp only [bind, Except.bind, Buffer.rootTable, followed, Decode.ofWire, Decode.table, known,
    size]
  exact read

/-- A record is written to a whole buffer as its table and a reference to it. -/
theorem root_ends (p : Passage) {id : ι} (chosen : p.writer.rootOf pick = .ok id)
    (number_eq : (Extent.integer? id).bind Int.toNat? = some num)
    (body : p.writer.body? num = some (.table t)) (sizePrefix forced : Bool) (fs : Fields) :
    Ensures (Encode.root p.writer ⟨pick, sizePrefix, forced⟩ fs)
      (start (standardRoom : Int) p.forced)
      (fun bs final => ∃ off mid,
        Brought p (.named num) (.record fs) off 0 mid ∧
          Build.Finished mid off sizePrefix final ∧ final.written = bs)
      (Encode.Halts p.writer (start (standardRoom : Int) p.forced) (.named num) (.record fs)) := by
  rcases Catalog.tableAt_of_body number_eq body with ⟨e, known⟩
  simp only [Encode.root, chosen, known, Encode.liftM_ok, pure_bind]
  refine (tableConveys fs num t e body _ (ready_start p.forced)).andThen ?_
  rintro off mid ⟨grows, brought⟩
  have room := grows.ready.bounded.offset_eq
  have reached := brought.offset_le
  refine (Encode.ends_ofBuild (Build.finish_ends (Int.le_of_lt brought.positive) _ sizePrefix
    grows.ready.bounded) fun err final failed _ manageable _ => ?_).andThen ?_
  · grind [Catalog.Manageable.identified, Encode.atLimit_of_isFull, text]
  rintro _ final ⟨finished, _⟩
  have given :
      Ensures Build.bytes final (fun bs s => final = s ∧ s.written = bs) fun _ _ => False := by
    refine .get_bind ?_
    rw [if_pos finished.finished_eq, finished.valid.content_eq]
    exact .pure ⟨rfl, rfl⟩
  refine (Encode.ends_ofBuild given fun _ _ never => never.elim).imp ?_
  grind

/-- Whatever is written as a whole buffer reads back as it may, as long as every table keeps to
what a vtable can index and measure. -/
theorem decode_of_yields (p : Passage)
    (slots : ∀ id t, p.writer.body? id = some (.table t) → t.slotCount ≤ 32765)
    {forced : Bool} {final : Builder Int} (inline : final.InlineFits)
    (ran :
      Yields (Encode.root p.writer ⟨pick, sizePrefix, forced⟩ fs)
        (Builder.start (Builder.standardRoom : Int) p.forced) bs final) :
    ∃ id num res,
      p.writer.rootOf pick = .ok id ∧ (Extent.integer? id).bind Int.toNat? = some num ∧
        Decode.root (Buffer.ofList bs) p.reader pick sizePrefix = .ok res ∧
        p.Reads (.named num) (.record fs) res := by
  rcases Encode.exists_root ran with ⟨id, num, t, chosen, number_eq, body⟩
  rcases (p.root_ends chosen number_eq body sizePrefix forced fs).yields ran with
    ⟨off, mid, brought, finished, rfl⟩
  rcases decodeRoot_of_leads chosen number_eq body
    (brought.leads slots (finished.inlineFits inline)) finished with ⟨res, read, held⟩
  exact ⟨id, num, res, chosen, number_eq, read, held⟩

end Passage

end

/-- A scene holds shapes and a shape corners. -/
def sceneSchema : Schema where
  path := Text.ofString "scene.fbs"
  span := default
  items :=
    [ .declaration ⟨"Corner", [], [], [], .struct
        [⟨"x", .scalar .float32 default, none, [], [], default⟩,
          ⟨"y", .scalar .int8 default, none, [], [], default⟩], default⟩,
      .declaration ⟨"Shape", [], [], [], .table
        [⟨"corners", .vector (.named "Corner" default) default, none, [], [], default⟩], default⟩,
      .declaration ⟨"Scene", [], [], [], .table
        [⟨"shapes", .vector (.named "Shape" default) default, none, [], [], default⟩], default⟩ ]

def cornerStruct : Catalog.StructType :=
  ⟨[⟨"x", .scalar .float32, 0, 4, 0, [], []⟩, ⟨"y", .scalar .int8, 4, 1, 3, [], []⟩], 8, 4⟩

def shapeTable : Catalog.TableType :=
  ⟨[⟨"corners", .vector (.named 0), 0, none, .absent, false, false, false, [], []⟩], 1⟩

def sceneTable : Catalog.TableType :=
  ⟨[⟨"shapes", .vector (.named 1), 0, none, .absent, false, false, false, [], []⟩], 1⟩

def sceneCatalog : Catalog :=
  ⟨[⟨0, "Corner", [], "Corner", [], [], default, .struct cornerStruct⟩,
      ⟨1, "Shape", [], "Shape", [], [], default, .table shapeTable⟩,
      ⟨2, "Scene", [], "Scene", [], [], default, .table sceneTable⟩],
    [⟨"", [0, 1, 2]⟩], none, none, none, []⟩

theorem accepted_sceneCatalog :
    (ofSymbols [sceneSchema] (ofSchemas [sceneSchema]).value none []).value =
      .accepted sceneCatalog := by
  decide +kernel

/-- A scene of two shapes, the first with one corner. -/
def sceneOf (height : Int) (snd : Fields) : Fields :=
  [("shapes", .list
    [.record [("corners", .list
        [.record
          [("x", .scalar (.number (Double.ofInt 5))),
            ("y", .scalar (.number (Double.ofInt height)))]])],
      .record snd])]

end FlatSchema
