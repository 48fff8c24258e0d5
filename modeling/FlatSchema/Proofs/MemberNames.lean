import FlatSchema.Proofs.CanonicalNames

/-!
# Members of generated code

The code of a table, a struct or a service has members that are named after
its fields or methods.  A member is an identifier unless the name it is made
from begins with a digit after its underscores.  Only tables are checked for
members that two fields share: the fields of a struct and the methods of a
service can share theirs.
-/

namespace FlatSchema

open Lexer

namespace MemberName

/-! ## Identifiers -/

/-- What holds of the characters of names among the first ones holds of all of them. -/
theorem forall_isNamePart (holds : Char → Prop)
    (all : ∀ code < 128, isNamePart (Char.ofNat code) → holds (Char.ofNat code))
    (part : isNamePart c) : holds c := by
  have below {high : UInt32} (le : c.val ≤ high) (ascii : high.toNat < 128) : c.toNat < 128 :=
    Nat.lt_of_le_of_lt (UInt32.le_iff_toNat_le.mp le) ascii
  have small : c.toNat < 128 := by
    have ranges : (((c.isUpper || c.isLower) || c.isDigit) || decide (c = '_')) = true := part
    simp only [Bool.or_eq_true, decide_eq_true_eq] at ranges
    rcases ranges with ((upper | lower) | digit) | rfl
    · exact below (of_decide_eq_true upper).2 (by decide)
    · exact below (of_decide_eq_true (Bool.and_eq_true_iff.mp lower).2) (by decide)
    · exact below (of_decide_eq_true (Bool.and_eq_true_iff.mp digit).2) (by decide)
    · decide
  grind [Char.ofNat_toNat]

/-- Whether characters begin with a digit. -/
def startsDigit (chars : List Char) : Bool :=
  chars.head?.any isDigit

theorem isWord_iff :
    IsWord chars ↔ chars ≠ [] ∧ (∀ part ∈ chars, isNamePart part) ∧ startsDigit chars = false := by
  have starts (c : Char) (part : isNamePart c) : isNameStart c = !isDigit c :=
    forall_isNamePart (fun c => isNameStart c = !isDigit c) (by decide +kernel) part
  constructor
  · rintro ⟨hd, rest, rfl, start, parts⟩
    have part := isNamePart_of_isNameStart start
    refine ⟨List.cons_ne_nil _ _, List.forall_mem_cons.mpr ⟨part, parts⟩, ?_⟩
    rw [starts hd part, Bool.not_eq_true'] at start
    exact start
  · rintro ⟨full, parts, other⟩
    cases chars with
    | nil => exact absurd rfl full
    | cons hd rest =>
      rw [List.forall_mem_cons] at parts
      refine ⟨hd, rest, rfl, ?_, parts.2⟩
      rw [starts hd parts.1, Bool.not_eq_true']
      exact other

/-- Characters of names after a word do not make it another. -/
theorem isWord_append (full : chars ≠ [])
    (parts : ∀ part ∈ more, isNamePart part) : IsWord (chars ++ more) ↔ IsWord chars := by
  cases chars with
  | nil => exact absurd rfl full
  | cons hd rest =>
    grind [isNamePart, IsWord]

/-! ## Camel case -/

/-- Whether a name begins with a digit, apart from underscores. -/
def digitLed (chars : List Char) : Bool :=
  startsDigit (chars.dropWhile (· == '_'))

/-- Joined words are made of the characters of names and begin with a digit where the first word
does. -/
theorem joinWords_spec (parts : ∀ part ∈ chars, isNamePart part) (held : Nat) :
    (∀ part ∈ joinWords held chars, isNamePart part) ∧
      (joinWords held chars = [] → held = 0 ∧ chars = []) ∧
      startsDigit (joinWords held chars) = digitLed chars := by
  induction chars generalizing held with
  | nil =>
    refine ⟨?_, ?_, ?_⟩
    · intro part mem
      rw [List.eq_of_mem_replicate mem]
      decide
    · simp [joinWords]
    · cases held <;> rfl
  | cons c rest ih =>
    rw [List.forall_mem_cons] at parts
    rw [joinWords]
    split
    · next isMark =>
        rcases ih parts.2 (held + 1) with ⟨all, full, digit⟩
        refine ⟨all, fun none => absurd (full none).1 (Nat.succ_ne_zero _), ?_⟩
        rw [digit, isMark]
        rfl
    · next notMark =>
        rcases ih parts.2 0 with ⟨all, -, -⟩
        have word : isWordChar c = true :=
          forall_isNamePart (fun c => c ≠ '_' → isWordChar c) (by decide +kernel) parts.1 notMark
        have led : digitLed (c :: rest) = isDigit c := by
          simp [digitLed, startsDigit, notMark]
        rw [word, led]
        split
        · have raised : isNamePart c.toUpper ∧ isDigit c.toUpper = isDigit c :=
            forall_isNamePart
              (fun c => isNamePart c.toUpper ∧ isDigit c.toUpper = isDigit c)
              (by decide +kernel) parts.1
          exact ⟨List.forall_mem_cons.mpr ⟨raised.1, all⟩, (nomatch ·), raised.2⟩
        · next none =>
            obtain rfl : held = 0 := by simpa using none
            exact ⟨List.forall_mem_cons.mpr ⟨parts.1, all⟩, (nomatch ·), rfl⟩

theorem lowerFirst_spec (parts : ∀ part ∈ chars, isNamePart part) :
    (∀ part ∈ lowerFirst chars, isNamePart part) ∧ (lowerFirst chars = [] → chars = []) ∧
      startsDigit (lowerFirst chars) = startsDigit chars := by
  cases chars with
  | nil => exact ⟨parts, fun _ => rfl, rfl⟩
  | cons c rest =>
    rw [List.forall_mem_cons] at parts
    have split : lowerFirst (c :: rest) = lowerFirst [c] ++ rest := by
      by_cases small : c.toNat < 0x10000 <;> simp [lowerFirst, small]
    have lowered :
        (lowerFirst [c]).all isNamePart = true ∧
          (lowerFirst [c]).head?.map isDigit = some (isDigit c) :=
      forall_isNamePart
        (fun c =>
          (lowerFirst [c]).all isNamePart = true ∧
            (lowerFirst [c]).head?.map isDigit = some (isDigit c))
        (by decide +kernel) parts.1
    rw [List.all_eq_true] at lowered
    rw [split]
    generalize lowerFirst [c] = front at lowered
    cases front with
    | nil => cases lowered.2
    | cons d more =>
      refine ⟨List.forall_mem_append.mpr ⟨lowered.1, parts.2⟩, (fun isNil => by cases isNil), ?_⟩
      exact Option.some.inj lowered.2

/-- Camel case makes identifiers of words that do not begin with a digit after underscores. -/
theorem camelCase_spec (isWord : IsWord name.toList) :
    (camelCase name).toList ≠ [] ∧
      (IsWord (camelCase name).toList ↔ digitLed name.toList = false) := by
  rcases isWord_iff.mp isWord with ⟨full, parts, -⟩
  rcases joinWords_spec parts 0 with ⟨joined, empty, digit⟩
  rcases lowerFirst_spec joined with ⟨lowered, none, same⟩
  have filled : (camelCase name).toList ≠ [] := by
    grind [camelCase, String.toList_ofList]
  refine ⟨filled, ?_⟩
  rw [isWord_iff, and_iff_right filled, camelCase, String.toList_ofList, same, digit]
  exact and_iff_right lowered

/-! ## Members of a field -/

theorem ofField_not_reserved (name : String) : ofField name ∉ reserved := by
  simp only [ofField, List.contains_iff_mem]
  by_cases isReserved : camelCase name ∈ reserved
  · have others : ∀ camel ∈ reserved, camel ++ "_" ∉ reserved := by decide
    grind
  · rwa [if_neg isReserved]

/-- Two names of which one takes the place of the other where camel case is reserved. -/
def Replaces (name other : String) : Prop :=
  camelCase other ∈ reserved ∧ camelCase name = camelCase other ++ "_"

theorem ofField_eq_iff :
    ofField name = ofField other ↔
      camelCase name = camelCase other ∨ Replaces name other ∨ Replaces other name := by
  simp only [ofField, Replaces, List.contains_iff_mem]
  by_cases fst : camelCase name ∈ reserved <;> by_cases snd : camelCase other ∈ reserved
  · have apart : ∀ camel ∈ reserved, ∀ next ∈ reserved, camel ≠ next ++ "_" := by decide
    simp [fst, snd, apart _ fst _ snd, apart _ snd _ fst]
  · grind
  · grind
  · simp [fst, snd]

/-- A member is the one of the field's name, with at most a word after it. -/
theorem exists_ending (mem : own ∈ tableMembers name ty tag) :
    ∃ ending ∈ ["", "Length", "Array", "Type"], own = ofField name ++ ending := by
  have all :
      tableMembers name ty tag ⊆ ["", "Length", "Array", "Type"].map (ofField name ++ ·) := by
    unfold tableMembers
    split <;> simp
  grind

theorem isWord_ofField_append (isWord : IsWord name.toList)
    (parts : ∀ part ∈ ending.toList, isNamePart part) :
    IsWord (ofField name ++ ending).toList ↔ digitLed name.toList = false := by
  rcases camelCase_spec isWord with ⟨full, exact_when⟩
  simp only [String.toList_append, ofField, List.contains_iff_mem]
  by_cases isReserved : camelCase name ∈ reserved
  · have parts : ∀ part ∈ "_".toList ++ ending.toList, isNamePart part :=
      List.forall_mem_append.mpr ⟨List.all_eq_true.mp (by decide), parts⟩
    rw [if_pos isReserved, String.toList_append, List.append_assoc, isWord_append full parts,
      exact_when]
  · rw [if_neg isReserved, isWord_append full parts, exact_when]

theorem tableMembers_spec (isWord : IsWord name.toList) (mem : own ∈ tableMembers name ty tag) :
    own ∉ reserved ∧ (IsWord own.toList ↔ digitLed name.toList = false) := by
  rcases exists_ending mem with ⟨ending, fits, rfl⟩
  constructor
  · intro isReserved
    have others :
        ∀ word ∈ reserved, ∀ ending ∈ ["Length", "Array", "Type"],
          ¬ ending.toList <:+ word.toList := by
      decide
    rcases List.mem_cons.mp fits with rfl | longer
    · rw [String.append_empty] at isReserved
      exact ofField_not_reserved name isReserved
    · grind [String.toList_append, List.suffix_append]
  · refine isWord_ofField_append isWord ?_
    have all : ∀ ending ∈ ["", "Length", "Array", "Type"], ending.toList.all isNamePart = true := by
      decide
    exact List.all_eq_true.mp (all ending fits)

end MemberName

/-! ## Members of a declaration -/

namespace Catalog

open MemberName

/-- The members of each field or method, after the name it has in the schema.  Deprecated fields of
tables have none. -/
def Body.members : Body → List (String × List String)
  | .table ty =>
    (ty.fields.filter fun f => !f.deprecated).map fun f => (f.name, f.members)
  | .struct ty => ty.fields.map fun f => (f.name, [ofField f.name])
  | .service ty => ty.methods.map fun method => (method.name, [camelCase method.name])
  | _ => []

/-- When two fields or methods share a member: never in tables. -/
def Body.Share (name other : String) : Body → Prop
  | .struct _ => camelCase name = camelCase other ∨ Replaces name other ∨ Replaces other name
  | .service _ => camelCase name = camelCase other
  | _ => False

theorem pairwise_members (keeps : Check.KeepsTable ctx enums ns raw ty) :
    (Body.table ty).members.Pairwise fun fst snd => fst.2.Disjoint snd.2 := by
  have names : (ty.fields.map TableField.name).Nodup := by
    rw [map_eq_of_forall₂ keeps.kept fun _ _ kept => kept.name_eq]
    exact keeps.nodup_names
  have apart := (List.pairwise_flatMap.mp keeps.members).2
  have live := (List.pairwise_map.mp names).filter fun f => !f.deprecated
  refine List.pairwise_map.mpr ((apart.and live).imp ?_)
  rintro fst snd ⟨same, ne⟩ own inFst inSnd
  exact ne (same _ (List.mem_map_of_mem inFst) _ (List.mem_map_of_mem inSnd) rfl)

/-- The names of fields and methods are words. -/
theorem isWord_of_members (keeps : Check.KeepsBody ctx sym raw body) (prints : raw.Printable)
    (mem : named ∈ body.members) : IsWord named.1.toList := by
  cases keeps with
  | enum | union => cases mem
  | struct kept =>
    rcases List.mem_map.mp mem with ⟨f, fits, rfl⟩
    rcases exists_mem_of_forall₂ kept.kept fits with ⟨own, written, keeps⟩
    rw [keeps.name_eq]
    exact (prints own written).name
  | table kept =>
    rcases List.mem_map.mp mem with ⟨f, live, rfl⟩
    rcases exists_mem_of_forall₂ kept.kept (List.mem_of_mem_filter live) with
      ⟨own, written, keeps⟩
    rw [keeps.name_eq]
    exact (prints own written).name
  | service kept =>
    rcases List.mem_map.mp mem with ⟨method, fits, rfl⟩
    rcases exists_mem_of_forall₂ kept fits with ⟨own, written, keeps⟩
    rw [keeps.name_eq]
    exact (prints own written).name.1

/-- A member of a word is an identifier unless a digit leads the word, and not reserved. -/
theorem mem_members (isWord : IsWord named.1.toList) (mem : named ∈ Body.members body)
    (ofName : own ∈ named.2) :
    (IsWord own.toList ↔ digitLed named.1.toList = false) ∧
      (body.kind ≠ .service → own ∉ reserved) := by
  cases body with
  | enum | union => cases mem
  | struct ty =>
    rcases List.mem_map.mp mem with ⟨f, _, rfl⟩
    have ofName : own ∈ tableMembers f.name .string none := ofName
    grind [tableMembers_spec]
  | table ty =>
    rcases List.mem_map.mp mem with ⟨f, _, rfl⟩
    rcases tableMembers_spec isWord ofName with ⟨free, exact_when⟩
    exact ⟨exact_when, fun _ => free⟩
  | service ty =>
    rcases List.mem_map.mp mem with ⟨method, _, rfl⟩
    rw [List.mem_singleton.mp ofName]
    exact ⟨(camelCase_spec isWord).2, fun other => absurd rfl other⟩

theorem disjoint_members_iff (keeps : Check.KeepsBody ctx sym raw body) :
    (body.members.Pairwise fun fst snd => fst.2.Disjoint snd.2) ↔
      body.members.Pairwise fun fst snd => ¬ body.Share fst.1 snd.1 := by
  have single (fst snd : String) : [fst].Disjoint [snd] ↔ ¬ fst = snd := by
    simp [eq_comm]
  cases keeps with
  | enum | union => exact ⟨fun _ => .nil, fun _ => .nil⟩
  | table kept =>
    exact iff_of_true (pairwise_members kept) (List.pairwise_of_forall fun _ _ => id)
  | struct => simp only [Body.members, Body.Share, List.pairwise_map, single, ofField_eq_iff]
  | service => simp only [Body.members, Body.Share, List.pairwise_map, single]

/-- In a catalog that was accepted for texts, a member of a declaration is an identifier unless its
name begins with a digit after underscores; those of tables and structs are not reserved; and
members of different fields or methods differ, for tables always, for structs unless two names have
one camel case or one takes the place of the other, for services unless two have one camel case. -/
theorem members_usable_iff
    (parsed : ∀ schema ∈ schemas, ∃ source : Source, source.parse.schema = some schema)
    (accepted :
      (ofSymbols schemas (SymbolTable.ofSchemas schemas).value entry earlier).value =
        .accepted catalog) (member : declared ∈ catalog.entries) :
    (∀ named ∈ declared.body.members, ∀ own ∈ named.2,
        (IsWord own.toList ↔ digitLed named.1.toList = false) ∧
          (declared.body.kind ≠ .service → own ∉ reserved)) ∧
      ((declared.body.members.Pairwise fun first second => first.2.Disjoint second.2) ↔
        declared.body.members.Pairwise fun first second =>
          ¬ declared.body.Share first.1 second.1) := by
  rcases List.getElem?_of_mem member with ⟨place, stands⟩
  have keeps := keeps_of_accepted accepted
  rcases exists_of_forall₂_right keeps.entries stands with ⟨symbol, written, body, rfl, kept⟩
  have legible := SymbolTable.legible_of_parsed parsed (List.mem_of_getElem? written)
  refine ⟨?_, disjoint_members_iff kept⟩
  intro named inside own ofName
  exact mem_members (isWord_of_members kept legible.printable.body inside) inside ofName

end Catalog

/-- A table with a vector and a field of a reserved name. -/
def reservedSource : Source :=
  ⟨"reserved.fbs", "table T\x7bkey_list:[int];bb:int;\x7d"⟩

theorem members_usable_reserved :
    ∃ schema catalog declared,
      reservedSource.accepted? = some (schema, catalog) ∧ catalog.entries = [declared] ∧
        declared.body.members =
          [("key_list", ["keyList", "keyListLength", "keyListArray"]), ("bb", ["bb_"])] ∧
        (∀ named ∈ declared.body.members, ∀ own ∈ named.2,
          IsWord own.toList ∧ own ∉ MemberName.reserved) ∧
        declared.body.members.Pairwise fun first second => first.2.Disjoint second.2 := by
  have evaluated :
      (reservedSource.accepted?.map fun (_, catalog) =>
        catalog.entries.map fun declared => (declared.body.kind, declared.body.members)) =
        some [(.table, [("key_list", ["keyList", "keyListLength", "keyListArray"]),
          ("bb", ["bb_"])])] := by
    decide +kernel
  rcases Option.map_eq_some_iff.mp evaluated with ⟨⟨schema, catalog⟩, found, values⟩
  rcases List.map_eq_singleton_iff.mp values with ⟨declared, only, value⟩
  rcases Prod.mk.inj value with ⟨isTable, listed⟩
  rcases Source.of_accepted? found with ⟨parsed, accepted⟩
  have read : ∀ own ∈ [schema], ∃ source : Source, source.parse.schema = some own := by
    intro own member
    rw [List.mem_singleton.mp member]
    exact ⟨reservedSource, parsed⟩
  have usable := Catalog.members_usable_iff read accepted (only ▸ List.mem_singleton_self declared)
  refine ⟨schema, catalog, declared, found, only, listed, ?_, usable.2.mpr ?_⟩
  · intro named inside own ofName
    rcases usable.1 named inside own ofName with ⟨identifier, free⟩
    rw [listed] at inside
    refine ⟨identifier.mpr ?_, free (by rw [isTable]; decide)⟩
    have led : ∀ named ∈ [("key_list", ["keyList", "keyListLength", "keyListArray"]),
        ("bb", ["bb_"])], MemberName.digitLed named.1.toList = false := by
      decide
    exact led named inside
  · cases body : declared.body with
    | table => exact List.pairwise_of_forall fun _ _ => id
    | enum | union | struct | service => simp [body, Catalog.Body.kind] at isTable

/-- A struct with two names of one camel case, and a table with a digit after an underscore. -/
def sharedSource : Source :=
  ⟨"shared.fbs", "struct S\x7ba_b:int;aB:int;\x7dtable T\x7b_1:int;\x7d"⟩

theorem members_shared :
    ∃ schema catalog,
      sharedSource.accepted? = some (schema, catalog) ∧
        (catalog.entries.map fun declared => declared.body.members) =
          [[("a_b", ["aB"]), ("aB", ["aB"])], [("_1", ["1"])]] ∧ ¬ IsWord "1".toList := by
  have evaluated :
      (sharedSource.accepted?.map fun (_, catalog) =>
        catalog.entries.map fun declared => declared.body.members) =
        some [[("a_b", ["aB"]), ("aB", ["aB"])], [("_1", ["1"])]] := by
    decide +kernel
  rcases Option.map_eq_some_iff.mp evaluated with ⟨⟨schema, catalog⟩, found, values⟩
  refine ⟨schema, catalog, found, values, ?_⟩
  rw [MemberName.isWord_iff]
  rintro ⟨_, _, starts⟩
  exact absurd starts (by decide)

end FlatSchema
