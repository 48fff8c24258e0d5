import FlatSchema.Proofs.Writing

/-!
# Writing vectors and strings

A vector is opened so that its length will stand right before its elements,
without a gap, and so that the elements are aligned.  `OpenVector` is what
opening promises for the bytes that are still to come, and `ClosedVector` what
stands in the end.
-/

namespace FlatSchema

variable {res : Unit} {off : Int}

open Builder

namespace Builder

/-- A vector of a number of elements that take so many bytes together has been opened. -/
structure OpenVector (pre : Builder Int) (n size align : Nat) (opened : Builder Int) : Prop where
  valid : opened.Valid
  padded : ∃ zeros, opened.written = List.replicate zeros 0 ++ pre.written
  setting_eq : opened.setting = { pre.setting with vectorCount := n, nested := true }
  offset_le : pre.offset ≤ opened.offset
  room : (size : Int) ≤ opened.space
  wordAligned : ((opened.written.length : Int) + size) % 4 = 0
  aligned : ((opened.written.length : Int) + size) % align = 0

/-- A vector stands before all that was there. -/
structure ClosedVector (pre : Builder Int) (n : Nat) (elems : List UInt8) (off : Int)
    (post : Builder Int) : Prop where
  valid : post.Valid
  isSuffix : pre.written <:+ post.written
  setting_eq : post.setting = { pre.setting with vectorCount := n, nested := false }
  offset_eq : off = post.written.length
  stands : Stands post.written off (littleEndian 4 (Extent.word (n : Int)).toNat ++ elems)

theorem OpenVector.isSuffix (opens : OpenVector pre n size align opened) :
    pre.written <:+ opened.written := by
  grind [padded]

/-- Padding to an alignment after a multiple of the word leaves a multiple of the word. -/
theorem emod_word_of_padding {n align : Nat}
    (aligned : StructLayout.IsAlignment align) (word : (len + extra) % 4 = 0)
    (padded : (n : Int) = -(len + extra) % align) : ((n : Int) + len + extra) % 4 = 0 := by
  have multiple : (4 : Int) ∣ len + extra := Int.dvd_of_emod_eq_zero word
  apply Int.emod_eq_zero_of_dvd
  rcases Nat.le_total align 4 with below | above
  · -- The alignment divides the word, so the padding is empty.
    have dvd : (align : Int) ∣ 4 := by
      exact_mod_cast aligned.dvd Build.isAlignment_four below
    have none := Int.emod_eq_zero_of_dvd (Int.dvd_neg.mpr (dvd.trans multiple))
    grind
  · have dvd : (4 : Int) ∣ align := by
      exact_mod_cast Build.isAlignment_four.dvd aligned above
    exact dvd.trans (Int.dvd_of_emod_eq_zero (Build.emod_of_padding padded))

end Builder

namespace Build

variable {pre mid post : Builder Int}

/-- Nothing is begun while an object is open. -/
theorem assertNotNested_bind
    {done : α → Builder Int → Prop} {stops : WireError → Builder Int → Prop}
    (nested : pre.nested = true → stops .objectOpen pre)
    (next : pre.nested = false → Ensures (tail ()) pre done stops) :
    Ensures (assertNotNested >>= tail) pre done stops := by
  rw [assertNotNested, bind_assoc]
  refine .get_bind ?_
  cases isOpen : pre.nested with
  | true => exact .throw_bind (nested isOpen)
  | false => exact next isOpen

/-- Opening a vector makes room so that nothing comes between its length and its elements. -/
theorem startVector_ends {align : Nat} (width n : Nat) (aligned : StructLayout.IsAlignment align)
    (bounded : pre.Bounded) :
    Ensures (startVector (width : Int) n align) pre
      (fun _ post => OpenVector pre n (width * n) align post)
      fun err post => pre.nested = true ∨ IsFull err post := by
  have counted : ({ pre with vectorCount := (n : Int) } : Builder Int).Bounded :=
    bounded.of_setting rfl rfl rfl (Int.le_refl _)
  refine assertNotNested_bind .inl fun _ => .modify_bind ?_
  refine (@prep_aligned _ 4 (width * n) (isPower_of_isAlignment isAlignment_four) counted).bind
    (fun _ _ full => .inr full.1) ?_
  rintro _ worded ⟨n₁, exact₁, padded₁, further, _, _⟩
  refine (@prep_aligned _ align (width * n) (isPower_of_isAlignment aligned)
    padded₁.valid.toBounded).bind (fun _ _ full => .inr full.1) ?_
  rintro _ spaced ⟨n₂, exact₂, padded₂, beyond, room, _⟩
  rw [padded₁.valid.gap_eq] at padded₂
  rw [padded₁.valid.offset_eq] at exact₂
  have mod₁ := emod_of_padding exact₁
  rw [Int.add_comm (n₁ : Int), ← further, padded₁.valid.offset_eq] at mod₁
  have length₂ := padded₂.length_eq
  rw [List.length_replicate] at length₂
  have padded := padded₁.trans padded₂
  rw [List.replicate_append_replicate] at padded
  have openedValid : ({ spaced with nested := true } : Builder Int).Valid :=
    padded₂.valid.of_setting rfl rfl rfl (Int.le_refl _)
  refine .modify ⟨openedValid, ⟨_, padded.bytes_eq⟩, ?_, ?_, ?_, ?_, ?_⟩
  · exact congrArg (fun setting => { setting with nested := true }) padded.setting_eq
  · grind [written, StructLayout.IsAlignment, Builder.offset]
  · grind
  · show ((spaced.written.length : Int) + (width * n : Nat)) % 4 = 0
    rw [length₂]
    exact emod_word_of_padding aligned mod₁ exact₂
  · show ((spaced.written.length : Int) + (width * n : Nat)) % align = 0
    rw [length₂]
    exact emod_of_padding exact₂

/-- Ending a vector puts the number of its elements. -/
theorem endVector_ends (bounded : pre.Bounded) (isOpen : pre.nested = true) :
    Ensures endVector pre
      (fun off post =>
        off = post.offset ∧
          ∃ n : Nat,
            (n : Int) = -pre.offset % 4 ∧
              Appends { pre with nested := false }
                (littleEndian 4 (Extent.word pre.vectorCount).toNat ++
                  List.replicate (n + (-pre.space).toNat) 0) post)
      IsFull := by
  have closing : ({ pre with nested := false } : Builder Int).Bounded :=
    bounded.of_setting rfl rfl rfl (Int.le_refl _)
  refine .get_bind ?_
  rw [if_pos isOpen]
  refine .modify_bind (.get_bind ((addWord_ends isAlignment_four closing _).bind
    (fun _ _ full => full.1) ?_))
  rintro _ post ⟨n, padded, put, _⟩
  exact .get_bind (.pure ⟨rfl, n, padded, put⟩)

theorem closeVector_ends (opened : OpenVector pre n size align mid)
    (raw : Appends mid elems full) (len : elems.length = size) :
    Ensures endVector full
      (fun off post =>
        ClosedVector pre n elems off post ∧
          post.written = littleEndian 4 (Extent.word (n : Int)).toNat ++ full.written)
      IsFull := by
  have filledSetting := raw.setting_eq.trans opened.setting_eq
  have counted : full.vectorCount = n := congrArg Setting.vectorCount filledSetting
  refine (endVector_ends raw.valid.toBounded (congrArg Setting.nested filledSetting)).mono
    (fun _ _ full => full) ?_
  rintro _ post ⟨rfl, gap, padded, put⟩
  have total := raw.length_eq
  have mod := opened.wordAligned
  rw [raw.valid.offset_eq] at padded
  rw [raw.valid.gap_eq, show gap = 0 by omega, List.replicate_zero, List.append_nil] at put
  have bytes_eq :
      post.written = littleEndian 4 (Extent.word full.vectorCount).toNat ++ full.written :=
    put.bytes_eq
  rw [counted] at bytes_eq
  refine ⟨⟨put.valid, ?_, ?_, put.valid.offset_eq, ?_⟩, bytes_eq⟩
  · exact opened.isSuffix.trans (raw.isSuffix.trans put.isSuffix)
  · have kept := congrArg (fun setting => { setting with nested := false }) filledSetting
    exact put.setting_eq.trans kept
  · rw [put.valid.offset_eq, bytes_eq, raw.bytes_eq, ← List.append_assoc]
    exact .front _ _

/-- A vector stands with its length before it, if its elements are put once it is open. -/
theorem vector_ends
    {holds : Builder Int → List UInt8 → Builder Int → Prop} {stops : WireError → Builder Int → Prop}
    (aligned : StructLayout.IsAlignment align) (bounded : pre.Bounded)
    (fails : ∀ err s, pre.nested = true ∨ IsFull err s → stops err s)
    (fill :
      ∀ opened, OpenVector pre n (width * n) align opened →
        Ensures elems opened
          (fun _ full =>
            ∃ chunk, chunk.length = width * n ∧ Appends opened chunk full ∧
              holds opened chunk full) stops) :
    Ensures
      (do
        startVector (width : Int) n align
        elems
        endVector)
      pre
      (fun off post =>
        ∃ opened chunk full,
          OpenVector pre n (width * n) align opened ∧ Appends opened chunk full ∧
            holds opened chunk full ∧ ClosedVector pre n chunk off post ∧
            post.written = littleEndian 4 (Extent.word (n : Int)).toNat ++ full.written)
      stops := by
  refine (startVector_ends width n aligned bounded).bind fails fun _ opened lead => ?_
  refine (fill opened lead).andThen ?_
  rintro _ full ⟨chunk, len, raw, held⟩
  exact (closeVector_ends lead raw len).mono (fun _ _ exceeds => fails _ _ (.inr exceeds))
    fun _ _ closed => ⟨opened, chunk, full, lead, raw, held, closed⟩

/-- A string is a vector of its bytes, with a zero behind them. -/
theorem createString_ends (content : List UInt8) (bounded : pre.Bounded) :
    Ensures (createString content) pre
      (fun off post =>
        ClosedVector pre content.length content off post ∧
          Stands post.written off
            (littleEndian 4 (Extent.word (content.length : Int)).toNat ++ (content ++ [0])))
      fun err post => pre.nested = true ∨ IsFull err post := by
  have enc : ScalarKind.uint8.encode? (.number Double.zero) = some [0] := by decide +kernel
  refine (addScalar_ends .uint8 (.number Double.zero) bounded).bind (fun _ _ failed => .inr ?_) ?_
  · rw [enc] at failed
    exact (failed.resolve_left (by simp)).1
  rintro _ ended ⟨_, _, _, _, stored, appended, _⟩
  cases enc.symm.trans stored
  have setting := appended.setting_eq
  refine (@vector_ends _ 1 content.length 1 (put content)
    (fun _ chunk _ => chunk = content) _ StructLayout.isAlignment_one appended.valid.toBounded
    (fun _ _ failed => failed) fun opened lead => ?_).mono (fun _ _ failed => ?_) ?_
  · have room := lead.room
    exact (put_ends content lead.valid).mono (fun _ _ lacking => by omega)
      fun _ _ put => ⟨content, (Nat.one_mul _).symm, put.1, rfl⟩
  · rw [show ended.nested = pre.nested from congrArg Setting.nested setting] at failed
    exact failed
  rintro _ post ⟨opened, _, full, lead, raw, rfl, vector, bytes_eq⟩
  refine ⟨⟨vector.valid, appended.isSuffix.trans vector.isSuffix, ?_, vector.offset_eq,
    vector.stands⟩, ?_⟩
  · rw [vector.setting_eq, setting]
  · -- Whether zeros align the length or not, the byte behind the content is one.
    have behind : ∃ rest, opened.written = 0 :: rest := by
      rcases lead.padded with ⟨zeros, opened_eq⟩
      rw [appended.bytes_eq] at opened_eq
      cases zeros with
      | zero => exact ⟨_, opened_eq⟩
      | succ zeros => exact ⟨_, opened_eq⟩
    rcases behind with ⟨rest, opened_eq⟩
    rw [vector.offset_eq, bytes_eq, raw.bytes_eq, opened_eq, List.append_cons, ← List.append_assoc]
    exact .front _ _

/-! ## Elements -/

/-- Chunks of one length take as many times that length as there are chunks. -/
theorem length_flatten_of_forall₂ {rel : α → List UInt8 → Prop}
    (all : List.Forall₂ rel vs chunks) (sized : ∀ v chunk, rel v chunk → chunk.length = size) :
    chunks.flatten.length = size * vs.length := by
  induction all with
  | nil => rfl
  | cons hd _ ih =>
    grind

/-- Scalars that are written last first stand in order, each in the bytes of its kind. -/
theorem writeScalars_ends {vs : List ScalarValue} (kind : ScalarKind) (valid : pre.Valid)
    (room : (kind.size * vs.length : Nat) ≤ pre.space) :
    Ensures (vs.reverse.forM (writeScalar kind)) pre
      (fun _ post =>
        ∃ chunks,
          List.Forall₂ (fun v chunk => kind.encode? v = some chunk) vs chunks ∧
            Appends pre chunks.flatten post) fun _ _ => ∃ v ∈ vs, kind.encode? v = none := by
  induction vs with
  | nil => exact .pure ⟨[], .nil, .refl valid⟩
  | cons hd rest ih =>
    rw [List.length_cons, Nat.mul_succ] at room
    refine .reverse_forM_cons ((ih (by omega)).mono ?_ fun _ _ done => done) ?_
    · grind
    rintro mid ⟨chunks, enc, appended⟩
    have size := length_flatten_of_forall₂ enc fun _ _ => ScalarKind.length_of_encode
    have len := appended.length_eq
    have larger := appended.capacity_le
    have old := valid.space_eq
    have new := appended.valid.space_eq
    refine (writeScalar_ends kind hd appended.valid).mono (fun _ _ failed => ?_) ?_
    · exact ⟨hd, List.mem_cons_self, failed.resolve_right (by omega)⟩
    · rintro _ post ⟨chunk, firstEncoded, put⟩
      exact ⟨chunk :: chunks, .cons firstEncoded enc, appended.trans put⟩

/-- References that are written last first from a multiple of four stand in order, each with the
distance to its target. -/
theorem addOffsets_ends {targets : List Int} (nonneg : ∀ target ∈ targets, 0 ≤ target)
    (valid : pre.Valid) (aligned : (pre.written.length : Int) % 4 = 0) :
    Ensures (targets.reverse.forM addOffset) pre
      (fun _ post =>
        ∃ forwards : List Nat,
          forwards.length = targets.length ∧
            Appends pre (forwards.map (littleEndian 4)).flatten post ∧
            (post.written.length : Int) % 4 = 0 ∧
            ∀ (i : Nat) (target : Int) (forward : Nat),
              targets[i]? = some target → forwards[i]? = some forward →
              (forward : Int) = post.written.length - 4 * i - target)
      fun err post => (∃ target ∈ targets, pre.offset < target) ∨ IsFull err post := by
  induction targets with
  | nil => exact .pure ⟨[], rfl, .refl valid, aligned, by simp⟩
  | cons hd rest ih =>
    have others := ih fun target mem => nonneg target (List.mem_cons_of_mem _ mem)
    refine .reverse_forM_cons (others.mono ?_ fun _ _ done => done) ?_
    · grind
    rintro mid ⟨forwards, n, appended, multiple, distances⟩
    have longer := appended.isSuffix.length_le
    have first := valid.offset_eq
    have next := appended.valid.offset_eq
    refine (addOffset_ends hd appended.valid.toBounded).mono (fun _ _ failed => ?_) ?_
    · exact failed.imp_left fun ahead => ⟨hd, List.mem_cons_self, by omega⟩
    rintro _ post ⟨padding, forward, padded, put, far, _⟩
    have gapless : padding = 0 := by omega
    subst gapless
    rw [appended.valid.gap_eq, List.replicate_zero, List.append_nil] at put
    have len := put.length_eq
    rw [length_littleEndian] at len
    refine ⟨forward :: forwards, ?_, appended.trans put, ?_, ?_⟩
    · rw [List.length_cons, List.length_cons, n]
    · omega
    · intro i target hit standsFor referred
      cases i with
      | zero =>
        grind
      | succ i =>
        grind

/-- A vector of references stands with its length before it. -/
theorem createOffsetVector_ends {targets : List Int} (nonneg : ∀ target ∈ targets, 0 ≤ target)
    (bounded : pre.Bounded) :
    Ensures (createOffsetVector targets) pre
      (fun off post =>
        ∃ forwards : List Nat,
          forwards.length = targets.length ∧
            ClosedVector pre targets.length (forwards.map (littleEndian 4)).flatten off post ∧
            ∀ (i : Nat) (target : Int) (forward : Nat),
              targets[i]? = some target → forwards[i]? = some forward →
              (forward : Int) = off - 4 - 4 * i - target)
      fun err post =>
        pre.nested = true ∨ (∃ target ∈ targets, pre.offset < target) ∨ IsFull err post := by
  refine (@vector_ends _ 4 targets.length 4 _
    (fun _ chunk full => ∃ forwards : List Nat, forwards.length = targets.length ∧
      chunk = (forwards.map (littleEndian 4)).flatten ∧
      ∀ (i : Nat) (target : Int) (forward : Nat),
        targets[i]? = some target → forwards[i]? = some forward →
        (forward : Int) = full.written.length - 4 * i - target) _ isAlignment_four bounded
    (fun _ _ failed => failed.imp_right .inr) fun opened lead => ?_).imp ?_
  · have multiple := lead.wordAligned
    refine (addOffsets_ends nonneg lead.valid (by omega)).mono (fun _ _ failed => .inr ?_) ?_
    · have further := lead.offset_le
      grind
    rintro _ full ⟨forwards, n, appended, _, distances⟩
    refine ⟨_, ?_, appended, forwards, n, rfl, distances⟩
    rw [← n, List.length_flatten, List.map_map]
    simp only [Function.comp_def, length_littleEndian, List.map_const', List.sum_replicate_nat]
    exact Nat.mul_comm _ _
  grind [ClosedVector.offset_eq, length_littleEndian, List.length_append]

theorem createScalarVector_ends (kind : ScalarKind) (vs : List ScalarValue)
    (bounded : pre.Bounded) :
    Ensures (createScalarVector kind vs) pre
      (fun off post =>
        ∃ chunks,
          List.Forall₂ (fun v chunk => kind.encode? v = some chunk) vs chunks ∧
            ClosedVector pre vs.length chunks.flatten off post)
      fun err post => pre.nested = true ∨ (∃ v ∈ vs, kind.encode? v = none) ∨ IsFull err post := by
  refine (@vector_ends _ kind.size vs.length kind.size _
    (fun _ chunk _ => ∃ chunks, chunk = chunks.flatten ∧
      List.Forall₂ (fun v chunk => kind.encode? v = some chunk) vs chunks) _
    (StructLayout.isAlignment_scalarSize kind) bounded
    (fun _ _ failed => failed.imp_right .inr) fun opened lead => ?_).imp ?_
  · refine (writeScalars_ends kind lead.valid lead.room).mono
      (fun _ _ other => .inr (.inl other)) ?_
    grind [length_flatten_of_forall₂, ScalarKind.length_of_encode]
  grind

end Build

end FlatSchema
