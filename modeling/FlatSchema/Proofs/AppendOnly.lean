import FlatSchema.Proofs.Calls

/-!
# Builders only append

A builder writes before what it has written, and its room grows at the same
end.  So the bytes that stand within its offset, counted from the end of the
room, are the same after every call, also after one that fails, and an offset
that was handed out goes on designating the same bytes.

The one step that writes behind the position is the reference from a table to
its vtable.  It takes the place of zeros that ending the table has put there.
-/

namespace FlatSchema

namespace Tape

/-- What is put at a distance leaves everything nearer to the end. -/
theorem last_place_of_near (tape : Tape) (nearer : near ≤ gap) (more : List UInt8) :
    (tape.place gap more).last near = tape.last near := by
  have place := (tape.place gap more).drop_last gap (gap - near)
  grind [drop_last, last_place]

end Tape

namespace Builder

/-- Everything within the offset of a builder stays where it is, counted from the end. -/
structure Keeps (before post : Builder Int) : Prop where
  offset_le : before.offset ≤ post.offset
  capacity_le : before.capacity ≤ post.capacity
  last_eq :
    ∀ gap : Nat, (gap : Int) ≤ before.offset → gap ≤ before.capacity →
      post.tape.last gap = before.tape.last gap

variable {before mid post : Builder Int}

theorem Keeps.refl (b : Builder Int) : Keeps b b :=
  ⟨Int.le_refl _, Nat.le_refl _, fun _ _ _ => rfl⟩

theorem Keeps.trans (fst : Keeps before mid) (snd : Keeps mid post) : Keeps before post where
  offset_le := Int.le_trans fst.offset_le snd.offset_le
  capacity_le := Nat.le_trans fst.capacity_le snd.capacity_le
  last_eq := by
    intro gap reached fits
    have further := snd.last_eq gap (Int.le_trans reached fst.offset_le)
      (Nat.le_trans fits fst.capacity_le)
    exact further.trans (fst.last_eq gap reached fits)

/-- A change of the marks of a builder. -/
theorem Keeps.mark (keeps : Keeps before mid) (tape_eq : post.tape = mid.tape)
    (capacity_eq : post.capacity = mid.capacity) (space_eq : post.space = mid.space) :
    Keeps before post := by
  refine keeps.trans ⟨?_, ?_, ?_⟩
  · rw [offset, offset, capacity_eq, space_eq]
  · rw [capacity_eq]
  · intro gap _ _
    rw [tape_eq]

/-- What was written before stays the end of what is written. -/
theorem Keeps.isSuffix (keeps : Keeps before post) (valid : before.Valid) :
    before.written <:+ post.written := by
  have behind := valid.offset_eq
  have further := keeps.offset_le
  have larger := keeps.capacity_le
  have inside := length_written_le before
  have own : before.tape.last before.written.length = before.written := by
    rw [length_written, ← written_eq]
  have nearer : before.written.length ≤ post.capacity - post.space.toNat := by
    simp only [offset, Extent.ofInt_int] at behind further
    omega
  rw [← own, ← keeps.last_eq _ (by omega) inside, post.written_eq]
  exact post.tape.last_suffix nearer

/-- Growing adds as much to the room as to the free room. -/
theorem grown_adds (cap : Nat) (space needed : Int) :
    ((grown cap space needed).1 : Int) - (grown cap space needed).2 = cap - space ∧
      cap ≤ (grown cap space needed).1 := by
  fun_induction grown cap space needed with
  | case1 cap space _ _ ih =>
    rw [Extent.ofInt_int] at ih ⊢
    omega
  | case2 => exact ⟨rfl, Nat.le_refl _⟩
  | case3 => exact ⟨rfl, Nat.le_refl _⟩

end Builder

open Builder

namespace Build

variable {src before post : Builder Int}

/-- Bytes are put before everything within the offset; without room for them the position moves
alone. -/
theorem keeps_put (before : Builder Int) (bs : List UInt8) :
    Upholds (Keeps before) (put bs) before := by
  refine .get_bind ?_
  dsimp only
  split
  · next gap hit =>
      rcases distance?_eq_some hit with ⟨room, _, nearest⟩
      show Keeps before
        { before with
          space := before.space - bs.length
          tape := before.tape.place gap bs }
      refine ⟨?_, Nat.le_refl _, ?_⟩
      · simp only [Builder.offset, Extent.ofInt_int]
        omega
      grind [Tape.last_place_of_near, Extent.ofInt_int, Builder.offset]
  · show Keeps before { before with space := before.space - bs.length }
    refine ⟨?_, Nat.le_refl _, fun _ _ _ => rfl⟩
    simp only [Builder.offset, Extent.ofInt_int]
    omega

theorem keeps_reserve (before : Builder Int) (needed : Int) :
    Upholds (Keeps before) (reserve needed) before := by
  refine .get_bind ?_
  rcases grown_adds before.capacity before.space needed with ⟨offset_eq, larger⟩
  have grown :
      Keeps before
        { before with
          capacity := (grown before.capacity before.space needed).1
          space := (grown before.capacity before.space needed).2 } := by
    refine ⟨?_, larger, fun _ _ _ => rfl⟩
    simp only [Builder.offset, Extent.ofInt_int]
    omega
  refine Upholds.bind grown fun _ mid _ left => ?_
  exact Preserves.ite (.throw _) (.pure _) mid left

theorem stable_keeps (src : Builder Int) : Stable (Keeps src) where
  put := fun bs s keeps => keeps.trans (keeps_put s bs)
  reserve := fun needed s keeps => keeps.trans (keeps_reserve s needed)
  scalar := fun _ => trivial
  raise := fun _ _ _ keeps _ => keeps.mark rfl rfl rfl
  count := fun _ _ keeps => keeps.mark rfl rfl rfl
  nest := fun _ _ keeps => keeps.mark rfl rfl rfl
  mark := fun _ keeps => keeps.mark rfl rfl rfl

/-! ## Tables -/

/-- Bytes that are put move the offset by their number. -/
theorem offset_of_put (ran : Yields (put bs) before res post) :
    post.offset = before.offset + bs.length := by
  simp only [put, Yields.get_bind_iff] at ran
  split at ran
  · rw [Yields.set_iff] at ran
    subst ran
    simp only [Builder.offset, Extent.ofInt_int]
    omega
  · grind [Yields.bind_iff, Yields.throw_iff]

theorem offset_of_addWord (ran : Yields (addWord width v) before res post) :
    before.offset + width ≤ post.offset := by
  rw [addWord, Yields.bind_iff] at ran
  rcases ran with ⟨_, mid, prepared, raw⟩
  have further := ((stable_keeps before).prep trivial _ before (.refl before)).of_yields prepared
  have moved := offset_of_put raw
  rw [length_littleEndian] at moved
  have offset_le := further.offset_le
  omega

theorem keeps_vtable (words : List Int) : Preserves (Keeps src) (vtable words) := by
  refine .get_bind fun s => ?_
  split
  · exact .pure _
  · refine .bind (.forM fun word _ => (stable_keeps src).addWord trivial word) fun _ => ?_
    exact fun _ keeps => keeps.mark rfl rfl rfl

theorem keeps_replace (keeps : Keeps src before)
    (beyond : src.offset + bs.length ≤ obj) : Upholds (Keeps src) (replace obj bs) before := by
  refine .get_bind ?_
  split
  · next gap hit =>
      rcases distance?_eq_some hit with ⟨_, _, nearest⟩
      rw [Extent.ofInt_int] at nearest
      refine ⟨keeps.offset_le, keeps.capacity_le, ?_⟩
      intro near reached fits
      rw [← keeps.last_eq near reached fits]
      exact before.tape.last_place_of_near (by omega) bs
  · exact keeps

/-- Ending a table writes behind the position only what it has put there itself. -/
theorem keeps_endTable : Preserves (Keeps src) (endTable : Build Int Int) := by
  intro before keeps
  refine .get_bind (.get_bind ?_)
  split
  · refine .bind ((stable_keeps src).addWord trivial _ before keeps) fun _ begun worded kept => ?_
    have moved := offset_of_addWord worded
    have offset_le := keeps.offset_le
    rw [Build.offset, bind_assoc]
    refine .get_bind ?_
    rw [pure_bind]
    refine .get_bind (.bind (keeps_vtable _ begun kept) fun vt listed _ keptListed => ?_)
    refine .bind (keeps_replace keptListed ?_) fun _ referring _ keptReferring => ?_
    · rw [length_littleEndian]
      omega
    · exact keptReferring.mark rfl rfl rfl
  · exact keeps

theorem stableTables_keeps (src : Builder Int) : StableTables (Keeps src) where
  toStableVectorsFor := (stable_keeps src).vectors
  startTable := preserves_startTable fun _ _ keeps => keeps.mark rfl rfl rfl
  slot := preserves_slot fun _ _ _ keeps _ => keeps.mark rfl rfl rfl
  endTable := keeps_endTable

namespace Call

theorem keeps_afterAll (calls : List Call) (before : Builder Int) :
    Keeps before (afterAll calls before) :=
  preserves_afterAll (stableTables_keeps before) calls (fun _ _ _ _ => trivial) (.refl before)

/-- Calls move no byte that stands within the offset and the room of a builder, counted from the
end, and never take the offset back, whether they succeed or fail.  So what an offset designates
stays the same. -/
theorem append_only (calls : List Call) (before : Builder Int) :
    before.offset ≤ (afterAll calls before).offset ∧
      before.capacity ≤ (afterAll calls before).capacity ∧
      ∀ distance : Nat, (distance : Int) ≤ before.offset → distance ≤ before.capacity →
        (afterAll calls before).memory.drop ((afterAll calls before).capacity - distance) =
          before.memory.drop (before.capacity - distance) := by
  have keeps := keeps_afterAll calls before
  refine ⟨keeps.offset_le, keeps.capacity_le, ?_⟩
  intro distance reached inside
  have larger := keeps.capacity_le
  rw [memory, memory, Tape.drop_last, Tape.drop_last, Nat.sub_sub_self inside,
    Nat.sub_sub_self (Nat.le_trans inside larger)]
  exact keeps.last_eq distance reached inside

/-- A builder without spare room that holds a word. -/
def wordBuilder : Builder Int :=
  (addScalar .int32 (.number (Double.ofInt 258))).after (start 1 false)

/-- A vector whose writer fails after it has written. -/
def brokenVector : Call :=
  .createStructVector 8 8 [[.prep 8 8, .writeScalar .int64 (.wide 5), .slot 0]]

/-- A vector that fails has let the room grow and has written, and the word stands as before. -/
theorem append_only_brokenVector :
    brokenVector.outcome wordBuilder = .error .fieldOutsideTable ∧
      wordBuilder.capacity = 4 ∧ (brokenVector.after wordBuilder).capacity = 32 ∧
      (brokenVector.after wordBuilder).offset = 16 ∧
      (brokenVector.after wordBuilder).memory.drop 28 = [2, 1, 0, 0] := by
  have offset : wordBuilder.offset = 4 := by decide +kernel
  have capacity : wordBuilder.capacity = 4 := by decide +kernel
  have grown : (brokenVector.after wordBuilder).capacity = 32 := by decide +kernel
  have kept := (append_only [brokenVector] wordBuilder).2.2 4 (by omega) (by omega)
  have single : afterAll [brokenVector] wordBuilder = brokenVector.after wordBuilder := rfl
  rw [single, grown] at kept
  exact ⟨by decide +kernel, capacity, grown, by decide +kernel, kept.trans (by decide +kernel)⟩

end Call

end Build

end FlatSchema
