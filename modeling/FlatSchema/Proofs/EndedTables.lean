import FlatSchema.Proofs.AppendOnly
import FlatSchema.Proofs.VtableWords

/-!
# Tables that have been ended

Wherever a builder stands, a table that it has ended refers to a vtable that
stands in what has been written, with more bytes behind it.  So a look into
the vtable of such a table stays inside what has been written, at any place
that the stored size of the vtable admits, and finds the same however many
bytes come before.
-/

namespace FlatSchema

open Buffer Extent Yields

variable {bs : List UInt8}

namespace Builder

/-- Every vtable that a builder remembers has the four bytes of a table behind it. -/
structure Backed (b : Builder Int) : Prop where
  offset_nonneg : 0 ≤ b.offset
  behind : ∀ words vt, (words, vt) ∈ b.vtables → 2 * (words.length : Int) + 4 ≤ vt

variable {pre post : Builder Int}

theorem Backed.of_keeps (backed : pre.Backed) (keeps : Keeps pre post)
    (vtables_eq : post.vtables = pre.vtables) : post.Backed where
  offset_nonneg := Int.le_trans backed.offset_nonneg keeps.offset_le
  behind := by
    rw [vtables_eq]
    exact backed.behind

theorem backed_start (room : Int) (force : Bool) : (start room force).Backed where
  offset_nonneg := by rw [offset_start]
  behind := by
    intro words vt mem
    cases mem

/-- A table refers to a vtable that stands with the size in its first word and more bytes
behind it. -/
def Refers (bs : List UInt8) (t : Int) : Prop :=
  ∃ (vt : Int) (rest : List Int),
    Stands bs t (littleEndian 4 (word (vt - t)).toNat) ∧
      Stands bs vt (((2 * (rest.length + 1) : Int) :: rest).flatMap vtableWord) ∧
        2 * (rest.length + 1 : Int) + 4 ≤ vt

theorem Refers.mono (refers : Refers bs t) (isSuffix : bs <:+ later) : Refers later t := by
  grind [Stands.mono, Refers]

end Builder

open Builder

namespace Build

variable {pre post : Builder Int}

/-! ## Vtables with bytes behind them -/

/-- Putting bytes and making room leave the vtables that are remembered. -/
theorem stable_vtables (prop : List (List Int × Int) → Prop) :
    Stable fun s : Builder Int => prop s.vtables where
  toSteadyFor := steady_setting (fun setting => prop setting.vtables) fun _ holds => holds
  count := fun _ _ same => same
  nest := fun _ _ same => same

/-- What keeps the bytes and the vtables of a builder keeps bytes behind each of these. -/
theorem backed_of_stable {op : Build Int α} (keeps : ∀ src, Preserves (Keeps src) op)
    (vtables : ∀ vtables, Preserves (fun s : Builder Int => s.vtables = vtables) op) :
    Preserves Backed op :=
  fun s backed => backed.of_keeps (keeps s s (.refl s)) (vtables _ s rfl)

theorem stable_backed : Stable Backed where
  put := fun bs =>
    backed_of_stable (fun src => (stable_keeps src).put bs)
      fun vtables => (stable_vtables (· = vtables)).put bs
  reserve := fun needed =>
    backed_of_stable (fun src => (stable_keeps src).reserve needed)
      fun vtables => (stable_vtables (· = vtables)).reserve needed
  scalar := fun _ => trivial
  raise := fun _ _ _ backed _ => ⟨backed.offset_nonneg, backed.behind⟩
  count := fun _ _ backed => ⟨backed.offset_nonneg, backed.behind⟩
  nest := fun _ _ backed => ⟨backed.offset_nonneg, backed.behind⟩
  mark := fun _ backed => ⟨backed.offset_nonneg, backed.behind⟩

/-- Each word of a vtable moves the offset by two bytes or more. -/
theorem offset_of_addWords {words : List Int}
    (ran : Yields (words.reverse.forM (addWord 2)) pre res post) :
    pre.offset + 2 * words.length ≤ post.offset := by
  induction words generalizing post with
  | nil =>
    simp_all
  | cons hd rest ih =>
    rcases reverse_forM_cons_iff.mp ran with ⟨mid, others, one⟩
    have earlier := ih others
    have moved := offset_of_addWord one
    rw [List.length_cons]
    omega

/-- A vtable that is written after a table has begun has the table behind it. -/
theorem backed_vtable (words : List Int) (backed : pre.Backed) (begun : 4 ≤ pre.offset) :
    Upholds Backed (vtable words) pre := by
  have loop : Preserves Backed (words.reverse.forM (addWord 2) : Build Int PUnit) :=
    .forM fun word _ => stable_backed.addWord trivial word
  refine .get_bind ?_
  split
  · exact backed
  · refine .bind (loop pre backed) fun _ full ran kept => ?_
    have moved := offset_of_addWords ran
    refine ⟨kept.offset_nonneg, ?_⟩
    intro others vt mem
    rcases List.mem_append.mp mem with old | new
    · exact kept.behind others vt old
    grind

theorem backed_endTable : Preserves Backed (endTable : Build Int Int) := by
  intro pre backed
  refine .get_bind (.get_bind ?_)
  split
  · refine .bind (stable_backed.addWord trivial _ pre backed) fun _ begun worded kept => ?_
    have moved := offset_of_addWord worded
    have nonneg := backed.offset_nonneg
    rw [Build.offset, bind_assoc]
    refine .get_bind ?_
    rw [pure_bind]
    refine .get_bind (.bind (backed_vtable _ kept (by omega)) fun vt listed _ left => ?_)
    refine .bind (?_ : Upholds Backed _ _) fun _ referring _ done =>
      ⟨done.offset_nonneg, done.behind⟩
    refine .get_bind ?_
    split
    · exact ⟨left.offset_nonneg, left.behind⟩
    · exact left
  · exact backed

theorem stableTables_backed : StableTables Backed where
  toStableVectorsFor := stable_backed.vectors
  startTable := preserves_startTable fun _ _ backed => ⟨backed.offset_nonneg, backed.behind⟩
  slot := preserves_slot fun _ _ _ backed _ => ⟨backed.offset_nonneg, backed.behind⟩
  endTable := backed_endTable

/-! ## Looking into vtables -/

/-- A table that was just ended refers to its vtable. -/
theorem refers_of_endTable (orderly : pre.Orderly) (backed : pre.Backed)
    (ran : Yields endTable pre t post) : Refers post.written t := by
  rcases slots_of_endTable ran with ⟨slots, isOpen⟩
  have closed := (endTable_ends orderly.bounded orderly.stand isOpen).yields ran
  rcases closed.refers with ⟨vt, mem, refers⟩
  have stands := closed.vtablesStand _ _ mem
  have behind := ((backed_endTable pre backed).of_yields ran).behind _ _ mem
  rw [vtableWords_eq] at stands behind
  have size :
      (2 * ((usedSlots slots).length + 2) : Int) =
        2 * ((((t - pre.objectStart) :: (usedSlots slots).map (slotWord t)).length : Nat) + 1) := by
    grind
  rw [size] at stands
  exact ⟨vt, _, refers, stands, by simpa using behind⟩

theorem exists_stands_pair (bs : List UInt8) (gap : Nat) (long : 2 ≤ gap) (fits : gap ≤ bs.length) :
    ∃ pair : List UInt8, pair.length = 2 ∧ Stands bs gap pair := by
  refine ⟨(bs.drop (bs.length - gap)).take 2, ?_,
    bs.take (bs.length - gap), (bs.drop (bs.length - gap)).drop 2, ?_, ?_⟩
  · grind
  · rw [List.take_append_drop, List.take_append_drop]
  grind

/-- A look into the vtable of a table finds the same, however many bytes come before. -/
theorem fieldOffset_of_refers (refers : Refers bs t) (small : bs.length < 2147483648) (e : Nat) :
    ∃ v, ∀ longer, bs <:+ longer →
      (ofList longer).fieldOffset (spot longer t) (e : Int) = .ok v := by
  rcases refers with ⟨vt, rest, refers, stands, backed⟩
  have tableRange := refers.le_distance
  have tableInside := refers.distance_le
  have vtableInside := stands.distance_le
  have back : ∀ longer, bs <:+ longer → (ofList longer).readBack (spot longer t) = .ok (vt - t) :=
    fun longer isSuffix => (refers.mono isSuffix).readBack (by omega) (by omega)
  have size : ∀ longer, bs <:+ longer →
      (ofList longer).readNat 2 (spot longer vt) =
        .ok ((2 * (rest.length + 1) : Int) % 65536).toNat :=
    fun longer isSuffix => readNat_of_vtableWord (stands.mono isSuffix).left
  have toVtable : ∀ longer, spot longer t - ofInt (vt - t) = spot longer vt := by
    intro longer
    rw [ofInt_int, spot, spot]
    omega
  have start : ∀ longer, bs <:+ longer →
      (ofList longer).fieldOffset (spot longer t) (e : Int) =
        if e < ((2 * (rest.length + 1) : Int) % 65536).toNat then
          (ofList longer).readNat 2 (spot longer (vt - e))
        else .ok 0 := by
    intro longer isSuffix
    have place : spot longer vt + (e : Int) = spot longer (vt - e) := by
      rw [spot, spot]
      omega
    rw [fieldOffset, back longer isSuffix]
    simp only [bind, Except.bind, toVtable, size longer isSuffix, place]
    simp only [less_int, ofInt_int, decide_eq_true_eq, Int.ofNat_lt]
    rfl
  by_cases admitted : e < ((2 * (rest.length + 1) : Int) % 65536).toNat
  · obtain ⟨gap, distance_eq⟩ := Int.eq_ofNat_of_zero_le (a := vt - e) (by omega)
    rcases exists_stands_pair bs gap (by omega) (by omega) with ⟨pair, two, here⟩
    refine ⟨ofLittleEndian pair, fun longer isSuffix => ?_⟩
    have sliced := (here.mono isSuffix).slice
    rw [two] at sliced
    rw [start longer isSuffix, if_pos admitted, distance_eq, readNat, sliced]
    rfl
  · refine ⟨0, fun longer isSuffix => ?_⟩
    rw [start longer isSuffix, if_neg admitted]

end Build

end FlatSchema
