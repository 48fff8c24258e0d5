import FlatSchema.Proofs.Reading
import Mathlib.Data.List.Chain

/-!
# How deep reading goes

References lead forward only: a table that is read because of another stands
strictly behind it, and a table that refers to anything begins inside the
buffer.  So the tables of one chain of nested reads are fewer than the bytes
of the buffer and one, whatever the bytes are, and the bound on nesting that
readers carry is never met.
-/

namespace FlatSchema.Decode

open Buffer Catalog Extent SymbolTable

variable {buffer : Buffer}

/-! ## References lead forward -/

/-- A reference leads to where it stands or behind. -/
theorem le_of_follow {target : Int} (followed : buffer.follow pos = .ok target) : pos ≤ target := by
  unfold follow at followed
  cases read : buffer.readNat 4 pos with
  | error failure =>
    rw [read] at followed
    cases followed
  | ok gap =>
    rw [read] at followed
    cases followed
    simp only [ofInt_int]
    omega

/-- The elements of a vector stand behind the reference to it. -/
theorem lt_of_vectorStart {start : Int} (begins : buffer.vectorStart pos = .ok start) :
    pos < start := by
  unfold vectorStart at begins
  cases read : buffer.follow pos with
  | error failure =>
    rw [read] at begins
    cases begins
  | ok header =>
    rw [read] at begins
    cases begins
    have behind := le_of_follow read
    simp only [ofInt_int]
    omega

/-- A table with a vtable begins inside the buffer. -/
theorem inside_of_fieldOffset {t : Int} (stored : buffer.fieldOffset t e = .ok off) :
    0 ≤ t ∧ t + 4 ≤ buffer.size := by
  have hit : ∃ i, buffer.inside? t 4 = some i := by
    cases hit : buffer.inside? t 4 with
    | some i => exact ⟨i, rfl⟩
    | none =>
      have unread : buffer.readBack t = .error .outOfRange := by
        rw [readBack, readNat, slice, hit]
        rfl
      rw [fieldOffset, unread] at stored
      cases stored
  rcases hit with ⟨i, hit⟩
  have ends := add_le_size_of_inside? hit
  have begins := (Option.filter_eq_some_iff.mp hit).1
  by_cases natural : 0 ≤ t
  · simp only [byte?, truncate?_int, natural, if_true, Option.some.injEq] at begins
    omega
  · simp [byte?, natural] at begins

theorem Refers.forward {t target : Int} (refers : Refers buffer t target) :
    0 ≤ t ∧ t + 4 ≤ buffer.size ∧ t < target := by
  cases refers with
  | direct stored here followed =>
    have fits := inside_of_fieldOffset stored
    have behind := le_of_follow followed
    simp only [ofInt_int] at behind
    omega
  | @element _ _ i _ _ stored here begins followed =>
    have fits := inside_of_fieldOffset stored
    have start := lt_of_vectorStart begins
    have behind := le_of_follow followed
    simp only [ofInt_int] at start behind
    omega

/-- The number of bytes from a position to the end of the buffer. -/
def room (buffer : Buffer) (pos : Int) : Nat :=
  (buffer.size - max pos 0).toNat

theorem room_le (buffer : Buffer) (pos : Int) : room buffer pos ≤ buffer.size := by
  unfold room
  omega

/-- There is less room behind a reference than before it. -/
theorem Refers.room_lt {t : Int} (refers : Refers buffer t target) :
    room buffer target < room buffer t := by
  have forward := refers.forward
  unfold room
  omega

/-! ## The bound on nesting is never met -/

section

variable {catalog : Catalog} (closed : catalog.Closed) (sound : catalog.Sound)
include closed sound

/-- Readers that may nest deeper than there is room agree, and fail only where a read leaves the
buffer. -/
theorem alike_readTable
    (closedTable : catalog.ClosedBody (.table t)) (deep : room buffer pos < depth)
    (otherDeep : room buffer pos < other) :
    Alike (· = .wire .outOfRange) (readTable buffer catalog depth t pos)
      (readTable buffer catalog other t pos) := by
  induction depth generalizing other t pos with
  | zero => cases deep
  | succ depth ih =>
    cases other with
    | zero => cases otherDeep
    | succ other =>
      have nested :
          AlikeFrom (· = .wire .outOfRange) catalog buffer pos
            (readTable buffer catalog depth) (readTable buffer catalog other) := by
        intro inner target closedInner refers
        have less := refers.room_lt
        exact ih closedInner (by omega) (by omega)
      refine alike_tableWith ?_ closed sound closedTable nested
      rfl

/-! ## Chains of nested reads -/

omit closed sound in
/-- Reading one table asks for another at a position: what it comes to can change with what the
other comes to, all else being equal. -/
def Calls (buffer : Buffer) (catalog : Catalog) (outer inner : TableType × Int) : Prop :=
  ∃ left right : TableType → Int → Except RecordError Value,
    (∀ t pos, (t, pos) ≠ inner → left t pos = right t pos) ∧
      tableWith buffer catalog left outer.1 outer.2 ≠
        tableWith buffer catalog right outer.1 outer.2

/-- A table that is asked for is one of the catalog, at a position that the bytes refer to. -/
theorem refers_of_calls {inner : TableType × Int}
    (closedOuter : catalog.ClosedBody (.table outer.1)) (calls : Calls buffer catalog outer inner) :
    catalog.ClosedBody (.table inner.1) ∧ Refers buffer outer.2 inner.2 := by
  rcases calls with ⟨left, right, elsewhere, differ⟩
  by_contra unrelated
  have nested : AlikeFrom (fun _ => True) catalog buffer outer.2 left right := by
    intro t pos closedTable refers
    grind [Alike, tableWith]
  exact differ (alike_tableWith trivial closed sound closedOuter nested).1

/-- The positions along a chain of nested reads ascend, and the chain is no longer than there is
room. -/
theorem ascends_of_calls {calls : List (TableType × Int)}
    (closedOuter : catalog.ClosedBody (.table outer.1))
    (chain : List.IsChain (Calls buffer catalog) (outer :: calls)) :
    ((outer :: calls).map Prod.snd).IsChain (· < ·) ∧ calls.length ≤ room buffer outer.2 := by
  induction calls generalizing outer with
  | nil => exact ⟨.singleton _, Nat.zero_le _⟩
  | cons inner rest ih =>
    rw [List.isChain_cons_cons] at chain
    rcases refers_of_calls closed sound closedOuter chain.1 with ⟨closedInner, refers⟩
    have less := refers.room_lt
    grind [room, Calls]

end

/-- Reading a table of an accepted catalog ends, whatever the bytes are and wherever it begins:
with a value, or because a read leaves the buffer.  A higher bound on nesting changes nothing.
Along nested reads the positions ascend, so they nest no deeper than the buffer is long and one. -/
theorem table_ends {schemas : List Schema} {entry : Option Text} {earlier : List Diagnostic}
    {catalog : Catalog}
    (accepted :
      (ofSymbols schemas (ofSchemas schemas).value entry earlier).value = .accepted catalog)
    {id : Nat} {declared : TableType} (found : catalog.body? id = some (.table declared))
    (buffer : Buffer) (position : Int) :
    let outcome := table buffer catalog (id : Int) position
    ((∃ value, outcome = .ok value) ∨ outcome = .error (.wire .outOfRange)) ∧
      (∀ depth, buffer.size < depth →
        readTable buffer catalog depth declared position = outcome) ∧
      ∀ calls, List.IsChain (Calls buffer catalog) ((declared, position) :: calls) →
        (((declared, position) :: calls).map Prod.snd).Pairwise (· < ·) ∧
          ((declared, position) :: calls).length ≤ buffer.size + 1 := by
  intro outcome
  have closed := closed_of_accepted accepted
  have sound := sound_of_accepted accepted
  have closedTable := closed.body found
  have small := room_le buffer position
  have outcome_eq : outcome = readTable buffer catalog (buffer.size + 1) declared position := by
    rw [body?, Option.map_eq_some_iff] at found
    rcases found with ⟨own, stands, body⟩
    simp only [outcome, table, tableAt, entryAt_natCast,
      entryOf_of_entry? stands, Entry.tableOf, body, bind, Except.bind, pure, Except.pure]
  rw [outcome_eq]
  refine ⟨?_, ?_, ?_⟩
  · have deep : room buffer position < buffer.size + 1 := by omega
    have alike := alike_readTable closed sound closedTable deep deep
    cases read : readTable buffer catalog (buffer.size + 1) declared position with
    | ok value => exact .inl ⟨value, rfl⟩
    | error failure => exact .inr (congrArg Except.error (alike.2 failure read))
  · intro depth deep
    exact (alike_readTable closed sound closedTable (by omega) (by omega)).1
  · intro calls chain
    rcases ascends_of_calls closed sound closedTable chain with ⟨ascending, short⟩
    refine ⟨List.isChain_iff_pairwise.mp ascending, ?_⟩
    exact Nat.succ_le_succ (Nat.le_trans short small)

/-- A list of nodes: each leads to the next, and may have nodes below it. -/
def nodeSchema : Schema where
  path := Text.ofString "node.fbs"
  span := default
  items :=
    [ .declaration ⟨"Node", [], [], [], .table
        [⟨"next", .named "Node" default, none, [], [], default⟩,
          ⟨"below", .vector (.named "Node" default) default, none, [], [], default⟩], default⟩ ]

/-- The table of the nodes. -/
def nodeTable : TableType :=
  ⟨[⟨"next", .named 0, 0, none, .absent, false, false, false, [], []⟩,
      ⟨"below", .vector (.named 0), 1, none, .absent, false, false, false, [], []⟩], 2⟩

def nodeCatalog : Catalog :=
  ⟨[⟨0, "Node", [], "Node", [], [], default, .table nodeTable⟩], [⟨"", [0]⟩], none, none, none, []⟩

/-- Two nodes that share a vtable; the reference of the second leaves the buffer. -/
def nodeBuffer : Buffer :=
  .ofList [6, 0, 8, 0, 4, 0, 0, 0, 8, 0, 0, 0, 4, 0, 0, 0, 16, 0, 0, 0, 255, 255, 255, 255]

/-- The first node asks for the second, whose reference cannot be followed. -/
theorem table_ends_node :
    (ofSymbols [nodeSchema] (ofSchemas [nodeSchema]).value none []).value = .accepted nodeCatalog ∧
      Calls nodeBuffer nodeCatalog (nodeTable, 8) (nodeTable, 16) ∧
      table nodeBuffer nodeCatalog (0 : Int) (8 : Int) = .error (.wire .outOfRange) ∧
      ∀ calls, List.IsChain (Calls nodeBuffer nodeCatalog) ((nodeTable, 8) :: calls) →
        (((nodeTable, 8) :: calls).map Prod.snd).Pairwise (· < ·) ∧
          ((nodeTable, 8) :: calls).length ≤ 25 := by
  have accepted :
      (ofSymbols [nodeSchema] (ofSchemas [nodeSchema]).value none []).value =
        .accepted nodeCatalog := by
    decide +kernel
  have found : nodeCatalog.body? 0 = some (.table nodeTable) := rfl
  rcases table_ends accepted found nodeBuffer 8 with ⟨ended, _, chains⟩
  refine ⟨accepted, ?_, ?_, chains⟩
  · -- The answers of the nested reads differ for the second node only.
    refine ⟨fun _ _ => .ok .null,
      fun inner position =>
        if (inner, position) = (nodeTable, 16) then .error .noRoot else .ok .null, ?_, ?_⟩
    · intro inner position other
      exact (if_neg other).symm
    · have left :
          tableWith nodeBuffer nodeCatalog (fun _ _ => .ok .null) nodeTable (8 : Int) =
            .ok (.record [("next", .null), ("below", .null)]) := by
        with_unfolding_all rfl
      exact fun same => nomatch same
  · rcases ended with ⟨value, read⟩ | failed
    · have failed : (table nodeBuffer nodeCatalog (0 : Int) (8 : Int)).isOk = false := by
        with_unfolding_all rfl
      have read : table nodeBuffer nodeCatalog (0 : Int) (8 : Int) = .ok value := read
      rw [read] at failed
      cases failed
    · exact failed

end FlatSchema.Decode
