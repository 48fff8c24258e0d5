import FlatSchema.Include
import FlatSchema.Proofs.Report
import Mathlib.Data.List.Perm.Subperm
import Mathlib.Data.List.Sort

/-!
# The files that loading gathers

The files of a schema are the least set with the entry in it and, for each
include of a file in it, the first candidate that exists.  Loading by rounds
gathers these files, each once.  A file is determined by its path and files
are sorted by their paths, so whoever gathers the same files, in whatever
order, ends up with the same list.
-/

namespace FlatSchema

namespace Text

theorem unitsLe_iff (left right : List UInt16) : unitsLe left right = true ↔ left ≤ right := by
  induction left generalizing right with
  | nil => simp [unitsLe]
  | cons hd rest ih =>
    cases right with
    | nil => simp [unitsLe]
    | cons other others =>
      rw [unitsLe, List.cons_le_cons_iff]
      grind

theorem le_total (left right : Text) : (left.le right || right.le left) = true := by
  rw [Bool.or_eq_true, le, le, unitsLe_iff, unitsLe_iff]
  exact List.le_total _ _

theorem le_trans (fst : le left mid = true) (snd : le mid right = true) : le left right = true := by
  rw [le, unitsLe_iff] at *
  exact List.le_trans fst snd

theorem le_antisymm (fst : le left right = true) (snd : le right left = true) : left = right := by
  rw [le, unitsLe_iff] at *
  exact congrArg mk (List.le_antisymm fst snd)

variable {α : Type}

theorem pairwise_sorted (path : α → Text) (vs : List α) :
    (vs.mergeSort fun left right => (path left).le (path right)).Pairwise
      fun left right => (path left).le (path right) = true := by
  grind [le_trans, le_total, List.pairwise_mergeSort]

/-- Values of different paths are sorted into one order, however they stand at first. -/
theorem sorted_eq_of_perm {fst snd : List α} (path : α → Text) (perm : fst.Perm snd)
    (apart : (fst.map path).Nodup) :
    (fst.mergeSort fun left right => (path left).le (path right)) =
      snd.mergeSort fun left right => (path left).le (path right) := by
  apply List.Perm.eq_of_pairwise ?_ (pairwise_sorted path fst) (pairwise_sorted path snd)
  · exact (List.mergeSort_perm _ _).trans (perm.trans (List.mergeSort_perm _ _).symm)
  · intro left right inFirst inSecond pre post
    apply List.inj_on_of_nodup_map apart (List.mem_mergeSort.mp inFirst)
    · exact perm.mem_iff.mpr (List.mem_mergeSort.mp inSecond)
    · exact le_antisymm pre post

end Text

theorem nodup_eraseDups [BEq α] [LawfulBEq α] (vs : List α) : vs.eraseDups.Nodup := by
  match vs with
  | [] => exact List.nodup_nil
  | hd :: rest =>
    rw [List.eraseDups_cons, List.nodup_cons, List.mem_eraseDups, List.mem_filter]
    exact ⟨by simp, nodup_eraseDups _⟩
termination_by vs.length
decreasing_by
  exact Nat.lt_succ_of_le (List.length_filter_le _ _)

/-- Leaving out repetitions does not change which value is the first of its kind. -/
theorem find?_eraseDups [BEq α] [LawfulBEq α] (wanted : α → Bool) (vs : List α) :
    vs.eraseDups.find? wanted = vs.find? wanted := by
  match vs with
  | [] => rfl
  | hd :: rest =>
    rw [List.eraseDups_cons]
    by_cases hit : wanted hd = true
    · rw [List.find?_cons_of_pos hit, List.find?_cons_of_pos hit]
    · rw [List.find?_cons_of_neg hit, List.find?_cons_of_neg hit, find?_eraseDups wanted,
        List.find?_filter]
      congr 1
      funext v
      by_cases same : v = hd
      · simp [same, hit]
      · simp [same]
termination_by vs.length
decreasing_by
  exact Nat.lt_succ_of_le (List.length_filter_le _ _)

/-- Text that cannot be split into tokens is reported as an error. -/
theorem Lexer.isError_of_tokensFrom (fails : tokensFrom file pos chars = .error diagnostic) :
    diagnostic.isError = true := by
  fun_induction tokensFrom file pos chars with
  | case1 | case3 => cases fails
  | case2 pos char tail lexeme rest scanned ih => exact ih fails
  | case4 pos char tail kind text lexeme rest scanned stop other read ih =>
    cases fails
    exact ih read
  | case5 =>
    cases fails
    rfl

theorem Source.path_of_parse {src : Source} (parsed : src.parse.schema = some sch) :
    sch.path = src.path := by
  grind [parse]

/-- A source without a schema has an error in its report. -/
theorem Source.hasErrors_of_parse {src : Source} (fails : src.parse.schema = none) :
    DiagnosticAt.hasErrors src.parse.diagnostics = true := by
  unfold Source.parse at fails ⊢
  split
  · next diagnostic found =>
      simp [Lexer.isError_of_tokensFrom found]
  grind

namespace Include

/-- The places at which an include of a file is looked for: next to the file, then in the
directories in their order. -/
def places (host : Host) (dirs : List Text) (file target : Text) : List Text :=
  host.join (host.dirname file) target :: dirs.map fun directory =>
    host.join directory target

/-- The least set that contains the entry and, for each include of a file in it, the first of the
places that is not missing, if it has a text. -/
inductive Reached (host : Host) (dirs : List Text) (entry : Text) : Text → Prop where
  | entry : Reached host dirs entry entry
  | included (reached : Reached host dirs entry path) (readable : host.read path = .content text)
      (parsed : (Source.mk path text).parse.schema = some sch) (listed : dir ∈ directives sch)
      (first : (places host dirs path dir.target).find?
        (fun place => host.read place != .missing) = some found)
      (stands : host.read found = .content other) : Reached host dirs entry found

/-! ## What a file includes -/

variable {host : Host} {dirs : List Text} {e path : Text} {file : Loaded}

theorem probe_found :
    (probe host paths).1 = .found path ↔
      paths.find? (fun place => host.read place != .missing) = some path ∧
        ∃ text, host.read path = .content text := by
  induction paths with
  | nil => simp [probe]
  | cons hd rest ih =>
    cases answer : host.read hd with
    | content text =>
      grind [Host.read, probe]
    | failed reason =>
      grind [Host.read, probe]
    | missing =>
      rw [probe, List.find?_cons_of_neg (by simp [answer]), answer]
      exact ih

theorem mem_probe_of_missing (absent : ∀ place ∈ earlier, host.read place = .missing) :
    path ∈ (probe host (earlier ++ path :: later)).2 := by
  induction earlier with
  | nil =>
    rw [List.nil_append, probe]
    cases host.read path <;> simp
  | cons hd rest ih =>
    grind [Host.read, probe]

/-- If not all paths that a probe tries are among those that have been read, the first that is not
comes after paths that are missing. -/
theorem exists_next_of_probe {done : List Text} (tried : path ∈ (probe host paths).2)
    (fresh : path ∉ done) :
    ∃ earlier next later, paths = earlier ++ next :: later ∧
      (∀ place ∈ earlier, place ∈ done ∧ host.read place = .missing) ∧ next ∉ done := by
  induction paths with
  | nil => cases tried
  | cons hd rest ih =>
    by_cases known : hd ∈ done
    · grind [Host.read, probe]
    · exact ⟨[], hd, rest, rfl, by simp, known⟩

theorem follow_spec (host : Host) (dirs : List Text) (file : Loaded) (dir : Directive) :
    let post := follow host dirs file dir
    let answer := probe host (candidates host dirs file.path dir.target)
    post.path = file.path ∧ post.schema = file.schema ∧
      (∀ place, place ∈ post.includes ↔ place ∈ file.includes ∨ answer.1 = .found place) ∧
        post.tried = file.tried ++ answer.2 := by
  grind [candidates, follow, probe]

theorem foldl_follow (host : Host) (dirs : List Text) (list : List Directive) (file : Loaded) :
    let post := list.foldl (follow host dirs) file
    let answer (dir : Directive) := probe host (candidates host dirs file.path dir.target)
    post.path = file.path ∧ post.schema = file.schema ∧
      (∀ place, place ∈ post.includes ↔
        place ∈ file.includes ∨ ∃ dir ∈ list, (answer dir).1 = .found place) ∧
        ∀ place, place ∈ post.tried ↔
          place ∈ file.tried ∨ ∃ dir ∈ list, place ∈ (answer dir).2 := by
  induction list generalizing file with
  | nil => simp
  | cons dir rest ih =>
    simp_all [follow_spec, or_assoc]

theorem loadPath?_eq_some :
    loadPath? host dirs path = some file ↔
      ∃ text, host.read path = .content text ∧ loadFile host dirs path text = file := by
  unfold loadPath?
  cases host.read path <;> simp

/-- What loading makes of a path: the schema of the text that is there, and for each of its
directives what the probe of the candidates gives. -/
structure Loads (host : Host) (dirs : List Text) (path : Text) (file : Loaded) : Prop where
  path_eq : file.path = path
  read : ∃ text, host.read path = .content text ∧ file.schema = (Source.mk path text).parse.schema
  mem_includes : ∀ place, place ∈ file.includes ↔ ∃ sch, file.schema = some sch ∧
    ∃ dir ∈ directives sch, (probe host (candidates host dirs path dir.target)).1 = .found place
  mem_tried : ∀ place, place ∈ file.tried ↔ ∃ sch, file.schema = some sch ∧
    ∃ dir ∈ directives sch, place ∈ (probe host (candidates host dirs path dir.target)).2
  reported : file.schema = none → DiagnosticAt.hasErrors file.diagnostics = true

theorem loads_of_loadPath? (loads : loadPath? host dirs path = some file) :
    Loads host dirs path file := by
  rcases loadPath?_eq_some.mp loads with ⟨text, readable, rfl⟩
  cases parsed : (Source.mk path text).parse.schema with
  | none =>
    simp only [loadFile, parsed]
    exact ⟨rfl, ⟨text, readable, parsed.symm⟩, by simp, by simp,
      fun _ => Source.hasErrors_of_parse parsed⟩
  | some sch =>
    simp only [loadFile, parsed]
    rcases foldl_follow host dirs (directives sch)
      ⟨path, some sch, (Source.mk path text).parse.diagnostics, [], []⟩ with
      ⟨samePath, sameSchema, includes, tried⟩
    constructor
    · exact samePath
    · exact ⟨text, readable, sameSchema.trans parsed.symm⟩
    · simp [sameSchema, includes]
    · simp [sameSchema, tried]
    · simp [sameSchema]

theorem Loads.includes_iff (loads : Loads host dirs path file) :
    found ∈ file.includes ↔ ∃ sch, file.schema = some sch ∧
      ∃ dir ∈ directives sch,
        (places host dirs path dir.target).find?
            (fun place => host.read place != .missing) = some found ∧
          ∃ text, host.read found = .content text := by
  simp only [loads.mem_includes, probe_found, candidates, find?_eraseDups, places]

theorem Loads.schema_path (loads : Loads host dirs path file)
    (parsed : file.schema = some sch) : sch.path = path := by
  rcases loads.read with ⟨text, _, same⟩
  exact Source.path_of_parse (same.symm.trans parsed)

theorem Loads.exists_of_mem_includes (loads : Loads host dirs path file)
    (mem : found ∈ file.includes) : ∃ other, loadPath? host dirs found = some other := by
  rcases loads.includes_iff.mp mem with ⟨_, _, _, _, _, text, readable⟩
  exact ⟨_, loadPath?_eq_some.mpr ⟨text, readable, rfl⟩⟩

theorem Reached.of_mem_includes (reached : Reached host dirs e path)
    (loads : Loads host dirs path file) (mem : found ∈ file.includes) :
    Reached host dirs e found := by
  rcases loads.read with ⟨text, readable, same⟩
  rcases loads.includes_iff.mp mem with ⟨sch, parsed, dir, listed, first, _, stands⟩
  exact .included reached readable (same.symm.trans parsed) listed first stands

/-! ## Gathering the files -/

theorem length_le_files {paths : List Text} (nodup : paths.Nodup)
    (readable : ∀ path ∈ paths, ∃ file, loadPath? host dirs path = some file) :
    paths.length ≤ host.files.length := by
  have fits : paths ⊆ host.files.map Prod.fst := by
    grind [loadFile, loadPath?, Host.read]
  simpa using (nodup.subperm fits).length_le

/-- Files that have been loaded from the paths where they stand, none of them twice, all reached
from the entry. -/
structure Gathered (host : Host) (dirs : List Text) (e : Text) (files : List Loaded) : Prop where
  loads : ∀ file ∈ files, loadPath? host dirs file.path = some file
  reached : ∀ file ∈ files, Reached host dirs e file.path
  nodup : (files.map Loaded.path).Nodup

namespace Gathered

theorem length_le (gathered : Gathered host dirs e files) : files.length ≤ host.files.length := by
  rw [← List.length_map Loaded.path]
  apply length_le_files gathered.nodup
  intro path mem
  rcases List.mem_map.mp mem with ⟨file, isFile, rfl⟩
  exact ⟨file, gathered.loads file isFile⟩

/-- Files among which are the entry and whatever they include are all files there are to load. -/
theorem mem_iff (gathered : Gathered host dirs e files) (holds : e ∈ files.map Loaded.path)
    (closed : ∀ file ∈ files, ∀ found ∈ file.includes, found ∈ files.map Loaded.path) :
    file ∈ files ↔ Reached host dirs e file.path ∧ loadPath? host dirs file.path = some file := by
  have all : ∀ path, Reached host dirs e path → path ∈ files.map Loaded.path := by
    intro path reached
    induction reached with
    | entry => exact holds
    | included _ readable parsed listed first stands ih =>
      rcases List.mem_map.mp ih with ⟨file, mem, rfl⟩
      apply closed file mem
      have loads := loads_of_loadPath? (gathered.loads file mem)
      grind [Loads.read, Loads.includes_iff]
  grind [reached, loads]

end Gathered

theorem rounds_nil (n : Nat) (files : List Loaded) : rounds host dirs n files [] = files := by
  induction n with
  | zero => rfl
  | succ n ih => simpa [rounds] using ih

theorem map_path_filterMap_loadPath? {paths : List Text}
    (readable : ∀ path ∈ paths, ∃ file, loadPath? host dirs path = some file) :
    (paths.filterMap (loadPath? host dirs)).map Loaded.path = paths := by
  induction paths with
  | nil => rfl
  | cons hd rest ih =>
    rw [List.forall_mem_cons] at readable
    rcases readable.1 with ⟨file, loads⟩
    rw [List.filterMap_cons_some loads, List.map_cons, ih readable.2,
      (loads_of_loadPath? loads).path_eq]

/-- The files of a round: those of the frontier that have not been loaded yet. -/
theorem Gathered.append_fresh {frontier : List Text} (gathered : Gathered host dirs e files)
    (waiting : ∀ path ∈ frontier, Reached host dirs e path ∧
      ∃ file, loadPath? host dirs path = some file) :
    let fresh := (frontier.eraseDups.filter fun path =>
      !files.any fun file => file.path == path).filterMap (loadPath? host dirs)
    Gathered host dirs e (files ++ fresh) ∧
      ∀ path, path ∈ (files ++ fresh).map Loaded.path ↔
        path ∈ files.map Loaded.path ∨ path ∈ frontier := by
  intro fresh
  have paths : fresh.map Loaded.path = frontier.eraseDups.filter fun path =>
      !files.any fun file => file.path == path := by
    apply map_path_filterMap_loadPath?
    simp_all
  have isNew : ∀ path, path ∈ fresh.map Loaded.path ↔
      path ∈ frontier ∧ path ∉ files.map Loaded.path := by
    rw [paths]
    simp
  constructor
  · constructor
    · intro file mem
      rcases List.mem_append.mp mem with old | new
      · exact gathered.loads file old
      · rcases List.mem_filterMap.mp new with ⟨path, _, loads⟩
        rw [(loads_of_loadPath? loads).path_eq, loads]
    · grind [reached, List.mem_map_of_mem]
    · rw [List.map_append, List.nodup_append']
      refine ⟨gathered.nodup, ?_, ?_⟩
      · rw [paths]
        exact (nodup_eraseDups _).filter _
      · intro path old new
        exact ((isNew path).mp new).2 old
  · intro path
    rw [List.map_append, List.mem_append, isNew]
    tauto

/-- A round adds files that are new and can be read, so as many rounds as there are files leave
nothing out. -/
theorem rounds_spec (n : Nat) (frontier : List Text)
    (gathered : Gathered host dirs e files) (enough : host.files.length < files.length + n)
    (waiting : ∀ path ∈ frontier, Reached host dirs e path ∧
      ∃ file, loadPath? host dirs path = some file)
    (closed : ∀ file ∈ files, ∀ found ∈ file.includes,
      found ∈ files.map Loaded.path ∨ found ∈ frontier) :
    let all := rounds host dirs n files frontier
    Gathered host dirs e all ∧
      (∀ path, path ∈ files.map Loaded.path ∨ path ∈ frontier → path ∈ all.map Loaded.path) ∧
        ∀ file ∈ all, ∀ found ∈ file.includes, found ∈ all.map Loaded.path := by
  induction n generalizing files frontier with
  | zero => exact absurd gathered.length_le (by omega)
  | succ n ih =>
    rcases gathered.append_fresh waiting with ⟨grown, covers⟩
    rw [rounds]
    generalize (frontier.eraseDups.filter fun path =>
      !files.any fun file => file.path == path).filterMap (loadPath? host dirs) = fresh
      at grown covers ⊢
    cases fresh with
    | nil =>
      grind [rounds_nil, List.append_nil, List.flatMap_nil]
    | cons hd rest =>
      have longer : host.files.length < (files ++ hd :: rest).length + n := by
        grind
      have next := ih ((hd :: rest).flatMap Loaded.includes) grown longer ?_ ?_
      · exact ⟨next.1, fun path known => next.2.1 path (.inl ((covers path).mpr known)), next.2.2⟩
      · intro path mem
        rcases List.mem_flatMap.mp mem with ⟨file, isNew, included⟩
        have isFile := List.mem_append_right files isNew
        have loads := loads_of_loadPath? (grown.loads file isFile)
        exact ⟨(grown.reached file isFile).of_mem_includes loads included,
          loads.exists_of_mem_includes included⟩
      grind

theorem rounds_entry (dirs : List Text) (readable : host.read e = .content text) :
    let all := rounds host dirs (host.files.length + 1) [] [e]
    Gathered host dirs e all ∧ ∀ file, file ∈ all ↔
      Reached host dirs e file.path ∧ loadPath? host dirs file.path = some file := by
  have empty : Gathered host dirs e [] := ⟨by simp, by simp, by simp⟩
  have waiting : ∀ path ∈ [e], Reached host dirs e path ∧
      ∃ file, loadPath? host dirs path = some file := by
    intro path mem
    rw [List.mem_singleton.mp mem]
    exact ⟨.entry, _, loadPath?_eq_some.mpr ⟨text, readable, rfl⟩⟩
  grind [rounds_spec, Gathered.mem_iff]

end Include

end FlatSchema
