import FlatSchema.Proofs.IncludeClosure

/-!
# Loading in every order of answers

Reads are asked for as soon as an include needs them and are answered in any
order.  A file is started once, by the include that first leads to it; its
includes are resolved once all reads that they need have been answered, and
its loading is over once that of the files it has started is.

Whatever the order, no path is asked for twice, no file is started twice, the
loading of the entry comes to its end after a bounded number of steps, and
what it gives is what `load` gives.
-/

namespace FlatSchema.Include

/-- A file whose loading has started, with the file that has started it. -/
structure Start where
  path : Text
  parent : Option Text
deriving DecidableEq

/-- How far loading has come: the paths that have been asked for, those that have been answered,
the files that have been started and the files whose includes have been resolved. -/
structure Session where
  asked : List Text
  answered : List Text
  started : List Start
  resolved : List Loaded

/-- Start the files of some paths unless they have been started. -/
def startAll (parent : Text) (started : List Start) (paths : List Text) : List Start :=
  paths.foldl
    (fun started path =>
      if path ∈ started.map Start.path then started else started ++ [⟨path, some parent⟩])
    started

/-- What can happen next.  A candidate is asked for after those before it are known to be missing;
includes are resolved after all reads that they need. -/
inductive Step (host : Host) (directories : List Text) (entry : Text) :
    Session → Session → Prop where
  | answer (asked : path ∈ session.asked) (pending : path ∉ session.answered) :
      Step host directories entry session { session with answered := session.answered ++ [path] }
  | enter (answered : entry ∈ session.answered) (readable : host.read entry = .content text)
      (fresh : session.started = []) :
      Step host directories entry session { session with started := [⟨entry, none⟩] }
  | ask (started : start ∈ session.started) (readable : host.read start.path = .content text)
      (parsed : (Source.mk start.path text).parse.schema = some sch) (listed : dir ∈ directives sch)
      (split : candidates host directories start.path dir.target = earlier ++ next :: later)
      (absent : ∀ place ∈ earlier, place ∈ session.answered ∧ host.read place = .missing)
      (fresh : next ∉ session.asked) :
      Step host directories entry session { session with asked := session.asked ++ [next] }
  | resolve (started : start ∈ session.started)
      (loads : loadPath? host directories start.path = some file)
      (fresh : start.path ∉ session.resolved.map Loaded.path)
      (answered : ∀ place ∈ file.tried, place ∈ session.answered) :
      Step host directories entry session
        { session with
          started := startAll start.path session.started file.includes
          resolved := session.resolved ++ [file] }

/-- What can have happened after a number of steps. -/
inductive Runs (host : Host) (directories : List Text) (entry : Text) : Nat → Session → Prop where
  | start : Runs host directories entry 0 ⟨[entry], [], [], []⟩
  | step (runs : Runs host directories entry n session)
      (step : Step host directories entry session next) : Runs host directories entry (n + 1) next

/-- The loading of a file is over: its includes are resolved and the loading of all files that it
has started is over. -/
inductive Over (session : Session) : Text → Prop where
  | all (resolved : path ∈ session.resolved.map Loaded.path)
      (waits : ∀ start ∈ session.started, start.parent = some path → Over session start.path) :
      Over session path

/-- Loading returns when the entry is known to be unreadable or its loading is over. -/
def Session.Returns (host : Host) (entry : Text) (session : Session) : Prop :=
  entry ∈ session.answered ∧ ∀ text, host.read entry = .content text → Over session entry

/-- What loading returns. -/
def Session.result (host : Host) (entry : Text) (session : Session) : Loading :=
  match host.read entry with
  | .failed reason => unreadable entry (Text.ofString "Failed to read entry file: " ++ reason)
  | .missing =>
    unreadable entry
      (Text.ofString "Entry file " ++ quoted entry ++ Text.ofString " does not exist.")
  | .content _ =>
    let diags := (sortFiles session.resolved).flatMap Loaded.diagnostics
    let schemas := Schema.sortByPath (session.resolved.filterMap Loaded.schema)
    ⟨if DiagnosticAt.hasErrors diags then none else some schemas, diags,
      session.asked⟩

/-! ## The order in which files are started -/

theorem prefix_startAll (parent : Text) (started : List Start) (paths : List Text) :
    started <+: startAll parent started paths := by
  induction paths generalizing started with
  | nil => exact List.prefix_rfl
  | cons hd rest ih =>
    rw [startAll, List.foldl_cons]
    split
    · exact ih started
    · exact (List.prefix_append _ _).trans (ih _)

/-- Lists of files in which each but the entry is started by an include of a file before it. -/
inductive Grown (host : Host) (directories : List Text) (entry : Text) : List Start → Prop where
  | entry (readable : host.read entry = .content text) :
      Grown host directories entry [⟨entry, none⟩]
  | snoc (grown : Grown host directories entry started) (known : parent ∈ started.map Start.path)
      (loads : loadPath? host directories parent = some file) (included : path ∈ file.includes)
      (fresh : path ∉ started.map Start.path) :
      Grown host directories entry (started ++ [⟨path, some parent⟩])

variable {host : Host} {directories : List Text} {entry path : Text} {file : Loaded}
  {session next : Session} {started : List Start}

namespace Grown

variable (grown : Grown host directories entry started)
include grown

theorem nodup : (started.map Start.path).Nodup := by
  induction grown with
  | entry => simp
  | snoc _ _ _ _ fresh ih =>
    rw [List.map_append, List.nodup_append']
    exact ⟨ih, by simp, by simpa using fresh⟩

theorem entry_mem : entry ∈ started.map Start.path := by
  induction grown with
  | entry => simp
  | snoc _ _ _ _ _ ih => simp [ih]

theorem spec (path : Text) (mem : path ∈ started.map Start.path) :
    Reached host directories entry path ∧ ∃ file, loadPath? host directories path = some file := by
  induction grown generalizing path with
  | entry readable =>
    rw [List.map_singleton, List.mem_singleton] at mem
    rw [mem]
    exact ⟨.entry, _, loadPath?_eq_some.mpr ⟨_, readable, rfl⟩⟩
  | snoc _ known loads included _ ih =>
    rw [List.map_append, List.mem_append] at mem
    rcases mem with earlier | last
    · exact ih path earlier
    · rw [List.map_singleton, List.mem_singleton] at last
      rw [last]
      have loaded := loads_of_loadPath? loads
      exact ⟨(ih _ known).1.of_mem_includes loaded included, loaded.exists_of_mem_includes included⟩

theorem parent_mem (start : Start)
    (mem : start ∈ started) (child : start.parent = some path) : path ∈ started.map Start.path := by
  induction grown with
  | entry =>
    grind
  | snoc _ known _ _ _ ih =>
    grind

/-- Starting the includes of a file keeps the order, and afterwards they all have been started. -/
theorem startAll_spec
    (known : path ∈ started.map Start.path) (loads : loadPath? host directories path = some file)
    (included : ∀ hit ∈ paths, hit ∈ file.includes) :
    Grown host directories entry (startAll path started paths) ∧
      ∀ hit ∈ paths, hit ∈ (startAll path started paths).map Start.path := by
  induction paths generalizing started with
  | nil => exact ⟨grown, by simp⟩
  | cons hd rest ih =>
    rw [List.forall_mem_cons] at included ⊢
    rw [startAll, List.foldl_cons]
    by_cases old : hd ∈ started.map Start.path
    · rw [if_pos old]
      rcases ih grown known included.2 with ⟨grows, starts⟩
      exact ⟨grows, List.map_subset _ (prefix_startAll path started rest).subset old, starts⟩
    · rw [if_neg old]
      have more := grown.snoc known loads included.1 old
      rcases ih more (by simp [known]) included.2 with ⟨grows, starts⟩
      refine ⟨grows, List.map_subset _ (prefix_startAll path _ rest).subset ?_, starts⟩
      simp

/-- Once the loading of the entry is over, so is that of every file that has been started. -/
theorem over_of_entry (fits : started ⊆ session.started) (isOver : Over session entry)
    (path : Text) (mem : path ∈ started.map Start.path) : Over session path := by
  induction grown generalizing path with
  | entry =>
    grind
  | snoc _ known _ _ _ ih =>
    rw [List.append_subset] at fits
    rw [List.map_append, List.mem_append] at mem
    rcases mem with earlier | last
    · exact ih fits.1 path earlier
    · rw [List.map_singleton, List.mem_singleton] at last
      rw [last]
      cases ih fits.1 _ known with
      | all _ waits => exact waits _ (fits.2 (List.mem_singleton_self _)) rfl

/-- Files are over from the last to the first: nothing starts a file before itself. -/
theorem over_of_resolved
    (resolved : ∀ path ∈ started.map Start.path, path ∈ session.resolved.map Loaded.path)
    (outside : ∀ start ∈ session.started, start ∉ started → Over session start.path) :
    ∀ path ∈ started.map Start.path, Over session path := by
  induction grown with
  | entry =>
    intro path mem
    apply Over.all (resolved path mem)
    grind
  | @snoc started parent file path grown known loads included fresh ih =>
    have last : Over session path := by
      apply Over.all (resolved path (by simp))
      grind [parent_mem]
    intro other mem
    rw [List.map_append, List.mem_append] at mem
    rcases mem with earlier | isLast
    · grind
    · grind

end Grown

/-! ## What every step keeps -/

/-- What holds at any time: who is asked for is needed by a file that has been started, and what
has been resolved has been answered and leads to files that have been started. -/
structure Sound (host : Host) (directories : List Text) (entry : Text) (session : Session) :
    Prop where
  asked_nodup : session.asked.Nodup
  answered_nodup : session.answered.Nodup
  answered_asked : session.answered ⊆ session.asked
  entry_asked : entry ∈ session.asked
  needed : ∀ path ∈ session.asked, path = entry ∨ ∃ start ∈ session.started.map Start.path,
    ∃ file, loadPath? host directories start = some file ∧ path ∈ file.tried
  grown : session.started = [] ∨ Grown host directories entry session.started
  resolved_nodup : (session.resolved.map Loaded.path).Nodup
  resolved : ∀ file ∈ session.resolved,
    file.path ∈ session.started.map Start.path ∧
      loadPath? host directories file.path = some file ∧
        (∀ place ∈ file.tried, place ∈ session.answered) ∧
          ∀ hit ∈ file.includes, hit ∈ session.started.map Start.path

theorem nodup_snoc (nodup : vs.Nodup) (fresh : path ∉ vs) : (vs ++ [path]).Nodup := by
  grind

theorem Sound.grown_of_mem (sound : Sound host directories entry session)
    (mem : start ∈ session.started) : Grown host directories entry session.started := by
  grind [grown]

theorem Sound.step (sound : Sound host directories entry session)
    (step : Step host directories entry session next) : Sound host directories entry next := by
  cases step with
  | answer asked pending =>
    exact
      { sound with
        answered_nodup := nodup_snoc sound.answered_nodup pending
        answered_asked := by simpa [asked] using sound.answered_asked
        resolved := fun file mem =>
          have ⟨known, loads, answered, starts⟩ := sound.resolved file mem
          ⟨known, loads, fun place tried => by simp [answered place tried], starts⟩ }
  | enter answered readable fresh =>
    have idle : ∀ file, file ∉ session.resolved := by
      intro file mem
      have known := (sound.resolved file mem).1
      rw [fresh] at known
      cases known
    exact
      { sound with
        needed := fun path mem => .inl (by simpa [fresh] using sound.needed path mem)
        grown := .inr (.entry readable)
        resolved := fun file mem => absurd mem (idle file) }
  | @ask start text sch dir earlier next later _ started readable parsed listed split
      absent fresh =>
      have loads : loadPath? host directories start.path =
          some (loadFile host directories start.path text) :=
        loadPath?_eq_some.mpr ⟨text, readable, rfl⟩
      have tried : next ∈ (loadFile host directories start.path text).tried := by
        have loaded := loads_of_loadPath? loads
        grind [Loads.read, Loads.mem_tried, mem_probe_of_missing]
      exact
        { sound with
          asked_nodup := nodup_snoc sound.asked_nodup fresh
          answered_asked := fun path mem => by simp [sound.answered_asked mem]
          entry_asked := by simp [sound.entry_asked]
          needed := fun path mem => by
            grind [needed, List.mem_map_of_mem] }
  | @resolve start file _ started loads fresh answered =>
    have known : start.path ∈ session.started.map Start.path := List.mem_map_of_mem started
    have same := (loads_of_loadPath? loads).path_eq
    rcases (sound.grown_of_mem started).startAll_spec known loads (fun _ mem => mem) with
      ⟨grows, starts⟩
    have keeps := List.map_subset Start.path
      (prefix_startAll start.path session.started file.includes).subset
    exact
      { sound with
        needed := fun path mem => by
          grind [needed]
        grown := .inr grows
        resolved_nodup := by
          rw [List.map_append]
          exact nodup_snoc sound.resolved_nodup (by rwa [same])
        resolved := fun other mem => by
          grind [resolved] }

theorem Runs.sound (runs : Runs host directories entry n session) :
    Sound host directories entry session := by
  induction runs with
  | start => constructor <;> simp
  | step _ step ih => exact ih.step step

/-- Each step asks, answers, starts or resolves something that stays. -/
theorem Runs.lt_work (runs : Runs host directories entry n session) :
    n < session.asked.length + session.answered.length + session.started.length +
      session.resolved.length := by
  induction runs with
  | start => simp
  | @step n session _ _ step ih =>
    cases step with
    | answer | ask =>
      grind
    | enter _ _ fresh =>
      simp only [fresh, List.length_nil, List.length_singleton] at ih ⊢
      omega
    | @resolve start file =>
      grind [prefix_startAll, List.length_append, List.length_singleton]

/-- As long as loading has not returned, something can happen. -/
theorem Sound.exists_step (sound : Sound host directories entry session)
    (waits : ¬ session.Returns host entry) : ∃ next, Step host directories entry session next := by
  by_cases pending : ∃ path ∈ session.asked, path ∉ session.answered
  · rcases pending with ⟨path, asked, pending⟩
    exact ⟨_, .answer asked pending⟩
  have answered : ∀ path ∈ session.asked, path ∈ session.answered := by
    simpa using pending
  have isAnswered := answered entry sound.entry_asked
  have readable : ∃ text, host.read entry = .content text := by
    grind [Host.read, Session.Returns]
  rcases readable with ⟨text, readable⟩
  rcases sound.grown with fresh | grown
  · exact ⟨_, .enter isAnswered readable fresh⟩
  -- Not all files that have been started are resolved, or the loading of the entry would be over.
  have unfinished : ∃ path ∈ session.started.map Start.path,
      path ∉ session.resolved.map Loaded.path := by
    by_contra none
    apply waits ⟨isAnswered, fun _ _ => ?_⟩
    apply grown.over_of_resolved ?_ (fun start mem fresh => absurd mem fresh) entry grown.entry_mem
    simpa using none
  rcases unfinished with ⟨path, mem, unresolved⟩
  rcases List.mem_map.mp mem with ⟨start, isStart, rfl⟩
  rcases (grown.spec _ mem).2 with ⟨file, loads⟩
  by_cases ready : ∀ place ∈ file.tried, place ∈ session.answered
  · exact ⟨_, .resolve isStart loads unresolved ready⟩
  · simp only [not_forall] at ready
    rcases ready with ⟨place, tried, late⟩
    have loaded := loads_of_loadPath? loads
    rcases (loaded.mem_tried place).mp tried with ⟨sch, parsed, dir, listed, isTried⟩
    rcases exists_next_of_probe isTried late with ⟨earlier, next, later, split, absent, fresh⟩
    rcases loaded.read with ⟨text, readable, same⟩
    exact ⟨_, .ask isStart readable (same.symm.trans parsed) listed split absent
      (fun asked => fresh (answered next asked))⟩

/-- When the loading of the entry is over, exactly the files there are to load are resolved. -/
theorem Sound.gathered (sound : Sound host directories entry session)
    (isOver : Over session entry) :
    Gathered host directories entry session.resolved ∧
      ∀ file, file ∈ session.resolved ↔
        Reached host directories entry file.path ∧
          loadPath? host directories file.path = some file := by
  have grown : Grown host directories entry session.started := by
    cases isOver with
    | all resolved _ =>
      rcases List.mem_map.mp resolved with ⟨file, mem, rfl⟩
      rcases List.mem_map.mp (sound.resolved file mem).1 with ⟨start, isStart, _⟩
      exact sound.grown_of_mem isStart
  have all : ∀ path ∈ session.started.map Start.path, path ∈ session.resolved.map Loaded.path := by
    intro path mem
    cases grown.over_of_entry (List.Subset.refl _) isOver path mem with
    | all resolved _ => exact resolved
  have gathered : Gathered host directories entry session.resolved := by
    constructor
    · intro file mem
      exact (sound.resolved file mem).2.1
    · intro file mem
      exact (grown.spec _ (sound.resolved file mem).1).1
    · exact sound.resolved_nodup
  refine ⟨gathered, fun file => gathered.mem_iff (all entry grown.entry_mem) ?_⟩
  intro file mem hit included
  exact all hit ((sound.resolved file mem).2.2.2 hit included)

/-! ## The result -/

theorem Reached.exists_loaded (readable : host.read entry = .content text)
    (reached : Reached host directories entry path) :
    ∃ file, loadPath? host directories path = some file := by
  cases reached with
  | entry => exact ⟨_, loadPath?_eq_some.mpr ⟨_, readable, rfl⟩⟩
  | included _ _ _ _ _ stands => exact ⟨_, loadPath?_eq_some.mpr ⟨_, stands, rfl⟩⟩

theorem sublist_schema_paths {files : List Loaded}
    (loads : ∀ file ∈ files, loadPath? host directories file.path = some file) :
    ((files.filterMap Loaded.schema).map Schema.path).Sublist (files.map Loaded.path) := by
  induction files with
  | nil => exact .slnil
  | cons hd rest ih =>
    rw [List.forall_mem_cons] at loads
    cases parsed : hd.schema with
    | none =>
      rw [List.filterMap_cons_none parsed]
      exact (ih loads.2).cons _
    | some sch =>
      rw [List.filterMap_cons_some parsed, List.map_cons,
        (loads_of_loadPath? loads.1).schema_path parsed]
      exact (ih loads.2).cons_cons _

/-- The files that `load` gathers from an entry with a text, and what it makes of them. -/
theorem load_of_content (directories : List Text)
    (readable : host.read (host.normalize entryFile) = .content text) :
    let entry := host.normalize entryFile
    let normalized := directories.map host.normalize
    ∃ files,
      (∀ file, file ∈ files ↔ Reached host normalized entry file.path ∧
        loadPath? host normalized file.path = some file) ∧
        (files.map Loaded.path).Nodup ∧
          let diags := (sortFiles files).flatMap Loaded.diagnostics
          load host directories entryFile =
            ⟨if DiagnosticAt.hasErrors diags then none else
              some (Schema.sortByPath (files.filterMap Loaded.schema)), diags,
              (entry :: (sortFiles files).flatMap Loaded.tried).eraseDups⟩ := by
  intro entry normalized
  rcases rounds_entry normalized readable with ⟨gathered, all⟩
  refine ⟨_, all, gathered.nodup, ?_⟩
  have same := Text.sorted_eq_of_perm Schema.path
    ((List.mergeSort_perm _ fun left right => left.path.le right.path).filterMap Loaded.schema).symm
    ((sublist_schema_paths gathered.loads).nodup gathered.nodup)
  simp only [load, readable, Schema.sortByPath, sortFiles] at same ⊢
  rw [same]

theorem Sound.asked_subset
    (sound : Sound host (directories.map host.normalize) (host.normalize entryFile) session) :
    session.asked ⊆ (load host directories entryFile).reads := by
  intro path asked
  cases answer : host.read (host.normalize entryFile) with
  | content text =>
    rcases load_of_content directories answer with ⟨files, all, _, loading⟩
    rw [loading, List.mem_eraseDups, List.mem_cons, List.mem_flatMap]
    rcases sound.needed path asked with isEntry | ⟨start, started, file, loads, tried⟩
    · exact .inl isEntry
    · refine .inr ⟨file, ?_, tried⟩
      rcases List.mem_map.mp started with ⟨begun, mem, rfl⟩
      have same := (loads_of_loadPath? loads).path_eq
      rw [sortFiles, List.mem_mergeSort, all, same]
      exact ⟨((sound.grown_of_mem mem).spec _ started).1, loads⟩
  | missing | failed =>
    simp only [load, answer, unreadable, List.mem_singleton]
    rcases sound.needed path asked with isEntry | ⟨start, started, _⟩
    · exact isEntry
    · rcases List.mem_map.mp started with ⟨begun, mem, _⟩
      have grown := sound.grown_of_mem mem
      rcases (grown.spec _ grown.entry_mem).2 with ⟨file, loads⟩
      grind [loadPath?, Host.read]

theorem Sound.result_eq
    (sound : Sound host (directories.map host.normalize) (host.normalize entryFile) session)
    (returns : session.Returns host (host.normalize entryFile)) :
    let res := session.result host (host.normalize entryFile)
    let loading := load host directories entryFile
    res.schemas = loading.schemas ∧ res.diagnostics = loading.diagnostics ∧
      res.reads.Perm loading.reads := by
  intro res loading
  cases answer : host.read (host.normalize entryFile) with
  | content text =>
    rcases load_of_content directories answer with ⟨files, all, nodup, loads⟩
    rcases sound.gathered (returns.2 text answer) with ⟨gathered, resolved⟩
    have perm : session.resolved.Perm files := by
      rw [List.perm_ext_iff_of_nodup (gathered.nodup.of_map _) (nodup.of_map _)]
      intro file
      rw [resolved, all]
    have sorted : sortFiles session.resolved = sortFiles files :=
      Text.sorted_eq_of_perm Loaded.path perm gathered.nodup
    have schemas : Schema.sortByPath (session.resolved.filterMap Loaded.schema) =
        Schema.sortByPath (files.filterMap Loaded.schema) :=
      Text.sorted_eq_of_perm Schema.path (perm.filterMap _)
        ((sublist_schema_paths gathered.loads).nodup gathered.nodup)
    have reads : session.asked.Perm loading.reads := by
      have distinct : loading.reads.Nodup := by
        simp only [loading, loads, nodup_eraseDups]
      rw [List.perm_ext_iff_of_nodup sound.asked_nodup distinct]
      intro path
      constructor
      · exact fun asked => sound.asked_subset asked
      · simp only [loading, loads, List.mem_eraseDups, List.mem_cons, List.mem_flatMap]
        rintro (rfl | ⟨file, mem, tried⟩)
        · exact sound.entry_asked
        · rw [sortFiles, List.mem_mergeSort, ← perm.mem_iff] at mem
          exact sound.answered_asked ((sound.resolved file mem).2.2.1 path tried)
    simp only [res, loading, Session.result, answer, loads, sorted, schemas, true_and] at reads ⊢
    exact reads
  | missing | failed =>
    simp only [res, loading, Session.result, load, answer, List.Perm.refl, and_self]

/-- The schemas of a successful loading are those of the files there are to load, in order. -/
theorem paths_of_load (hit : (load host directories entryFile).schemas = some schemas) :
    (schemas.map Schema.path).Pairwise (fun left right => left.le right = true) ∧
      (schemas.map Schema.path).Nodup ∧ ∀ path, path ∈ schemas.map Schema.path ↔
        Reached host (directories.map host.normalize) (host.normalize entryFile) path := by
  cases answer : host.read (host.normalize entryFile) with
  | content text =>
    rcases load_of_content directories answer with ⟨files, all, nodup, loading⟩
    rw [loading] at hit
    split at hit
    · cases hit
    next clean =>
    have parsed : ∀ file ∈ files, file.schema.isSome = true := by
      intro file mem
      cases none : file.schema with
      | some sch => rfl
      | none =>
        have reported := (loads_of_loadPath? ((all file).mp mem).2).reported none
        apply absurd _ clean
        rw [DiagnosticAt.hasErrors, List.any_flatMap, List.any_eq_true]
        exact ⟨file, List.mem_mergeSort.mpr mem, reported⟩
    cases hit
    have perm : ((Schema.sortByPath (files.filterMap Loaded.schema)).map Schema.path).Perm
        (files.map Loaded.path) := by
      rw [← (sublist_schema_paths fun file mem => ((all file).mp mem).2).eq_of_length]
      · exact (List.mergeSort_perm _ _).map _
      · simpa [List.length_filterMap_eq_countP] using parsed
    refine ⟨?_, ?_, ?_⟩
    · rw [List.pairwise_map]
      exact Text.pairwise_sorted Schema.path _
    · exact perm.nodup_iff.mpr nodup
    · intro path
      rw [perm.mem_iff, List.mem_map]
      constructor
      · grind
      · intro reached
        rcases reached.exists_loaded answer with ⟨file, loads⟩
        have same := (loads_of_loadPath? loads).path_eq
        exact ⟨file, (all file).mpr (by rw [same]; exact ⟨reached, loads⟩), same⟩
  | missing | failed =>
    simp only [load, answer, unreadable] at hit
    cases hit

/-- Loading does not depend on the order in which reads are answered.

Whatever has happened so far, no path has been asked for twice and no file has been started twice,
and unless loading has returned something more can happen, but not without end.  When it returns,
the result is that of `load`, and all its reads have been made.  If there are schemas, their paths
are in order and are those of the least set of files. -/
theorem load_any_order (host : Host) (directories : List Text) (entryFile : Text) :
    let entry := host.normalize entryFile
    let places := directories.map host.normalize
    let loading := load host directories entryFile
    (∀ count session, Runs host places entry count session →
      session.asked.Nodup ∧ (session.started.map Start.path).Nodup ∧
        count < 2 * (loading.reads.length + host.files.length) ∧
          (¬ session.Returns host entry → ∃ next, Step host places entry session next) ∧
            (session.Returns host entry →
              (session.result host entry).schemas = loading.schemas ∧
                (session.result host entry).diagnostics = loading.diagnostics ∧
                  (session.result host entry).reads.Perm loading.reads)) ∧
      ∀ schemas, loading.schemas = some schemas →
        (schemas.map Schema.path).Pairwise (fun left right => left.le right = true) ∧
          (schemas.map Schema.path).Nodup ∧
            ∀ path, path ∈ schemas.map Schema.path ↔ Reached host places entry path := by
  intro entry places loading
  refine ⟨?_, fun schemas found => paths_of_load found⟩
  intro count session runs
  have sound := runs.sound
  have nodup : (session.started.map Start.path).Nodup := by
    rcases sound.grown with first | grown
    · simp [first]
    · exact grown.nodup
  refine ⟨sound.asked_nodup, nodup, ?_, sound.exists_step, fun returns => sound.result_eq returns⟩
  have asked : session.asked.length ≤ loading.reads.length :=
    (sound.asked_nodup.subperm sound.asked_subset).length_le
  have answered := (sound.answered_nodup.subperm sound.answered_asked).length_le
  have started : session.started.length ≤ host.files.length := by
    rw [← List.length_map Start.path]
    apply @length_le_files host places _ nodup
    intro path member
    rcases List.mem_map.mp member with ⟨start, isStart, _⟩
    exact ((sound.grown_of_mem isStart).spec path member).2
  have resolved : session.resolved.length ≤ host.files.length := by
    rw [← List.length_map Loaded.path]
    apply @length_le_files host places _ sound.resolved_nodup
    intro path member
    rcases List.mem_map.mp member with ⟨file, isFile, rfl⟩
    exact ⟨file, (sound.resolved file isFile).2.1⟩
  have work := runs.lt_work
  omega

/-- Two files, the first of which includes the second. -/
def pairHost : Host :=
  Host.ofBundle ⟨[⟨"a", "include \"b\";"⟩, ⟨"b", ""⟩]⟩

/-- The end of loading both. -/
def pairSession : Session :=
  ⟨["a", "b"], ["a", "b"], [⟨"a", none⟩, ⟨"b", some "a"⟩],
    [loadFile pairHost [] "a" "include \"b\";", loadFile pairHost [] "b" ""]⟩

/-- In six steps both files are read, started and resolved, and loading returns their schemas. -/
theorem load_any_order_pairSession :
    Runs pairHost [] "a" 6 pairSession ∧ pairSession.Returns pairHost "a" ∧
      pairSession.asked.Nodup ∧
        (pairSession.result pairHost "a").schemas = (load pairHost [] "a").schemas ∧
          ∃ schemas, (load pairHost [] "a").schemas = some schemas ∧
            ∀ path, path ∈ schemas.map Schema.path ↔ Reached pairHost [] "a" path := by
  let first := loadFile pairHost [] "a" "include \"b\";"
  let second := loadFile pairHost [] "b" ""
  have readable : pairHost.read "a" = .content "include \"b\";" := by with_unfolding_all rfl
  have firstLoads : loadPath? pairHost [] "a" = some first := by with_unfolding_all rfl
  have secondLoads : loadPath? pairHost [] "b" = some second := by with_unfolding_all rfl
  have firstPath : first.path = Text.ofString "a" := (loads_of_loadPath? firstLoads).path_eq
  have secondPath : second.path = Text.ofString "b" := (loads_of_loadPath? secondLoads).path_eq
  have follows : first.tried = [Text.ofString "b"] ∧ first.includes = [Text.ofString "b"] := by
    with_unfolding_all exact ⟨rfl, rfl⟩
  have alone : second.tried = [] ∧ second.includes = [] := by with_unfolding_all exact ⟨rfl, rfl⟩
  have clean : first.diagnostics = [] ∧ second.diagnostics = [] := by
    with_unfolding_all exact ⟨rfl, rfl⟩
  have targets : (Source.mk "a" "include \"b\";").parse.schema.map
      (fun schema => (directives schema).map Directive.target) = some [Text.ofString "b"] := by
    with_unfolding_all rfl
  rcases Option.map_eq_some_iff.mp targets with ⟨schema, parsed, listed⟩
  rcases List.map_eq_singleton_iff.mp listed with ⟨directive, only, target⟩
  have candidate : candidates pairHost [] "a" directive.target = [] ++ Text.ofString "b" :: [] := by
    rw [target]
    with_unfolding_all rfl
  have entered : Runs pairHost [] "a" 2 ⟨["a"], ["a"], [⟨"a", none⟩], []⟩ :=
    .step (.step .start (.answer (by decide) (by decide))) (.enter (by decide) readable rfl)
  have asked : Runs pairHost [] "a" 4 ⟨["a", "b"], ["a", "b"], [⟨"a", none⟩], []⟩ :=
    .step (.step entered (.ask (List.mem_singleton_self _) readable parsed
      (only ▸ List.mem_singleton_self _) candidate (List.forall_mem_nil _) (by decide)))
      (.answer (by decide) (by decide))
  have resolved := asked.step
    (.resolve (List.mem_singleton_self _) firstLoads (by simp) (by simp [follows.1]))
  rw [follows.2] at resolved
  have apart : Text.ofString "a" ≠ Text.ofString "b" := by decide
  have last := resolved.step (.resolve (.tail _ (.head _)) secondLoads
    (by simp [firstPath, apart.symm]) (by simp [alone.1]))
  rw [alone.2] at last
  have isOver : Over pairSession "b" :=
    .all (List.mem_map.mpr ⟨second, .tail _ (.head _), secondPath⟩) (by simp [pairSession, apart])
  have returns : pairSession.Returns pairHost "a" := by
    refine ⟨.head _, fun _ _ => .all (List.mem_map.mpr ⟨first, .head _, firstPath⟩) ?_⟩
    simpa [pairSession] using isOver
  rcases load_any_order pairHost [] "a" with ⟨anyRun, paths⟩
  rcases anyRun 6 pairSession last with ⟨nodup, _, _, _, result⟩
  have same : (pairSession.result pairHost "a").schemas = (load pairHost [] "a").schemas :=
    (result returns).1
  have found : ∃ schemas, (pairSession.result pairHost "a").schemas = some schemas := by
    have quiet : (sortFiles [first, second]).flatMap Loaded.diagnostics = [] := by
      simp [sortFiles, List.flatMap_eq_nil_iff, clean]
    exact ⟨_, if_neg (by simp [pairSession, first, second, quiet])⟩
  rcases found with ⟨schemas, found⟩
  exact ⟨last, returns, nodup, same, schemas, same ▸ found, (paths schemas (same ▸ found)).2.2⟩

end FlatSchema.Include
