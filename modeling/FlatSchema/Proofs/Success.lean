import FlatSchema.Record.Encode

/-!
# Operations that succeed

`Yields operation before value after` says that an operation on a state ends
with a value and leaves a state.  The rules below take composed operations
apart, so that each operation is described once, by what it yields, and no
later argument runs it.
-/

namespace FlatSchema

variable {res : PUnit}

/-- An operation on a state of one sort ends with a value and leaves another state. -/
def Yields {ε σ α : Type} (op : ExceptT ε (StateM σ) α) (pre : σ) (v : α) (post : σ) : Prop :=
  op.run.run pre = (.ok v, post)

namespace Yields

variable {ε σ α β : Type} {pre post : σ}

@[simp]
theorem pure_iff {res : α} :
    Yields (pure v : ExceptT ε (StateM σ) α) pre res post ↔ v = res ∧ pre = post := by
  constructor
  · intro ran
    cases ran
    exact ⟨rfl, rfl⟩
  · rintro ⟨rfl, rfl⟩
    rfl

@[simp]
theorem throw_iff {res : α} : Yields (throw err : ExceptT ε (StateM σ) α) pre res post ↔ False := by
  constructor
  · intro ran
    cases ran
  · exact False.elim

theorem run_bind (op : ExceptT ε (StateM σ) α) (next : α → ExceptT ε (StateM σ) β) (pre : σ) :
    (op >>= next).run.run pre =
      match op.run.run pre with
      | (.ok v, mid) => (next v).run.run mid
      | (.error err, mid) => (.error err, mid) := by
  rw [ExceptT.run_bind, StateT.run_bind]
  show (match (op.run.run pre : _ × σ) with
    | (out, mid) => _) = _
  rcases op.run.run pre with ⟨out, mid⟩
  cases out <;> rfl

variable {next : α → ExceptT ε (StateM σ) β}

theorem bind_iff {res : β} :
    Yields (op >>= next) pre res post ↔
      ∃ v mid, Yields op pre v mid ∧ Yields (next v) mid res post := by
  unfold Yields
  rw [run_bind]
  constructor
  · grind
  · grind

@[simp]
theorem get_iff {res : σ} :
    Yields (get : ExceptT ε (StateM σ) σ) pre res post ↔ res = pre ∧ post = pre := by
  constructor
  · intro ran
    cases ran
    exact ⟨rfl, rfl⟩
  · rintro ⟨rfl, rfl⟩
    rfl

@[simp]
theorem set_iff : Yields (set s : ExceptT ε (StateM σ) PUnit) pre res post ↔ post = s := by
  constructor
  · intro ran
    cases ran
    rfl
  · rintro rfl
    rfl

@[simp]
theorem modify_iff :
    Yields (modify change : ExceptT ε (StateM σ) PUnit) pre res post ↔ post = change pre := by
  constructor
  · intro ran
    cases ran
    rfl
  · rintro rfl
    rfl

/-- An operation that goes on from the state. -/
theorem get_bind_iff {next : σ → ExceptT ε (StateM σ) β} {res : β} :
    Yields (get >>= next) pre res post ↔ Yields (next pre) pre res post := by
  grind [bind_iff, get_iff]

/-- An operation that goes on from a changed state. -/
theorem modify_bind_iff {next : PUnit → ExceptT ε (StateM σ) β} {res : β} :
    Yields (modify change >>= next) pre res post ↔ Yields (next ⟨⟩) (change pre) res post := by
  grind [bind_iff, modify_iff]

/-- Nothing follows a failure. -/
@[simp]
theorem throw_bind_iff {res : β} : Yields (throw err >>= next) pre res post ↔ False := by
  simp

/-! ## Loops -/

variable {step : α → ExceptT ε (StateM σ) PUnit}

/-- A loop over a list from its end: the first element comes last. -/
theorem reverse_forM_cons_iff :
    Yields ((hd :: rest).reverse.forM step) pre res post ↔
      ∃ mid, Yields (rest.reverse.forM step) pre ⟨⟩ mid ∧ Yields (step hd) mid ⟨⟩ post := by
  show Yields (forM (hd :: rest).reverse step) pre res post ↔ _
  rw [List.reverse_cons, List.forM_append, bind_iff]
  constructor
  · simp_all
  simp_all

end Yields

/-- An operation ends with a value in some state, or it stops with an error in some state, and so
much is said of either. -/
def Ensures {ε σ α : Type} (op : ExceptT ε (StateM σ) α) (pre : σ) (done : α → σ → Prop)
    (stops : ε → σ → Prop) : Prop :=
  match op.run.run pre with
  | (.ok v, post) => done v post
  | (.error err, post) => stops err post

namespace Ensures

variable {ε σ α β : Type} {pre post : σ} {op : ExceptT ε (StateM σ) α}
  {done mid : α → σ → Prop} {early stops : ε → σ → Prop}

theorem yields (ends : Ensures op pre done stops) (ran : Yields op pre v post) : done v post := by
  unfold Ensures at ends
  rw [ran] at ends
  exact ends

/-- What is said of the end may be said along with how it came about. -/
theorem yielding (ends : Ensures op pre done stops) :
    Ensures op pre (fun v post => Yields op pre v post ∧ done v post) stops := by
  grind [Yields, Ensures]

/-- What cannot stop ends with a value. -/
theorem exists_yields (ends : Ensures op pre done fun _ _ => False) :
    ∃ v post, Yields op pre v post ∧ done v post := by
  grind [Yields, Ensures]

theorem mono (ends : Ensures op pre mid early) (fails : ∀ err s, early err s → stops err s)
    (holds : ∀ v s, mid v s → done v s) : Ensures op pre done stops := by
  grind [Ensures]

theorem imp (ends : Ensures op pre mid stops) (holds : ∀ v s, mid v s → done v s) :
    Ensures op pre done stops :=
  ends.mono (fun _ _ failed => failed) holds

theorem pure (holds : done v pre) : Ensures (Pure.pure v) pre done stops :=
  holds

theorem throw (fails : stops err pre) : Ensures (throw err) pre done stops :=
  fails

variable {res : β → σ → Prop} {tail : α → ExceptT ε (StateM σ) β}

/-- Operations one after another: where the first stops, so do both. -/
theorem bind (first : Ensures op pre mid early) (fails : ∀ err s, early err s → stops err s)
    (next : ∀ v s, mid v s → Ensures (tail v) s res stops) :
    Ensures (op >>= tail) pre res stops := by
  grind [Yields.run_bind, Ensures]

theorem andThen (first : Ensures op pre mid stops)
    (next : ∀ v s, mid v s → Ensures (tail v) s res stops) : Ensures (op >>= tail) pre res stops :=
  first.bind (fun _ _ failed => failed) next

theorem throw_bind (fails : stops err pre) :
    Ensures (MonadExcept.throw err >>= tail) pre res stops :=
  fails

theorem get_bind {tail : σ → ExceptT ε (StateM σ) β} (next : Ensures (tail pre) pre res stops) :
    Ensures (get >>= tail) pre res stops :=
  next

theorem modify_bind {tail : PUnit → ExceptT ε (StateM σ) β}
    (next : Ensures (tail ⟨⟩) (change pre) res stops) :
    Ensures (modify change >>= tail) pre res stops :=
  next

theorem modify {done : PUnit → σ → Prop} (holds : done ⟨⟩ (change pre)) :
    Ensures (modify change) pre done stops :=
  holds

theorem set_bind {tail : PUnit → ExceptT ε (StateM σ) β}
    (next : Ensures (tail ⟨⟩) s res stops) : Ensures (set s >>= tail) pre res stops :=
  next

/-! ## Loops -/

variable {elems : List α} {step : α → ExceptT ε (StateM σ) PUnit}

/-- What every step of a loop keeps, with the elements that have been passed, holds at its end. -/
theorem forM {motive : List α → σ → Prop} (start : motive [] pre)
    (each :
      ∀ passed s elem, passed ++ [elem] <+: elems → motive passed s →
        Ensures (step elem) s (fun _ next => motive (passed ++ [elem]) next) stops) :
    Ensures (elems.forM step) pre (fun _ post => motive elems post) stops := by
  suffices general :
      ∀ (rest passed : List α) (s : σ), elems = passed ++ rest → motive passed s →
        Ensures (rest.forM step) s (fun _ post => motive elems post) stops from
    general elems [] pre rfl start
  intro rest
  induction rest with
  | nil =>
    simp_all [pure, List.append_nil]
  | cons hd rest ih =>
    intro passed s split holds
    have regrouped : elems = (passed ++ [hd]) ++ rest := by
      rw [split, List.append_assoc, List.singleton_append]
    exact (each passed s hd ⟨rest, regrouped.symm⟩ holds).andThen
      fun _ next holds => ih (passed ++ [hd]) next regrouped holds

/-- A loop over a list from its end: the first element comes last. -/
theorem reverse_forM_cons {mid done : PUnit → σ → Prop}
    (others : Ensures (rest.reverse.forM step) pre mid stops)
    (last : ∀ s, mid ⟨⟩ s → Ensures (step hd) s done stops) :
    Ensures ((hd :: rest).reverse.forM step) pre done stops := by
  show Ensures (ForM.forM (hd :: rest).reverse step) pre done stops
  rw [List.reverse_cons, List.forM_append]
  refine others.andThen fun _ s holds => ?_
  exact (last s holds).andThen fun _ _ holds => .pure holds

variable {motive : List α → List β → σ → Prop}

/-- The same of a loop that collects results. -/
theorem mapM (start : motive [] [] pre) (each :
      ∀ passed results s elem, elem ∈ elems → motive passed results s →
        Ensures (tail elem) s (fun res next => motive (passed ++ [elem]) (results ++ [res]) next)
          stops) :
    Ensures (elems.mapM tail) pre (fun results post => motive elems results post) stops := by
  suffices general :
      ∀ (rest passed : List α) (results : List β) (s : σ), (∀ elem ∈ rest, elem ∈ elems) →
        motive passed results s →
        Ensures (rest.mapM tail) s
          (fun more post => motive (passed ++ rest) (results ++ more) post) stops from
    general elems [] [] pre (fun _ mem => mem) start
  intro rest
  induction rest with
  | nil =>
    grind [pure, List.mapM_nil, List.append_nil]
  | cons hd rest ih =>
    intro passed results s members holds
    rw [List.mapM_cons]
    refine (each passed results s hd (members hd List.mem_cons_self) holds).andThen
      fun one next holds => ?_
    refine (ih _ _ next (fun elem mem => members elem (List.mem_cons_of_mem _ mem)) holds).andThen
      fun more last holds => .pure ?_
    rw [List.append_assoc, List.append_assoc] at holds
    exact holds

/-- The same of a loop that counts the elements. -/
theorem mapM_zipIdx {step : α × Nat → ExceptT ε (StateM σ) β} (start : motive [] [] pre)
    (each :
      ∀ passed results s elem i, elem ∈ elems → motive passed results s →
        Ensures (step (elem, i)) s
          (fun res next => motive (passed ++ [elem]) (results ++ [res]) next) stops) :
    Ensures (elems.zipIdx.mapM step) pre (fun results post => motive elems results post) stops := by
  have all :
      Ensures (elems.zipIdx.mapM step) pre
        (fun results post => motive (elems.zipIdx.map Prod.fst) results post) stops := by
    refine mapM (motive := fun passed results s => motive (passed.map Prod.fst) results s) start ?_
    grind
  rw [List.zipIdx_map_fst] at all
  exact all

end Ensures

/-- An operation succeeds, or it stops with an error in a state that are allowed for. -/
def Proceeds {ε σ α : Type} (stops : ε → σ → Prop) (op : ExceptT ε (StateM σ) α) (pre : σ) : Prop :=
  (∃ v post, Yields op pre v post) ∨
    ∃ err post, op.run.run pre = (.error err, post) ∧ stops err post

theorem Ensures.proceeds
    {done : α → σ → Prop} {stops : ε → σ → Prop} (ends : Ensures op pre done stops) :
    Proceeds stops op pre := by
  unfold Ensures at ends
  split at ends
  · next v post ran => exact .inl ⟨v, post, ran⟩
  · next err post failed => exact .inr ⟨err, post, failed, ends⟩

namespace Encode

variable {ν α : Type} {pre post : Builder ν}

theorem run_ofBuild (op : Build ν α) (pre : Builder ν) :
    (ofBuild op).run.run pre =
      match op.run.run pre with
      | (.ok v, mid) => (.ok v, mid)
      | (.error err, mid) => (.error (.wire err), mid) := by
  show ((op.run >>= _) : StateM (Builder ν) _).run pre = _
  simp only [StateT.run_bind]
  rcases op.run.run pre with ⟨out, mid⟩
  cases out <;> rfl

variable {stops : RecordError → Builder ν → Prop}

/-- And it stops alike. -/
theorem ends_ofBuild {done : α → Builder ν → Prop}
    (ends : Ensures op pre done early) (fails : ∀ err s, early err s → stops (.wire err) s) :
    Ensures (ofBuild op) pre done stops := by
  grind [run_ofBuild, Ensures, ofBuild]

variable {out : Except RecordError α}

/-- A look-up succeeds without a change. -/
@[simp]
theorem yields_ofExcept_iff :
    Yields (ofExcept out : Encode ν α) pre v post ↔ out = .ok v ∧ pre = post := by
  cases out with
  | ok res =>
    show Yields (pure res) pre v post ↔ _
    simp
  | error err =>
    show Yields (throw err) pre v post ↔ _
    simp

@[simp]
theorem yields_liftM_iff : Yields (liftM out : Encode ν α) pre v post ↔ out = .ok v ∧ pre = post :=
  yields_ofExcept_iff

theorem yields_liftM_bind_iff {next : α → Encode ν β} :
    Yields (liftM out >>= next) pre v post ↔
      ∃ hit, out = .ok hit ∧ Yields (next hit) pre v post := by
  grind [Yields.bind_iff, yields_liftM_iff]

theorem ends_liftM_bind {done : β → Builder ν → Prop}
    (fails : ∀ err, out = .error err → stops err pre)
    (hit : ∀ hit, out = .ok hit → Ensures (next hit) pre done stops) :
    Ensures (liftM out >>= next) pre done stops := by
  cases out with
  | ok v => exact hit v rfl
  | error err => exact fails err rfl

end Encode

end FlatSchema
