import FlatSchema.Problem

/-!
# Reports without errors

A check is trusted only when its report is clean.  Errors are never dropped,
so a report is clean exactly when each of its steps is, and whatever a chain
of clean steps keeps holds of the whole chain.
-/

namespace FlatSchema

namespace DiagnosticAt

variable {ν : Type}

@[simp]
theorem hasErrors_nil : hasErrors ([] : List (DiagnosticAt ν)) = false :=
  rfl

@[simp]
theorem hasErrors_append (fst snd : List (DiagnosticAt ν)) :
    hasErrors (fst ++ snd) = (hasErrors fst || hasErrors snd) := by
  simp [hasErrors]

@[simp]
theorem hasErrors_cons (hd : DiagnosticAt ν) (rest : List (DiagnosticAt ν)) :
    hasErrors (hd :: rest) = (hd.isError || hasErrors rest) :=
  rfl

end DiagnosticAt

/-- Every problem is an error. -/
@[simp]
theorem Problem.isError_diagnostic (problem : Problem) (span : Span) :
    (problem.diagnostic span).isError = true :=
  rfl

namespace Report

variable {α β σ : Type}

/-- No diagnostic of a report is an error. -/
def Clean (report : Report α) : Prop :=
  DiagnosticAt.hasErrors report.diagnostics = false

@[simp]
theorem clean_pure (v : α) : (pure v : Report α).Clean :=
  rfl

@[simp]
theorem clean_bind (report : Report α) (next : α → Report β) :
    (report >>= next).Clean ↔ report.Clean ∧ (next report.value).Clean := by
  simp [Clean]

@[simp]
theorem clean_found (diags : List Diagnostic) :
    (found diags).Clean ↔ DiagnosticAt.hasErrors diags = false :=
  Iff.rfl

@[simp]
theorem not_clean_report (problem : Problem) (span : Span) : ¬ (problem.report span).Clean := by
  simp [Clean]

@[simp]
theorem clean_forEach (step : α → Report β) (elems : List α) :
    (forEach step elems).Clean ↔ ∀ elem ∈ elems, (step elem).Clean := by
  induction elems with
  | nil => simp [forEach]
  | cons hd rest ih => simp [forEach, ih]

theorem through_cons (step : σ → α → Report σ) (s : σ) (hd : α) (rest : List α) :
    through step s (hd :: rest) = step s hd >>= fun next => through step next rest :=
  rfl

/--
What holds before the first step and is kept by every clean step holds after a clean chain.  The
invariant may speak of the elements that have been passed.
-/
theorem through_induction {motive : List α → σ → Prop} (initial : motive [] s)
    (kept :
      ∀ passed elem s, elem ∈ elems → motive passed s → (step s elem).Clean →
        motive (passed ++ [elem]) (step s elem).value) (clean : (through step s elems).Clean) :
    motive elems (through step s elems).value := by
  suffices general :
      ∀ rest passed s, rest ⊆ elems → motive passed s → (through step s rest).Clean →
        motive (passed ++ rest) (through step s rest).value from
    general elems [] s (fun _ mem => mem) initial clean
  intro rest
  induction rest with
  | nil =>
    simp_all [through, Clean]
  | cons hd rest ih =>
    intro passed s fits holds clean
    rw [through_cons, clean_bind] at clean
    have firstKept := kept passed hd s (fits List.mem_cons_self) holds clean.1
    have restKept :=
      ih (passed ++ [hd]) (step s hd).value
        (fun _ mem => fits (List.mem_cons_of_mem _ mem)) firstKept clean.2
    rw [List.append_assoc] at restKept
    exact restKept

end Report

end FlatSchema
