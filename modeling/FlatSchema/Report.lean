import FlatSchema.Diagnostic

/-!
# Reports

A checking step yields a value together with the diagnostics it found.  Steps
are run one after another; their diagnostics are concatenated in that order,
and none is ever dropped.
-/

namespace FlatSchema

/-- A value with what was found on the way to it. -/
structure Report (α : Type) where
  value : α
  diagnostics : List Diagnostic
deriving Repr

namespace Report

variable {α β σ : Type}

def andThen (report : Report α) (next : α → Report β) : Report β :=
  let following := next report.value
  ⟨following.value, report.diagnostics ++ following.diagnostics⟩

instance : Monad Report where
  pure v := ⟨v, []⟩
  bind := andThen

def found (diags : List Diagnostic) : Report Unit :=
  ⟨(), diags⟩

@[simp]
theorem value_pure (v : α) : (pure v : Report α).value = v :=
  rfl

@[simp]
theorem diagnostics_pure (v : α) : (pure v : Report α).diagnostics = [] :=
  rfl

@[simp]
theorem value_bind (report : Report α) (next : α → Report β) :
    (report >>= next).value = (next report.value).value :=
  rfl

@[simp]
theorem diagnostics_bind (report : Report α) (next : α → Report β) :
    (report >>= next).diagnostics = report.diagnostics ++ (next report.value).diagnostics :=
  rfl

@[simp]
theorem value_map (function : α → β) (report : Report α) :
    (function <$> report).value = function report.value :=
  rfl

def forEach (step : α → Report β) : List α → Report (List β)
  | [] => pure []
  | first :: rest => do
      let head ← step first
      let tail ← forEach step rest
      return head :: tail

@[simp]
theorem value_forEach (step : α → Report β) (elems : List α) :
    (forEach step elems).value = elems.map fun elem => (step elem).value := by
  induction elems with
  | nil => rfl
  | cons first rest ih => simp [forEach, ih]

/-- Pass a state through a list. -/
def through (step : σ → α → Report σ) (s : σ) : List α → Report σ
  | [] => pure s
  | first :: rest => do
      let next ← step s first
      through step next rest

end Report

end FlatSchema
