/-!
# Values with a log

A computation that goes on after it has found something to report returns its value together
with the list of its reports, in the order in which they were made.
-/

namespace ApiSurface

/-- A value and what was reported while it was computed, earliest first. -/
structure Logged (ε : Type _) (α : Type _) where
  /-- The result. -/
  value : α
  /-- The reports, earliest first. -/
  log : List ε
  deriving DecidableEq

namespace Logged

variable {ε ε' : Type _} {α β : Type _}

instance : Monad (Logged ε) where
  pure a := ⟨a, []⟩
  bind x f :=
    let y := f x.value
    ⟨y.value, x.log ++ y.log⟩

/-- Reports one thing. -/
def report (e : ε) : Logged ε Unit := ⟨(), [e]⟩

/-- The same value with every report changed by `f`. -/
def mapLog (f : ε → ε') (x : Logged ε α) : Logged ε' α := ⟨x.value, x.log.map f⟩

/-- The results for the elements of a list, one after the other. -/
def traverse (f : α → Logged ε β) (l : List α) : Logged ε (List β) :=
  let results := l.map f
  ⟨results.map value, results.flatMap log⟩

@[simp] theorem value_pure (a : α) : (pure a : Logged ε α).value = a := rfl

@[simp] theorem log_pure (a : α) : (pure a : Logged ε α).log = [] := rfl

/-- A value with nothing reported. -/
theorem eq_pure {x : Logged ε α} {a : α} (hvalue : x.value = a) (hlog : x.log = []) :
    x = pure a := by
  cases x
  cases hvalue
  cases hlog
  rfl

@[simp] theorem value_bind (x : Logged ε α) (f : α → Logged ε β) :
    (x >>= f).value = (f x.value).value := rfl

@[simp] theorem log_bind (x : Logged ε α) (f : α → Logged ε β) :
    (x >>= f).log = x.log ++ (f x.value).log := rfl

@[simp] theorem value_map (f : α → β) (x : Logged ε α) : (f <$> x).value = f x.value := rfl

@[simp] theorem log_map (f : α → β) (x : Logged ε α) : (f <$> x).log = x.log := List.append_nil _

@[simp] theorem log_report (e : ε) : (report e).log = [e] := rfl

@[simp] theorem value_mapLog (f : ε → ε') (x : Logged ε α) : (x.mapLog f).value = x.value := rfl

@[simp] theorem log_mapLog (f : ε → ε') (x : Logged ε α) : (x.mapLog f).log = x.log.map f := rfl

@[simp] theorem value_traverse (f : α → Logged ε β) (l : List α) :
    (traverse f l).value = l.map fun a => (f a).value := List.map_map

@[simp] theorem log_traverse (f : α → Logged ε β) (l : List α) :
    (traverse f l).log = l.flatMap fun a => (f a).log := List.flatMap_map ..

end Logged

end ApiSurface
