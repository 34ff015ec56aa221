import ApiSurface.Text.Basic

/-!
# Name tables

A table hands out one number for each distinct text, so that equal names can be told by their
numbers. Whoever reads lines has a table at hand and enters the names that are read (`Reading`).
-/

namespace ApiSurface

/-- The names entered so far, each at the place that is its number. -/
structure NameTable where
  /-- The names in the order in which they were entered. -/
  names : List Text := []
  /-- No name is entered twice. -/
  nodup : names.Nodup := by simp

namespace NameTable

/-- The table without names. -/
def empty : NameTable := {}

/-- The number of names. -/
def size (t : NameTable) : Nat := t.names.length

/-- Whether no name was entered. -/
def isEmpty (t : NameTable) : Bool := t.names.isEmpty

/-- The table with a name entered, unless it is there already. -/
def enter (t : NameTable) (name : Text) : NameTable :=
  if h : name ∈ t.names then t
  else
    { names := t.names ++ [name]
      nodup := by
        rw [List.nodup_append]
        refine ⟨t.nodup, by simp, fun a ha b hb => ?_⟩
        rintro rfl
        exact h (List.mem_singleton.1 hb ▸ ha) }

/-- The table with a name entered, and the number of the name. -/
def intern (t : NameTable) (name : Text) : NameTable × Nat := (t.enter name, t.names.idxOf name)

/-- The number of a name, if it was entered. -/
def number? (t : NameTable) (name : Text) : Option Nat :=
  if name ∈ t.names then some (t.names.idxOf name) else none

/-- The name with a number. -/
def nameAt (t : NameTable) (i : Nat) : Text := t.names[i]?.getD []

theorem mem_enter_iff {t : NameTable} {name x : Text} :
    x ∈ (t.enter name).names ↔ x ∈ t.names ∨ x = name := by
  unfold enter
  split
  next h => exact ⟨Or.inl, fun h' => h'.elim id (· ▸ h)⟩
  next => simp

theorem prefix_enter (t : NameTable) (name : Text) : t.names <+: (t.enter name).names := by
  unfold enter
  split
  next => exact List.prefix_rfl
  next => exact List.prefix_append _ _

/-- Names that were entered keep their numbers. -/
theorem getElem?_enter {t : NameTable} {i : Nat} {x : Text} (h : t.names[i]? = some x)
    (name : Text) : (t.enter name).names[i]? = some x := by
  obtain ⟨more, hmore⟩ := t.prefix_enter name
  rw [← hmore, List.getElem?_append_left (List.getElem?_eq_some_iff.1 h).1]
  exact h

theorem getElem?_idxOf {t : NameTable} {name : Text} (h : name ∈ t.names) :
    t.names[t.names.idxOf name]? = some name := by
  rw [List.getElem?_eq_getElem (List.idxOf_lt_length_of_mem h), List.getElem_idxOf]

/-- The number that is handed out for a name is the place of the name. -/
theorem getElem?_intern (t : NameTable) (name : Text) :
    (t.intern name).1.names[(t.intern name).2]? = some name := by
  show (t.enter name).names[t.names.idxOf name]? = some name
  unfold enter
  split
  next h => exact getElem?_idxOf h
  next h =>
    rw [List.idxOf_eq_length h]
    exact List.getElem?_concat_length

theorem size_le_enter (t : NameTable) (name : Text) : t.size ≤ (t.enter name).size :=
  (t.prefix_enter name).length_le

theorem intern_lt (t : NameTable) (name : Text) : (t.intern name).2 < (t.enter name).size :=
  (List.getElem?_eq_some_iff.1 (t.getElem?_intern name)).1

theorem getElem?_eq_some_nameAt {t : NameTable} {i : Nat} (h : i < t.size) :
    t.names[i]? = some (t.nameAt i) := by
  rw [nameAt, List.getElem?_eq_getElem h, Option.getD_some]

theorem nameAt_enter {t : NameTable} {i : Nat} (h : i < t.size) (name : Text) :
    (t.enter name).nameAt i = t.nameAt i := by
  rw [nameAt, getElem?_enter (getElem?_eq_some_nameAt h), Option.getD_some]

theorem nameAt_intern (t : NameTable) (name : Text) :
    (t.enter name).nameAt (t.intern name).2 = name := by
  have hplace : (t.enter name).names[(t.intern name).2]? = some name := t.getElem?_intern name
  rw [nameAt, hplace, Option.getD_some]

/-- No two numbers are those of one name. -/
theorem eq_of_getElem? {t : NameTable} {i j : Nat} {name : Text} (hi : t.names[i]? = some name)
    (hj : t.names[j]? = some name) : i = j :=
  (List.getElem?_inj (List.getElem?_eq_some_iff.1 hi).1 t.nodup).1 (hi.trans hj.symm)

theorem number?_eq_some_iff {t : NameTable} {name : Text} {i : Nat} :
    t.number? name = some i ↔ t.names[i]? = some name := by
  unfold number?
  split
  next h =>
    constructor
    · rintro ⟨⟩
      exact getElem?_idxOf h
    · exact fun hi => congrArg some (eq_of_getElem? (getElem?_idxOf h) hi)
  next h => exact iff_of_false (fun hnone => nomatch hnone) fun hi => h (List.mem_of_getElem? hi)

end NameTable

/-! ### Reading with a table at hand -/

/-- Reading with a table at hand. Names that were entered stay in the table, also where reading
fails. -/
abbrev Reading (ε α : Type) : Type := ExceptT ε (StateM NameTable) α

namespace Reading

/-- Enters a name into the table at hand. -/
def enter {ε : Type} (name : Text) : Reading ε Unit := modify (·.enter name)

/-- What is read with a table of its own. -/
def result {ε α : Type} (r : Reading ε α) : Except ε α := (r.run .empty).1

@[simp] theorem result_throw {ε α : Type} (e : ε) :
    Reading.result (throw e : Reading ε α) = .error e := rfl

/-- A step that uses no table succeeds by itself, and the rest is read with what it gives. -/
theorem result_bind_eq_ok_iff {ε α β : Type} {x : Except ε β} {k : β → Reading ε α} {a : α} :
    Reading.result (liftM x >>= k) = .ok a ↔ ∃ b, x = .ok b ∧ (k b).result = .ok a := by
  rcases x with e | b
  · exact iff_of_false (fun h => nomatch h) (by simp)
  · exact ⟨fun h => ⟨b, rfl, h⟩, fun ⟨_, hb, h⟩ => by cases hb; exact h⟩

/-- A last step that uses no table goes on from what was read, and leaves the table as it is. -/
theorem run_bind_lift {ε α β : Type} (r : Reading ε β) (x : β → Except ε α) (t : NameTable) :
    ExceptT.run (r >>= fun b => liftM (x b)) t = ((r.run t).1 >>= x, (r.run t).2) := by
  change (match r.run t with
    | (a, t') => StateT.run (m := Id) (ExceptT.bindCont (fun b => liftM (x b)) a) t') = _
  rcases r.run t with ⟨e | b, t'⟩ <;> rfl

theorem result_bind_lift {ε α β : Type} (r : Reading ε β) (x : β → Except ε α) :
    Reading.result (r >>= fun b => liftM (x b)) = r.result >>= x :=
  congrArg Prod.fst (run_bind_lift r x .empty)

@[simp] theorem result_adapt {ε ε' α : Type} (f : ε → ε') (r : Reading ε α) :
    Reading.result (r.adapt f) = r.result.mapError f := rfl

end Reading

end ApiSurface
