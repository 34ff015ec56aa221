import ApiSurface.Sorted.Set

/-!
# Sorted maps

A finite map is the list of its entries with strictly increasing keys. Main statements:
`get?_insert`, `get?_erase` and `get?_modify` say what each operation does to look-ups, and
`SortedMap.ext_get?` that look-ups determine the map.
-/

namespace ApiSurface

open Std

/-- Puts an entry into a list with increasing keys, at its place; an entry of the same key gives
way to it. -/
def insertEntry {α : Type _} {β : Type _} [Ord α] (k : α) (v : β) :
    List (α × β) → List (α × β)
  | [] => [(k, v)]
  | e :: r =>
    match compare k e.1 with
    | .lt => (k, v) :: e :: r
    | .eq => (k, v) :: r
    | .gt => e :: insertEntry k v r

/-- A finite map, as the list of its entries in the order of their keys. -/
structure SortedMap (α : Type _) (β : Type _) [Ord α] where
  /-- The keys with their values, in increasing order of the keys. -/
  entries : List (α × β)
  /-- Each key is smaller than all those after it. -/
  sorted : (entries.map (·.1)).Pairwise fun a b => compare a b = .lt

variable {α : Type _} {β : Type _} [Ord α]

theorem map_fst_insertEntry [LawfulEqOrd α] (k : α) (v : β) (l : List (α × β)) :
    (insertEntry k v l).map (·.1) = insertSorted k (l.map (·.1)) := by
  induction l with
  | nil => rfl
  | cons e r ih =>
    rcases h : compare k e.1 with _ | _ | _
    · simp [insertEntry, insertSorted, h]
    · simp [insertEntry, insertSorted, LawfulEqOrd.eq_of_compare h]
    · simp [insertEntry, insertSorted, h, ih]

/-- Of the key of an inserted entry that entry is found, of all other keys what was there. -/
theorem find?_insertEntry [DecidableEq α] [LawfulEqOrd α] (k : α) (v : β)
    (l : List (α × β)) (x : α) :
    (insertEntry k v l).find? (·.1 = x) =
      if x = k then some (k, v) else l.find? (·.1 = x) := by
  induction l with
  | nil => by_cases h : x = k <;> simp [insertEntry, h, eq_comm]
  | cons e r ih =>
    unfold insertEntry
    split
    next => by_cases h : x = k <;> simp [h, eq_comm (b := x)]
    next h =>
      have := LawfulEqOrd.eq_of_compare h
      subst this
      by_cases h : x = e.1 <;> simp [h, eq_comm (b := x)]
    next h =>
      have hne : e.1 ≠ k := fun h' => by simp [h', ReflCmp.compare_self] at h
      by_cases he : e.1 = x
      · subst he
        simp [hne]
      · simpa [he] using ih

namespace SortedMap

/-- The map without entries. -/
def empty : SortedMap α β := ⟨[], pairwise_nil⟩

instance : EmptyCollection (SortedMap α β) := ⟨empty⟩

instance : Inhabited (SortedMap α β) := ⟨empty⟩

instance [DecidableEq α] [DecidableEq β] : DecidableEq (SortedMap α β) := fun s t =>
  decidable_of_iff (s.entries = t.entries)
    ⟨fun h => by cases s; cases t; simpa using h, fun h => h ▸ rfl⟩

/-- The keys in increasing order. -/
def keys (m : SortedMap α β) : List α := m.entries.map (·.1)

/-- The values in the order of their keys. -/
def values (m : SortedMap α β) : List β := m.entries.map (·.2)

/-- The number of entries. -/
def size (m : SortedMap α β) : Nat := m.entries.length

/-- Whether there is no entry. -/
def isEmpty (m : SortedMap α β) : Bool := m.entries.isEmpty

section Lookup

variable [DecidableEq α]

/-- The value of a key. -/
def get? (m : SortedMap α β) (k : α) : Option β :=
  (m.entries.find? (·.1 = k)).map (·.2)

/-- Whether a key has a value. -/
def contains (m : SortedMap α β) (k : α) : Bool := (m.get? k).isSome

/-- The map without a key. -/
def erase (m : SortedMap α β) (k : α) : SortedMap α β where
  entries := m.entries.filter (·.1 ≠ k)
  sorted := m.sorted.sublist (List.filter_sublist.map _)

/-- The map with the value of one key changed, if the key has one. -/
def modify (m : SortedMap α β) (k : α) (f : β → β) : SortedMap α β where
  entries := m.entries.map fun e => if e.1 = k then (e.1, f e.2) else e
  sorted := by
    have : (m.entries.map fun e => if e.1 = k then (e.1, f e.2) else e).map (·.1) = m.keys := by
      rw [keys, List.map_map]
      exact List.map_congr_left fun e _ => by simp only [Function.comp]; split <;> rfl
    rw [this]
    exact m.sorted

end Lookup

section Insertion

variable [TransOrd α] [LawfulEqOrd α]

/-- The map with a value for a key, in place of an earlier one. -/
def insert (m : SortedMap α β) (k : α) (v : β) : SortedMap α β where
  entries := insertEntry k v m.entries
  sorted := by
    rw [map_fst_insertEntry]
    exact pairwise_insertSorted k m.sorted

/-- The map of a list of entries; of several with one key the last counts. -/
def ofList (l : List (α × β)) : SortedMap α β := l.foldl (fun m e => m.insert e.1 e.2) ∅

end Insertion

theorem nodup_keys [LawfulEqOrd α] (m : SortedMap α β) : m.keys.Nodup :=
  m.sorted.imp fun h heq => by simp [heq, ReflCmp.compare_self] at h

/-! ### Look-ups -/

section Laws

variable [DecidableEq α]

@[simp] theorem get?_empty (k : α) : (∅ : SortedMap α β).get? k = none := rfl

theorem mem_keys_iff {m : SortedMap α β} {k : α} : k ∈ m.keys ↔ (m.get? k).isSome := by
  simp [keys, get?]

theorem mem_entries_of_get? {m : SortedMap α β} {k : α} {v : β} (h : m.get? k = some v) :
    (k, v) ∈ m.entries := by
  obtain ⟨e, he, rfl⟩ := Option.map_eq_some_iff.1 h
  obtain rfl : e.1 = k := by simpa using List.find?_some he
  exact List.mem_of_find?_eq_some he

theorem contains_iff_mem_keys {m : SortedMap α β} {k : α} : m.contains k = true ↔ k ∈ m.keys := by
  simp [contains, mem_keys_iff]

theorem get?_erase (m : SortedMap α β) (k x : α) :
    (m.erase k).get? x = if x = k then none else m.get? x := by
  simp only [get?, erase, List.find?_filter]
  split
  next h =>
    subst h
    simp
  next h =>
    congr 1
    congr 1
    funext e
    by_cases he : e.1 = x
    · simp [he, h]
    · simp [he]

theorem get?_modify (m : SortedMap α β) (k : α) (f : β → β) (x : α) :
    (m.modify k f).get? x = if x = k then (m.get? x).map f else m.get? x := by
  simp only [get?, modify]
  induction m.entries with
  | nil => simp
  | cons e r ih =>
    by_cases he : e.1 = x
    · subst he
      by_cases hk : e.1 = k <;> simp [hk]
    · have : (if e.1 = k then (e.1, f e.2) else e).1 = e.1 := by split <;> rfl
      simp only [List.map_cons, List.find?_cons, this, he, decide_false, ih]

@[simp] theorem keys_modify (m : SortedMap α β) (k : α) (f : β → β) :
    (m.modify k f).keys = m.keys := by
  rw [keys, modify, List.map_map]
  exact List.map_congr_left fun e _ => by simp only [Function.comp]; split <;> rfl

/-- Each entry is the value of its key. -/
theorem get?_eq_some_iff [LawfulEqOrd α] {m : SortedMap α β} {k : α} {v : β} :
    m.get? k = some v ↔ (k, v) ∈ m.entries := by
  refine ⟨mem_entries_of_get?, fun h => ?_⟩
  have hnodup : (m.entries.map (·.1)).Nodup := m.nodup_keys
  rw [get?]
  revert h hnodup
  induction m.entries with
  | nil => simp
  | cons e r ih =>
    intro h hnodup
    rw [List.map_cons, List.nodup_cons] at hnodup
    rcases List.mem_cons.1 h with rfl | h
    · simp
    · have hne : e.1 ≠ k := fun heq => hnodup.1 (List.mem_map.2 ⟨(k, v), h, heq.symm⟩)
      rw [List.find?_cons_of_neg (by simpa using hne)]
      exact ih h hnodup.2

section Steps

variable {γ : Type _} {step : SortedMap α β → γ → SortedMap α β} {q : γ → Prop} {k : α} {v : β}

/-- An entry of a map that is built in steps was there before, or one of the steps gave it. -/
theorem of_get?_foldl (hstep : ∀ m a, (step m a).get? k = some v → m.get? k = some v ∨ q a)
    {l : List γ} {m : SortedMap α β} (h : (l.foldl step m).get? k = some v) :
    m.get? k = some v ∨ ∃ a ∈ l, q a := by
  induction l generalizing m with
  | nil => exact .inl h
  | cons a l ih =>
    rcases ih h with hget | ⟨b, hb, hq⟩
    · rcases hstep m a hget with hold | hq
      · exact .inl hold
      · exact .inr ⟨a, List.mem_cons_self, hq⟩
    · exact .inr ⟨b, List.mem_cons_of_mem _ hb, hq⟩

/-- A key that has an entry, or gets one in a step, has one in the end. -/
theorem get?_foldl_ne_none (hkeep : ∀ m a, m.get? k ≠ none → (step m a).get? k ≠ none)
    (hgive : ∀ m a, q a → (step m a).get? k ≠ none) {l : List γ} {m : SortedMap α β}
    (h : m.get? k ≠ none ∨ ∃ a ∈ l, q a) : (l.foldl step m).get? k ≠ none := by
  induction l generalizing m with
  | nil => exact h.resolve_right fun ⟨_, hmem, _⟩ => List.not_mem_nil hmem
  | cons a l ih =>
    refine ih ?_
    rcases h with h | ⟨b, hb, hq⟩
    · exact .inl (hkeep m a h)
    · rcases List.mem_cons.1 hb with rfl | hb
      · exact .inl (hgive m b hq)
      · exact .inr ⟨b, hb, hq⟩

end Steps

variable [TransOrd α] [LawfulEqOrd α]

theorem get?_insert (m : SortedMap α β) (k : α) (v : β) (x : α) :
    (m.insert k v).get? x = if x = k then some v else m.get? x := by
  rw [get?, insert, find?_insertEntry]
  split <;> rfl

theorem of_get?_insert {m : SortedMap α β} {k x : α} {v w : β}
    (h : (m.insert k v).get? x = some w) : m.get? x = some w ∨ x = k ∧ v = w := by
  rw [get?_insert] at h
  split at h
  next hk => exact .inr ⟨hk, Option.some.inj h⟩
  next => exact .inl h

theorem get?_insert_ne_none {m : SortedMap α β} {k x : α} (v : β) (h : m.get? x ≠ none ∨ x = k) :
    (m.insert k v).get? x ≠ none := by
  rw [get?_insert]
  split
  next => exact Option.some_ne_none v
  next hk => exact h.resolve_right hk

theorem of_get?_ofList {l : List (α × β)} {k : α} {v : β} (h : (ofList l).get? k = some v) :
    (k, v) ∈ l := by
  have hstep : ∀ (m : SortedMap α β) (e : α × β), (m.insert e.1 e.2).get? k = some v →
      m.get? k = some v ∨ e = (k, v) := by
    intro m e hget
    exact (of_get?_insert hget).imp_right fun ⟨hk, hv⟩ => Prod.ext hk.symm hv
  rcases of_get?_foldl hstep h with hempty | ⟨_, hmem, rfl⟩
  · cases hempty
  · exact hmem

/-- Two maps that answer every look-up alike are equal. -/
theorem ext_get? {m n : SortedMap α β} (h : ∀ k, m.get? k = n.get? k) : m = n := by
  have hkeys : m.keys = n.keys := by
    have : (⟨m.keys, m.sorted⟩ : SortedSet α) = ⟨n.keys, n.sorted⟩ := SortedSet.ext fun k => by
      change k ∈ m.keys ↔ k ∈ n.keys
      rw [mem_keys_iff, mem_keys_iff, h]
    exact congrArg SortedSet.toList this
  obtain ⟨l, hl⟩ := m
  obtain ⟨l', hl'⟩ := n
  simp only [mk.injEq, keys, get?] at hkeys h ⊢
  clear hl'
  have irrefl : ∀ a : α, compare a a ≠ .lt := fun a => by simp [ReflCmp.compare_self]
  induction l generalizing l' with
  | nil => cases l' <;> simp_all
  | cons e r ih => cases l' with
    | nil => simp at hkeys
    | cons e' r' =>
      obtain ⟨hlt, hr⟩ := List.pairwise_cons.1 hl
      simp only [List.map_cons, List.cons.injEq] at hkeys
      have he : e = e' := by
        have := h e.1
        simp only [List.find?_cons, hkeys.1, decide_true, Option.map_some,
          Option.some.injEq] at this
        exact Prod.ext hkeys.1 this
      subst he
      rw [ih hr r' (fun k => ?_) hkeys.2]
      by_cases hk : e.1 = k
      · subst hk
        have absent : ∀ s : List (α × β), s.map (·.1) = r.map (·.1) →
            s.find? (fun x => decide (x.1 = e.1)) = none := fun s hs => by
          refine List.find?_eq_none.2 fun x hx => ?_
          have hx : x.1 ∈ r.map (·.1) := hs ▸ List.mem_map_of_mem hx
          have := hlt _ hx
          intro heq
          simp only [decide_eq_true_eq] at heq
          exact irrefl _ (heq ▸ this)
        rw [absent r rfl, absent r' hkeys.2.symm]
      · simpa [hk] using h k

/-- A map is made of the list of its entries. -/
theorem ofList_entries (m : SortedMap α β) : ofList m.entries = m := by
  refine ext_get? fun k => ?_
  rcases hget : m.get? k with _ | v
  · rcases hof : (ofList m.entries).get? k with _ | w
    · rfl
    · rw [get?_eq_some_iff.2 (of_get?_ofList hof)] at hget
      cases hget
  · have hne : (ofList m.entries).get? k ≠ none :=
      get?_foldl_ne_none (q := fun e => e = (k, v)) (fun _ e h => get?_insert_ne_none e.2 (.inl h))
        (fun _ _ h => h ▸ get?_insert_ne_none v (.inr rfl))
        (.inr ⟨(k, v), mem_entries_of_get? hget, rfl⟩)
    obtain ⟨w, hof⟩ := Option.ne_none_iff_exists'.1 hne
    rw [hof, ← hget, get?_eq_some_iff.2 (of_get?_ofList hof)]

end Laws

end SortedMap

end ApiSurface
