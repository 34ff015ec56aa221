/-!
# Sorted sets

A finite set is the strictly increasing list of its elements, so two sets with the same
elements are equal (`SortedSet.ext`). The order is the type's `compare`; on texts that is the
order of code points.

Main statements: `mem_insert_iff`, `mem_ofList_iff`, `mem_union_iff` and `mem_inter_iff` say
what each operation does to membership.
-/

namespace ApiSurface

open Std

/-- Puts an element into an increasing list, at its place, unless it is there already. -/
def insertSorted {α : Type _} [Ord α] (a : α) : List α → List α
  | [] => [a]
  | b :: r =>
    match compare a b with
    | .lt => a :: b :: r
    | .eq => b :: r
    | .gt => b :: insertSorted a r

/-- A finite set, as the strictly increasing list of its elements. -/
structure SortedSet (α : Type _) [Ord α] where
  /-- The elements in increasing order. -/
  toList : List α
  /-- Each element is smaller than all those after it. -/
  sorted : toList.Pairwise fun a b => compare a b = .lt

variable {α : Type _} [Ord α]

theorem mem_insertSorted_iff [LawfulEqOrd α] {a x : α} {l : List α} :
    x ∈ insertSorted a l ↔ x = a ∨ x ∈ l := by
  induction l with
  | nil => simp [insertSorted]
  | cons b r ih =>
    unfold insertSorted
    split
    next => simp
    next h =>
      obtain rfl := LawfulEqOrd.eq_of_compare h
      simp
    next => simp only [List.mem_cons, ih, or_left_comm]

theorem pairwise_insertSorted [TransOrd α] [LawfulEqOrd α] (a : α) {l : List α}
    (hl : l.Pairwise fun a b => compare a b = .lt) :
    (insertSorted a l).Pairwise fun a b => compare a b = .lt := by
  induction l with
  | nil => simp [insertSorted]
  | cons b r ih =>
    obtain ⟨hb, hr⟩ := List.pairwise_cons.1 hl
    unfold insertSorted
    split
    next h =>
      refine List.pairwise_cons.2 ⟨fun x hx => ?_, hl⟩
      rcases List.mem_cons.1 hx with rfl | hx
      · exact h
      · exact TransCmp.lt_trans h (hb x hx)
    next => exact hl
    next h =>
      refine List.pairwise_cons.2 ⟨fun x hx => ?_, ih hr⟩
      rcases mem_insertSorted_iff.1 hx with rfl | hx
      · exact OrientedCmp.lt_of_gt h
      · exact hb x hx

/-- The empty list is increasing. -/
theorem pairwise_nil : ([] : List α).Pairwise fun a b => compare a b = .lt := .nil

namespace SortedSet

/-- The set without elements. -/
def empty : SortedSet α := ⟨[], pairwise_nil⟩

instance : EmptyCollection (SortedSet α) := ⟨empty⟩

instance : Inhabited (SortedSet α) := ⟨empty⟩

instance : Membership α (SortedSet α) := ⟨fun s a => a ∈ s.toList⟩

instance [DecidableEq α] : DecidableEq (SortedSet α) := fun s t =>
  decidable_of_iff (s.toList = t.toList)
    ⟨fun h => by cases s; cases t; simpa using h, fun h => h ▸ rfl⟩

instance [DecidableEq α] (a : α) (s : SortedSet α) : Decidable (a ∈ s) :=
  inferInstanceAs (Decidable (a ∈ s.toList))

instance (p : α → Prop) [DecidablePred p] (s : SortedSet α) : Decidable (∀ a ∈ s, p a) :=
  inferInstanceAs (Decidable (∀ a ∈ s.toList, p a))

/-- The number of elements. -/
def size (s : SortedSet α) : Nat := s.toList.length

/-- Whether there is no element. -/
def isEmpty (s : SortedSet α) : Bool := s.toList.isEmpty

@[simp] theorem mem_toList_iff {a : α} {s : SortedSet α} : a ∈ s.toList ↔ a ∈ s := Iff.rfl

@[simp] theorem toList_empty : (∅ : SortedSet α).toList = [] := rfl

/-- No element is listed twice. -/
theorem nodup_toList [ReflOrd α] (s : SortedSet α) : s.toList.Nodup :=
  s.sorted.imp fun h heq => by simp [heq, ReflCmp.compare_self] at h

@[simp] theorem not_mem_empty (a : α) : a ∉ (∅ : SortedSet α) := List.not_mem_nil

/-! ### Operations -/

/-- The elements of both sets. -/
def inter [DecidableEq α] (s t : SortedSet α) : SortedSet α :=
  ⟨s.toList.filter (· ∈ t), s.sorted.filter _⟩

theorem mem_inter_iff [DecidableEq α] {a : α} {s t : SortedSet α} :
    a ∈ s.inter t ↔ a ∈ s ∧ a ∈ t := by
  change a ∈ s.toList.filter _ ↔ _
  simp

section Operations

variable [TransOrd α] [LawfulEqOrd α]

/-- The set with one element more. -/
def insert (a : α) (s : SortedSet α) : SortedSet α :=
  ⟨insertSorted a s.toList, pairwise_insertSorted a s.sorted⟩

/-- The set of the elements of a list. -/
def ofList (l : List α) : SortedSet α := l.foldr insert ∅

/-- The elements of either set. -/
def union (s t : SortedSet α) : SortedSet α := t.toList.foldr insert s

theorem mem_insert_iff {a x : α} {s : SortedSet α} : x ∈ s.insert a ↔ x = a ∨ x ∈ s :=
  mem_insertSorted_iff

theorem mem_ofList_iff {a : α} {l : List α} : a ∈ ofList l ↔ a ∈ l := by
  induction l with
  | nil => simp [ofList]
  | cons b r ih =>
    simp only [ofList, List.foldr_cons, mem_insert_iff, List.mem_cons] at ih ⊢
    rw [ih]

theorem mem_union_iff {a : α} {s t : SortedSet α} : a ∈ s.union t ↔ a ∈ s ∨ a ∈ t := by
  have : ∀ l : List α, a ∈ l.foldr insert s ↔ a ∈ s ∨ a ∈ l := fun l => by
    induction l with
    | nil => simp
    | cons b r ih => simp only [List.foldr_cons, mem_insert_iff, ih, List.mem_cons, or_left_comm]
  exact this t.toList

/-- Sets with the same elements are equal. -/
@[ext] theorem ext {s t : SortedSet α} (h : ∀ a, a ∈ s ↔ a ∈ t) : s = t := by
  obtain ⟨l, hl⟩ := s
  obtain ⟨m, hm⟩ := t
  change ∀ a, a ∈ l ↔ a ∈ m at h
  simp only [mk.injEq]
  have irrefl : ∀ a : α, compare a a ≠ .lt := fun a => by simp [ReflCmp.compare_self]
  induction l generalizing m with
  | nil => cases m with
    | nil => rfl
    | cons b m => simpa using h b
  | cons a l ih => cases m with
    | nil => simpa using h a
    | cons b m =>
      obtain ⟨ha, hl'⟩ := List.pairwise_cons.1 hl
      obtain ⟨hb, hm'⟩ := List.pairwise_cons.1 hm
      have hab : a = b := by
        rcases List.mem_cons.1 ((h a).1 List.mem_cons_self) with hab | ha'
        · exact hab
        rcases List.mem_cons.1 ((h b).2 List.mem_cons_self) with hab | hb'
        · exact hab.symm
        exact absurd (TransCmp.lt_trans (ha b hb') (hb a ha')) (irrefl a)
      subst hab
      congr 1
      refine ih hl' m hm' fun x => ⟨fun hx => ?_, fun hx => ?_⟩
      · rcases List.mem_cons.1 ((h x).1 (List.mem_cons_of_mem _ hx)) with rfl | hx'
        · exact absurd (ha x hx) (irrefl x)
        · exact hx'
      · rcases List.mem_cons.1 ((h x).2 (List.mem_cons_of_mem _ hx)) with rfl | hx'
        · exact absurd (hb x hx) (irrefl x)
        · exact hx'

theorem ofList_concat (l : List α) (a : α) : ofList (l ++ [a]) = (ofList l).insert a := by
  ext x
  rw [mem_insert_iff, mem_ofList_iff, mem_ofList_iff, List.mem_append, List.mem_singleton, or_comm]

/-- A set is made of the list of its elements. -/
@[simp] theorem ofList_toList (s : SortedSet α) : ofList s.toList = s :=
  ext fun _ => mem_ofList_iff

end Operations

end SortedSet

end ApiSurface
