/-!
# Grouping by a key

Lists whose elements are told apart by a key: the first element of each key, all elements of
each key together, and the keys that come up again.

Main statements: `nodup_map_distinctBy`, `mem_map_distinctBy_iff` and `map_fst_groupsBy`.
-/

namespace ApiSurface

variable {α κ : Type _} [DecidableEq κ]

/-- The elements with another key. -/
def withoutKey (key : α → κ) (k : κ) (l : List α) : List α := l.filter fun b => key b ≠ k

theorem length_withoutKey_le (key : α → κ) (k : κ) (l : List α) :
    (withoutKey key k l).length ≤ l.length := List.length_filter_le ..

theorem mem_withoutKey_iff {key : α → κ} {k : κ} {l : List α} {a : α} :
    a ∈ withoutKey key k l ↔ a ∈ l ∧ key a ≠ k := by simp [withoutKey]

/-- The first element of each key, in the order of the list. -/
def distinctBy (key : α → κ) : List α → List α
  | [] => []
  | a :: l => a :: distinctBy key (withoutKey key (key a) l)
termination_by l => l.length
decreasing_by exact Nat.lt_succ_of_le (length_withoutKey_le ..)

/-- The elements of a list in groups, one for each key: the first element of the key and the
others, in the order of the list. The groups are in the order of their first elements. -/
def groupsBy (key : α → κ) : List α → List (α × List α)
  | [] => []
  | a :: l => (a, l.filter fun b => key b = key a) :: groupsBy key (withoutKey key (key a) l)
termination_by l => l.length
decreasing_by exact Nat.lt_succ_of_le (length_withoutKey_le ..)

/-- The elements that are in `seen` or come up earlier in the list. -/
def repeats (seen : List κ) : List κ → List κ
  | [] => []
  | k :: l => if k ∈ seen then k :: repeats seen l else repeats (k :: seen) l

theorem map_fst_groupsBy (key : α → κ) (l : List α) :
    (groupsBy key l).map (·.1) = distinctBy key l := by
  fun_induction groupsBy key l with
  | case1 => simp [distinctBy]
  | case2 a l ih => rw [distinctBy, List.map_cons, ih]

theorem mem_of_mem_distinctBy {key : α → κ} {l : List α} {a : α} (h : a ∈ distinctBy key l) :
    a ∈ l := by
  fun_induction distinctBy key l with
  | case1 => exact h
  | case2 b l ih =>
    rcases List.mem_cons.1 h with rfl | h
    · exact List.mem_cons_self
    · exact List.mem_cons_of_mem _ (mem_withoutKey_iff.1 (ih h)).1

theorem mem_map_distinctBy_iff {key : α → κ} {l : List α} {k : κ} :
    k ∈ (distinctBy key l).map key ↔ k ∈ l.map key := by
  fun_induction distinctBy key l with
  | case1 => simp
  | case2 a l ih =>
    rw [List.map_cons, List.mem_cons, ih, List.map_cons, List.mem_cons]
    by_cases h : k = key a
    · simp [h]
    · simp only [h, false_or, List.mem_map, mem_withoutKey_iff]
      exact ⟨fun ⟨b, hb, e⟩ => ⟨b, hb.1, e⟩, fun ⟨b, hb, e⟩ => ⟨b, ⟨hb, e ▸ h⟩, e⟩⟩

theorem nodup_map_distinctBy (key : α → κ) (l : List α) : ((distinctBy key l).map key).Nodup := by
  fun_induction distinctBy key l with
  | case1 => simp
  | case2 a l ih =>
    rw [List.map_cons, List.nodup_cons]
    refine ⟨fun h => ?_, ih⟩
    obtain ⟨b, hb, hk⟩ := List.mem_map.1 (mem_map_distinctBy_iff.1 h)
    exact (mem_withoutKey_iff.1 hb).2 hk

end ApiSurface
