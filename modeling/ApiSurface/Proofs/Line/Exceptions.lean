import ApiSurface.Member
import Mathlib.Data.List.Flatten
import Mathlib.Data.List.Perm.Subperm

/-!
# Lists of exceptions

Exceptions that were put in order once are in order (`throwsText_split`), and putting them in order
takes characters away but adds none (`throwsText_subperm`).
-/

namespace ApiSurface

open Text

namespace Text

theorem flatten_map_trim_sublist (ts : List Text) : (ts.map trim).flatten.Sublist ts.flatten := by
  induction ts with
  | nil => exact .refl _
  | cons t ts ih => exact (trim_sublist t).append ih

/-- The pieces between separators are without them. -/
theorem not_mem_of_mem_split {c : Char} {t u : Text} (h : u ∈ split (· == c) t) : c ∉ u :=
  fun hc => beq_eq_false_iff_ne.1 (of_mem_split h c hc) rfl

/-- A joined text has the characters of its pieces and a separator between any two. -/
theorem intercalate_perm (c : Char) (ts : List Text) :
    ([c].intercalate ts).Perm (ts.flatten ++ List.replicate (ts.length - 1) c) := by
  induction ts with
  | nil => exact .refl _
  | cons t ts ih =>
    rcases ts with _ | ⟨u, us⟩
    · rw [List.intercalate_singleton]
      simp
    · rw [List.intercalate_cons_cons, List.flatten_cons, List.append_assoc, List.append_assoc]
      refine List.Perm.append_left t ((List.Perm.append_left [c] ih).trans ?_)
      simp only [List.length_cons, Nat.add_sub_cancel, List.replicate_succ, List.singleton_append]
      exact List.perm_middle.symm

/-- Fewer pieces with fewer characters make up a text with fewer characters. -/
theorem intercalate_subperm {c : Char} {ts us : List Text} (h : ts.flatten.Subperm us.flatten)
    (hlength : ts.length ≤ us.length) : ([c].intercalate ts).Subperm ([c].intercalate us) := by
  have hcommas : (List.replicate (ts.length - 1) c).Sublist (List.replicate (us.length - 1) c) :=
    (List.replicate_sublist_replicate c).2 (Nat.sub_le_sub_right hlength 1)
  exact (intercalate_perm c ts).subperm.trans
    ((h.append hcommas.subperm).trans (intercalate_perm c us).symm.subperm)

end Text

namespace Member

/-- The exceptions of a list in order: without blanks at their ends, without empty ones, sorted and
each once. -/
theorem throwsText_eq (items : List Text) :
    throwsText items =
      [','].intercalate (SortedSet.ofList ((items.map trim).filter (· ≠ []))).toList := rfl

/-- Exceptions in order are in order when they are taken apart again. -/
theorem throwsText_split {items : List Text} (h : ∀ t ∈ items, ',' ∉ t) :
    throwsText (split (· == ',') (throwsText items)) = throwsText items := by
  rw [throwsText_eq items]
  generalize hset : SortedSet.ofList ((items.map trim).filter (· ≠ [])) = set
  have hmem : ∀ t ∈ set.toList, ',' ∉ t ∧ trim t = t ∧ t ≠ [] := by
    intro t ht
    rw [← hset, SortedSet.mem_toList_iff, SortedSet.mem_ofList_iff, List.mem_filter,
      List.mem_map] at ht
    obtain ⟨⟨u, hu, rfl⟩, hne⟩ := ht
    exact ⟨fun hc => h u hu ((trim_sublist u).subset hc), trim_trim u, by simpa using hne⟩
  by_cases hnil : set.toList = []
  · rw [hnil]
    rfl
  · have htrim : set.toList.map trim = set.toList :=
      (List.map_congr_left fun t ht => (hmem t ht).2.1).trans set.toList.map_id
    have hfilter : set.toList.filter (· ≠ []) = set.toList :=
      List.filter_eq_self.2 fun t ht => by simpa using (hmem t ht).2.2
    rw [split_intercalate hnil fun t ht => (hmem t ht).1, throwsText_eq, htrim, hfilter,
      SortedSet.ofList_toList]

/-- Exceptions in order have no characters but those of the text that they are taken from. -/
theorem throwsText_subperm (t : Text) : (throwsText (split (· == ',') t)).Subperm t := by
  have hset : (SortedSet.ofList (((split (· == ',') t).map trim).filter (· ≠ []))).toList.Subperm
      ((split (· == ',') t).map trim) := by
    have hnodup := SortedSet.nodup_toList (SortedSet.ofList
      (((split (· == ',') t).map trim).filter (· ≠ [])))
    exact (List.subperm_of_subset hnodup fun _ => SortedSet.mem_ofList_iff.1).trans
      (List.filter_sublist (p := (· ≠ []))).subperm
  have hlength := hset.length_le
  rw [List.length_map] at hlength
  obtain ⟨ordered, hperm, hsublist⟩ := hset
  have hflatten := hperm.symm.flatten.subperm.trans
    (hsublist.flatten.trans (flatten_map_trim_sublist (split (· == ',') t))).subperm
  have hsubperm := intercalate_subperm (c := ',') hflatten hlength
  rwa [intercalate_split] at hsubperm

end Member

end ApiSurface
