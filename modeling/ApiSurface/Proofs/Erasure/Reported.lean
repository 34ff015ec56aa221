import ApiSurface.Erasure.Unresolved
import ApiSurface.Proofs.Erasure.Placeholder

/-!
# Reported placeholders

The placeholders that are left in an erased text are found by reading it once more. A placeholder
could come up there that nobody put there, made of a brace of one value and a brace of another.
Where values close the braces that they open, there is none: what every placeholder gives way to
closes its braces and has just the placeholders that are reported for it (`reported_resolved`). So
the erased text has the reported placeholders and no others, however values lead to one another
(`placeholders_substitute`).
-/

namespace ApiSurface

open Text

/-- Every opening brace has a closing one somewhere behind it. -/
def BracesClosed : Text → Prop
  | [] => True
  | c :: r => (c = '{' → '}' ∈ r) ∧ BracesClosed r

instance decidableBracesClosed : (t : Text) → Decidable (BracesClosed t)
  | [] => .isTrue trivial
  | _ :: r => @instDecidableAnd _ _ inferInstance (decidableBracesClosed r)

/-! ### Braces that stay open -/

theorem BracesClosed.of_append {t u : Text} (h : BracesClosed (t ++ u)) : BracesClosed u := by
  induction t with
  | nil => exact h
  | cons c t ih => exact ih h.2

/-- Where every brace is closed, each opening one belongs to a placeholder. -/
theorem BracesClosed.not_plain {t : Text} (h : BracesClosed t) : .plain '{' ∉ pieces t := by
  fun_induction pieces t with
  | case1 => exact List.not_mem_nil
  | case2 r name rest hcut ih =>
    obtain ⟨rfl, -⟩ := cutFirst?_eq_some_iff.1 hcut
    have hrest : BracesClosed rest := h.2.of_append.2
    exact List.not_mem_cons_of_ne_of_not_mem Piece.noConfusion (ih hrest)
  | case3 r hcut ih => exact absurd (h.1 rfl) (cutFirst?_eq_none_iff.1 hcut)
  | case4 c r hc ih =>
    refine List.not_mem_cons_of_ne_of_not_mem ?_ (ih h.2)
    exact fun heq => hc (Piece.plain.inj heq).symm

theorem pieces_of_cutFirst?_eq_none {r : Text} (h : cutFirst? '}' r = none) :
    pieces ('{' :: r) = .plain '{' :: pieces r := by
  rw [pieces, if_pos rfl]
  split
  next heq =>
    rw [h] at heq
    cases heq
  next => rfl

/-- A placeholder, read by itself, is one placeholder. -/
theorem pieces_of_mem_placeholders {t p : Text} (h : p ∈ placeholders t) :
    pieces p = [.placeholder p] := by
  rw [mem_placeholders_iff] at h
  fun_induction pieces t with
  | case1 => cases h
  | case2 r name rest hcut ih =>
    rcases List.mem_cons.1 h with heq | hmem
    · cases heq
      obtain ⟨-, hname⟩ := cutFirst?_eq_some_iff.1 hcut
      have hcut' : cutFirst? '}' (name ++ ['}']) = some (name, []) :=
        cutFirst?_eq_some_iff.2 ⟨rfl, hname⟩
      rw [List.cons_append, pieces_of_cutFirst? hcut', pieces]
      rfl
    · exact ih hmem
  | case3 r hcut ih => exact ih (List.mem_of_ne_of_mem Piece.noConfusion h)
  | case4 c r hc ih => exact ih (List.mem_of_ne_of_mem Piece.noConfusion h)

/-! ### Texts that are put together -/

section Fill

variable {f : Text → Logged Text Text} {t : Text}

/-- Where placeholders give way to texts that close their braces, the pieces of the text that comes
out are those of its parts: no placeholder reaches from one part into another. A brace of the text
itself may stay open, as no closing one is behind it. -/
theorem pieces_fill (h : ∀ p ∈ placeholders t, .plain '{' ∉ pieces (f p).value) :
    pieces (fill f t).value = (pieces t).flatMap fun
      | .plain c => [.plain c]
      | .placeholder p => pieces (f p).value := by
  simp only [mem_placeholders_iff, value_fill] at h ⊢
  fun_induction pieces t with
  | case1 => rw [List.flatMap_nil, List.flatMap_nil, pieces]
  | case2 r name rest hcut ih =>
    have hrest := ih fun p hp => h p (List.mem_cons_of_mem _ hp)
    rw [List.flatMap_cons, List.flatMap_cons, pieces_append (h _ List.mem_cons_self), hrest]
  | case3 r hcut ih =>
    have hrest := ih fun p hp => h p (List.mem_cons_of_mem _ hp)
    have hnone : placeholders r = [] := placeholders_of_not_mem (cutFirst?_eq_none_iff.1 hcut)
    have hstays : (fill f r).value = r :=
      value_fill_of_forall fun p hp => absurd (hnone ▸ hp) List.not_mem_nil
    rw [value_fill] at hstays
    rw [List.flatMap_cons, List.flatMap_cons, List.singleton_append, List.singleton_append, ← hrest,
      hstays, pieces_of_cutFirst?_eq_none hcut]
  | case4 c r hc ih =>
    have hrest := ih fun p hp => h p (List.mem_cons_of_mem _ hp)
    rw [List.flatMap_cons, List.flatMap_cons, List.singleton_append, pieces, if_neg hc, hrest,
      List.singleton_append]

theorem placeholders_fill (h : ∀ p ∈ placeholders t, .plain '{' ∉ pieces (f p).value) :
    placeholders (fill f t).value =
      (placeholders t).flatMap fun p => placeholders (f p).value := by
  rw [placeholders, pieces_fill h, List.filterMap_flatMap, placeholders]
  induction pieces t with
  | nil => rfl
  | cons piece ps ih =>
    cases piece with
    | plain c => exact ih
    | placeholder p => exact congrArg (placeholders (f p).value ++ ·) ih

end Fill

/-! ### Erased texts -/

/-- A text closes its braces, and its placeholders are those that were reported for it, in this
order. -/
structure Reported (x : Logged Text Text) : Prop where
  /-- No brace stays open. -/
  closed : .plain '{' ∉ pieces x.value
  /-- The placeholders are the reported ones. -/
  placeholders_eq : placeholders x.value = x.log

theorem reported_keep {p : Text} (h : pieces p = [.placeholder p]) : Reported (keep p) := by
  constructor
  · rw [keep, h]
    exact List.not_mem_cons_of_ne_of_not_mem Piece.noConfusion List.not_mem_nil
  · rw [keep, placeholders, h]
    rfl

section Expand

variable {lookup : Text → Option Text} {depth : Nat}

/-- Where values close their braces, what a placeholder gives way to has just the placeholders that
are reported for it, wherever following values is stopped. -/
theorem reported_resolved (hvalues : ∀ p value, lookup p = some value → BracesClosed value)
    {t p : Text} (hp : p ∈ placeholders t) : Reported (resolved lookup depth p) := by
  induction depth generalizing t p with
  | zero => exact reported_keep (pieces_of_mem_placeholders hp)
  | succ depth ih =>
    rcases hvalue : lookup p with _ | value
    · rw [resolved, hvalue]
      exact reported_keep (pieces_of_mem_placeholders hp)
    · rw [resolved_of_lookup hvalue, expand_eq_fill]
      have hclosed := (hvalues p value hvalue).not_plain
      constructor
      · rw [pieces_fill fun q hq => (ih hq).closed, List.mem_flatMap]
        rintro ⟨piece, hmem, hplain⟩
        cases piece with
        | plain c =>
          rw [List.mem_singleton] at hplain
          exact hclosed (hplain ▸ hmem)
        | placeholder q => exact (ih (mem_placeholders_iff.2 hmem)).closed hplain
      · rw [placeholders_fill fun q hq => (ih hq).closed, log_fill]
        exact congrArg List.flatten (List.map_congr_left fun q hq => (ih hq).placeholders_eq)

theorem placeholders_expand (hvalues : ∀ p value, lookup p = some value → BracesClosed value)
    (t : Text) : placeholders (expand lookup depth t).value = (expand lookup depth t).log := by
  have hreported : ∀ p ∈ placeholders t, Reported (resolved lookup depth p) :=
    fun p hp => reported_resolved hvalues hp
  rw [expand_eq_fill, placeholders_fill fun p hp => (hreported p hp).closed, log_fill]
  exact congrArg List.flatten (List.map_congr_left fun p hp => (hreported p hp).placeholders_eq)

end Expand

/-- The reports of a log, made one after the other, are the reports of the log. -/
theorem Unresolved.foldl_report (s : Unresolved) (log : List Text) :
    log.foldl (fun s p => (s.report p).1) s = s.reportAll log := by
  refine SortedSet.ext fun a => ?_
  rw [mem_reportAll_iff]
  induction log generalizing s with
  | nil => simp
  | cons p log ih =>
    rw [List.foldl_cons, ih, report, SortedSet.mem_insert_iff, List.mem_cons, or_assoc,
      or_left_comm]

/-- Where values close their braces, whether they lead in a circle or not, the placeholders that are
found in the erasure of a text are those that are reported, each as often as it is reported and in
the same order. Reporting them adds just these to what was reported before. -/
theorem placeholders_substitute {outer inner : Params}
    (hvalues : ∀ p value, lookupParam outer inner p = some value → BracesClosed value) (t : Text) :
    placeholders (substitute outer inner t).value = (substitute outer inner t).log ∧
    ∀ s : Unresolved, (substitute outer inner t).log.foldl (fun s p => (s.report p).1) s =
      s.union (.ofList (placeholders (substitute outer inner t).value)) := by
  have heq : placeholders (substitute outer inner t).value = (substitute outer inner t).log :=
    placeholders_expand hvalues (strip t)
  refine ⟨heq, fun s => ?_⟩
  rw [Unresolved.foldl_report, Unresolved.reportAll, heq]

-- a brace that a value leaves open takes the next closing one of the text
example : placeholders
    (substitute (.ofList [("{%0}".toList, ['{'])]) ∅ "{%0}x\x7d".toList).value =
      ["{x}".toList] := by decide +kernel

/-- What the parameters of a class are erased to, among them one that leads back to itself. -/
def circularOuter : Params := .ofList [("{a.C%0}".toList, "{%0}[]".toList)]

/-- What the parameters of a member are erased to. -/
def circularInner : Params := .ofList [("{%0}".toList, "a.B\x7d,{a.C%0},{%1}".toList)]

/-- Two parameters lead to one another, and at every turn to one that is not known. -/
theorem placeholders_substitute_circular :
    lookupParam circularOuter circularInner "{a.C%0}".toList = some "{%0}[]".toList ∧
    lookupParam circularOuter circularInner "{%0}".toList = some "a.B\x7d,{a.C%0},{%1}".toList ∧
    placeholders (substitute circularOuter circularInner "a.L<{%2}>,{%0},\x7b".toList).value =
      (substitute circularOuter circularInner "a.L<{%2}>,{%0},\x7b".toList).log ∧
    "{%1}".toList ∈ placeholders
      (substitute circularOuter circularInner "a.L<{%2}>,{%0},\x7b".toList).value := by
  have hentries : ∀ e ∈ circularOuter.entries ++ circularInner.entries, BracesClosed e.2 := by
    decide +kernel
  have hvalues : ∀ p value, lookupParam circularOuter circularInner p = some value →
      BracesClosed value := by
    intro p value h
    rcases lookupParam_eq_some h with houter | hinner
    · exact hentries _ (List.mem_append_left _ (SortedMap.mem_entries_of_get? houter))
    · exact hentries _ (List.mem_append_right _ (SortedMap.mem_entries_of_get? hinner))
  obtain ⟨heq, -⟩ := placeholders_substitute hvalues "a.L<{%2}>,{%0},\x7b".toList
  refine ⟨by decide +kernel, by decide +kernel, heq, ?_⟩
  rw [heq]
  decide +kernel

end ApiSurface
