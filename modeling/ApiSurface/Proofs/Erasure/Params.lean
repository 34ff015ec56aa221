import ApiSurface.Erasure.Params

/-!
# Entries of a generics declaration

An entry that is read from a declaration goes back to one of its pieces (`of_get?_ofDecl`), so its
value is a name: it has no separator and is not blank. A parameter that the declaration names has
an entry, if it has a bound or parameters without one are erased to the root
(`get?_ofDecl_ne_none`).
-/

namespace ApiSurface

open Text

namespace Params

/-- The pieces of a declaration, without the blanks around them. -/
def declPieces (decl : Text) : List Text := (split isSeparator decl).map trim

/-- Whether a text is the name of a parameter: a percent sign and a number. -/
def IsParam (param : Text) : Prop :=
  ∃ digits, param = '%' :: digits ∧ digits ≠ [] ∧ ∀ d ∈ digits, d.isDigit = true

/-- A declaration names a bound of a parameter. -/
def Bounds (decl param : Text) : Prop :=
  ∃ bound, param ++ " extends ".toList ++ bound ∈ declPieces decl

/-- A declaration names a parameter, with or without a bound. -/
def Declares (decl param : Text) : Prop := param ∈ declPieces decl ∨ Bounds decl param

/-! ### Pieces -/

theorem eq_of_cutParam? {t param rest : Text} (h : cutParam? t = some (param, rest)) :
    IsParam param ∧ t = param ++ rest := by
  unfold cutParam? at h
  split at h
  next r =>
    split at h
    next => cases h
    next hne =>
      cases h
      refine ⟨⟨_, rfl, hne, List.all_eq_true.1 List.all_takeWhile⟩, ?_⟩
      rw [List.cons_append, List.takeWhile_append_dropWhile]
  next => cases h

theorem cutParam?_append {param rest : Text} (h : IsParam param)
    (hrest : ∀ c, rest.head? = some c → c.isDigit = false) :
    cutParam? (param ++ rest) = some (param, rest) := by
  obtain ⟨digits, rfl, hne, hall⟩ := h
  have htake : (digits ++ rest).takeWhile Char.isDigit = digits := by
    rw [List.takeWhile_append_of_pos hall]
    cases rest with
    | nil => simp
    | cons c rest => simp [hrest c rfl]
  have hdrop : (digits ++ rest).dropWhile Char.isDigit = rest := by
    rw [List.dropWhile_append_of_pos hall, dropWhile_eq_self hrest]
  rw [List.cons_append, cutParam?, htake, hdrop, if_neg hne]

/-! ### What an entry goes back to -/

/-- The entry that a piece of a declaration gives. -/
inductive Gives (scope : Scope) (policy : UnboundPolicy) : (piece key value : Text) → Prop where
  /-- A parameter with a bound is erased to the bound. -/
  | bound {param rest value : Text} : IsParam param → boundOf? rest = some value →
      Gives scope policy (param ++ rest) (scope.placeholder param) value
  /-- A parameter without a bound is erased to the root. -/
  | root {param : Text} : IsParam param → policy = .object →
      Gives scope policy param (scope.placeholder param) objectName

/-- A piece adds the entry that it gives, or none. -/
theorem addPiece_cases (scope : Scope) (policy : UnboundPolicy) (params : Params) (piece : Text) :
    addPiece scope policy params piece = params ∨
      ∃ key value, Gives scope policy piece key value ∧
        addPiece scope policy params piece = params.insert key value := by
  unfold addPiece
  split
  next => exact .inl rfl
  next param rest hcut =>
    obtain ⟨hparam, rfl⟩ := eq_of_cutParam? hcut
    split
    next value hbound => exact .inr ⟨_, value, .bound hparam hbound, rfl⟩
    next =>
      dsimp only
      split
      next hroot =>
        obtain ⟨rfl, hpolicy, -⟩ := hroot
        rw [List.append_nil]
        exact .inr ⟨_, objectName, .root hparam hpolicy, rfl⟩
      next => exact .inl rfl

theorem get?_addPiece {scope : Scope} {policy : UnboundPolicy} {params : Params}
    {piece key value : Text} (h : (addPiece scope policy params piece).get? key = some value) :
    params.get? key = some value ∨ Gives scope policy piece key value := by
  rcases addPiece_cases scope policy params piece with heq | ⟨key', value', hgives, heq⟩
  · exact .inl (heq ▸ h)
  · rw [heq] at h
    refine (SortedMap.of_get?_insert h).imp_right ?_
    rintro ⟨rfl, rfl⟩
    exact hgives

/-- An entry that is read from a declaration goes back to one of its pieces. -/
theorem of_get?_ofDecl {scope : Scope} {policy : UnboundPolicy} {decl key value : Text}
    (h : (ofDecl scope policy decl).get? key = some value) :
    ∃ piece ∈ declPieces decl, Gives scope policy piece key value := by
  have hstep : ∀ (params : Params) (piece : Text),
      (addPiece scope policy params piece).get? key = some value →
        params.get? key = some value ∨ Gives scope policy piece key value :=
    fun params piece => get?_addPiece
  rcases SortedMap.of_get?_foldl hstep h with hempty | hgives
  · cases hempty
  · exact hgives

theorem of_get?_ofDecl? {scope : Scope} {policy : UnboundPolicy} {decl : Option Text}
    {key value : Text} (h : (ofDecl? scope policy decl).get? key = some value) :
    ∃ d ∈ decl, ∃ piece ∈ declPieces d, Gives scope policy piece key value := by
  cases decl with
  | none => cases h
  | some d => exact ⟨d, rfl, of_get?_ofDecl h⟩

/-- The key of an entry is a placeholder of the scope. -/
theorem key_of_get?_ofDecl? {scope : Scope} {policy : UnboundPolicy} {decl : Option Text}
    {key value : Text} (h : (ofDecl? scope policy decl).get? key = some value) :
    ∃ param, IsParam param ∧ key = scope.placeholder param := by
  obtain ⟨_, -, _, -, hgives⟩ := of_get?_ofDecl? h
  cases hgives with
  | bound hparam => exact ⟨_, hparam, rfl⟩
  | root hparam => exact ⟨_, hparam, rfl⟩

theorem not_isSeparator_of_all {t : Text} (h : t.all (!isSeparator ·) = true) :
    ∀ c ∈ t, isSeparator c = false :=
  fun c hc => by simpa using List.all_eq_true.1 h c hc

/-- The value of an entry has none of the characters between the pieces of a declaration. -/
theorem not_isSeparator_of_get?_ofDecl? {scope : Scope} {policy : UnboundPolicy}
    {decl : Option Text} {key value : Text}
    (h : (ofDecl? scope policy decl).get? key = some value) :
    ∀ c ∈ value, isSeparator c = false := by
  obtain ⟨d, -, piece, hpiece, hgives⟩ := of_get?_ofDecl? h
  cases hgives with
  | bound _ hbound =>
    obtain ⟨raw, hraw, htrim⟩ := List.mem_map.1 hpiece
    obtain ⟨bound, hafter, rfl⟩ := Option.map_eq_some_iff.1 hbound
    intro c hc
    have hcbound : c ∈ bound := (trim_sublist _).subset ((List.takeWhile_sublist _).subset hc)
    have hctrim : c ∈ trim raw := by
      rw [htrim, after?_eq_some_iff.1 hafter]
      exact List.mem_append_right _ (List.mem_append_right _ hcbound)
    exact of_mem_split hraw c ((trim_sublist raw).subset hctrim)
  | root => exact not_isSeparator_of_all (by decide)

/-- Something other than blanks follows `extends`, as a piece has no blank at its end. -/
theorem exists_not_blank_of_extends {raw start bound : Text}
    (h : trim raw = start ++ (" extends ".toList ++ bound)) : ∃ c ∈ bound, isBlank c = false := by
  have hlast : ∀ c, (start ++ (" extends ".toList ++ bound)).getLast? = some c →
      isBlank c = false := by
    rw [← h]
    exact getLast?_dropEndWhile isBlank (trimStart raw)
  rcases List.eq_nil_or_concat bound with rfl | ⟨front, c, rfl⟩
  · have hspace := hlast ' ' (by simp)
    cases hspace
  · rw [List.concat_eq_append] at hlast ⊢
    rw [← List.append_assoc, ← List.append_assoc] at hlast
    exact ⟨c, List.mem_append_right _ List.mem_cons_self, hlast c List.getLast?_concat⟩

/-- The value of an entry is not blank. -/
theorem exists_not_blank_of_get?_ofDecl? {scope : Scope} {policy : UnboundPolicy}
    {decl : Option Text} {key value : Text}
    (h : (ofDecl? scope policy decl).get? key = some value) :
    ∃ c ∈ value, isBlank c = false := by
  obtain ⟨d, -, piece, hpiece, hgives⟩ := of_get?_ofDecl? h
  cases hgives with
  | bound _ hbound =>
    obtain ⟨raw, -, htrim⟩ := List.mem_map.1 hpiece
    obtain ⟨bound, hafter, rfl⟩ := Option.map_eq_some_iff.1 hbound
    rw [after?_eq_some_iff.1 hafter] at htrim
    obtain ⟨c, hc, hblank⟩ := exists_not_blank_of_extends htrim
    rcases hbound : trim bound with _ | ⟨first, more⟩
    · exact absurd hbound (trim_ne_nil_of_mem hc hblank)
    · have hfirst : isBlank first = false := head?_trim bound first (by rw [hbound]; rfl)
      have hspace : first ≠ ' ' := by
        rintro rfl
        cases hfirst
      refine ⟨first, ?_, hfirst⟩
      rw [List.takeWhile_cons_of_pos (by simpa using hspace)]
      exact List.mem_cons_self
  | root => exact ⟨'j', by decide, by decide⟩

/-! ### Parameters with an entry -/

/-- An entry stays, though its value may change. -/
theorem get?_addPiece_ne_none {scope : Scope} {policy : UnboundPolicy} {params : Params}
    {key : Text} (h : params.get? key ≠ none) (piece : Text) :
    (addPiece scope policy params piece).get? key ≠ none := by
  rcases addPiece_cases scope policy params piece with heq | ⟨key', value, -, heq⟩
  · rw [heq]
    exact h
  · rw [heq]
    exact SortedMap.get?_insert_ne_none value (.inl h)

/-- A piece for a parameter gives an entry, if it names a bound or none is needed. -/
theorem get?_addPiece_of_param {scope : Scope} {policy : UnboundPolicy} (params : Params)
    {param rest : Text} (hparam : IsParam param)
    (hrest : (∃ bound, rest = " extends ".toList ++ bound) ∨ rest = [] ∧ policy = .object) :
    (addPiece scope policy params (param ++ rest)).get? (scope.placeholder param) ≠ none := by
  have hcut : cutParam? (param ++ rest) = some (param, rest) := by
    refine cutParam?_append hparam ?_
    rcases hrest with ⟨bound, rfl⟩ | ⟨rfl, -⟩
    · rintro c ⟨⟩
      rfl
    · rintro c ⟨⟩
  unfold addPiece
  rw [hcut]
  rcases hrest with ⟨bound, rfl⟩ | ⟨rfl, hpolicy⟩
  · have hafter : after? " extends ".toList (" extends ".toList ++ bound) = some bound :=
      after?_eq_some_iff.2 rfl
    simp only [boundOf?, hafter, Option.map_some]
    exact SortedMap.get?_insert_ne_none _ (.inr rfl)
  · have hnone : boundOf? [] = none := rfl
    simp only [hnone, true_and]
    split
    next => exact SortedMap.get?_insert_ne_none objectName (.inr rfl)
    next hstays => exact fun hget => hstays ⟨hpolicy, hget⟩

/-- A parameter that a declaration names has an entry, if it has a bound or parameters without one
are erased to the root. -/
theorem get?_ofDecl_ne_none {scope : Scope} {policy : UnboundPolicy} {decl param : Text}
    (hparam : IsParam param) (hdecl : Declares decl param)
    (hbound : Bounds decl param ∨ policy = .object) :
    (ofDecl scope policy decl).get? (scope.placeholder param) ≠ none := by
  have hpiece : ∃ rest, param ++ rest ∈ declPieces decl ∧
      ((∃ bound, rest = " extends ".toList ++ bound) ∨ rest = [] ∧ policy = .object) := by
    by_cases h : Bounds decl param
    · obtain ⟨bound, hmem⟩ := h
      exact ⟨_, by rwa [List.append_assoc] at hmem, .inl ⟨bound, rfl⟩⟩
    · exact ⟨[], by rw [List.append_nil]; exact hdecl.resolve_right h,
        .inr ⟨rfl, hbound.resolve_left h⟩⟩
  obtain ⟨rest, hmem, hrest⟩ := hpiece
  refine SortedMap.get?_foldl_ne_none (q := (· = param ++ rest)) ?_ ?_ (.inr ⟨_, hmem, rfl⟩)
  · exact fun params piece h => get?_addPiece_ne_none h piece
  · rintro params _ rfl
    exact get?_addPiece_of_param params hparam hrest

end Params

end ApiSurface
