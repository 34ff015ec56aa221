import ApiSurface.Proofs.Erasure.Declaration
import ApiSurface.Proofs.Erasure.Groups
import ApiSurface.Proofs.Erasure.Placeholder

/-!
# Variables and their bounds

A type is erased by removing its type arguments; a variable that the type bounds is erased to what
the declaration gives, which is the bound up to its first bracket or comma
(`erasedVariable_eq`). The two texts are the same exactly if all type arguments stand behind the
name of the bound (`erasedVariable_eq_strip_iff`). A bound with a name behind type arguments, as an
inner type of a parameterized one has it, is cut short (`erasedVariable_innerType`).
-/

namespace ApiSurface

open Text Params

/-- The declaration of one parameter with a bound. -/
def boundedDecl (t : Text) : Text := '<' :: ("%0".toList ++ (" extends ".toList ++ t) ++ ['>'])

/-- What the variable of such a declaration is erased to. A parameter of a class is erased with the
parameters of the class, one of a member with those of the member. -/
def Scope.erasedVariable (scope : Scope) (policy : UnboundPolicy) (t : Text) : Text :=
  let params := ofDecl scope policy (boundedDecl t)
  match scope with
  | ofClass _ => (substitute params ∅ (scope.placeholder "%0".toList)).value
  | ofMember => (substitute ∅ params (scope.placeholder "%0".toList)).value

/-- Whether the placeholders of a scope are placeholders: the name of a class has no brackets and no
closing braces. -/
def Scope.Plain : Scope → Prop
  | ofClass name => '<' ∉ name ∧ '}' ∉ name
  | ofMember => True

instance : (scope : Scope) → Decidable scope.Plain
  | .ofClass name => inferInstanceAs (Decidable ('<' ∉ name ∧ '}' ∉ name))
  | .ofMember => .isTrue trivial

/-- What stands in a bound in front of its first bracket or comma. -/
def boundFront (t : Text) : Text := t.takeWhile (!isSeparator ·)

/-- What a declaration gives for a bound, if it gives anything: the first word in front of its
first bracket or comma. -/
def boundValue? (t : Text) : Option Text :=
  if (boundFront t).all isBlank then none
  else some ((trim (boundFront t)).takeWhile (· ≠ ' '))

/-- A type whose arguments all stand behind its name. -/
structure NameThenArgs (t name : Text) : Prop where
  /-- The name is what is outside all groups. -/
  outside : outside? t = some name
  /-- All groups are behind it. -/
  front : name <+: t
  /-- There is a name. -/
  ne_nil : name ≠ []
  /-- It has no blanks at its ends. -/
  trim_name : trim name = name
  /-- It has no spaces or commas. -/
  plain : ' ' ∉ name ∧ ',' ∉ name

/-! ### What the declaration gives -/

theorem startsWithParam_of_not_mem {t : Text} (h : '%' ∉ t) : startsWithParam t = false := by
  unfold startsWithParam
  split
  next => exact absurd List.mem_cons_self h
  next => rfl

theorem isParam_zero : IsParam "%0".toList := 
  ⟨['0'], rfl, List.cons_ne_nil _ _, List.forall_mem_singleton.2 rfl⟩

/-- The first piece is the parameter with the front of its bound. -/
theorem declPieces_bounded (t : Text) :
    declPieces ("%0".toList ++ (" extends ".toList ++ t)) =
      trim ("%0".toList ++ (" extends ".toList ++ boundFront t)) ::
        (split isSeparator t).tail.map trim := by
  have hstart : ∀ c ∈ "%0".toList ++ " extends ".toList, isSeparator c = false :=
    not_isSeparator_of_all (by decide)
  rw [declPieces, ← List.append_assoc,
    split_append_of_forall_not hstart (split_eq_takeWhile_cons isSeparator t), List.map_cons,
    List.append_assoc]
  rfl

/-- The declaration has one entry, if it has any: only the first piece of the bound gives one. -/
theorem ofDecl_boundedDecl (scope : Scope) (policy : UnboundPolicy) {t : Text} (h : '%' ∉ t) :
    ofDecl scope policy (boundedDecl t) =
      match boundValue? t with
      | some value => SortedMap.insert ∅ (scope.placeholder "%0".toList) value
      | none => ∅ := by
  have hsilent : ∀ piece ∈ (split isSeparator t).tail.map trim, startsWithParam piece = false := by
    refine List.forall_mem_map.2 fun piece hpiece => startsWithParam_of_not_mem fun hmem => h ?_
    exact mem_of_mem_split (List.mem_of_mem_tail hpiece) _ ((trim_sublist piece).subset hmem)
  rw [boundedDecl, ofDecl_enclosed, declPieces_bounded, List.foldl_cons,
    foldl_addPiece_of_startsWithParam hsilent, boundValue?]
  by_cases hblank : (boundFront t).all isBlank = true
  · rw [if_pos hblank, addPiece_extends_blank isParam_zero (List.all_eq_true.1 hblank)]
  · rw [if_neg hblank, addPiece_extends isParam_zero]
    simpa only [Bool.not_eq_true, List.all_eq_false] using hblank

/-! ### What the variable is erased to -/

theorem boundValue?_sublist {t value : Text} (h : boundValue? t = some value) :
    value.Sublist t := by
  unfold boundValue? at h
  split at h
  next => cases h
  next =>
    obtain rfl := Option.some.inj h
    exact (List.takeWhile_sublist _).trans ((trim_sublist _).trans (List.takeWhile_sublist _))

/-- The placeholder of a scope is one placeholder. -/
theorem pieces_placeholder {scope : Scope} (h : scope.Plain) :
    pieces (scope.placeholder "%0".toList) = [.placeholder (scope.placeholder "%0".toList)] := by
  have hname : ∃ name, scope.placeholder "%0".toList = '{' :: (name ++ ['}']) ∧ '}' ∉ name := by
    cases scope with
    | ofClass name => exact ⟨name ++ "%0".toList, by simp [Scope.placeholder], by simp [h.2]⟩
    | ofMember => exact ⟨"%0".toList, rfl, by decide⟩
  obtain ⟨name, heq, hname⟩ := hname
  rw [heq, pieces_of_cutFirst? (cutFirst?_eq_some_iff.2 ⟨rfl, hname⟩), pieces]
  rfl

theorem strip_placeholder {scope : Scope} (h : scope.Plain) :
    strip (scope.placeholder "%0".toList) = scope.placeholder "%0".toList := by
  refine strip_of_not_mem ?_
  cases scope with
  | ofClass name => simp [Scope.placeholder, h.1]
  | ofMember => decide

/-- A text that is one placeholder is erased to what the placeholder gives way to. -/
theorem value_substitute_placeholder {scope : Scope} (h : scope.Plain) (outer inner : Params) :
    (substitute outer inner (scope.placeholder "%0".toList)).value =
      (resolved (lookupParam outer inner) maxBoundDepth (scope.placeholder "%0".toList)).value := by
  rw [substitute, strip_placeholder h, expand_eq_fill, value_fill, pieces_placeholder h,
    List.flatMap_singleton]

/-- The variable is erased to what the declaration gives for its bound. Where that is nothing, it
stays. -/
theorem erasedVariable_eq {scope : Scope} (hscope : scope.Plain) (policy : UnboundPolicy)
    {t : Text} (hclosed : placeholders t = []) (hpercent : '%' ∉ t) :
    scope.erasedVariable policy t = (boundValue? t).getD (scope.placeholder "%0".toList) := by
  have hlookup : ∃ outer inner, scope.erasedVariable policy t =
      (substitute outer inner (scope.placeholder "%0".toList)).value ∧
      lookupParam outer inner (scope.placeholder "%0".toList) = boundValue? t := by
    have hget : (ofDecl scope policy (boundedDecl t)).get? (scope.placeholder "%0".toList) =
        boundValue? t := by
      rw [ofDecl_boundedDecl scope policy hpercent]
      rcases boundValue? t with _ | value
      · rfl
      · rw [SortedMap.get?_insert, if_pos rfl]
    cases scope with
    | ofClass name => exact ⟨_, ∅, rfl, by rw [lookupParam, hget]; cases boundValue? t <;> rfl⟩
    | ofMember => exact ⟨∅, _, rfl, by rw [lookupParam, hget]; rfl⟩
  obtain ⟨outer, inner, heq, hlookup⟩ := hlookup
  rw [heq, value_substitute_placeholder hscope]
  rcases hvalue : boundValue? t with _ | value
  · rw [hvalue] at hlookup
    rw [maxBoundDepth, resolved, hlookup]
    rfl
  · rw [hvalue] at hlookup
    have hnone : placeholders value = [] := placeholders_eq_nil_iff.2 fun hsub =>
      placeholders_eq_nil_iff.1 hclosed (hsub.trans (boundValue?_sublist hvalue))
    rw [maxBoundDepth, resolved_of_lookup hlookup, expand_eq_fill,
      value_fill_of_forall fun p hp => absurd (hnone ▸ hp) List.not_mem_nil]
    rfl

/-! ### Agreement with the erasure of the bound -/

theorem mem_boundFront {t : Text} : ∀ c ∈ boundFront t, isInner c = true ∧ c ≠ ',' := by
  intro c hc
  have hno : (!isSeparator c) = true := List.all_eq_true.1 List.all_takeWhile c hc
  exact isSeparator_eq_false_iff.1 (by simpa using hno)

/-- A bound that is a name with type arguments behind it is read as the name. -/
theorem boundValue?_of_nameThenArgs {t name : Text} (h : NameThenArgs t name) :
    boundValue? t = some name := by
  obtain ⟨rest, rfl⟩ := h.front
  have hinner : ∀ c ∈ name, isInner c = true := (strip_eq_of_outside? h.outside).2
  have hrest : outside? rest = some [] := by
    have houtside := h.outside
    rw [outside?_append hinner] at houtside
    obtain ⟨r, hr, heq⟩ := Option.map_eq_some_iff.1 houtside
    rwa [List.append_right_eq_self.1 heq] at hr
  have hfront : boundFront (name ++ rest) = name := by
    have hname : ∀ c ∈ name, (!isSeparator c) = true := by
      intro c hc
      rw [isSeparator_eq_false_iff.2 ⟨hinner c hc, fun heq => h.plain.2 (heq ▸ hc)⟩]
      rfl
    rw [boundFront, List.takeWhile_append_of_pos hname]
    rcases eq_nil_or_of_outside?_eq_nil hrest with rfl | ⟨r, rfl⟩
    · rw [List.takeWhile_nil, List.append_nil]
    · rw [List.takeWhile_cons_of_neg (by decide), List.append_nil]
  have hblank : ¬ name.all isBlank = true := by
    intro hall
    exact h.ne_nil (h.trim_name ▸ trim_of_forall_blank (List.all_eq_true.1 hall))
  have hword : name.takeWhile (· ≠ ' ') = name := by
    have hspace : ∀ c ∈ name, decide (c ≠ ' ') = true :=
      fun c hc => decide_eq_true fun heq => h.plain.1 (heq ▸ hc)
    have hall : (name ++ []).takeWhile (· ≠ ' ') = name ++ [] :=
      List.takeWhile_append_of_pos hspace
    rwa [List.append_nil] at hall
  rw [boundValue?, hfront, if_neg hblank, h.trim_name, hword]

/-- If a bound is read as its erasure, nothing is cut from the front of it. -/
theorem nameThenArgs_of_boundValue? {t : Text} (h : boundValue? t = some (strip t)) :
    NameThenArgs t (strip t) := by
  unfold boundValue? at h
  split at h
  next => cases h
  next hblank =>
    have hword : (trim (boundFront t)).takeWhile (· ≠ ' ') = strip t := Option.some.inj h
    have hwords : (strip t).Sublist (trim (boundFront t)) :=
      hword ▸ List.takeWhile_sublist _
    have hsublist : (strip t).Sublist (boundFront t) := hwords.trans (trim_sublist _)
    have hinner : ∀ c ∈ strip t, isInner c = true :=
      fun c hc => (mem_boundFront c (hsublist.subset hc)).1
    have houtside : outside? t = some (strip t) := by
      have hself : outside? (strip t ++ []) = some (strip t ++ []) := outside?_append hinner []
      rwa [List.append_nil, outside?_strip] at hself
    have hfront : strip t = boundFront t := by
      have hcut : outside? (boundFront t ++ t.dropWhile (!isSeparator ·)) = some (strip t) := by
        rwa [boundFront, List.takeWhile_append_dropWhile]
      rw [outside?_append fun c hc => (mem_boundFront c hc).1] at hcut
      obtain ⟨r, -, heq⟩ := Option.map_eq_some_iff.1 hcut
      exact hsublist.eq_of_length_le (heq ▸ (List.sublist_append_left _ r).length_le)
    have htrim : trim (boundFront t) = boundFront t :=
      (trim_sublist _).eq_of_length_le (hfront ▸ hwords.length_le)
    have hspace : ∀ c ∈ strip t, c ≠ ' ' := by
      intro c hc
      rw [← hword] at hc
      simpa using List.all_eq_true.1 List.all_takeWhile c hc
    refine ⟨houtside, hfront ▸ List.takeWhile_prefix _, ?_, by rw [hfront, htrim], ?_, ?_⟩
    · intro hnil
      rw [← hfront, hnil] at hblank
      exact hblank List.all_nil
    · exact fun hmem => hspace ' ' hmem rfl
    · exact fun hmem => (mem_boundFront ',' (hfront ▸ hmem)).2 rfl

/-- A variable erases to the same text as the type that bounds it exactly if all type arguments of
the type stand behind its name. -/
theorem erasedVariable_eq_strip_iff {scope : Scope} (hscope : scope.Plain)
    (policy : UnboundPolicy) {t : Text} (hclosed : placeholders t = []) (hpercent : '%' ∉ t) :
    scope.erasedVariable policy t = strip t ↔ ∃ name, NameThenArgs t name := by
  rw [erasedVariable_eq hscope policy hclosed hpercent]
  constructor
  · intro heq
    rcases hvalue : boundValue? t with _ | value
    · rw [hvalue, Option.getD_none] at heq
      have hmem : '%' ∈ scope.placeholder "%0".toList := by cases scope <;> simp [Scope.placeholder]
      exact absurd ((strip_sublist t).subset (heq ▸ hmem)) hpercent
    · rw [hvalue, Option.getD_some] at heq
      exact ⟨_, nameThenArgs_of_boundValue? (heq ▸ hvalue)⟩
  · rintro ⟨name, h⟩
    rw [boundValue?_of_nameThenArgs h, (strip_eq_of_outside? h.outside).1]
    rfl

/-- A type with type arguments within its type arguments. -/
def mapType : Text := "a.Map<b.K,a.List<b.V>>".toList

/-- In the scope of a class, a variable erases like a bound with type arguments within others. -/
theorem erasedVariable_mapType :
    (Scope.ofClass "a.C".toList).Plain ∧ placeholders mapType = [] ∧ '%' ∉ mapType ∧
    (Scope.ofClass "a.C".toList).erasedVariable .object mapType = strip mapType ∧
    strip mapType = "a.Map".toList := by
  have hscope : (Scope.ofClass "a.C".toList).Plain := by decide
  have hclosed : placeholders mapType = [] := placeholders_eq_nil_iff.2 (by decide)
  have hpercent : '%' ∉ mapType := by decide
  have hname : NameThenArgs mapType "a.Map".toList :=
    ⟨by decide, by decide, by decide, by decide, by decide⟩
  exact ⟨hscope, hclosed, hpercent,
    (erasedVariable_eq_strip_iff hscope .object hclosed hpercent).2 ⟨_, hname⟩,
    (strip_eq_of_outside? hname.outside).1⟩

/-- An inner type of a parameterized type. -/
def innerType : Text := "a.Outer<b.X>.Inner<b.Y>".toList

/-- An inner type of a parameterized type is erased to itself without type arguments, but a variable
that it bounds to the type around it. -/
theorem erasedVariable_innerType :
    placeholders innerType = [] ∧ '%' ∉ innerType ∧ '&' ∉ innerType ∧
    outside? innerType = some "a.Outer.Inner".toList ∧
    strip innerType = "a.Outer.Inner".toList ∧
    ∀ policy, Scope.ofMember.erasedVariable policy innerType = "a.Outer".toList ∧
      (Scope.ofClass "a.C".toList).erasedVariable policy innerType = "a.Outer".toList := by
  have hclosed : placeholders innerType = [] := placeholders_eq_nil_iff.2 (by decide)
  have hpercent : '%' ∉ innerType := by decide
  have houtside : outside? innerType = some "a.Outer.Inner".toList := by decide
  have hvalue : boundValue? innerType = some "a.Outer".toList := by decide
  refine ⟨hclosed, hpercent, by decide, houtside, (strip_eq_of_outside? houtside).1,
    fun policy => ⟨?_, ?_⟩⟩
  · have hmember : Scope.ofMember.Plain := trivial
    rw [erasedVariable_eq hmember policy hclosed hpercent, hvalue, Option.getD_some]
  · rw [erasedVariable_eq (by decide) policy hclosed hpercent, hvalue, Option.getD_some]

end ApiSurface
