import ApiSurface.Proofs.Erasure.Groups
import ApiSurface.Proofs.Erasure.Placeholder

/-!
# Erasing twice

What is erased once has no parameters left, so a second erasure only looks for type arguments. It
finds none: wherever a placeholder gives way to a name, a group comes no further in the name than
it did in the placeholder (`rank_after_expand_le`).
-/

namespace ApiSurface

open Text GroupState

/-! ### Groups behind placeholders -/

namespace GroupState

/-- Behind a character that is no bracket, a group goes back only at an opening bracket. -/
theorem rank_step_le_after {c : Char} (hc : isInner c = true) {t : Text} (ht : '<' ∉ t)
    (s : GroupState) : (s.step c).rank ≤ ((s.step c).after t).rank := by
  have hinside : inside.rank ≤ (inside.after t).rank := by
    clear hc
    induction t with
    | nil => exact Nat.le_refl _
    | cons d t ih =>
      obtain ⟨hd, ht⟩ := not_or.1 (fun h => ht (List.mem_cons.2 h))
      by_cases hclose : d = '>'
      · rw [after_cons, hclose, show inside.step '>' = found from rfl, after_found]
        decide
      · have hstep : inside.step d = inside := by simp [step, Ne.symm hd, hclose]
        rw [after_cons, hstep]
        exact ih ht
  obtain ⟨hopen, hclose⟩ := isInner_iff.1 hc
  cases s with
  | outside =>
    have hstep : outside.step c = outside := by simp [step, hopen, hclose]
    rw [hstep]
    exact Nat.zero_le _
  | opened =>
    have hstep : opened.step c = inside := by simp [step, hopen, hclose]
    rw [hstep]
    exact hinside
  | inside =>
    have hstep : inside.step c = inside := by simp [step, hopen, hclose]
    rw [hstep]
    exact hinside
  | found => exact Nat.le_of_eq (congrArg rank (after_found t).symm)

/-- A text without brackets takes a group no further than one character does. -/
theorem rank_after_le_step {t : Text} (ht : ∀ d ∈ t, isInner d = true) {c : Char}
    (hc : isInner c = true) (s : GroupState) : (s.after t).rank ≤ (s.step c).rank := by
  induction t generalizing s with
  | nil =>
    obtain ⟨hopen, hclose⟩ := isInner_iff.1 hc
    cases s <;> simp [step, hopen, hclose, rank]
  | cons d t ih =>
    obtain ⟨hd, ht⟩ := List.forall_mem_cons.1 ht
    have htwice : ((s.step d).step c).rank ≤ (s.step c).rank := by
      obtain ⟨hopen, hclose⟩ := isInner_iff.1 hc
      obtain ⟨hopen', hclose'⟩ := isInner_iff.1 hd
      cases s <;> simp [step, hopen, hclose, hopen', hclose']
    exact Nat.le_trans (ih ht (s.step d)) htwice

/-- Where a name without brackets stands for a placeholder without an opening one, a group that
came no further before it comes no further behind it. -/
theorem rank_after_value_le {value name : Text} (hvalue : ∀ c ∈ value, isInner c = true)
    (hname : '<' ∉ name) {s s' : GroupState} (h : s'.rank ≤ s.rank) :
    (s'.after value).rank ≤ (s.after ('{' :: name)).rank :=
  calc (s'.after value).rank
      ≤ (s'.step '{').rank := rank_after_le_step hvalue rfl s'
    _ ≤ (s.step '{').rank := rank_step_le h '{'
    _ ≤ (s.after ('{' :: name)).rank := rank_step_le_after rfl hname s

end GroupState

section Expand

variable {lookup : Text → Option Text}

/-- In a text with placeholders filled in a group comes no further than in the text itself, if it
comes no further in what each placeholder gives way to. -/
theorem rank_after_fill_le {f : Text → Logged Text Text} {t : Text}
    (h : ∀ p ∈ placeholders t, ∀ s s' : GroupState, s'.rank ≤ s.rank →
      (s'.after (f p).value).rank ≤ (s.after p).rank) :
    (outside.after (fill f t).value).rank ≤ (outside.after t).rank := by
  rw [value_fill]
  conv => rhs; rw [← flatMap_text_pieces t]
  refine rank_after_flatMap_le (fun piece hmem s s' hs => ?_) (Nat.le_refl _)
  cases piece with
  | plain c => exact rank_step_le hs c
  | placeholder p => exact h p (mem_placeholders_iff.2 hmem) s s' hs

/-- Where placeholders give way to names, no group comes further: neither the names nor the
placeholders that give way have brackets that open one. -/
theorem rank_after_expand_le
    (h : ∀ p value, lookup p = some value → '<' ∉ p ∧ ∀ c ∈ value, isInner c = true)
    (depth : Nat) (t : Text) :
    (outside.after (expand lookup depth t).value).rank ≤ (outside.after t).rank := by
  rw [expand_eq_fill]
  refine rank_after_fill_le fun p hp s s' hs => ?_
  rcases resolved_cases lookup depth p with heq | ⟨value, d, hvalue, -, heq⟩
  · rw [heq]
    exact rank_after_le hs p
  · obtain ⟨hopen, hinner⟩ := h p value hvalue
    obtain ⟨⟨name, rfl⟩, -⟩ := of_mem_placeholders hp
    rw [heq]
    have hexpanded := forall_mem_expand (fun q v hv => (h q v hv).2) d hinner
    exact rank_after_value_le hexpanded (fun hmem => hopen (List.mem_cons_of_mem _ hmem)) hs

end Expand

/-! ### Members -/

/-- The placeholders of a class whose name has no opening bracket have none. -/
theorem not_mem_of_lookupParam {name p value : Text} (hname : '<' ∉ name) {policy : UnboundPolicy}
    {outer inner : Option Text}
    (h : lookupParam (.ofDecl? (.ofClass name) policy outer) (.ofDecl? .ofMember policy inner) p =
      some value) : '<' ∉ p := by
  have hplaceholder : ∀ (scope : Scope) (param : Text), Params.IsParam param →
      (∀ n, scope = .ofClass n → n = name) → '<' ∉ scope.placeholder param := by
    rintro scope _ ⟨digits, rfl, -, hdigits⟩ hscope
    have hdigit : '<' ∉ digits := fun hmem => by cases hdigits '<' hmem
    cases scope with
    | ofClass n =>
      obtain rfl := hscope n rfl
      simp [Scope.placeholder, hname, hdigit]
    | ofMember => simp [Scope.placeholder, hdigit]
  rcases lookupParam_eq_some h with houter | hinner
  · obtain ⟨param, hparam, rfl⟩ := Params.key_of_get?_ofDecl? houter
    exact hplaceholder _ param hparam fun n hn => (Scope.ofClass.inj hn).symm
  · obtain ⟨param, hparam, rfl⟩ := Params.key_of_get?_ofDecl? hinner
    exact hplaceholder _ param hparam fun n hn => by cases hn

/-- Without parameters only type arguments are removed. -/
theorem value_substituteText_empty (t : Text) : (substituteText ∅ ∅ t).value = strip t := by
  rw [value_substituteText]
  exact value_expand_of_forall_none (fun _ => rfl) maxBoundDepth (strip t)

/-- Erased text has no type arguments. -/
theorem strip_value_substituteText {name : Text} (hname : '<' ∉ name) (policy : UnboundPolicy)
    (outer inner : Option Text) (t : Text) :
    strip (substituteText (.ofDecl? (.ofClass name) policy outer)
        (.ofDecl? .ofMember policy inner) t).value =
      (substituteText (.ofDecl? (.ofClass name) policy outer)
        (.ofDecl? .ofMember policy inner) t).value := by
  rw [value_substituteText]
  exact strip_eq_self_of_rank_le (rank_after_expand_le
    (fun p value h => ⟨not_mem_of_lookupParam hname h, isInner_of_lookupParam h⟩) _ (strip t))

/-- A member that was erased is erased to itself where there are no parameters. -/
theorem Member.erased_erased {c : ClassDef} (hname : '<' ∉ c.name) (policy policy' : UnboundPolicy)
    (m : Member) :
    (m.erased policy (c.params policy)).erased policy' ∅ = m.erased policy (c.params policy) := by
  have htext := strip_value_substituteText hname policy c.typeParams m.typeParams
  have hempty : Params.ofDecl? .ofMember policy' none = ∅ := rfl
  simp only [Member.erased, Member.erasure, Logged.value_bind, Logged.value_pure, hempty,
    value_substituteText_empty, ClassDef.params, htext]

/-! ### Classes -/

namespace ClassDef

theorem mapMembers_of_forall {f g : Member → Member} (h : ∀ m, g (f m) = f m) {c : ClassDef} :
    (c.mapMembers f).dropTypeParams.mapMembers g = (c.mapMembers f).dropTypeParams := by
  simp only [mapMembers, mapDeclared, dropTypeParams, List.map_map, Option.map_map,
    Function.comp_def, h]

theorem mapDeclared_of_forall {f g : Member → Member} (h : ∀ m, g (f m) = f m) {c : ClassDef} :
    (c.mapDeclared f).dropTypeParams.mapDeclared g = (c.mapDeclared f).dropTypeParams := by
  simp only [mapDeclared, dropTypeParams, List.map_map, Function.comp_def, h]

/-- Erasing a class, or its declared members, a second time changes nothing, whatever becomes of
parameters without a bound. -/
theorem erasure_idempotent {c : ClassDef} (hname : '<' ∉ c.name) (policy policy' : UnboundPolicy) :
    ((c.erasure policy).value.erasure policy').value = (c.erasure policy).value ∧
      ((c.fullErasure policy).value.fullErasure policy').value = (c.fullErasure policy).value := by
  have hmember := Member.erased_erased hname policy policy'
  have hparams : ∀ d : ClassDef, d.dropTypeParams.params policy' = ∅ := fun d => rfl
  constructor
  · rw [erasure, erasure, hparams, mapMembers_of_forall hmember]
    rfl
  · rw [fullErasure, fullErasure, hparams, mapDeclared_of_forall hmember]
    rfl

/-- A class with a parameter that is erased to itself, one whose bound has type arguments, and
brackets that belong to no group. -/
def tree : ClassDef where
  header :=
    { kind := .header, name := "demo.Tree".toList
      typeParams := some "<%0 extends {demo.Tree%0}, %1 extends demo.Node<{demo.Tree%1}>>".toList }
  methods :=
    [{ kind := .method, declaring := "demo.Tree".toList, name := "walk".toList
       typeParams := some "<%0 extends {demo.Tree%1}>".toList, typeName := "{%0}<>".toList
       args := "<{demo.Tree%0}>>,a.List<<{%0}>,a.B>,>{%1}".toList }]

/-- What is left of brackets and placeholders is left a second time. -/
theorem tree_erasure_idempotent :
    '<' ∉ tree.name ∧
      (tree.erasure .unresolved).value.methods.map (fun m => (m.typeName, m.args)) =
        [("demo.Node<>".toList, ">,a.List,>{%1}".toList)] ∧
      ((tree.erasure .unresolved).value.erasure .unresolved).value =
        (tree.erasure .unresolved).value ∧
      ((tree.fullErasure .unresolved).value.fullErasure .unresolved).value =
        (tree.fullErasure .unresolved).value :=
  ⟨by decide, by decide +kernel, erasure_idempotent (by decide) .unresolved .unresolved⟩

end ClassDef

end ApiSurface
