import ApiSurface.Proofs.Erasure.Groups
import ApiSurface.Proofs.Erasure.Placeholder
import Mathlib.Data.List.Chain
import Mathlib.Logic.Relation

/-!
# What full erasure leaves

Texts whose brackets are balanced and whose placeholders stand for parameters with a bound are left
without brackets and braces (`ClassDef.fullErasure_leaves_no_generics`). The argument is on the
number of placeholders that may follow one another: each bound that is filled in uses up one
(`Grounded.of_leads`).
-/

namespace ApiSurface

open Text

/-- The braces of a text are those of its placeholders. -/
def BracesPaired (t : Text) : Prop := .plain '{' ∉ pieces t ∧ .plain '}' ∉ pieces t

instance (t : Text) : Decidable (BracesPaired t) := inferInstanceAs (Decidable (_ ∧ _))

/-- A placeholder stands in what another one is erased to. -/
def Leads (lookup : Text → Option Text) (p q : Text) : Prop :=
  ∃ value, lookup p = some value ∧ q ∈ placeholders value

/-- Bounds lead from a placeholder to names: wherever they lead, braces are those of placeholders
that have a bound themselves, and at most `depth` placeholders follow one another. In particular
no placeholder leads back to itself, since that would go on for ever. -/
structure Grounded (lookup : Text → Option Text) (depth : Nat) (p : Text) : Prop where
  /-- The braces of every bound are those of placeholders. -/
  bracesPaired : ∀ q value, Relation.ReflTransGen (Leads lookup) p q → lookup q = some value →
    BracesPaired value
  /-- The placeholders of every bound have a bound. -/
  resolvable : ∀ q r, Relation.ReflTransGen (Leads lookup) p q → Leads lookup q r →
    ∃ value, lookup r = some value
  /-- At most `depth` placeholders follow one another. -/
  short : ∀ chain, (p :: chain).IsChain (Leads lookup) → (p :: chain).length ≤ depth

section Expand

variable {lookup : Text → Option Text} {depth : Nat}

theorem BracesPaired.ne {t : Text} (h : BracesPaired t) {c : Char} (hc : .plain c ∈ pieces t) :
    c ≠ '{' ∧ c ≠ '}' := by
  constructor
  · rintro rfl
    exact h.1 hc
  · rintro rfl
    exact h.2 hc

/-- Each bound that is filled in uses up one of the placeholders that may follow one another. -/
theorem Grounded.of_leads {p q : Text} (h : Grounded lookup (depth + 1) p)
    (hq : Leads lookup p q) : Grounded lookup depth q where
  bracesPaired r value hr := h.bracesPaired r value (hr.head hq)
  resolvable r r' hr := h.resolvable r r' (hr.head hq)
  short chain hchain := by
    have hlonger := h.short (q :: chain) (List.isChain_cons_cons.2 ⟨hq, hchain⟩)
    rw [List.length_cons] at hlonger
    omega

/-- A placeholder leads one step further than those of its bound. -/
theorem Grounded.of_bound {p value : Text} (hvalue : lookup p = some value)
    (hbraces : BracesPaired value)
    (h : ∀ q ∈ placeholders value, Grounded lookup depth q ∧ ∃ bound, lookup q = some bound) :
    Grounded lookup (depth + 1) p where
  bracesPaired q v hq hv := by
    rcases Relation.ReflTransGen.cases_head hq with rfl | ⟨r, ⟨_, hr, hmem⟩, hrq⟩
    · rw [hvalue] at hv
      exact Option.some.inj hv ▸ hbraces
    · rw [hvalue] at hr
      exact (h r (Option.some.inj hr ▸ hmem)).1.bracesPaired q v hrq hv
  resolvable q r hq hqr := by
    rcases Relation.ReflTransGen.cases_head hq with rfl | ⟨r', ⟨_, hr, hmem⟩, hrq⟩
    · obtain ⟨_, hv, hmem⟩ := hqr
      rw [hvalue] at hv
      exact (h r (Option.some.inj hv ▸ hmem)).2
    · rw [hvalue] at hr
      exact (h r' (Option.some.inj hr ▸ hmem)).1.resolvable q r hrq hqr
  short chain hchain := by
    rcases chain with _ | ⟨q, chain⟩
    · exact Nat.succ_le_succ (Nat.zero_le depth)
    · obtain ⟨⟨_, hq, hmem⟩, hrest⟩ := List.isChain_cons_cons.1 hchain
      rw [hvalue] at hq
      exact Nat.succ_le_succ ((h q (Option.some.inj hq ▸ hmem)).1.short chain hrest)

theorem Grounded.mono {p : Text} {depth' : Nat} (h : Grounded lookup depth p)
    (hle : depth ≤ depth') : Grounded lookup depth' p :=
  ⟨h.bracesPaired, h.resolvable, fun chain hchain => (h.short chain hchain).trans hle⟩

theorem Grounded.pos {p : Text} (h : Grounded lookup depth p) : 0 < depth :=
  h.short [] (List.isChain_singleton p)

/-- Where bounds lead from all placeholders of a text to names, nothing is reported, and no brace
is left. -/
theorem expand_of_grounded {t : Text} (hbraces : BracesPaired t)
    (hgrounded : ∀ p ∈ placeholders t, Grounded lookup depth p ∧ ∃ value, lookup p = some value) :
    (expand lookup depth t).log = [] ∧
      ∀ c ∈ (expand lookup depth t).value, c ≠ '{' ∧ c ≠ '}' := by
  -- the induction is on the placeholders that may follow one another
  induction depth generalizing t with
  | zero =>
    have hnone : placeholders t = [] :=
      List.eq_nil_iff_forall_not_mem.2 fun p hp => absurd (hgrounded p hp).1.pos (Nat.lt_irrefl 0)
    rw [expand_eq_fill, log_fill, hnone]
    refine ⟨rfl, fun c hc => ?_⟩
    rcases mem_value_fill_iff.1 hc with hplain | ⟨p, hp, -⟩
    · exact hbraces.ne hplain
    · rw [hnone] at hp
      cases hp
  | succ depth ih =>
    have hresolved : ∀ p ∈ placeholders t, (resolved lookup (depth + 1) p).log = [] ∧
        ∀ c ∈ (resolved lookup (depth + 1) p).value, c ≠ '{' ∧ c ≠ '}' := by
      intro p hp
      obtain ⟨hg, value, hvalue⟩ := hgrounded p hp
      rw [resolved_of_lookup hvalue]
      refine ih (hg.bracesPaired p value .refl hvalue) fun q hq => ?_
      have hleads : Leads lookup p q := ⟨value, hvalue, hq⟩
      exact ⟨hg.of_leads hleads, hg.resolvable p q .refl hleads⟩
    rw [expand_eq_fill]
    constructor
    · rw [log_fill, List.flatMap_eq_nil_iff]
      exact fun p hp => (hresolved p hp).1
    · intro c hc
      rcases mem_value_fill_iff.1 hc with hplain | ⟨p, hp, hcp⟩
      · exact hbraces.ne hplain
      · exact (hresolved p hp).2 c hcp

end Expand

/-! ### Texts of members -/

/-- A placeholder stands for a parameter of a declaration that is erased to a name: to its bound,
or to the root where it has none. -/
def Erases (scope : Scope) (policy : UnboundPolicy) (decl : Option Text) (p : Text) : Prop :=
  ∃ d ∈ decl, ∃ param, p = scope.placeholder param ∧ Params.IsParam param ∧
    Params.Declares d param ∧ (Params.Bounds d param ∨ policy = .object)

/-- A text is well formed: its brackets are balanced with something of their own in every group,
and the braces outside groups are those of placeholders for parameters that the class or the member
declares, from which bounds lead to names through at most 64 placeholders in a row. -/
def WellFormedText (policy : UnboundPolicy) (c : ClassDef) (m : Member) (t : Text) : Prop :=
  ∃ rest, outside? t = some rest ∧ BracesPaired rest ∧ ∀ p ∈ placeholders rest,
    (Erases (.ofClass c.name) policy c.typeParams p ∨ Erases .ofMember policy m.typeParams p) ∧
      Grounded (lookupParam (c.params policy) (.ofDecl? .ofMember policy m.typeParams)) 64 p

theorem Erases.exists_get? {scope : Scope} {policy : UnboundPolicy} {decl : Option Text} {p : Text}
    (h : Erases scope policy decl p) :
    ∃ value, (Params.ofDecl? scope policy decl).get? p = some value := by
  obtain ⟨d, rfl, param, rfl, hparam, hdeclares, hbound⟩ := h
  exact Option.ne_none_iff_exists'.1 (Params.get?_ofDecl_ne_none hparam hdeclares hbound)

theorem exists_lookupParam {outer inner : Params} {p : Text}
    (h : (∃ value, outer.get? p = some value) ∨ ∃ value, inner.get? p = some value) :
    ∃ value, lookupParam outer inner p = some value := by
  unfold lookupParam
  rcases houter : outer.get? p with _ | value
  · obtain ⟨value, hvalue⟩ := h.resolve_left (by simp [houter])
    exact ⟨value, hvalue⟩
  · exact ⟨value, rfl⟩

/-- A well-formed text is erased without brackets and braces and without a report. -/
theorem substituteText_of_wellFormed {policy : UnboundPolicy} {c : ClassDef} {m : Member} {t : Text}
    (h : WellFormedText policy c m t) :
    (substituteText (c.params policy) (.ofDecl? .ofMember policy m.typeParams) t).log = [] ∧
      ∀ d ∈ (substituteText (c.params policy) (.ofDecl? .ofMember policy m.typeParams) t).value,
        d ∉ "<>{}".toList := by
  obtain ⟨rest, houtside, hbraces, hplaceholders⟩ := h
  obtain ⟨hstrip, hinner⟩ := strip_eq_of_outside? houtside
  rw [substituteText]
  split
  next =>
    refine ⟨rfl, fun d hd => ?_⟩
    cases hd
  next =>
    rw [substitute, hstrip]
    obtain ⟨hlog, hnobrace⟩ := expand_of_grounded hbraces fun p hp =>
      ⟨(hplaceholders p hp).2,
        exists_lookupParam ((hplaceholders p hp).1.imp Erases.exists_get? Erases.exists_get?)⟩
    have hbrackets : ∀ d ∈ (expand (lookupParam (c.params policy)
        (.ofDecl? .ofMember policy m.typeParams)) maxBoundDepth rest).value, isInner d = true :=
      forall_mem_expand (fun _ _ hvalue => isInner_of_lookupParam hvalue) maxBoundDepth hinner
    refine ⟨hlog, fun d hd => ?_⟩
    obtain ⟨hopen, hclose⟩ := isInner_iff.1 (hbrackets d hd)
    obtain ⟨hopen', hclose'⟩ := hnobrace d hd
    simp [hopen, hclose, hopen', hclose']

namespace ClassDef

/-- Full erasure of a class whose members have well-formed texts reports nothing, and leaves no
bracket and no brace in them. -/
theorem fullErasure_leaves_no_generics {c : ClassDef} {policy : UnboundPolicy}
    (h : ∀ m ∈ c.declaredMembers, ∀ t ∈ [m.typeName, m.args, m.throws],
      WellFormedText policy c m t) :
    (c.fullErasure policy).log = [] ∧
      ∀ m ∈ (c.fullErasure policy).value.declaredMembers,
        ∀ t ∈ [m.typeName, m.args, m.throws], ∀ d ∈ t, d ∉ "<>{}".toList := by
  have htext := fun m hm t ht => substituteText_of_wellFormed (h m hm t ht)
  constructor
  · refine List.flatMap_eq_nil_iff.2 fun m hm => ?_
    obtain ⟨htype, -⟩ := htext m hm m.typeName (by simp)
    obtain ⟨hargs, -⟩ := htext m hm m.args (by simp)
    obtain ⟨hthrows, -⟩ := htext m hm m.throws (by simp)
    simp only [Member.erasure, Logged.log_bind, Logged.log_pure, htype, hargs, hthrows,
      List.append_nil]
  · intro m' hm'
    have hdeclared : (c.fullErasure policy).value.declaredMembers =
        c.declaredMembers.map (·.erased policy (c.params policy)) :=
      declaredMembers_mapDeclared _ c
    rw [hdeclared] at hm'
    obtain ⟨m, hm, rfl⟩ := List.mem_map.1 hm'
    refine List.forall_mem_cons.2 ⟨(htext m hm m.typeName (by simp)).2, ?_⟩
    refine List.forall_mem_cons.2 ⟨(htext m hm m.args (by simp)).2, ?_⟩
    exact List.forall_mem_singleton.2 (htext m hm m.throws (by simp)).2

/-- A class with a method whose parameter is bounded by that of the class. -/
def box : ClassDef where
  header :=
    { kind := .header, name := "demo.Box".toList, typeParams := some "<%0 extends a.B>".toList }
  methods :=
    [{ kind := .method, declaring := "demo.Box".toList, name := "m".toList
       typeParams := some "<%0 extends {demo.Box%0}>".toList, typeName := "void".toList
       args := "a.Map<{%0},a.List<b.V>>[],{%0}".toList, throws := "{demo.Box%0}".toList }]

/-- What placeholders in the method are erased to. -/
def boxLookup : Text → Option Text :=
  lookupParam (box.params .unresolved)
    (.ofDecl? .ofMember .unresolved (some "<%0 extends {demo.Box%0}>".toList))

/-- The bound of the method's parameter is found through that of the class. -/
theorem box_fullErasure :
    (∀ m ∈ box.declaredMembers, ∀ t ∈ [m.typeName, m.args, m.throws],
      WellFormedText .unresolved box m t) ∧
    (box.fullErasure .unresolved).log = [] ∧
    (∀ m ∈ (box.fullErasure .unresolved).value.declaredMembers,
      ∀ t ∈ [m.typeName, m.args, m.throws], ∀ d ∈ t, d ∉ "<>{}".toList) ∧
    (box.fullErasure .unresolved).value.methods.map (fun m => (m.typeName, m.args, m.throws)) =
      [("void".toList, "a.Map[],a.B".toList, "a.B".toList)] := by
  have hclass : Grounded boxLookup 1 "{demo.Box%0}".toList := by
    have hvalue : boxLookup "{demo.Box%0}".toList = some "a.B".toList := by decide +kernel
    refine .of_bound hvalue (by decide +kernel) ?_
    rw [show placeholders "a.B".toList = [] by decide +kernel]
    exact List.forall_mem_nil _
  have hmethod : Grounded boxLookup 2 "{%0}".toList := by
    have hvalue : boxLookup "{%0}".toList = some "{demo.Box%0}".toList := by decide +kernel
    refine .of_bound hvalue (by decide +kernel) ?_
    rw [show placeholders "{demo.Box%0}".toList = ["{demo.Box%0}".toList] by decide +kernel]
    exact List.forall_mem_singleton.2 ⟨hclass, "a.B".toList, by decide +kernel⟩
  have hparam : Params.IsParam "%0".toList :=
    ⟨['0'], rfl, List.cons_ne_nil _ _, List.forall_mem_singleton.2 rfl⟩
  have hclassBound : Params.Bounds "<%0 extends a.B>".toList "%0".toList :=
    ⟨"a.B".toList, by decide +kernel⟩
  have hmethodBound : Params.Bounds "<%0 extends {demo.Box%0}>".toList "%0".toList :=
    ⟨"{demo.Box%0}".toList, by decide +kernel⟩
  have hwell : ∀ m ∈ box.declaredMembers, ∀ t ∈ [m.typeName, m.args, m.throws],
      WellFormedText .unresolved box m t := by
    intro m hm
    obtain rfl := List.mem_singleton.1 hm
    refine List.forall_mem_cons.2 ⟨⟨"void".toList, by decide +kernel, by decide +kernel, ?_⟩, ?_⟩
    · rw [show placeholders "void".toList = [] by decide +kernel]
      exact List.forall_mem_nil _
    refine List.forall_mem_cons.2 ⟨⟨"a.Map[],{%0}".toList, by decide +kernel, by decide +kernel,
      ?_⟩, ?_⟩
    · rw [show placeholders "a.Map[],{%0}".toList = ["{%0}".toList] by decide +kernel]
      exact List.forall_mem_singleton.2 ⟨.inr ⟨_, rfl, "%0".toList, rfl, hparam, .inr hmethodBound,
        .inl hmethodBound⟩, hmethod.mono (by decide)⟩
    refine List.forall_mem_singleton.2 ⟨"{demo.Box%0}".toList, by decide +kernel,
      by decide +kernel, ?_⟩
    rw [show placeholders "{demo.Box%0}".toList = ["{demo.Box%0}".toList] by decide +kernel]
    exact List.forall_mem_singleton.2 ⟨.inl ⟨_, rfl, "%0".toList, rfl, hparam, .inr hclassBound,
      .inl hclassBound⟩, hclass.mono (by decide)⟩
  obtain ⟨hlog, hnone⟩ := fullErasure_leaves_no_generics hwell
  exact ⟨hwell, hlog, hnone, by decide +kernel⟩

end ClassDef

end ApiSurface
