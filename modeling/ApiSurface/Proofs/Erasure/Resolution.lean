import ApiSurface.Proofs.Erasure.Residue

/-!
# Complete resolution

What a placeholder stands for is said by `Resolution`, without a limit on how far values are
followed. As long as no more than 64 placeholders with a value follow one another,
`substitute_resolves` says that erasure puts in the place of every placeholder what it stands for,
and that it reports just those without a value. `forall_log_expand_iff` is the exact boundary: where
more follow one another, or values lead in a circle, a placeholder that has a value is reported.
-/

namespace ApiSurface

open Text Relation

/-! ### What placeholders stand for -/

/-- The text with `f p` in the place of each placeholder `p`. -/
def fillText (f : Text → Text) (t : Text) : Text :=
  (pieces t).flatMap fun
    | .plain c => [c]
    | .placeholder p => f p

/-- What a placeholder stands for: itself if it has no value, else its value with what the
placeholders of the value stand for in their places. -/
inductive Resolution (lookup : Text → Option Text) : Text → Text → Prop
  /-- A placeholder without a value stands for itself. -/
  | unmapped {p : Text} (h : lookup p = none) : Resolution lookup p p
  /-- A placeholder stands for its value, in which all placeholders are resolved. -/
  | mapped {p value : Text} {f : Text → Text} (h : lookup p = some value)
      (hf : ∀ q ∈ placeholders value, Resolution lookup q (f q)) :
      Resolution lookup p (fillText f value)

/-- The text is `t` with what each placeholder stands for in its place. -/
def ResolvesTo (lookup : Text → Option Text) (t r : Text) : Prop :=
  ∃ f, (∀ p ∈ placeholders t, Resolution lookup p (f p)) ∧ r = fillText f t

variable {lookup : Text → Option Text} {depth : Nat} {p t : Text}

theorem fillText_congr {f g : Text → Text} (h : ∀ p ∈ placeholders t, f p = g p) :
    fillText f t = fillText g t := by
  refine congrArg List.flatten (List.map_congr_left fun piece hmem => ?_)
  cases piece with
  | plain c => rfl
  | placeholder p => exact h p (mem_placeholders_iff.2 hmem)

/-- A placeholder stands for one text only. -/
theorem Resolution.unique {r r' : Text} (h : Resolution lookup p r) (h' : Resolution lookup p r') :
    r = r' := by
  induction h generalizing r' with
  | unmapped hnone =>
    cases h' with
    | unmapped => rfl
    | mapped hvalue => rw [hnone] at hvalue; cases hvalue
  | mapped hvalue _ ih =>
    cases h' with
    | unmapped hnone => rw [hnone] at hvalue; cases hvalue
    | mapped hvalue' hf' =>
      obtain rfl := Option.some.inj (hvalue.symm.trans hvalue')
      exact fillText_congr fun q hq => ih q hq (hf' q hq)

theorem ResolvesTo.unique {r r' : Text} (h : ResolvesTo lookup t r) (h' : ResolvesTo lookup t r') :
    r = r' := by
  obtain ⟨f, hf, rfl⟩ := h
  obtain ⟨g, hg, rfl⟩ := h'
  exact fillText_congr fun p hp => (hf p hp).unique (hg p hp)

/-! ### How many follow one another -/

/-- From a placeholder at most `depth` placeholders that have a value follow one another, itself
among them. In particular none of them leads back to itself (`Within.acc`). -/
def Within (lookup : Text → Option Text) (depth : Nat) (p : Text) : Prop :=
  ∀ chain, (p :: chain).IsChain (Leads lookup) →
    (∀ q ∈ p :: chain, ∃ value, lookup q = some value) → (p :: chain).length ≤ depth

theorem Within.of_none (h : lookup p = none) (depth : Nat) : Within lookup depth p := by
  intro chain _ hvalues
  obtain ⟨value, hvalue⟩ := hvalues p List.mem_cons_self
  rw [h] at hvalue
  cases hvalue

theorem Within.of_leads {q : Text} (h : Within lookup (depth + 1) p) (hq : Leads lookup p q) :
    Within lookup depth q := by
  intro chain hchain hvalues
  have hvalue : ∃ value, lookup p = some value := hq.imp fun _ => And.left
  have hlonger := h (q :: chain) (List.isChain_cons_cons.2 ⟨hq, hchain⟩)
    (List.forall_mem_cons.2 ⟨hvalue, hvalues⟩)
  rw [List.length_cons] at hlonger
  exact Nat.le_of_succ_le_succ hlonger

theorem Within.of_value {value : Text} (hvalue : lookup p = some value)
    (h : ∀ q ∈ placeholders value, Within lookup depth q) : Within lookup (depth + 1) p := by
  rintro (_ | ⟨q, chain⟩) hchain hvalues
  · exact Nat.succ_le_succ (Nat.zero_le depth)
  · obtain ⟨⟨_, hq, hmem⟩, hrest⟩ := List.isChain_cons_cons.1 hchain
    rw [hvalue] at hq
    exact Nat.succ_le_succ
      (h q (Option.some.inj hq ▸ hmem) chain hrest (List.forall_mem_cons.1 hvalues).2)

theorem not_within_zero {value : Text} (h : lookup p = some value) : ¬ Within lookup 0 p := by
  intro hwithin
  have := hwithin [] (List.isChain_singleton p) (List.forall_mem_singleton.2 ⟨value, h⟩)
  simp at this

/-- Where only so many follow one another, values do not lead in a circle: following them comes to
an end. -/
theorem Within.acc (h : Within lookup depth p) : Acc (fun q p => Leads lookup p q) p := by
  induction depth generalizing p with
  | zero => exact .intro p fun q ⟨_, hvalue, _⟩ => absurd h (not_within_zero hvalue)
  | succ depth ih => exact .intro p fun q hq => ih (h.of_leads hq)

/-! ### Following values -/

/-- What a placeholder gives way to is what it stands for. Each value that is followed uses up one
of the placeholders that may follow one another. -/
theorem resolution_resolved (h : Within lookup depth p) :
    Resolution lookup p (resolved lookup depth p).value := by
  induction depth generalizing p with
  | zero =>
    rcases hvalue : lookup p with _ | value
    · exact .unmapped hvalue
    · exact absurd h (not_within_zero hvalue)
  | succ depth ih =>
    rcases hvalue : lookup p with _ | value
    · rw [resolved, hvalue]
      exact .unmapped hvalue
    · rw [resolved_of_lookup hvalue, expand_eq_fill, value_fill]
      exact .mapped hvalue fun q hq => ih (h.of_leads ⟨value, hvalue, hq⟩)

/-- A placeholder without a value leads to no other one. -/
theorem eq_of_reflTransGen_of_none {q : Text} (h : lookup p = none)
    (hpq : ReflTransGen (Leads lookup) p q) : q = p := by
  rcases ReflTransGen.cases_head hpq with rfl | ⟨_, ⟨_, hvalue, -⟩, -⟩
  · rfl
  · rw [h] at hvalue
    cases hvalue

theorem mem_log_keep_iff (h : lookup p = none) {q : Text} :
    q ∈ (keep p).log ↔ lookup q = none ∧ ReflTransGen (Leads lookup) p q := by
  rw [keep, List.mem_singleton]
  constructor
  · rintro rfl
    exact ⟨h, .refl⟩
  · exact fun hq => eq_of_reflTransGen_of_none h hq.2

/-- For a placeholder those are reported that have no value and to which it leads. -/
theorem mem_log_resolved_iff (h : Within lookup depth p) {q : Text} :
    q ∈ (resolved lookup depth p).log ↔ lookup q = none ∧ ReflTransGen (Leads lookup) p q := by
  induction depth generalizing p with
  | zero =>
    rcases hvalue : lookup p with _ | value
    · exact mem_log_keep_iff hvalue
    · exact absurd h (not_within_zero hvalue)
  | succ depth ih =>
    rcases hvalue : lookup p with _ | value
    · rw [resolved, hvalue]
      exact mem_log_keep_iff hvalue
    · rw [resolved_of_lookup hvalue, expand_eq_fill, log_fill, List.mem_flatMap]
      constructor
      · rintro ⟨r, hr, hq⟩
        have hleads : Leads lookup p r := ⟨value, hvalue, hr⟩
        obtain ⟨hnone, hrq⟩ := (ih (h.of_leads hleads)).1 hq
        exact ⟨hnone, hrq.head hleads⟩
      · rintro ⟨hnone, hpq⟩
        rcases ReflTransGen.cases_head hpq with rfl | ⟨r, hleads, hrq⟩
        · rw [hvalue] at hnone
          cases hnone
        · refine ⟨r, ?_, (ih (h.of_leads hleads)).2 ⟨hnone, hrq⟩⟩
          obtain ⟨_, hvalue', hr⟩ := hleads
          rw [hvalue] at hvalue'
          exact Option.some.inj hvalue' ▸ hr

/-- Where more placeholders with a value follow one another than are followed, the one at which that
stops is reported. -/
theorem exists_mem_log_resolved (h : ¬ Within lookup depth p) :
    ∃ q ∈ (resolved lookup depth p).log, ∃ value, lookup q = some value := by
  simp only [Within, not_forall, Nat.not_le] at h
  obtain ⟨chain, hchain, hvalues, hlong⟩ := h
  induction depth generalizing p chain with
  | zero => exact ⟨p, List.mem_singleton_self p, hvalues p List.mem_cons_self⟩
  | succ depth ih =>
    obtain ⟨hp, hvalues⟩ := List.forall_mem_cons.1 hvalues
    rcases chain with _ | ⟨r, chain⟩
    · simp at hlong
    obtain ⟨⟨value, hvalue, hr⟩, hchain⟩ := List.isChain_cons_cons.1 hchain
    obtain ⟨q, hq, hmapped⟩ := ih chain hchain hvalues (Nat.lt_of_succ_lt_succ hlong)
    refine ⟨q, ?_, hmapped⟩
    rw [resolved_of_lookup hvalue, expand_eq_fill, log_fill, List.mem_flatMap]
    exact ⟨r, hr, hq⟩

/-- Only placeholders without a value are reported exactly if no more with a value follow one
another than are followed. -/
theorem forall_log_expand_iff : (∀ q ∈ (expand lookup depth t).log, lookup q = none) ↔
    ∀ p ∈ placeholders t, Within lookup depth p := by
  rw [expand_eq_fill, log_fill]
  constructor
  · intro h p hp
    by_contra hlong
    obtain ⟨q, hq, value, hvalue⟩ := exists_mem_log_resolved hlong
    rw [h q (List.mem_flatMap.2 ⟨p, hp, hq⟩)] at hvalue
    cases hvalue
  · intro h q hq
    obtain ⟨p, hp, hq⟩ := List.mem_flatMap.1 hq
    exact ((mem_log_resolved_iff (h p hp)).1 hq).1

/-- Where no more than 64 placeholders with a value follow one another, the erasure of a text is the
text without type arguments, with what each placeholder stands for in its place, and the reported
placeholders are those without a value that are met on the way. -/
theorem substitute_resolves {outer inner : Params} {t : Text}
    (h : ∀ p ∈ placeholders (strip t), Within (lookupParam outer inner) 64 p) :
    (∀ r, ResolvesTo (lookupParam outer inner) (strip t) r ↔
      r = (substitute outer inner t).value) ∧
    ∀ q, q ∈ (substitute outer inner t).log ↔ lookupParam outer inner q = none ∧
      ∃ p ∈ placeholders (strip t), ReflTransGen (Leads (lookupParam outer inner)) p q := by
  have hresolved :
      ResolvesTo (lookupParam outer inner) (strip t) (substitute outer inner t).value := by
    refine ⟨fun p => (resolved (lookupParam outer inner) 64 p).value,
      fun p hp => resolution_resolved (h p hp), ?_⟩
    rw [substitute, expand_eq_fill, value_fill]
    rfl
  refine ⟨fun r => ⟨fun hr => hr.unique hresolved, fun hr => hr ▸ hresolved⟩, fun q => ?_⟩
  rw [substitute, expand_eq_fill, log_fill, List.mem_flatMap]
  constructor
  · rintro ⟨p, hp, hq⟩
    obtain ⟨hnone, hpq⟩ := (mem_log_resolved_iff (h p hp)).1 hq
    exact ⟨hnone, p, hp, hpq⟩
  · rintro ⟨hnone, p, hp, hpq⟩
    exact ⟨p, hp, (mem_log_resolved_iff (h p hp)).2 ⟨hnone, hpq⟩⟩

/-- What the parameters of a class are erased to. -/
def chainedOuter : Params := .ofList [("{a.C%0}".toList, "{%1}[],{%0}".toList)]

/-- What the parameters of a member are erased to, with an entry that gives way to that of the
class. -/
def chainedInner : Params :=
  .ofList [("{%0}".toList, "a.N".toList), ("{a.C%0}".toList, "a.Hidden".toList)]

/-- What placeholders are erased to in the member. -/
def chainedLookup : Text → Option Text := lookupParam chainedOuter chainedInner

/-- A parameter of the class stands for two of the member, of which one has no value and is met on
the way. -/
theorem substitute_chained :
    (substitute chainedOuter chainedInner "a.Map<{%9}>,{a.C%0},{%0}".toList).value =
      "a.Map,{%1}[],a.N,a.N".toList ∧
    ResolvesTo chainedLookup "a.Map,{a.C%0},{%0}".toList "a.Map,{%1}[],a.N,a.N".toList ∧
    ∃ p ∈ ["{a.C%0}".toList, "{%0}".toList],
      ReflTransGen (Leads chainedLookup) p "{%1}".toList := by
  have hstrip : strip "a.Map<{%9}>,{a.C%0},{%0}".toList = "a.Map,{a.C%0},{%0}".toList := by
    decide +kernel
  have hplaceholders : placeholders "a.Map,{a.C%0},{%0}".toList =
      ["{a.C%0}".toList, "{%0}".toList] := by decide +kernel
  have hmember : ∀ depth, Within chainedLookup (depth + 1) "{%0}".toList := by
    intro depth
    have hvalue : chainedLookup "{%0}".toList = some "a.N".toList := by decide +kernel
    refine .of_value hvalue ?_
    rw [show placeholders "a.N".toList = [] by decide +kernel]
    exact List.forall_mem_nil _
  have hclass : Within chainedLookup 64 "{a.C%0}".toList := by
    have hvalue : chainedLookup "{a.C%0}".toList = some "{%1}[],{%0}".toList := by decide +kernel
    refine .of_value hvalue ?_
    rw [show placeholders "{%1}[],{%0}".toList = ["{%1}".toList, "{%0}".toList] by decide +kernel]
    exact List.forall_mem_cons.2 ⟨.of_none (by decide +kernel) 63,
      List.forall_mem_singleton.2 (hmember 62)⟩
  have hwithin : ∀ p ∈ placeholders (strip "a.Map<{%9}>,{a.C%0},{%0}".toList),
      Within chainedLookup 64 p := by
    rw [hstrip, hplaceholders]
    exact List.forall_mem_cons.2 ⟨hclass, List.forall_mem_singleton.2 (hmember 63)⟩
  have hvalue : (substitute chainedOuter chainedInner "a.Map<{%9}>,{a.C%0},{%0}".toList).value =
      "a.Map,{%1}[],a.N,a.N".toList := by decide +kernel
  obtain ⟨hresolved, hlog⟩ := substitute_resolves hwithin
  obtain ⟨-, hmet⟩ := (hlog "{%1}".toList).1 (by decide +kernel)
  rw [hstrip] at hresolved hmet
  rw [hplaceholders] at hmet
  exact ⟨hvalue, (hresolved _).2 hvalue.symm, hmet⟩

end ApiSurface
