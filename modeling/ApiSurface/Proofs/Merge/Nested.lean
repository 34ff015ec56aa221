import ApiSurface.Proofs.Merge.Report
import Mathlib.Data.Finset.Card
import Mathlib.Data.Finset.Filter
import Mathlib.Logic.Relation

/-!
# Nested classes that are removed

Reconciling nested classes removes the duplicates all at once and adds references to the classes
that are left (`get?_registerNested`). The twin for whose sake a class is removed is nested in a
superclass and comes from one of the same participants (`of_fate_eq_duplicate`), but it may be a
duplicate itself. Where superclass links do not run in a circle, twins of twins end at a class that
is kept (`exists_kept_twin`), though it need not share a participant with the first one.
-/

namespace ApiSurface

namespace Snapshot

variable {s : Snapshot} {origins : Origins} {name : Text} {c : ClassDef}

/-! ### What the pass does -/

/-- The references that a class gets. -/
def references (s : Snapshot) (origins : Origins) (outer : Text) : List Member :=
  (s.values.filter fun c => s.fate origins c = .unlisted outer).map (innerReference outer)

theorem get?_addReference (t : Snapshot) (c : ClassDef) (f : Fate) (name : Text) :
    (t.addReference c f).get? name = (t.get? name).map fun o =>
      { o with
        nested := o.nested ++ if f = .unlisted name then [innerReference name c] else [] } := by
  cases f with
  | settled => simp [addReference]
  | duplicate => simp [addReference]
  | unlisted outer =>
    rw [addReference, SortedMap.get?_modify]
    by_cases h : name = outer
    · simp [h]
    · simp [h, Ne.symm h]

theorem get?_foldl_addReference (f : ClassDef → Fate) (l : List ClassDef) (t : Snapshot)
    (name : Text) :
    (l.foldl (fun t c => t.addReference c (f c)) t).get? name = (t.get? name).map fun o =>
      { o with
        nested := o.nested ++ (l.filter fun c => f c = .unlisted name).map
          (innerReference name) } := by
  induction l generalizing t with
  | nil => simp
  | cons c l ih =>
    rw [List.foldl_cons, ih, get?_addReference, Option.map_map, List.filter_cons]
    refine congrArg (Option.map · (t.get? name)) (funext fun o => ?_)
    by_cases h : f c = .unlisted name <;> simp [h]

theorem get?_foldl_erase (names : List Text) (t : Snapshot) (name : Text) :
    (names.foldl SortedMap.erase t).get? name = if name ∈ names then none else t.get? name := by
  induction names generalizing t with
  | nil => simp
  | cons n names ih =>
    rw [List.foldl_cons, ih, SortedMap.get?_erase]
    by_cases hn : name = n <;> by_cases hmem : name ∈ names <;> simp [hn, hmem]

/-- The names of the classes that are removed. -/
def duplicates (s : Snapshot) (origins : Origins) : List Text :=
  (s.values.filter fun c => s.fate origins c = .duplicate).map (·.name)

theorem mem_duplicates_iff :
    name ∈ s.duplicates origins ↔
      ∃ c ∈ s.values, c.name = name ∧ s.fate origins c = .duplicate := by
  simp only [duplicates, List.mem_map, List.mem_filter, decide_eq_true_eq, and_assoc, and_comm]

/-- The classes of the removed names are gone; every other class gets its references and is else
left as it is. -/
theorem get?_registerNested_of_keys (s : Snapshot) (origins : Origins) (name : Text) :
    (s.registerNested origins).get? name =
      if name ∈ s.duplicates origins then none
      else (s.get? name).map fun c =>
        { c with nested := c.nested ++ s.references origins name } := by
  rw [registerNested, get?_foldl_erase, get?_foldl_addReference]
  rfl

/-- A duplicate is removed; every other class gets its references and is else left as it is. -/
theorem get?_registerNested (hs : s.Named) (origins : Origins) (name : Text) :
    (s.registerNested origins).get? name =
      (s.get? name).bind fun c =>
        if s.fate origins c = .duplicate then none
        else some { c with nested := c.nested ++ s.references origins name } := by
  have hremoved : name ∈ s.duplicates origins ↔
      ∃ c, s.get? name = some c ∧ s.fate origins c = .duplicate := by
    rw [mem_duplicates_iff]
    constructor
    · rintro ⟨c, hc, rfl, hfate⟩
      obtain ⟨name, hget⟩ := mem_values_iff.1 hc
      rw [name_of_get? hs hget]
      exact ⟨c, hget, hfate⟩
    · rintro ⟨c, hget, hfate⟩
      exact ⟨c, mem_values_iff.2 ⟨name, hget⟩, name_of_get? hs hget, hfate⟩
  rw [get?_registerNested_of_keys]
  simp only [hremoved]
  rcases hget : s.get? name with _ | c
  · simp
  · simp only [Option.some.injEq, exists_eq_left', Option.map_some, Option.bind_some]

/-- A class is in the snapshot that is left exactly if it was there and is no duplicate. -/
theorem isSome_get?_registerNested_iff (hs : s.Named) :
    ((s.registerNested origins).get? name).isSome = true ↔
      ∃ c, s.get? name = some c ∧ s.fate origins c ≠ .duplicate := by
  rw [get?_registerNested hs]
  rcases s.get? name with _ | c
  · simp
  · by_cases hfate : s.fate origins c = .duplicate <;> simp [hfate]

/-! ### Twins -/

/-- One class has another one for its superclass. -/
def Extends (s : Snapshot) (sub super : Text) : Prop :=
  (sub, super) ∈ (Hierarchy.ofSnapshot s).links

theorem extends_of_superclass (hs : s.Named) (hget : s.get? name = some c) {m : Member}
    (hm : c.superclass = some m) : s.Extends name m.name := by
  rw [Extends, Hierarchy.links_ofSnapshot]
  refine List.mem_filterMap.2 ⟨c, mem_values_iff.2 ⟨name, hget⟩, ?_⟩
  rw [hm, Option.map_some, name_of_get? hs hget]

/-- The name that the search comes to next: the superclass of a class, if it was not visited. -/
def nextName? (visited : List Text) (c : ClassDef) : Option Text :=
  (c.superclass.map (·.name)).filter (· ∉ visited)

theorem not_mem_of_nextName? {visited : List Text} {a : Text} (h : nextName? visited c = some a) :
    a ∉ visited := by
  simpa using (Option.filter_eq_some_iff.1 h).2

/-- The search looks for a twin in the next name, and then from its class on. -/
theorem twinFrom?_eq (s : Snapshot) (simple : Text) (visited : List Text) (c : ClassDef) :
    s.twinFrom? simple visited c = (nextName? visited c).bind fun a =>
      (s.get? (a ++ '$' :: simple)).or ((s.get? a).bind (s.twinFrom? simple (a :: visited))) := by
  unfold nextName?
  fun_cases twinFrom? s simple visited c with
  | case1 hnone => rw [hnone]; rfl
  | case2 super hsuper hold => simp [Option.filter_some, hsuper, hold]
  | case3 super hsuper hnew twin hfound => simp [Option.filter_some, hsuper, hnew, hfound]
  | case4 super hsuper hnew hnone hmissing =>
    simp [Option.filter_some, hsuper, hnew, hnone, hmissing]
  | case5 super hsuper hnew hnone next hget =>
    simp [Option.filter_some, hsuper, hnew, hnone, hget]

/-- A twin is nested in a class that one or more superclass links lead to. -/
theorem of_twinFrom? (hs : s.Named) {simple : Text} {visited : List Text} {twin : ClassDef}
    (hget : s.get? name = some c) (h : s.twinFrom? simple visited c = some twin) :
    ∃ ancestor, Relation.TransGen s.Extends name ancestor ∧
      s.get? (ancestor ++ '$' :: simple) = some twin := by
  fun_induction twinFrom? s simple visited c generalizing name with
  | case1 => cases h
  | case2 => cases h
  | case3 visited c super hsuper hv found hfound =>
    cases h
    exact ⟨super.name, .single (extends_of_superclass hs hget hsuper), hfound⟩
  | case4 => cases h
  | case5 visited c super hsuper hv hnone next hnext ih =>
    obtain ⟨ancestor, hlinks, htwin⟩ := ih hnext h
    exact ⟨ancestor, .head (extends_of_superclass hs hget hsuper) hlinks, htwin⟩

/-- A duplicate has a twin in a superclass of the class around it, and the two come from one
participant. -/
theorem of_fate_eq_duplicate (hs : s.Named) (h : s.fate origins c = .duplicate) :
    ∃ outer, c.enclosing? = some outer ∧ ∃ ancestor twin,
      Relation.TransGen s.Extends outer ancestor ∧
      s.get? (ancestor ++ '$' :: c.simpleName) = some twin ∧
      origins.share c.name (ancestor ++ '$' :: c.simpleName) = true := by
  unfold fate at h
  split at h
  next => cases h
  next outerName houter =>
    split at h
    next => cases h
    next outer hget =>
      split at h
      next => cases h
      next =>
        split at h
        next twin htwin =>
          split at h
          next hshare =>
            obtain ⟨ancestor, hlinks, hfound⟩ := of_twinFrom? hs hget htwin
            rw [name_of_get? hs hfound] at hshare
            exact ⟨outerName, houter, ancestor, twin, hlinks, hfound, hshare⟩
          next => cases h
        next => cases h

/-! ### Twins of twins -/

/-- Another snapshot has a class of a simple name in a class that superclass links lead to. -/
def Provides (s classes : Snapshot) (outer simple twin : Text) : Prop :=
  ∃ ancestor, Relation.TransGen s.Extends outer ancestor ∧
    twin = ancestor ++ '$' :: simple ∧ (classes.get? twin).isSome = true

/-- Two nested classes come from one participant, and the second one is nested in a superclass. -/
def LeadsTo (s : Snapshot) (origins : Origins) (outer simple a b : Text) : Prop :=
  origins.share a b = true ∧ s.Provides s outer simple b

/-- A simple name has neither dots nor dollar signs. -/
theorem not_separator_of_mem_simpleNameOf {name : Text} {x : Char} (h : x ∈ simpleNameOf name) :
    (x == '.' || x == '$') = false := by
  unfold simpleNameOf at h
  rcases hcut : Text.cutLast? (fun c => c == '.' || c == '$') name with _ | ⟨a, b⟩
  · rw [hcut] at h
    exact Text.cutLast?_eq_none_iff.1 hcut x h
  · rw [hcut] at h
    obtain ⟨_, -, -, hb⟩ := Text.eq_of_cutLast?_eq_some hcut
    exact hb x h

/-- A simple name is not cut any further. -/
theorem simpleNameOf_append (outer name : Text) :
    simpleNameOf (outer ++ '$' :: simpleNameOf name) = simpleNameOf name := by
  have hsimple : ∀ x ∈ simpleNameOf name, (x == '.' || x == '$') = false :=
    fun _ => not_separator_of_mem_simpleNameOf
  generalize simpleNameOf name = simple at hsimple
  rw [simpleNameOf, Text.cutLast?_append (by decide) hsimple]
  rfl

/-- Superclass links do not lead from a name back to it. -/
def Acyclic (s : Snapshot) : Prop := ∀ name, ¬ Relation.TransGen s.Extends name name

/-- Every nested class is named by the class around it and its own simple name. -/
def NestedByName (s : Snapshot) : Prop :=
  ∀ c ∈ s.values, ∀ outer ∈ c.enclosing?, c.name = outer ++ '$' :: c.simpleName

instance (s : Snapshot) : Decidable s.NestedByName :=
  inferInstanceAs (Decidable (∀ c ∈ s.values, ∀ outer ∈ c.enclosing?, _))

/-- Links along which a number falls do not run in a circle. -/
theorem acyclic_of_rank (rank : Text → Nat)
    (h : ∀ e ∈ (Hierarchy.ofSnapshot s).links, rank e.2 < rank e.1) : s.Acyclic := by
  have hfalls : ∀ {a b}, Relation.TransGen s.Extends a b → rank b < rank a := by
    intro a b hlinks
    induction hlinks with
    | single hlink => exact h _ hlink
    | tail _ hlink ih => exact (h _ hlink).trans ih
  exact fun name hlinks => Nat.lt_irrefl _ (hfalls hlinks)

open Classical in
/-- The names that superclass links lead to. -/
noncomputable def above (s : Snapshot) (name : Text) : Finset Text :=
  ((Hierarchy.ofSnapshot s).links.map (·.2)).toFinset.filter (Relation.TransGen s.Extends name)

theorem mem_above_iff {a b : Text} : b ∈ s.above a ↔ Relation.TransGen s.Extends a b := by
  classical
  rw [above, Finset.mem_filter, and_iff_right_iff_imp]
  intro h
  obtain ⟨_, -, hlast⟩ := Relation.TransGen.tail'_iff.1 h
  exact List.mem_toFinset.2 (List.mem_map.2 ⟨_, hlast, rfl⟩)

/-- Every link leads to a name with fewer names above it. -/
theorem card_above_lt (hacyclic : s.Acyclic) {a b : Text} (h : Relation.TransGen s.Extends a b) :
    (s.above b).card < (s.above a).card := by
  refine Finset.card_lt_card (Finset.ssubset_iff_of_subset ?_ |>.2 ⟨b, ?_, ?_⟩)
  · exact fun c hc => mem_above_iff.2 (h.trans (mem_above_iff.1 hc))
  · exact mem_above_iff.2 h
  · exact fun hb => hacyclic b (mem_above_iff.1 hb)

/-- Where links do not run in a circle, twins of twins end at one that is kept. -/
theorem exists_kept_twin (hs : s.Named) (hacyclic : s.Acyclic) (hnames : s.NestedByName)
    {outer : Text} (hget : s.get? name = some c) (houter : c.enclosing? = some outer)
    (hfate : s.fate origins c = .duplicate) :
    ∃ ancestor kept, Relation.TransGen s.Extends outer ancestor ∧
      s.get? (ancestor ++ '$' :: c.simpleName) = some kept ∧ s.fate origins kept ≠ .duplicate ∧
      Relation.TransGen (s.LeadsTo origins outer c.simpleName) name
        (ancestor ++ '$' :: c.simpleName) := by
  -- the twin of a twin is nested in a class with fewer names above it
  induction hcard : (s.above outer).card using Nat.strong_induction_on
    generalizing name c outer with
  | _ n ih =>
    obtain ⟨outer', houter', ancestor, twin, hlinks, htwin, hshare⟩ :=
      of_fate_eq_duplicate hs hfate
    rw [houter] at houter'
    cases houter'
    rw [name_of_get? hs hget] at hshare
    have hleads : s.LeadsTo origins outer c.simpleName name (ancestor ++ '$' :: c.simpleName) :=
      ⟨hshare, ancestor, hlinks, rfl, by rw [htwin]; rfl⟩
    by_cases hdup : s.fate origins twin = .duplicate
    · have hsimple : twin.simpleName = c.simpleName := by
        rw [ClassDef.simpleName, name_of_get? hs htwin]
        exact simpleNameOf_append ancestor c.name
      have hancestor : twin.enclosing? = some ancestor := by
        obtain ⟨o, ho, -⟩ := of_fate_eq_duplicate hs hdup
        have heq := hnames twin (mem_values_iff.2 ⟨_, htwin⟩) o ho
        rw [name_of_get? hs htwin, hsimple] at heq
        rw [ho, List.append_cancel_right heq]
      obtain ⟨further, kept, hfurther, hkept, hfate', hchain⟩ :=
        ih _ (hcard ▸ card_above_lt hacyclic hlinks) htwin hancestor hdup rfl
      rw [hsimple] at hkept hchain
      have hlift : ∀ a b, s.LeadsTo origins ancestor c.simpleName a b →
          s.LeadsTo origins outer c.simpleName a b := by
        rintro a b ⟨hab, above, habove, heq, hsome⟩
        exact ⟨hab, above, hlinks.trans habove, heq, hsome⟩
      exact ⟨further, kept, hlinks.trans hfurther, hkept, hfate',
        .head hleads (Relation.TransGen.mono hlift _ _ hchain)⟩
    · exact ⟨ancestor, twin, hlinks, htwin, hdup, .single hleads⟩

end Snapshot

namespace Merge

/-- The returned classes are the merged ones that are no duplicates, with their references. -/
theorem exists_of_get?_snapshot {settings : Settings} {participants : List Snapshot}
    {name : Text} {c : ClassDef} (h : (merge settings participants).snapshot.get? name = some c) :
    ∃ merged refs, (unreconciled settings participants).get? name = some merged ∧
      refs = (unreconciled settings participants).references
        (origins participants ((mergedClasses settings participants).value.map (·.1))) name ∧
      c = { merged with nested := merged.nested ++ refs } := by
  rw [snapshot_merge, Snapshot.get?_registerNested (named_unreconciled settings participants)] at h
  obtain ⟨merged, hmerged, hc⟩ := Option.bind_eq_some_iff.1 h
  refine ⟨merged, _, hmerged, rfl, ?_⟩
  split at hc
  next => cases hc
  next => exact (Option.some.inj hc).symm

/-- Some participant defines both classes. -/
def Common (participants : List Snapshot) (a b : Text) : Prop :=
  ∃ p ∈ participants, p.contains a = true ∧ p.contains b = true

instance (participants : List Snapshot) (a b : Text) : Decidable (Common participants a b) :=
  inferInstanceAs (Decidable (∃ p ∈ participants, p.contains a = true ∧ p.contains b = true))

theorem exists_of_mem_origins {participants : List Snapshot} {names : List Text} {name : Text}
    {i : Nat} (h : i ∈ (origins participants names).of name) :
    ∃ p, participants[i]? = some p ∧ p.contains name = true := by
  rw [Origins.of] at h
  rcases hget : (origins participants names).get? name with _ | ids
  · rw [hget] at h
    cases h
  · obtain ⟨name', -, heq⟩ := List.mem_map.1 (SortedMap.of_get?_ofList hget)
    cases heq
    rw [hget, Option.getD_some] at h
    have hcontains := (List.mem_filter.1 h).2
    rcases hp : participants[i]? with _ | p
    · rw [hp] at hcontains
      cases hcontains
    · rw [hp] at hcontains
      exact ⟨p, rfl, hcontains⟩

theorem common_of_share {participants : List Snapshot} {names : List Text} {a b : Text}
    (h : (origins participants names).share a b = true) : Common participants a b := by
  obtain ⟨i, ha, hb⟩ := List.any_eq_true.1 h
  obtain ⟨p, hp, hpa⟩ := exists_of_mem_origins ha
  obtain ⟨q, hq, hqb⟩ := exists_of_mem_origins (of_decide_eq_true hb)
  rw [hp] at hq
  cases hq
  exact ⟨p, List.mem_of_getElem? hp, hpa, hqb⟩

/-- A class of a simple name, before duplicates are removed, that is nested in a class that
superclass links lead to. -/
def Candidate (settings : Settings) (participants : List Snapshot) (outer simple twin : Text) :
    Prop :=
  (unreconciled settings participants).Provides (unreconciled settings participants) outer simple
    twin

/-- A class has a participant in common with every candidate that has one in common with such a
candidate. -/
def HandsOn (participants : List Snapshot) (candidate : Text → Prop) (name : Text) : Prop :=
  ∀ a b, candidate a → candidate b → Common participants name a → Common participants a b →
    Common participants name b

/-- Along a row of classes, participants in common are handed on, if they are from each to the
next. -/
theorem HandsOn.common {participants : List Snapshot} {candidate : Text → Prop} {name twin : Text}
    (h : HandsOn participants candidate name)
    (hrow : Relation.TransGen (fun a b => Common participants a b ∧ candidate b) name twin) :
    Common participants name twin := by
  have hboth : Common participants name twin ∧ candidate twin := by
    induction hrow with
    | single hfirst => exact hfirst
    | tail _ hnext ih => exact ⟨h _ _ ih.2 hnext.2 ih.1 hnext.1, hnext.2⟩
  exact hboth.1

/-- A nested class that is removed had a twin in a superclass of the class around it, and some
participant defines both. Where superclass links do not run in a circle and nested classes are named
by the classes around them, another class of that simple name is left in a superclass, to which a
row of such classes leads, any two neighbours of which are defined by one participant. Some
participant defines it and the removed class, if participants in common are handed on along such a
row. -/
theorem removed_nested_class {settings : Settings} {participants : List Snapshot} {name : Text}
    {c : ClassDef} (hbefore : (unreconciled settings participants).get? name = some c)
    (hafter : (merge settings participants).snapshot.get? name = none) :
    ∃ outer, c.enclosing? = some outer ∧
      (∃ twin, Candidate settings participants outer c.simpleName twin ∧
        Common participants name twin) ∧
      ((unreconciled settings participants).Acyclic →
        (unreconciled settings participants).NestedByName →
        ∃ twin, twin ≠ name ∧ (unreconciled settings participants).Provides
            (merge settings participants).snapshot outer c.simpleName twin ∧
          Relation.TransGen (fun a b => Common participants a b ∧
            Candidate settings participants outer c.simpleName b) name twin ∧
          (HandsOn participants (Candidate settings participants outer c.simpleName) name →
            Common participants name twin)) := by
  have hs := named_unreconciled settings participants
  unfold Candidate
  rw [snapshot_merge] at hafter ⊢
  generalize unreconciled settings participants = s at hbefore hafter hs ⊢
  generalize (mergedClasses settings participants).value.map (·.1) = names at hafter ⊢
  have hname := Snapshot.name_of_get? hs hbefore
  have hfate : s.fate (origins participants names) c = .duplicate := by
    by_cases hfate : s.fate (origins participants names) c = .duplicate
    · exact hfate
    · have hkept := (Snapshot.isSome_get?_registerNested_iff hs).2 ⟨c, hbefore, hfate⟩
      rw [hafter] at hkept
      cases hkept
  obtain ⟨outer, houter, ancestor, twin, hlinks, htwin, hshare⟩ :=
    Snapshot.of_fate_eq_duplicate hs hfate
  refine ⟨outer, houter, ?_, fun hacyclic hnames => ?_⟩
  · rw [hname] at hshare
    exact ⟨_, ⟨ancestor, hlinks, rfl, by rw [htwin]; rfl⟩, common_of_share hshare⟩
  · obtain ⟨ancestor, kept, hlinks, hget, hkept, hleads⟩ :=
      Snapshot.exists_kept_twin hs hacyclic hnames hbefore houter hfate
    have hne : ancestor ++ '$' :: c.simpleName ≠ name := by
      intro heq
      have hnamed := hnames c (Snapshot.mem_values_iff.2 ⟨name, hbefore⟩) outer houter
      rw [hname, ← heq] at hnamed
      exact hacyclic outer (List.append_cancel_right hnamed ▸ hlinks)
    have hleft := (Snapshot.isSome_get?_registerNested_iff hs).2 ⟨kept, hget, hkept⟩
    have hrow : Relation.TransGen (fun a b => Common participants a b ∧
        s.Provides s outer c.simpleName b) name (ancestor ++ '$' :: c.simpleName) :=
      Relation.TransGen.mono (r := s.LeadsTo (origins participants names) outer c.simpleName)
        (fun _ _ h => ⟨common_of_share h.1, h.2⟩) _ _ hleads
    exact ⟨_, hne, ⟨ancestor, hlinks, rfl, hleft⟩, hrow, fun hhands => hhands.common hrow⟩

/-- A single participant hands on everything. -/
theorem handsOn_singleton (p : Snapshot) (candidate : Text → Prop) (name : Text) :
    HandsOn [p] candidate name := by
  rintro a b - - ⟨q, hq, hname, -⟩ ⟨q', hq', -, hb⟩
  obtain rfl := List.mem_singleton.1 hq
  obtain rfl := List.mem_singleton.1 hq'
  exact ⟨q', hq', hname, hb⟩

/-- Classes with at most a superclass. -/
def classesExtending (l : List (String × Option String)) : Snapshot :=
  .ofClasses (l.map fun e =>
    { ClassDef.ofName e.1.toList with
      superclass := e.2.map fun m => .typeRef .superclass m.toList })

/-- A source with three classes, each of which extends the one before it and has a nested class `I`
that it does not list. -/
def layers : Snapshot :=
  classesExtending [("a.A", none), ("a.A$I", none), ("a.B", some "a.A"), ("a.B$I", none),
    ("a.C", some "a.B"), ("a.C$I", none)]

/-- The last nested class leads to the one that is left in two steps. -/
theorem layered_nested_class :
    (∃ c, (unreconciled {} [layers]).get? "a.C$I".toList = some c) ∧
      (merge {} [layers]).snapshot.get? "a.C$I".toList = none ∧
      (unreconciled {} [layers]).Acyclic ∧ (unreconciled {} [layers]).NestedByName ∧
      ∃ twin, twin ≠ "a.C$I".toList ∧ Common [layers] "a.C$I".toList twin ∧
        (unreconciled {} [layers]).Provides (merge {} [layers]).snapshot "a.C".toList "I".toList
          twin := by
  have hbefore : (unreconciled {} [layers]).get? "a.C$I".toList =
      some (ClassDef.ofName "a.C$I".toList) := by decide +kernel
  have hafter : (merge {} [layers]).snapshot.get? "a.C$I".toList = none := by decide +kernel
  have hacyclic : (unreconciled {} [layers]).Acyclic :=
    Snapshot.acyclic_of_rank (fun t => (t.map Char.toNat).sum) (by decide +kernel)
  have hnames : (unreconciled {} [layers]).NestedByName := by decide +kernel
  obtain ⟨outer, houter, -, hleft⟩ := removed_nested_class hbefore hafter
  obtain rfl : outer = "a.C".toList := Option.some.inj (houter.symm.trans (by decide))
  obtain ⟨twin, hne, hprovides, -, hcommon⟩ := hleft hacyclic hnames
  exact ⟨⟨_, hbefore⟩, hafter, hacyclic, hnames, twin, hne,
    hcommon (handsOn_singleton layers _ _), hprovides⟩

/-- Two sources that share a class in the middle of a hierarchy. Each class has a nested class `I`,
and none lists it. -/
def overlappingSources : List Snapshot :=
  [classesExtending [("a.B", some "a.A"), ("a.B$I", none), ("a.C", some "a.B"), ("a.C$I", none)],
    classesExtending [("a.A", none), ("a.A$I", none), ("a.B", some "a.A"), ("a.B$I", none)]]

/-- No class of the same simple name is left that a source defines together with the removed one. -/
theorem overlapping_nested_class_lost :
    (merge {} overlappingSources).snapshot.get? "a.C$I".toList = none ∧
      ¬ ∃ twin, twin ≠ "a.C$I".toList ∧ Common overlappingSources "a.C$I".toList twin ∧
        (unreconciled {} overlappingSources).Provides (merge {} overlappingSources).snapshot
          "a.C".toList "I".toList twin := by
  refine ⟨by decide +kernel, ?_⟩
  rintro ⟨twin, -, hcommon, ancestor, -, rfl, hsome⟩
  have hkeys : ∀ k ∈ (merge {} overlappingSources).snapshot.keys,
      Common overlappingSources "a.C$I".toList k → ¬ "$I".toList <:+ k := by decide +kernel
  exact hkeys _ (SortedMap.mem_keys_iff.2 hsome) hcommon (List.suffix_append ancestor _)

end Merge

end ApiSurface
