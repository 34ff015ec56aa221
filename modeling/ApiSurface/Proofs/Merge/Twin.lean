import ApiSurface.Proofs.Merge.Nested
import Mathlib.Data.List.Chain
import Mathlib.Data.List.Perm.Subperm

/-!
# The nearest twin

From every class superclass links lead through one list of names (`Snapshot.Lineage`). It ends where
a class has no superclass or is missing, or where a name comes up again. The search for a twin goes
from class to class in rounds. No name is visited twice, so rounds end from wherever they start
(`wellFounded_round`), and the names visited are the first ones of the list (`Arrived`). Where no
round follows, the next name has a twin or the list is at its end. So the twin that is found is that
of the first name that has one (`inheritedTwin?_nearest`). Links in a circle may lead to the class
itself, and a name for which there is no class may have a twin all the same.
-/

namespace ApiSurface

namespace Snapshot

open Relation (ReflTransGen)

variable {s : Snapshot} {outer c : ClassDef} {names names' visited rest : List Text}
  {simple : Text}

/-! ### Lineages -/

/-- The class of one name has the other one for the name of its superclass. -/
def Follows (s : Snapshot) (a b : Text) : Prop :=
  ((s.get? a).bind fun c => c.superclass.map (·.name)) = some b

theorem Follows.unique {a b b' : Text} (h : s.Follows a b) (h' : s.Follows a b') : b = b' :=
  Option.some.inj (h.symm.trans h')

/-- Names that are met one after the other on the way up. -/
structure Met (s : Snapshot) (names : List Text) : Prop where
  /-- Each one has the next one for its superclass. -/
  next : names.IsChain s.Follows
  /-- None comes up twice. -/
  nodup : names.Nodup

/-- All names that are met from a class on, the nearest first, as long as there is a class for a
name and no name comes up again. -/
structure Lineage (s : Snapshot) (outer : ClassDef) (names : List Text) : Prop
    extends s.Met names where
  /-- The first one is the superclass of the class. -/
  first : names.head? = outer.superclass.map (·.name)
  /-- The last one has no superclass or is missing, or its superclass was met before. -/
  last : ∀ a ∈ names.getLast?, ∀ b, s.Follows a b → b ∈ names

/-- There is a class for every name but the last. -/
theorem mem_keys_of_mem_dropLast (hnext : names.IsChain s.Follows) :
    ∀ a ∈ names.dropLast, a ∈ s.keys := by
  induction hnext with
  | nil => exact fun _ h => nomatch h
  | singleton => exact fun _ h => nomatch h
  | @cons_cons a b l hab _ ih =>
    rw [List.dropLast_cons_cons, List.forall_mem_cons]
    obtain ⟨c, hget, -⟩ := Option.bind_eq_some_iff.1 hab
    exact ⟨SortedMap.mem_keys_iff.2 (by rw [hget]; rfl), ih⟩

/-- At most one name more is met than there are classes. -/
theorem Met.length_le (h : s.Met names) : names.length ≤ s.keys.length + 1 := by
  have hknown : names.dropLast.Subperm s.keys :=
    (h.nodup.sublist names.dropLast_sublist).subperm (mem_keys_of_mem_dropLast h.next)
  have hlength := hknown.length_le
  rw [List.length_dropLast] at hlength
  omega

/-- A new name behind the last one is met. -/
theorem Met.concat (h : s.Met names) {a b : Text} (ha : a ∈ names.getLast?) (hab : s.Follows a b)
    (hnew : b ∉ names) : s.Met (names ++ [b]) where
  next := by
    refine h.next.append (.singleton b) fun x hx y hy => ?_
    cases Option.mem_unique ha hx
    cases hy
    exact hab
  nodup := List.concat_eq_append ▸ h.nodup.concat hnew

/-- Names that are met go on to a last one, behind which no new name is met. -/
theorem Met.exists_last (h : s.Met names) : ∃ more, s.Met (names ++ more) ∧
    ∀ a ∈ (names ++ more).getLast?, ∀ b, s.Follows a b → b ∈ names ++ more := by
  -- there are only so many names that can be met
  induction hleft : s.keys.length + 1 - names.length using Nat.strong_induction_on
    generalizing names with
  | _ n ih =>
    by_cases hlast : ∀ a ∈ names.getLast?, ∀ b, s.Follows a b → b ∈ names
    · exact ⟨[], by rwa [List.append_nil], by rwa [List.append_nil]⟩
    · push Not at hlast
      obtain ⟨a, ha, b, hab, hnew⟩ := hlast
      have hmet := h.concat ha hab hnew
      have hfewer : s.keys.length + 1 - (names ++ [b]).length < n := by
        have hbound := hmet.length_le
        rw [List.length_append, List.length_singleton] at hbound ⊢
        omega
      obtain ⟨more, hmore⟩ := ih _ hfewer hmet rfl
      rw [List.append_assoc] at hmore
      exact ⟨[b] ++ more, hmore⟩

/-- From every class there is a way up to a last name. -/
theorem exists_lineage (s : Snapshot) (outer : ClassDef) : ∃ names, s.Lineage outer names := by
  rcases hsuper : outer.superclass with _ | m
  · exact ⟨[], ⟨.nil, .nil⟩, by rw [hsuper]; rfl, fun _ h => nomatch h⟩
  · have hfirst : s.Met [m.name] := ⟨.singleton m.name, List.nodup_singleton m.name⟩
    obtain ⟨more, hmet, hlast⟩ := hfirst.exists_last
    exact ⟨m.name :: more, hmet, by rw [hsuper]; rfl, hlast⟩

/-- Of two ways up that begin alike, one is the beginning of the other. -/
theorem isPrefix_total_of_isChain (h : names.IsChain s.Follows) (h' : names'.IsChain s.Follows)
    (hhead : names.head? = names'.head?) : names <+: names' ∨ names' <+: names := by
  induction h generalizing names' with
  | nil => exact .inl names'.nil_prefix
  | singleton a =>
    obtain ⟨more, rfl⟩ := List.head?_eq_some_iff.1 hhead.symm
    exact .inl ⟨more, rfl⟩
  | @cons_cons a b l hab _ ih =>
    obtain ⟨_ | ⟨b', more⟩, rfl⟩ := List.head?_eq_some_iff.1 hhead.symm
    · exact .inr ⟨b :: l, rfl⟩
    · obtain ⟨hab', htail⟩ := List.isChain_cons_cons.1 h'
      obtain rfl := hab.unique hab'
      exact (ih htail rfl).imp (List.prefix_cons_inj a).2 (List.prefix_cons_inj a).2

/-- No lineage goes on behind the end of another one. -/
theorem Lineage.eq_of_isPrefix (h : s.Lineage outer names) (h' : s.Lineage outer names')
    (hbegin : names <+: names') : names = names' := by
  obtain ⟨_ | ⟨b, more⟩, rfl⟩ := hbegin
  · exact (List.append_nil names).symm
  · obtain ⟨-, -, hseam⟩ := List.isChain_append.1 h'.next
    rcases hlast : names.getLast? with _ | a
    · rw [List.getLast?_eq_none_iff] at hlast
      subst hlast
      exact nomatch h.first.trans h'.first.symm
    · have hmem : b ∈ names := h.last a hlast b (hseam a hlast b rfl)
      exact absurd rfl ((List.nodup_append.1 h'.nodup).2.2 b hmem b List.mem_cons_self)

/-- From a class there is one way up only. -/
theorem Lineage.unique (h : s.Lineage outer names) (h' : s.Lineage outer names') :
    names' = names := by
  rcases isPrefix_total_of_isChain h.next h'.next (h.first.trans h'.first.symm) with hb | hb
  · exact (h.eq_of_isPrefix h' hb).symm
  · exact h'.eq_of_isPrefix h hb

/-! ### Rounds of the search -/

/-- The search goes on from a class, with some names visited, to the class of the next name, if that
is in the snapshot and no twin is nested in it. -/
inductive Round (s : Snapshot) (simple : Text) :
    List Text × ClassDef → List Text × ClassDef → Prop where
  /-- The next name is visited. -/
  | visit {visited : List Text} {c next : ClassDef} {a : Text} (hnext : nextName? visited c = some a)
      (hnone : s.get? (a ++ '$' :: simple) = none) (hget : s.get? a = some next) :
      Round s simple (visited, c) (a :: visited, next)

/-- Every round leaves fewer names to be visited. -/
theorem wellFounded_round (s : Snapshot) (simple : Text) :
    WellFounded fun t' t => s.Round simple t t' := by
  refine Subrelation.wf (fun {t' t} hround => ?_)
    (measure fun t : List Text × ClassDef => (s.unvisited t.1).length).wf
  cases hround with
  | visit hnext _ hget =>
    exact length_unvisited_cons_lt (SortedMap.mem_keys_iff.2 (by rw [hget]; rfl))
      (not_mem_of_nextName? hnext)

/-! ### The names that are visited -/

/-- The class of the name visited last, or the one that the search began with. -/
def current? (s : Snapshot) (outer : ClassDef) : List Text → Option ClassDef
  | [] => some outer
  | a :: _ => s.get? a

/-- Where the search is after some rounds. -/
structure Arrived (s : Snapshot) (outer : ClassDef) (names : List Text) (simple : Text)
    (t : List Text × ClassDef) : Prop where
  /-- The names visited are the first ones of a list, the last of them in front. -/
  beginning : t.1.reverse <+: names
  /-- The class is that of the name visited last. -/
  current : s.current? outer t.1 = some t.2
  /-- No name visited has a twin. -/
  none_of_mem : ∀ a ∈ t.1, s.get? (a ++ '$' :: simple) = none
  /-- What is found is what is found from this class on. -/
  found : s.inheritedTwin? outer simple = s.twinFrom? simple t.1 t.2

/-- The search begins with no names visited. -/
theorem arrived_start (s : Snapshot) (outer : ClassDef) (names : List Text) (simple : Text) :
    s.Arrived outer names simple ([], outer) where
  beginning := names.nil_prefix
  current := rfl
  none_of_mem := fun _ h => nomatch h
  found := rfl

/-- The next name is the next one of the lineage. -/
theorem Lineage.nextName?_eq (h : s.Lineage outer (visited.reverse ++ rest))
    (hc : s.current? outer visited = some c) : nextName? visited c = rest.head? := by
  rw [nextName?]
  rcases visited with _ | ⟨a, visited⟩
  · obtain rfl : outer = c := Option.some.inj hc
    rw [← h.first, List.reverse_nil, List.nil_append]
    cases rest.head? <;> rfl
  · have hget : s.get? a = some c := hc
    have hfollows : ∀ b, s.Follows a b ↔ c.superclass.map (·.name) = some b := by
      intro b
      rw [Follows, hget, Option.bind_some]
    have hlast : a ∈ (a :: visited).reverse.getLast? := by simp
    rcases rest with _ | ⟨b, rest⟩
    · rw [List.append_nil] at h
      refine Option.filter_eq_none_iff.2 fun b hb => ?_
      have hmet : b ∈ a :: visited := List.mem_reverse.1 (h.last a hlast b ((hfollows b).2 hb))
      exact fun hnew => of_decide_eq_true hnew hmet
    · obtain ⟨-, -, hseam⟩ := List.isChain_append.1 h.next
      have hnew : b ∉ a :: visited := fun hmet =>
        (List.nodup_append.1 h.nodup).2.2 b (List.mem_reverse.2 hmet) b List.mem_cons_self rfl
      rw [(hfollows b).1 (hseam a hlast b rfl), Option.filter_some, if_pos (by simpa using hnew)]
      rfl

/-- A round visits the next name of a lineage. -/
theorem Arrived.round (h : s.Lineage outer names) {t t' : List Text × ClassDef}
    (ht : s.Arrived outer names simple t) (hround : s.Round simple t t') :
    s.Arrived outer names simple t' := by
  cases hround with
  | @visit visited c next a hnext hnone hget =>
    obtain ⟨rest, rfl⟩ := ht.beginning
    have hhead := (h.nextName?_eq ht.current).symm.trans hnext
    obtain ⟨more, rfl⟩ := List.head?_eq_some_iff.1 hhead
    refine ⟨⟨more, by simp⟩, hget, List.forall_mem_cons.2 ⟨hnone, ht.none_of_mem⟩, ?_⟩
    rw [ht.found, twinFrom?_eq, hnext, Option.bind_some, hnone, Option.none_or, hget,
      Option.bind_some]

/-- After any number of rounds the first names of a lineage are visited. -/
theorem arrived_of_rounds (h : s.Lineage outer names) {t : List Text × ClassDef}
    (hreach : ReflTransGen (s.Round simple) ([], outer) t) : s.Arrived outer names simple t := by
  induction hreach with
  | refl => exact arrived_start s outer names simple
  | tail _ hround ih => exact ih.round h hround

/-- Where no round follows, the next name has a twin, or it is the last one. -/
theorem Arrived.findSome?_eq_of_last (h : s.Lineage outer names) {t : List Text × ClassDef}
    (ht : s.Arrived outer names simple t) (hlast : ∀ t', ¬ s.Round simple t t') :
    s.inheritedTwin? outer simple = names.findSome? fun a => s.get? (a ++ '$' :: simple) := by
  obtain ⟨visited, c⟩ := t
  obtain ⟨rest, rfl⟩ := ht.beginning
  have hvisited : visited.reverse.findSome? (fun a => s.get? (a ++ '$' :: simple)) = none := by
    simpa using ht.none_of_mem
  have hnext := h.nextName?_eq ht.current
  rw [ht.found, twinFrom?_eq, hnext, List.findSome?_append, hvisited, Option.none_or]
  rcases rest with _ | ⟨a, rest⟩
  · rfl
  · rw [List.head?_cons, Option.bind_some, List.findSome?_cons]
    rcases htwin : s.get? (a ++ '$' :: simple) with _ | twin
    · have hmissing : s.get? a = none :=
        Option.eq_none_iff_forall_ne_some.2 fun _ hget => hlast _ (.visit hnext htwin hget)
      obtain rfl : rest = [] := by
        rcases rest with _ | ⟨b, rest⟩
        · rfl
        · have hfollows : s.Follows a b :=
            (List.isChain_cons_cons.1 h.next.right_of_append).1
          rw [Follows, hmissing] at hfollows
          cases hfollows
      rw [hmissing]
      rfl
    · rfl

/-- The search ends, and what it finds is the twin of the first name that has one. -/
theorem Arrived.findSome?_eq (h : s.Lineage outer names) {t : List Text × ClassDef}
    (ht : s.Arrived outer names simple t) :
    s.inheritedTwin? outer simple = names.findSome? fun a => s.get? (a ++ '$' :: simple) := by
  induction t using (wellFounded_round s simple).induction with
  | _ t ih =>
    by_cases hround : ∃ t', s.Round simple t t'
    · obtain ⟨t', hround⟩ := hround
      exact ih t' hround (ht.round h hround)
    · exact ht.findSome?_eq_of_last h (not_exists.1 hround)

/-- From every class there is one list of names that superclass links lead through, with at most one
name more than there are classes. Whatever the simple name, the search for a twin goes through the
list from its beginning, no run of rounds goes on for ever, and what is found in the end is the twin
of the first name on the list that has one. -/
theorem inheritedTwin?_nearest (s : Snapshot) (outer : ClassDef) :
    ∃ names, s.Lineage outer names ∧ (∀ names', s.Lineage outer names' → names' = names) ∧
      names.length ≤ s.keys.length + 1 ∧
      ∀ simple, (WellFounded fun t' t => s.Round simple t t') ∧
        (∀ t, ReflTransGen (s.Round simple) ([], outer) t →
          s.Arrived outer names simple t) ∧
        s.inheritedTwin? outer simple = names.findSome? fun a => s.get? (a ++ '$' :: simple) := by
  obtain ⟨names, h⟩ := exists_lineage s outer
  exact ⟨names, h, fun _ h' => h.unique h', h.length_le, fun simple =>
    ⟨wellFounded_round s simple, fun _ hreach => arrived_of_rounds h hreach,
      (arrived_start s outer names simple).findSome?_eq h⟩⟩

open Merge (classesExtending) in
/-- In a circle the twin may be nested in the class itself, and its superclass may be missing. -/
example : ∀ s ∈ [classesExtending [("a.A", some "a.B"), ("a.B", some "a.A"), ("a.A$I", none),
      ("a.C", some "a.D"), ("a.D$I", none)]],
    ((s.get? "a.A".toList).bind (s.inheritedTwin? · "I".toList)).map (·.name) =
        some "a.A$I".toList ∧
      ((s.get? "a.C".toList).bind (s.inheritedTwin? · "I".toList)).map (·.name) =
        some "a.D$I".toList := by
  decide +kernel

end Snapshot

end ApiSurface
