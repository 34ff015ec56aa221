import ApiSurface.Proofs.Merge.DroppedClasses
import ApiSurface.Proofs.Merge.Order

/-!
# Erased signatures that collide

Erased signatures are compared when the definitions of a class have become one class. What
reconciling nested classes does to the class later leaves its own members and its generics
declaration alone, so what was reported about it is true of the class that is returned: each own
member that is not the first of its kind and erased signature has one conflict
(`collisionsReported`).
-/

namespace ApiSurface

open Finding

namespace Conflict

/-- The erased signature that comes up again in a class, according to a conflict. -/
def collision? (name : Text) : Conflict → Option Text
  | erasureCollision className signature => if className = name then some signature else none
  | _ => none

/-- The erased signatures that come up again in a class, according to a log. -/
def collidingSignatures (name : Text) (log : List Conflict) : List Text :=
  log.filterMap (collision? name)

variable {name : Text}

@[simp] theorem collidingSignatures_append (l₁ l₂ : List Conflict) :
    collidingSignatures name (l₁ ++ l₂) =
      collidingSignatures name l₁ ++ collidingSignatures name l₂ := List.filterMap_append

theorem collidingSignatures_flatMap {α : Type _} (f : α → List Conflict) (l : List α) :
    collidingSignatures name (l.flatMap f) = l.flatMap fun a => collidingSignatures name (f a) :=
  List.filterMap_flatMap

theorem collision?_of_member? (c : Conflict) (h : c.member? ≠ none) : c.collision? name = none := by
  cases c with
  | erasureCollision => exact absurd rfl h
  | _ => rfl

theorem collision?_of_droppedClass? (c : Conflict) (h : c.droppedClass? ≠ none) :
    c.collision? name = none := by
  cases c with
  | erasureCollision => exact absurd rfl h
  | _ => rfl

theorem collidingSignatures_packageCollisions (s : Snapshot) :
    collidingSignatures name (Merge.packageCollisions s) = [] := by
  rw [Merge.packageCollisions, collidingSignatures, List.filterMap_map]
  exact List.filterMap_eq_nil_iff.2 fun _ _ => rfl

end Conflict

open Conflict

namespace ClassDef

variable {policy : UnboundPolicy} {c : ClassDef}

/-- The kinds and fully erased signatures of the own members of a class. -/
def erasedSignatures (policy : UnboundPolicy) (c : ClassDef) : List (Kind × Text) :=
  (c.fullErasure policy).value.signatures

theorem length_erasedSignatures (policy : UnboundPolicy) (c : ClassDef) :
    (c.erasedSignatures policy).length = c.ownMembers.length := by
  rw [erasedSignatures, signatures_fullErasure, List.length_map]

/-- References to nested classes have no part in the signatures of own members. -/
theorem erasedSignatures_withNested (policy : UnboundPolicy) (c : ClassDef)
    (nested : List Member) :
    ({ c with nested } : ClassDef).erasedSignatures policy = c.erasedSignatures policy := by
  rw [erasedSignatures, erasedSignatures, signatures_fullErasure, signatures_fullErasure]
  rfl

/-- The report on a class names each of its signatures that comes up again. -/
theorem collidingSignatures_collisions (policy : UnboundPolicy) (c : ClassDef) :
    collidingSignatures c.name (c.collisions policy) =
      (repeats [] (c.erasedSignatures policy)).map (·.2) := by
  have hsome : (collision? c.name ∘ fun k : Kind × Text => erasureCollision c.name k.2) =
      some ∘ (·.2) := funext fun _ => if_pos rfl
  rw [collisions, collidingSignatures, List.filterMap_map, hsome, List.filterMap_eq_map]
  rfl

theorem collidingSignatures_collisions_of_ne {name : Text} (h : c.name ≠ name) :
    collidingSignatures name (c.collisions policy) = [] := by
  rw [collisions, collidingSignatures, List.filterMap_map]
  exact List.filterMap_eq_nil_iff.2 fun _ _ => if_neg h

end ClassDef

section Definitions

variable {settings : Settings} {participants : List Snapshot} {name : Text}

/-- The definitions of another name have nothing to say about the signatures of a class. -/
theorem collidingSignatures_mergeClass_of_ne (hnamed : ∀ p ∈ participants, p.Named) {other : Text}
    (hne : other ≠ name) :
    collidingSignatures name (conflicts (mergeClass settings participants other).log) = [] := by
  rw [collidingSignatures, filterMap_mergeClass collision?_of_member? collision?_of_droppedClass?]
  split
  next =>
    refine List.flatMap_eq_nil_iff.2 fun merged hmerged => ?_
    have hname : merged.name = other :=
      name_of_mergeClass (fun _ => name_of_mem_definitions hnamed) (Option.mem_toList.1 hmerged)
    exact ClassDef.collidingSignatures_collisions_of_ne (hname ▸ hne)
  next => rfl

/-- Several definitions that become one class report its signatures that come up again. -/
theorem collidingSignatures_mergeClass (hnamed : ∀ p ∈ participants, p.Named)
    (hseveral : 2 ≤ (definitions participants name).length) {merged : ClassDef}
    (hmerged : (mergeClass settings participants name).value = some merged) :
    collidingSignatures name (conflicts (mergeClass settings participants name).log) =
      (repeats [] (merged.erasedSignatures settings.unboundPolicy)).map (·.2) := by
  have hname : merged.name = name :=
    name_of_mergeClass (fun _ => name_of_mem_definitions hnamed) hmerged
  rw [collidingSignatures, filterMap_mergeClass collision?_of_member? collision?_of_droppedClass?,
    if_pos hseveral, hmerged, Option.toList_some, List.flatMap_singleton, ← hname]
  exact ClassDef.collidingSignatures_collisions settings.unboundPolicy merged

end Definitions

namespace Merge

variable {settings : Settings} {participants : List Snapshot} {name : Text} {c : ClassDef}

theorem length_definitions (participants : List Snapshot) (name : Text) :
    (definitions participants name).length = participants.countP (·.contains name) :=
  List.length_filterMap_eq_countP

/-- A class that two or more participants define is returned with the signatures that the conflicts
of the merge name as coming up again. -/
theorem collidingSignatures_merge (hnamed : ∀ p ∈ participants, p.Named)
    (hseveral : 2 ≤ participants.countP (·.contains name))
    (hget : (merge settings participants).snapshot.get? name = some c) :
    collidingSignatures name (merge settings participants).conflicts =
      (repeats [] (c.erasedSignatures settings.unboundPolicy)).map (·.2) := by
  obtain ⟨merged, refs, hmerged, rfl⟩ := get?_merge_of_named hnamed hget
  rw [← length_definitions] at hseveral
  have hne : definitions participants name ≠ [] := List.ne_nil_of_length_pos (by omega)
  have hmem : name ∈ classNames participants :=
    mem_classNames_iff.2 (definitions_ne_nil_iff.1 hne)
  rw [conflicts_merge, collidingSignatures_append, collidingSignatures_packageCollisions,
    List.append_nil, collidingSignatures_flatMap,
    flatMap_eq_of_nodup (nodup_classNames participants) hmem
      fun _ _ hother => collidingSignatures_mergeClass_of_ne hnamed hother,
    collidingSignatures_mergeClass hnamed hseveral hmerged,
    ClassDef.erasedSignatures_withNested settings.unboundPolicy merged (merged.nested ++ refs)]

/-- What the conflicts of a merge say about the erased signatures of a class. -/
structure CollisionsReported (policy : UnboundPolicy) (report : Report) (c : ClassDef) : Prop where
  /-- There are as many conflicts as own members beyond the distinct pairs of a kind and an erased
  signature. -/
  count : (collidingSignatures c.name report.conflicts).length +
    (c.erasedSignatures policy).toFinset.card = c.ownMembers.length
  /-- Each is about a signature that two or more members of one kind have. -/
  repeated : ∀ signature ∈ collidingSignatures c.name report.conflicts,
    ∃ kind, 2 ≤ (c.erasedSignatures policy).count (kind, signature)
  /-- Every such signature is reported. -/
  reported : ∀ kind signature, 2 ≤ (c.erasedSignatures policy).count (kind, signature) →
    signature ∈ collidingSignatures c.name report.conflicts
  /-- Without conflicts no two members of one kind have the same signature. -/
  distinct : report.conflicts = [] → (c.erasedSignatures policy).Nodup

/-- Erased signatures that collide in a class with two or more definitions are reported, and no
others, where participants list classes under their names. -/
theorem collisionsReported (settings : Settings) {participants : List Snapshot} {name : Text}
    {c : ClassDef} (hnamed : ∀ p ∈ participants, p.Named)
    (hseveral : 2 ≤ participants.countP (·.contains name))
    (hget : (merge settings participants).snapshot.get? name = some c) :
    CollisionsReported settings.unboundPolicy (merge settings participants) c := by
  have hname : c.name = name := by
    obtain ⟨_, merged, _, -, hname, rfl⟩ := exists_of_get?_merge hget
    exact hname
  have hexact := collidingSignatures_merge hnamed hseveral hget
  rw [← hname] at hexact
  have hmem : ∀ signature, signature ∈ collidingSignatures c.name
        (merge settings participants).conflicts ↔
      ∃ kind, 2 ≤ (c.erasedSignatures settings.unboundPolicy).count (kind, signature) := by
    intro signature
    rw [hexact, List.mem_map]
    simp only [mem_repeats_iff, Prod.exists, exists_eq_right]
  refine ⟨?count, fun signature => (hmem signature).1,
    fun kind signature h => (hmem signature).2 ⟨kind, h⟩, fun hnone => ?distinct⟩
  case count =>
    rw [hexact, List.length_map, length_repeats, ClassDef.length_erasedSignatures]
  case distinct =>
    have hnil : repeats [] (c.erasedSignatures settings.unboundPolicy) = [] := by
      rw [hnone] at hexact
      exact List.map_eq_nil_iff.1 hexact.symm
    exact (repeats_eq_nil_iff.1 hnil).1

/-- Three sources of a class with a method that takes one argument. -/
def sinks : List Snapshot :=
  ["a.List<a.A>", "a.List<a.B>", "a.A"].map fun args =>
    .ofClasses [{ ClassDef.ofName "a.Sink".toList with
      methods := [{
        kind := .method, declaring := "a.Sink".toList, name := "take".toList
        typeName := "void".toList, args := args.toList }] }]

/-- Of three overloads two have the same erased signature, and it is reported once. -/
theorem collisionsReported_sinks :
    ∃ c, (merge {} sinks).snapshot.get? "a.Sink".toList = some c ∧ c.ownMembers.length = 3 ∧
      (c.erasedSignatures .unresolved).toFinset.card = 2 ∧
      (collidingSignatures c.name (merge {} sinks).conflicts).length = 1 := by
  obtain ⟨c, hget⟩ : ∃ c, (merge {} sinks).snapshot.get? "a.Sink".toList = some c :=
    Option.isSome_iff_exists.1 (by decide +kernel)
  have hcount : (collidingSignatures c.name (merge {} sinks).conflicts).length +
      (c.erasedSignatures .unresolved).toFinset.card = c.ownMembers.length :=
    (collisionsReported {} (by decide +kernel) (by decide +kernel) hget).count
  have hc : ∀ c ∈ (merge {} sinks).snapshot.get? "a.Sink".toList,
      c.ownMembers.length = 3 ∧ (c.erasedSignatures .unresolved).toFinset.card = 2 := by
    decide +kernel
  obtain ⟨hmembers, hdistinct⟩ := hc c hget
  exact ⟨c, hget, hmembers, hdistinct, by omega⟩

end Merge

end ApiSurface
