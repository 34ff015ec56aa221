import ApiSurface.NameTable
import ApiSurface.Snapshot

/-!
# Class hierarchies

The superclass links of a snapshot, from the name of a class to the name of its superclass, and
the question whether one class extends another. Links are kept between the numbers of the names.

Main statements: `links_ofSnapshot` says which names are linked, and `isSubclass_iff_path` that one
class is found to extend another exactly if a path of links leads to it.
-/

namespace ApiSurface

/-- The superclass links of one snapshot, between numbered names. -/
structure Hierarchy where
  /-- The names that extend others or are extended, with their numbers. -/
  index : NameTable := .empty
  /-- The links, each from the number of a class to that of its superclass. -/
  edges : List (Nat × Nat) := []
  /-- Links are between names of the index. -/
  inBounds : ∀ e ∈ edges, e.1 < index.size ∧ e.2 < index.size := by simp

namespace Hierarchy

/-- The hierarchy without links. -/
def empty : Hierarchy := {}

theorem inBounds_intern (h : Hierarchy) (sub super : Text) :
    ∀ e ∈ h.edges ++ [((h.index.intern sub).2, ((h.index.intern sub).1.intern super).2)],
      e.1 < ((h.index.enter sub).enter super).size ∧
        e.2 < ((h.index.enter sub).enter super).size := by
  have hsub := h.index.size_le_enter sub
  have hsuper := (h.index.enter sub).size_le_enter super
  refine List.forall_mem_append.2 ⟨fun e he => ?_, List.forall_mem_singleton.2 ⟨?_, ?_⟩⟩
  · have hbounds := h.inBounds e he
    omega
  · exact Nat.lt_of_lt_of_le (h.index.intern_lt sub) hsuper
  · exact (h.index.enter sub).intern_lt super

/-- The hierarchy with one link more. Its names are entered into the index, unless they are there
already. -/
def link (h : Hierarchy) (sub super : Text) : Hierarchy :=
  let withSub := h.index.intern sub
  let withBoth := withSub.1.intern super
  { index := withBoth.1
    edges := h.edges ++ [(withSub.2, withBoth.2)]
    inBounds := h.inBounds_intern sub super }

/-- The hierarchy with the link from a class to its superclass, if it has one. -/
def enterClass (h : Hierarchy) (c : ClassDef) : Hierarchy :=
  match c.superclass with
  | none => h
  | some m => h.link c.name m.name

/-- The superclass links of a snapshot, entered class by class. -/
def ofSnapshot (s : Snapshot) : Hierarchy := s.values.foldl enterClass empty

/-- The links by the names at their ends. -/
def links (h : Hierarchy) : List (Text × Text) :=
  h.edges.map fun e => (h.index.nameAt e.1, h.index.nameAt e.2)

/-- The number of names that extend another or are extended. -/
def nodeCount (h : Hierarchy) : Nat := h.index.size

/-! ### Paths -/

/-- There is a path of links, possibly empty, from one name to another. -/
inductive Path {α : Type} (links : List (α × α)) : α → α → Prop where
  /-- The empty path. -/
  | refl (a : α) : Path links a a
  /-- A path with one link more. -/
  | step {a b c : α} : Path links a b → (b, c) ∈ links → Path links a c

theorem Path.mono {α : Type} {links links' : List (α × α)} (h : ∀ e ∈ links, e ∈ links') {a b : α}
    (p : Path links a b) : Path links' a b := by
  induction p with
  | refl => exact .refl _
  | step _ hl ih => exact .step ih (h _ hl)

theorem Path.trans {α : Type} {links : List (α × α)} {a b c : α} (p : Path links a b)
    (q : Path links b c) : Path links a c := by
  induction q with
  | refl => exact p
  | step _ hl ih => exact .step ih hl

/-! ### The search for a path -/

section Search

variable {α : Type} [DecidableEq α]

/-- The links that start at one of the names. -/
def starting (seen : List α) (links : List (α × α)) : List (α × α) :=
  links.filter (·.1 ∈ seen)

/-- The links that start at none of the names. -/
def others (seen : List α) (links : List (α × α)) : List (α × α) :=
  links.filter (·.1 ∉ seen)

theorem mem_starting_iff {seen : List α} {links : List (α × α)} {e : α × α} :
    e ∈ starting seen links ↔ e ∈ links ∧ e.1 ∈ seen := by simp [starting]

theorem mem_others_iff {seen : List α} {links : List (α × α)} {e : α × α} :
    e ∈ others seen links ↔ e ∈ links ∧ e.1 ∉ seen := by simp [others]

theorem length_others_lt {seen : List α} {links : List (α × α)}
    (h : starting seen links ≠ []) : (others seen links).length < links.length := by
  obtain ⟨e, he⟩ := List.exists_mem_of_ne_nil _ h
  obtain ⟨hmem, hseen⟩ := mem_starting_iff.1 he
  refine Nat.lt_of_le_of_ne (List.length_filter_le ..) fun heq => ?_
  simpa [hseen] using List.length_filter_eq_length_iff.1 heq e hmem

/-- The names in `seen` and all those to which links lead from there: the links that start in
`seen` are followed, and the remaining ones after them. -/
def reach (links : List (α × α)) (seen : List α) : List α :=
  if starting seen links = [] then seen
  else reach (others seen links) ((starting seen links).map (·.2) ++ seen)
termination_by links.length
decreasing_by exact length_others_lt ‹_›

theorem subset_reach (links : List (α × α)) (seen : List α) :
    ∀ a ∈ seen, a ∈ reach links seen := by
  fun_induction reach links seen with
  | case1 => exact fun _ h => h
  | case2 links seen _ ih => exact fun a h => ih a (List.mem_append_right _ h)

/-- A link that starts among the names found ends among them. -/
theorem reach_closed (links : List (α × α)) (seen : List α) {a b : α}
    (hl : (a, b) ∈ links) (ha : a ∈ reach links seen) : b ∈ reach links seen := by
  fun_induction reach links seen with
  | case1 links seen h =>
    have := mem_starting_iff.2 ⟨hl, ha⟩
    simp [h] at this
  | case2 links seen _ ih =>
    by_cases hs : a ∈ seen
    · refine subset_reach _ _ b (List.mem_append_left _ ?_)
      exact List.mem_map.2 ⟨(a, b), mem_starting_iff.2 ⟨hl, hs⟩, rfl⟩
    · exact ih (mem_others_iff.2 ⟨hl, hs⟩) ha

theorem exists_path_of_mem_reach (links : List (α × α)) (seen : List α) {b : α}
    (h : b ∈ reach links seen) : ∃ a ∈ seen, Path links a b := by
  fun_induction reach links seen with
  | case1 => exact ⟨b, h, .refl _⟩
  | case2 links seen _ ih =>
    obtain ⟨a, ha, p⟩ := ih h
    have p := p.mono fun e he => (mem_others_iff.1 he).1
    rcases List.mem_append.1 ha with ha | ha
    · obtain ⟨e, he, rfl⟩ := List.mem_map.1 ha
      obtain ⟨hmem, hseen⟩ := mem_starting_iff.1 he
      exact ⟨e.1, hseen, (Path.step (.refl _) hmem).trans p⟩
    · exact ⟨a, ha, p⟩

theorem mem_reach_iff {links : List (α × α)} {a b : α} :
    b ∈ reach links [a] ↔ Path links a b := by
  constructor
  · intro h
    obtain ⟨a', ha, p⟩ := exists_path_of_mem_reach links [a] h
    rwa [List.mem_singleton.1 ha] at p
  · intro p
    induction p with
    | refl => exact subset_reach _ _ _ List.mem_cons_self
    | step _ hl ih => exact reach_closed _ _ hl ih

end Search

/-! ### Subclasses -/

/-- Whether one class extends another, directly or through others. -/
def isSubclass (h : Hierarchy) (sub super : Text) : Bool :=
  sub ≠ super &&
    match h.index.number? sub, h.index.number? super with
    | some i, some j => j ∈ reach h.edges [i]
    | _, _ => false

variable {h : Hierarchy} {a b : Text}

theorem mem_links_iff : (a, b) ∈ h.links ↔
    ∃ e ∈ h.edges, h.index.names[e.1]? = some a ∧ h.index.names[e.2]? = some b := by
  simp only [links, List.mem_map, Prod.mk.injEq]
  refine exists_congr fun e => and_congr_right fun he => ?_
  have hbounds := h.inBounds e he
  rw [NameTable.getElem?_eq_some_nameAt hbounds.1, NameTable.getElem?_eq_some_nameAt hbounds.2,
    Option.some.injEq, Option.some.injEq]

theorem mem_index_of_link (hlink : (a, b) ∈ h.links) :
    a ∈ h.index.names ∧ b ∈ h.index.names := by
  obtain ⟨e, -, ha, hb⟩ := mem_links_iff.1 hlink
  exact ⟨List.mem_of_getElem? ha, List.mem_of_getElem? hb⟩

/-- A path of names is one of their numbers. -/
theorem path_links_iff {i : Nat} (hi : h.index.names[i]? = some a) :
    Path h.links a b ↔ ∃ j, h.index.names[j]? = some b ∧ Path h.edges i j := by
  constructor
  · intro p
    induction p with
    | refl => exact ⟨i, hi, .refl i⟩
    | step _ hlink ih =>
      obtain ⟨j, hj, p⟩ := ih
      obtain ⟨e, he, hsub, hsuper⟩ := mem_links_iff.1 hlink
      obtain rfl := NameTable.eq_of_getElem? hj hsub
      exact ⟨e.2, hsuper, p.step he⟩
  · rintro ⟨j, hj, p⟩
    induction p generalizing b with
    | refl =>
      obtain rfl := Option.some.inj (hi.symm.trans hj)
      exact .refl a
    | step p hedge ih =>
      have hc := List.getElem?_eq_getElem (h.inBounds _ hedge).1
      exact (ih hc).step (mem_links_iff.2 ⟨_, hedge, hc, hj⟩)

/-- A path between two names is between names of the index. -/
theorem mem_index_of_path (hne : a ≠ b) (p : Path h.links a b) :
    a ∈ h.index.names ∧ b ∈ h.index.names := by
  induction p with
  | refl => exact absurd rfl hne
  | @step c d p hlink ih =>
    refine ⟨?_, (mem_index_of_link hlink).2⟩
    by_cases hac : a = c
    · exact hac ▸ (mem_index_of_link hlink).1
    · exact (ih hac).1

/-- One class is found to extend another one exactly if a path of links leads to it. -/
theorem isSubclass_iff_path : h.isSubclass a b = true ↔ a ≠ b ∧ Path h.links a b := by
  rw [isSubclass, Bool.and_eq_true, decide_eq_true_eq]
  refine and_congr_right fun hne => ?_
  split
  next i j hi hj =>
    rw [NameTable.number?_eq_some_iff] at hi hj
    rw [decide_eq_true_eq, mem_reach_iff, path_links_iff hi]
    constructor
    · exact fun p => ⟨j, hj, p⟩
    · rintro ⟨j', hj', p⟩
      rwa [NameTable.eq_of_getElem? hj hj']
  next hmissing =>
    refine iff_of_false Bool.false_ne_true fun p => ?_
    obtain ⟨ha, hb⟩ := mem_index_of_path hne p
    exact hmissing _ _ (if_pos ha) (if_pos hb)

/-! ### Links of a snapshot -/

/-- A link more leaves the names with numbers as they are. -/
theorem nameAt_link {i : Nat} (hi : i < (h.index.enter a).size) :
    (h.link a b).index.nameAt i = (h.index.enter a).nameAt i := NameTable.nameAt_enter hi b

/-- A link more leaves the others as they are. -/
theorem links_link (h : Hierarchy) (sub super : Text) :
    (h.link sub super).links = h.links ++ [(sub, super)] := by
  have hold : ∀ e ∈ h.edges,
      ((h.link sub super).index.nameAt e.1, (h.link sub super).index.nameAt e.2) =
        (h.index.nameAt e.1, h.index.nameAt e.2) := by
    intro e he
    obtain ⟨hfrom, hto⟩ := h.inBounds e he
    have hle := h.index.size_le_enter sub
    rw [nameAt_link (Nat.lt_of_lt_of_le hfrom hle), nameAt_link (Nat.lt_of_lt_of_le hto hle),
      NameTable.nameAt_enter hfrom, NameTable.nameAt_enter hto]
  have hsub : (h.link sub super).index.nameAt (h.index.intern sub).2 = sub := by
    rw [nameAt_link (h.index.intern_lt sub), NameTable.nameAt_intern]
  have hsuper :
      (h.link sub super).index.nameAt ((h.index.enter sub).intern super).2 = super :=
    (h.index.enter sub).nameAt_intern super
  calc (h.link sub super).links
      = h.edges.map (fun e =>
            ((h.link sub super).index.nameAt e.1, (h.link sub super).index.nameAt e.2)) ++
          [((h.link sub super).index.nameAt (h.index.intern sub).2,
            (h.link sub super).index.nameAt ((h.index.enter sub).intern super).2)] :=
        List.map_append
    _ = h.links ++ [(sub, super)] := by rw [List.map_congr_left hold, hsub, hsuper, links]

theorem links_enterClass (h : Hierarchy) (c : ClassDef) :
    (h.enterClass c).links =
      h.links ++ (c.superclass.map fun m => (c.name, m.name)).toList := by
  unfold enterClass
  split
  next hnone => simp [hnone]
  next m hm => rw [links_link, hm]; rfl

/-- The links of a snapshot are those from classes to their superclasses. -/
theorem links_ofSnapshot (s : Snapshot) :
    (ofSnapshot s).links =
      s.values.filterMap fun c => c.superclass.map fun m => (c.name, m.name) := by
  suffices hrun : ∀ (l : List ClassDef) (h : Hierarchy),
      (l.foldl enterClass h).links =
        h.links ++ l.filterMap fun c => c.superclass.map fun m => (c.name, m.name) from
    hrun s.values empty
  intro l
  induction l with
  | nil => simp
  | cons c l ih =>
    intro h
    rw [List.foldl_cons, ih, links_enterClass, List.filterMap_cons, List.append_assoc]
    rcases c.superclass with _ | m <;> rfl

end Hierarchy

end ApiSurface
