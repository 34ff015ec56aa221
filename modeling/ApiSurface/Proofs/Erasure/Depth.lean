import ApiSurface.Proofs.Erasure.Groups
import Mathlib.Data.List.Induction
import Mathlib.Data.List.Infix
import Mathlib.Logic.Function.Iterate

/-!
# Depth of angle brackets

A text is balanced if it closes as many brackets as it opens and nowhere more than it has opened
(`IsBalanced`); its outer characters are those at depth zero (`outer`). A balanced text is made of
other characters and of groups with balanced text in them (`isBalanced_open_iff`), so that it can be
compared with the text outside all groups (`outside?_eq_some_iff`).

Main statement: type arguments are removed in at most as many rounds as there are opening brackets,
and the outer characters are left exactly if brackets are balanced and every group has a character
of its own (`strip_projection`).
-/

namespace ApiSurface

open Text

/-! ### Counting brackets -/

theorem counts_open (t : Text) :
    ('<' :: t).count '<' = t.count '<' + 1 ∧ ('<' :: t).count '>' = t.count '>' :=
  ⟨List.count_cons_self, List.count_cons_of_ne (by decide)⟩

theorem counts_close (t : Text) :
    ('>' :: t).count '<' = t.count '<' ∧ ('>' :: t).count '>' = t.count '>' + 1 :=
  ⟨List.count_cons_of_ne (by decide), List.count_cons_self⟩

theorem counts_of_isInner {c : Char} (hc : isInner c = true) (t : Text) :
    (c :: t).count '<' = t.count '<' ∧ (c :: t).count '>' = t.count '>' :=
  ⟨List.count_cons_of_ne (isInner_iff.1 hc).1, List.count_cons_of_ne (isInner_iff.1 hc).2⟩

theorem counts_append_close (t : Text) :
    (t ++ ['>']).count '<' = t.count '<' ∧ (t ++ ['>']).count '>' = t.count '>' + 1 := by
  rw [List.count_append, List.count_append]
  exact ⟨rfl, rfl⟩

theorem counts_group (inside rest : Text) :
    ('<' :: (inside ++ '>' :: rest)).count '<' = inside.count '<' + rest.count '<' + 1 ∧
      ('<' :: (inside ++ '>' :: rest)).count '>' = inside.count '>' + rest.count '>' + 1 := by
  rw [(counts_open _).1, (counts_open _).2, List.count_append, List.count_append,
    (counts_close rest).1, (counts_close rest).2]
  exact ⟨rfl, rfl⟩

/-! ### Balanced texts -/

/-- The angle brackets of a text are balanced. -/
structure IsBalanced (t : Text) : Prop where
  /-- In the end all brackets are closed. -/
  closed : t.count '>' = t.count '<'
  /-- Nowhere are more brackets closed than have been opened. -/
  opened : ∀ s, s <+: t → s.count '>' ≤ s.count '<'

instance (t : Text) : Decidable (IsBalanced t) :=
  decidable_of_iff (t.count '>' = t.count '<' ∧ ∀ s ∈ t.inits, s.count '>' ≤ s.count '<')
    ⟨fun h => ⟨h.1, fun s hs => h.2 s ((List.mem_inits s t).2 hs)⟩,
      fun h => ⟨h.closed, fun s hs => h.opened s ((List.mem_inits s t).1 hs)⟩⟩

theorem isBalanced_nil : IsBalanced [] where
  closed := rfl
  opened s hs := by rw [List.prefix_nil.1 hs]; exact Nat.le_refl 0

theorem isBalanced_cons_iff {c : Char} (hc : isInner c = true) {t : Text} :
    IsBalanced (c :: t) ↔ IsBalanced t := by
  have hcount := counts_of_isInner hc
  constructor
  · rintro ⟨hclosed, hopened⟩
    refine ⟨by rwa [(hcount t).1, (hcount t).2] at hclosed, fun s hs => ?_⟩
    have hle := hopened (c :: s) (List.cons_prefix_cons.2 ⟨rfl, hs⟩)
    rwa [(hcount s).1, (hcount s).2] at hle
  · rintro ⟨hclosed, hopened⟩
    refine ⟨by rw [(hcount t).1, (hcount t).2, hclosed], fun s hs => ?_⟩
    rcases List.prefix_cons_iff.1 hs with rfl | ⟨s, rfl, hst⟩
    · exact Nat.le_refl 0
    · rw [(hcount s).1, (hcount s).2]
      exact hopened s hst

theorem not_isBalanced_close (t : Text) : ¬ IsBalanced ('>' :: t) := by
  intro h
  have hle := h.opened ['>'] (List.prefix_append ['>'] t)
  exact absurd hle (by decide)

/-- Either no start of a text closes more brackets than it opens, or the text begins with a balanced
part that a closing bracket ends. -/
theorem opened_or_exists_close (t : Text) :
    (∀ s, s <+: t → s.count '>' ≤ s.count '<') ∨
      ∃ inside rest, t = inside ++ '>' :: rest ∧ IsBalanced inside := by
  induction t using List.reverseRecOn with
  | nil => exact .inl isBalanced_nil.opened
  | append_singleton t c ih =>
    rcases ih with hopened | ⟨inside, rest, rfl, hinside⟩
    · by_cases hle : (t ++ [c]).count '>' ≤ (t ++ [c]).count '<'
      · refine .inl fun s hs => ?_
        rcases List.prefix_concat_iff.1 hs with rfl | hs
        · exact hle
        · exact hopened s hs
      · have ht := hopened t List.prefix_rfl
        obtain rfl : c = '>' := by
          by_contra hne
          refine hle ?_
          calc (t ++ [c]).count '>'
              = t.count '>' := by rw [List.count_append, List.count_cons_of_ne hne]; rfl
            _ ≤ t.count '<' := ht
            _ ≤ (t ++ [c]).count '<' := (List.sublist_append_left t [c]).count_le '<'
        rw [(counts_append_close t).1, (counts_append_close t).2] at hle
        exact .inr ⟨t, [], rfl, ⟨by omega, hopened⟩⟩
    · exact .inr ⟨inside, rest ++ [c], by simp, hinside⟩

theorem prefix_append_cases {s a b : Text} (h : s <+: a ++ b) :
    s <+: a ∨ ∃ u, s = a ++ u ∧ u <+: b := by
  rcases List.prefix_or_prefix_of_prefix h (List.prefix_append a b) with h' | ⟨u, rfl⟩
  · exact .inl h'
  · exact .inr ⟨u, rfl, (List.prefix_append_right_inj a).1 h⟩

/-- What an opening bracket begins in a balanced text is closed, with balanced text before and
after the closing bracket. -/
theorem isBalanced_open_iff {t : Text} :
    IsBalanced ('<' :: t) ↔
      ∃ inside rest, t = inside ++ '>' :: rest ∧ IsBalanced inside ∧ IsBalanced rest := by
  constructor
  · rintro ⟨hclosed, hopened⟩
    have hexceeds : ¬ ∀ s, s <+: t → s.count '>' ≤ s.count '<' := fun hall => by
      have hle := hall t List.prefix_rfl
      rw [(counts_open t).1, (counts_open t).2] at hclosed
      omega
    obtain ⟨inside, rest, rfl, hinside⟩ := (opened_or_exists_close t).resolve_left hexceeds
    have hbalance := hinside.closed
    refine ⟨inside, rest, rfl, hinside, ?_, fun s hs => ?_⟩
    · have hcount := counts_group inside rest
      omega
    · obtain ⟨more, rfl⟩ := hs
      have hle := hopened ('<' :: (inside ++ '>' :: s)) ⟨more, by simp⟩
      have hcount := counts_group inside s
      omega
  · rintro ⟨inside, rest, rfl, hinside, hrest⟩
    have hbalance := hinside.closed
    refine ⟨?_, fun s hs => ?_⟩
    · have hcount := counts_group inside rest
      have hbalance' := hrest.closed
      omega
    -- A start ends in front of the group, in it, at its end or behind it.
    · rcases List.prefix_cons_iff.1 hs with rfl | ⟨s, rfl, hs'⟩
      · exact Nat.le_refl 0
      rcases prefix_append_cases hs' with hs' | ⟨u, rfl, hu⟩
      · have hle := hinside.opened s hs'
        have hcount := counts_open s
        omega
      rcases List.prefix_cons_iff.1 hu with rfl | ⟨u, rfl, hu'⟩
      · have hcount := counts_open inside
        rw [List.append_nil]
        omega
      · have hle := hrest.opened u hu'
        have hcount := counts_group inside u
        omega

/-- Behind a balanced text a closing bracket is one too many. -/
theorem IsBalanced.not_prefix {s t : Text} (hs : IsBalanced s) (ht : IsBalanced t) :
    ¬ s ++ ['>'] <+: t := by
  intro hstart
  have hle := ht.opened _ hstart
  have hclosed := hs.closed
  have hcount := counts_append_close s
  omega

/-- A bracket that closes the shorter of two starts of a text is in the longer one. -/
theorem prefix_append_close {s t r r' : Text} (h : s ++ '>' :: r = t ++ '>' :: r')
    (hlt : s.length < t.length) : s ++ ['>'] <+: t := by
  have hstart : s ++ ['>'] <+: t ++ '>' :: r' := ⟨r, by simp [← h]⟩
  refine List.prefix_of_prefix_length_le hstart (List.prefix_append t _) ?_
  rw [List.length_append, List.length_singleton]
  exact hlt

/-- Where a balanced text begins and a bracket closes it, both are determined. -/
theorem IsBalanced.eq_of_append_close {s t r r' : Text} (hs : IsBalanced s) (ht : IsBalanced t)
    (h : s ++ '>' :: r = t ++ '>' :: r') : s = t := by
  rcases Nat.lt_trichotomy s.length t.length with hlt | heq | hlt
  · exact absurd (prefix_append_close h hlt) (hs.not_prefix ht)
  · exact (List.append_inj h heq).1
  · exact absurd (prefix_append_close h.symm hlt) (ht.not_prefix hs)

/-! ### Outer characters -/

/-- How many more brackets are open after a character; less than none where a bracket too many
is closed. -/
def depthAfter (depth : Int) (c : Char) : Int :=
  if c = '<' then depth + 1 else if c = '>' then depth - 1 else depth

/-- How many brackets are open behind a text, where `depth` brackets are open in front of it. -/
def depthBehind (depth : Int) (t : Text) : Int := depth + t.count '<' - t.count '>'

@[simp] theorem depthBehind_nil (depth : Int) : depthBehind depth [] = depth := by
  simp [depthBehind]

theorem depthBehind_cons (depth : Int) (c : Char) (t : Text) :
    depthBehind depth (c :: t) = depthBehind (depthAfter depth c) t := by
  unfold depthBehind depthAfter
  split
  next hopen =>
    subst hopen
    have hcount := counts_open t
    omega
  next hopen =>
    split
    next hclose =>
      subst hclose
      have hcount := counts_close t
      omega
    next hclose => rw [List.count_cons_of_ne hopen, List.count_cons_of_ne hclose]

theorem depthBehind_append (depth : Int) (t u : Text) :
    depthBehind depth (t ++ u) = depthBehind (depthBehind depth t) u := by
  unfold depthBehind
  rw [List.count_append, List.count_append]
  omega

theorem IsBalanced.depthBehind_eq {t : Text} (h : IsBalanced t) (depth : Int) :
    depthBehind depth t = depth := by
  have hclosed := h.closed
  unfold depthBehind
  omega

/-- The characters at depth zero, where `depth` brackets are open in front of the text. -/
def outerFrom (depth : Int) : Text → Text
  | [] => []
  | c :: r =>
    if depth = 0 ∧ isInner c = true then c :: outerFrom (depthAfter depth c) r
    else outerFrom (depthAfter depth c) r

/-- The characters of a text at depth zero: in front of each of them as many brackets are closed as
are opened. Brackets are not among them. -/
def outer (t : Text) : Text := outerFrom 0 t

@[simp] theorem outer_nil : outer [] = [] := rfl

theorem isInner_of_mem_outerFrom {depth : Int} {t : Text} :
    ∀ c ∈ outerFrom depth t, isInner c = true := by
  fun_induction outerFrom depth t with
  | case1 => exact List.forall_mem_nil _
  | case2 _ c r h ih => exact List.forall_mem_cons.2 ⟨h.2, ih⟩
  | case3 _ _ _ _ ih => exact ih

theorem outer_cons {c : Char} (hc : isInner c = true) (t : Text) :
    outer (c :: t) = c :: outer t := by
  obtain ⟨hopen, hclose⟩ := isInner_iff.1 hc
  rw [outer, outerFrom, if_pos ⟨rfl, hc⟩, depthAfter, if_neg hopen, if_neg hclose]
  rfl

theorem outerFrom_append (depth : Int) (t u : Text) :
    outerFrom depth (t ++ u) = outerFrom depth t ++ outerFrom (depthBehind depth t) u := by
  induction t generalizing depth with
  | nil => rw [depthBehind_nil]; rfl
  | cons c t ih =>
    rw [List.cons_append, outerFrom, outerFrom, depthBehind_cons, ih]
    split <;> rfl

/-- Text that does not close all brackets around it is not at depth zero. -/
theorem outerFrom_eq_nil {depth : Int} {t : Text} (h : ∀ s, s <+: t → 0 < depthBehind depth s) :
    outerFrom depth t = [] := by
  induction t generalizing depth with
  | nil => rfl
  | cons c t ih =>
    have hpos := h [] List.nil_prefix
    rw [depthBehind_nil] at hpos
    rw [outerFrom, if_neg (by omega)]
    refine ih fun s hs => ?_
    rw [← depthBehind_cons]
    exact h (c :: s) (List.cons_prefix_cons.2 ⟨rfl, hs⟩)

/-- What follows a balanced text is as deep as it is by itself. -/
theorem outer_append {t : Text} (h : IsBalanced t) (u : Text) :
    outer (t ++ u) = outer t ++ outer u := by
  rw [outer, outerFrom_append, h.depthBehind_eq]
  rfl

/-- A group has no outer characters. -/
theorem outer_group {inside : Text} (h : IsBalanced inside) (rest : Text) :
    outer ('<' :: (inside ++ '>' :: rest)) = outer rest := by
  have hpos : ∀ s, s <+: inside → 0 < depthBehind 1 s := fun s hs => by
    have hle := h.opened s hs
    unfold depthBehind
    omega
  calc outer ('<' :: (inside ++ '>' :: rest))
      = outerFrom 1 (inside ++ '>' :: rest) := by simp [outer, outerFrom, isInner, depthAfter]
    _ = outerFrom 1 ('>' :: rest) := by
      rw [outerFrom_append, outerFrom_eq_nil hpos, h.depthBehind_eq, List.nil_append]
    _ = outer rest := by simp [outer, outerFrom, isInner, depthAfter]

/-! ### Groups with characters of their own -/

/-- Every group has a character of its own, one that is in no smaller group. -/
def OwnCharacters (t : Text) : Prop :=
  ∀ inside, '<' :: (inside ++ ['>']) <:+: t → IsBalanced inside → outer inside ≠ []

theorem ownCharacters_nil : OwnCharacters [] := by
  intro inside hpart
  cases List.infix_nil.1 hpart

theorem ownCharacters_cons_iff {c : Char} (hc : isInner c = true) {t : Text} :
    OwnCharacters (c :: t) ↔ OwnCharacters t := by
  have hpart : ∀ inside,
      '<' :: (inside ++ ['>']) <:+: c :: t ↔ '<' :: (inside ++ ['>']) <:+: t := by
    intro inside
    rw [List.infix_cons_iff, or_iff_right]
    intro hstart
    exact (isInner_iff.1 hc).1 (List.cons_prefix_cons.1 hstart).1.symm
  exact forall_congr' fun inside => imp_congr_left (hpart inside)

/-- A bracket that closes a balanced text is in no group. -/
theorem infix_of_infix_append_close {s inside rest : Text} (hs : IsBalanced s)
    (hinside : IsBalanced inside) (h : '<' :: (inside ++ ['>']) <:+: s ++ '>' :: rest) :
    '<' :: (inside ++ ['>']) <:+: s ∨ '<' :: (inside ++ ['>']) <:+: rest := by
  obtain ⟨before, behind, heq⟩ := h
  have heq' : before ++ '<' :: (inside ++ '>' :: behind) = s ++ '>' :: rest := by simpa using heq
  rcases List.append_eq_append_iff.1 heq' with ⟨u, rfl, hu⟩ | ⟨u, rfl, hu⟩
  · rcases u with _ | ⟨c, u⟩
    · cases hu
    obtain ⟨rfl, hu'⟩ := List.cons.inj hu
    -- A group that begins in the balanced part cannot enclose its end.
    have hnot : ¬ u <+: inside := fun hstart => by
      have hle := hinside.opened u hstart
      have hle' := hs.opened before (List.prefix_append before _)
      have hclosed := hs.closed
      rw [List.count_append, List.count_append, (counts_open u).1, (counts_open u).2] at hclosed
      omega
    rcases List.append_eq_append_iff.1 hu' with ⟨v, rfl, hv⟩ | ⟨v, rfl, -⟩
    · rcases v with _ | ⟨d, v⟩
      · exact absurd (by simp) hnot
      · obtain ⟨rfl, -⟩ := List.cons.inj hv
        exact .inl ⟨before, v, by simp⟩
    · exact absurd (List.prefix_append u v) hnot
  · rcases u with _ | ⟨c, u⟩
    · cases hu
    · obtain ⟨-, rfl⟩ := List.cons.inj hu
      exact .inr ⟨u, behind, by simp⟩

theorem ownCharacters_group_iff {s rest : Text} (hs : IsBalanced s) :
    OwnCharacters ('<' :: (s ++ '>' :: rest)) ↔
      outer s ≠ [] ∧ OwnCharacters s ∧ OwnCharacters rest := by
  constructor
  · intro h
    refine ⟨h s ⟨[], rest, by simp⟩ hs, fun inside hpart => h inside ?_,
      fun inside hpart => h inside ?_⟩
    · exact hpart.trans ⟨['<'], '>' :: rest, by simp⟩
    · exact hpart.trans ⟨'<' :: (s ++ ['>']), [], by simp⟩
  · rintro ⟨hne, hown, hrest⟩ inside hpart hinside
    rcases List.infix_cons_iff.1 hpart with hstart | hpart
    · obtain ⟨behind, hbehind⟩ := (List.cons_prefix_cons.1 hstart).2
      have heq : inside ++ '>' :: behind = s ++ '>' :: rest := by simpa using hbehind
      rwa [hinside.eq_of_append_close hs heq]
    · rcases infix_of_infix_append_close hs hinside hpart with hpart | hpart
      · exact hown inside hpart hinside
      · exact hrest inside hpart hinside

/-! ### Text outside groups -/

/-- A text that has an outside gives the group around it its outside as own characters. -/
theorem outsideFrom?_append {inner : List Bool} {s v : Text} (h : outsideFrom? inner s = some v)
    (own : Bool) (groups : List Bool) (r : Text) :
    outsideFrom? (inner ++ own :: groups) (s ++ r) =
      outsideFrom? ((own || !v.isEmpty) :: groups) r := by
  induction s generalizing inner own v with
  | nil =>
    cases inner with
    | nil =>
      obtain rfl := Option.some.inj h
      simp
    | cons _ _ => cases h
  | cons c s ih =>
    cases inner with
    | nil =>
      rw [outsideFrom?] at h
      rw [List.nil_append, List.cons_append, outsideFrom?]
      split at h
      next hc => rw [if_pos hc]; exact ih h own
      next hc =>
        rw [if_neg hc]
        split at h
        next => cases h
        next hc =>
          obtain ⟨v, hv, rfl⟩ := Option.map_eq_some_iff.1 h
          rw [if_neg hc]
          simpa using ih hv true
    | cons own' inner =>
      rw [outsideFrom?] at h
      rw [List.cons_append, List.cons_append, outsideFrom?]
      split at h
      next hc => rw [if_pos hc]; exact ih h own
      next hc =>
        rw [if_neg hc]
        split at h
        next hc =>
          rw [if_pos hc]
          cases own' with
          | false => cases h
          | true => exact ih h own
        next hc =>
          rw [if_neg hc]
          exact ih h own

/-- A group with a character of its own has no part in the outside. -/
theorem outside?_group {s v : Text} (h : outside? s = some v) (hv : v ≠ []) (rest : Text) :
    outside? ('<' :: (s ++ '>' :: rest)) = outside? rest := by
  have hown : (false || !v.isEmpty) = true := by simpa using hv
  calc outside? ('<' :: (s ++ '>' :: rest))
      = outsideFrom? [false] (s ++ '>' :: rest) := by rw [outside?, outsideFrom?, if_pos rfl]
    _ = outsideFrom? [true] ('>' :: rest) := by
      rw [← hown]
      exact outsideFrom?_append h false [] ('>' :: rest)
    _ = outside? rest := rfl

/-- What a group encloses is shorter than the text that begins with it, and so is what follows. -/
theorem length_lt_group (s rest : Text) :
    s.length < ('<' :: (s ++ '>' :: rest)).length ∧
      rest.length < ('<' :: (s ++ '>' :: rest)).length := by
  simp only [List.length_cons, List.length_append]
  omega

/-- An open group is closed, behind a text that has an outside. -/
theorem exists_of_outsideFrom? {own : Bool} {groups : List Bool} {t u : Text}
    (h : outsideFrom? (own :: groups) t = some u) :
    ∃ inside v rest, t = inside ++ '>' :: rest ∧ outside? inside = some v ∧
      (own = true ∨ v ≠ []) ∧ outsideFrom? groups rest = some u := by
  induction hn : t.length using Nat.strong_induction_on generalizing own groups t with
  | _ n ih =>
    subst hn
    rcases t with _ | ⟨c, t⟩
    · cases h
    rw [outsideFrom?] at h
    split at h
    next hc =>
      subst hc
      obtain ⟨i, v, r, rfl, hi, hv, hr⟩ := ih _ (by simp) h rfl
      obtain ⟨i', v', rest, rfl, hi', hv', hrest⟩ := ih _ (length_lt_group i r).2 hr rfl
      refine ⟨'<' :: (i ++ '>' :: i'), v', rest, by simp, ?_, hv', hrest⟩
      rw [outside?_group hi (hv.resolve_left Bool.false_ne_true), hi']
    next hc =>
      split at h
      next hc' =>
        subst hc'
        cases own with
        | false => cases h
        | true => exact ⟨[], [], t, rfl, rfl, .inl rfl, h⟩
      next hc' =>
        obtain ⟨i, v, rest, rfl, hi, -, hrest⟩ := ih _ (by simp) h rfl
        refine ⟨c :: i, c :: v, rest, rfl, ?_, .inr (List.cons_ne_nil c v), hrest⟩
        rw [outside?, outsideFrom?, if_neg hc, if_neg hc', ← outside?, hi]
        rfl

/-- The text outside all groups is the characters at depth zero. There is one exactly if brackets
are balanced and every group has a character of its own. -/
theorem outside?_eq_some_iff {t u : Text} :
    outside? t = some u ↔ IsBalanced t ∧ OwnCharacters t ∧ outer t = u := by
  induction hn : t.length using Nat.strong_induction_on generalizing t u with
  | _ n ih =>
    subst hn
    rcases t with _ | ⟨c, t⟩
    · simp [outside?, outsideFrom?, isBalanced_nil, ownCharacters_nil]
    by_cases hopen : c = '<'
    · subst hopen
      constructor
      · intro h
        rw [outside?, outsideFrom?, if_pos rfl] at h
        obtain ⟨s, v, rest, rfl, hs, hv, hrest⟩ := exists_of_outsideFrom? h
        obtain ⟨hbalanced, hown, rfl⟩ := (ih _ (length_lt_group s rest).1 rfl).1 hs
        obtain ⟨hbalanced', hown', rfl⟩ := (ih _ (length_lt_group s rest).2 rfl).1 hrest
        exact ⟨isBalanced_open_iff.2 ⟨s, rest, rfl, hbalanced, hbalanced'⟩,
          (ownCharacters_group_iff hbalanced).2 ⟨hv.resolve_left Bool.false_ne_true, hown, hown'⟩,
          outer_group hbalanced rest⟩
      · rintro ⟨h, hown, rfl⟩
        obtain ⟨s, rest, rfl, hs, hrest⟩ := isBalanced_open_iff.1 h
        obtain ⟨hne, hown, hown'⟩ := (ownCharacters_group_iff hs).1 hown
        have hinside := (ih _ (length_lt_group s rest).1 rfl).2 ⟨hs, hown, rfl⟩
        rw [outside?_group hinside hne, outer_group hs]
        exact (ih _ (length_lt_group s rest).2 rfl).2 ⟨hrest, hown', rfl⟩
    by_cases hclose : c = '>'
    · subst hclose
      exact iff_of_false (by simp [outside?, outsideFrom?]) fun h => not_isBalanced_close t h.1
    · have hc : isInner c = true := isInner_iff.2 ⟨hopen, hclose⟩
      rw [isBalanced_cons_iff hc, ownCharacters_cons_iff hc, outer_cons hc, outside?, outsideFrom?,
        if_neg hopen, if_neg hclose, ← outside?, Option.map_eq_some_iff]
      constructor
      · rintro ⟨v, hv, rfl⟩
        obtain ⟨hbalanced, hown, rfl⟩ := (ih _ (by simp) rfl).1 hv
        exact ⟨hbalanced, hown, rfl⟩
      · rintro ⟨hbalanced, hown, rfl⟩
        exact ⟨outer t, (ih _ (by simp) rfl).2 ⟨hbalanced, hown, rfl⟩, rfl⟩

/-! ### What is left without type arguments -/

/-- What is left is the outer characters exactly if brackets are balanced and every group has a
character of its own. -/
theorem strip_eq_outer_iff {t : Text} : strip t = outer t ↔ IsBalanced t ∧ OwnCharacters t := by
  constructor
  · intro h
    have houtside : outside? (strip t ++ []) = some (strip t ++ []) :=
      outside?_append (fun c hc => isInner_of_mem_outerFrom c (h ▸ hc)) []
    rw [List.append_nil, outside?_strip] at houtside
    obtain ⟨hbalanced, hown, -⟩ := outside?_eq_some_iff.1 houtside
    exact ⟨hbalanced, hown⟩
  · rintro ⟨hbalanced, hown⟩
    exact (strip_eq_of_outside? (outside?_eq_some_iff.2 ⟨hbalanced, hown, rfl⟩)).1

/-- Nothing is removed exactly if every bracket that is closed by the next one encloses nothing. -/
theorem removeGroup?_eq_none_iff_forall {t : Text} :
    removeGroup? t = none ↔ ∀ before inside behind,
      t = before ++ '<' :: (inside ++ '>' :: behind) → (∀ c ∈ inside, isInner c = true) →
        inside = [] := by
  constructor
  · rintro h before inside behind rfl hall
    induction before with
    | nil =>
      by_contra hne
      have hbehind := (removeGroup?_cons_eq_none_iff.1 h).1 rfl
      rw [behindGroup?_eq_some_iff.2 ⟨inside, rfl, hne, hall⟩] at hbehind
      cases hbehind
    | cons c before ih => exact ih (removeGroup?_cons_eq_none_iff.1 h).2
  · intro h
    rw [Option.eq_none_iff_forall_ne_some]
    intro rest hrest
    obtain ⟨before, inside, behind, heq, -, hne, hall⟩ := exists_of_removeGroup? hrest
    exact hne (h before inside behind heq hall)

/-- One round removes one opening bracket. -/
theorem count_of_removeGroup? {t rest : Text} (h : removeGroup? t = some rest) :
    t.count '<' = rest.count '<' + 1 := by
  obtain ⟨before, inside, behind, rfl, rfl, -, hall⟩ := exists_of_removeGroup? h
  have hinside : inside.count '<' = 0 :=
    List.count_eq_zero.2 fun hmem => (isInner_iff.1 (hall _ hmem)).1 rfl
  rw [List.count_append, List.count_append, (counts_group inside behind).1, hinside]
  omega

/-- There are as many rounds as opening brackets that are removed. -/
theorem iterate_removeGroup? (t : Text) :
    (Option.bind · removeGroup?)^[t.count '<' - (strip t).count '<'] (some t) = some (strip t) := by
  fun_induction strip t with
  | case1 t rest h ih =>
    have hle := (strip_sublist rest).count_le '<'
    rw [count_of_removeGroup? h, Nat.succ_sub hle, Function.iterate_succ_apply, Option.bind_some, h]
    exact ih
  | case2 t h => rw [Nat.sub_self, Function.iterate_zero_apply]

/-- The outer characters are left exactly if brackets are balanced and every group has a character
of its own. Groups are removed in at most as many rounds as there are opening brackets, until every
bracket that is closed by the next one encloses nothing; nothing more is removed then. -/
theorem strip_projection (t : Text) :
    (strip t = outer t ↔ IsBalanced t ∧ OwnCharacters t) ∧
      (∃ n ≤ t.count '<', (Option.bind · removeGroup?)^[n] (some t) = some (strip t)) ∧
      (∀ before inside behind, strip t = before ++ '<' :: (inside ++ '>' :: behind) →
        (∀ c ∈ inside, isInner c = true) → inside = []) ∧
      strip (strip t) = strip t :=
  ⟨strip_eq_outer_iff, ⟨_, Nat.sub_le _ _, iterate_removeGroup? t⟩,
    removeGroup?_eq_none_iff_forall.1 (removeGroup?_strip t), strip_strip t⟩

/-- A type with type arguments in type arguments. -/
def nestedType : Text := "a.Map<b.K,a.List<b.V>>.Entry<?>[]".toList

/-- Its brackets are balanced and its groups have characters of their own, so that what is left is
its outer characters. -/
theorem strip_projection_nestedType :
    IsBalanced nestedType ∧ OwnCharacters nestedType ∧
      strip nestedType = outer nestedType ∧ outer nestedType = "a.Map.Entry[]".toList := by
  have houtside : outside? nestedType = some "a.Map.Entry[]".toList := by decide
  obtain ⟨hbalanced, hown, houter⟩ := outside?_eq_some_iff.1 houtside
  exact ⟨hbalanced, hown, (strip_projection nestedType).1.2 ⟨hbalanced, hown⟩, houter⟩

/-- A group without a character of its own leaves its brackets, although they are balanced. -/
example : IsBalanced "a.B<<c.D>>".toList ∧ outer "a.B<<c.D>>".toList = "a.B".toList ∧
    strip "a.B<<c.D>>".toList = "a.B<>".toList := by decide +kernel

end ApiSurface
