import ApiSurface.Erasure.TypeArgs

/-!
# Groups of type arguments

A text is read from left to right to see whether it has a group that `strip` removes: a
`GroupState` tells how far a group has come. Every fact about what `strip` leaves is read off the
state at the end of a text (`removeGroup?_eq_none_iff`).

Main statements: where no bracket is left open at the end of a text, type arguments are removed
from what follows by itself (`strip_append`); where brackets are balanced and every group has a
character of its own, the characters outside all groups are what is left
(`strip_eq_of_outside?`).
-/

namespace ApiSurface

open Text

/-- How far a group has come that may begin in a text. -/
inductive GroupState where
  /-- No bracket is open. -/
  | outside
  /-- A bracket is open, with nothing behind it yet. -/
  | opened
  /-- A bracket is open, with other characters than brackets behind it. -/
  | inside
  /-- There was a group. -/
  | found
  deriving DecidableEq

namespace GroupState

/-- The state after one more character. -/
def step : GroupState → Char → GroupState
  | found, _ => found
  | s, c =>
    if c = '<' then opened
    else if c = '>' then if s = inside then found else outside
    else if s = outside then outside else inside

/-- The state after a text. -/
def after (s : GroupState) (t : Text) : GroupState := t.foldl step s

/-- The states in the order in which a group is completed. -/
def rank : GroupState → Nat
  | outside => 0
  | opened => 1
  | inside => 2
  | found => 3

@[simp] theorem after_nil (s : GroupState) : s.after [] = s := rfl

@[simp] theorem after_cons (s : GroupState) (c : Char) (t : Text) :
    s.after (c :: t) = (s.step c).after t := rfl

@[simp] theorem after_append (s : GroupState) (t u : Text) :
    s.after (t ++ u) = (s.after t).after u := List.foldl_append

@[simp] theorem after_found (t : Text) : found.after t = found := by
  induction t with
  | nil => rfl
  | cons c t ih => exact ih

theorem eq_found_of_rank {s : GroupState} (h : 3 ≤ s.rank) : s = found := by
  cases s <;> simp_all [rank]

/-- A text in which a group has come less far is never ahead. -/
theorem rank_step_le {s s' : GroupState} (h : s'.rank ≤ s.rank) (c : Char) :
    (s'.step c).rank ≤ (s.step c).rank := by
  unfold step
  by_cases hopen : c = '<'
  · cases s' <;> cases s <;> simp_all [rank]
  · by_cases hclose : c = '>'
    · cases s' <;> cases s <;> simp_all [rank]
    · cases s' <;> cases s <;> simp_all [rank]

theorem rank_after_le {s s' : GroupState} (h : s'.rank ≤ s.rank) (t : Text) :
    (s'.after t).rank ≤ (s.after t).rank := by
  induction t generalizing s s' with
  | nil => exact h
  | cons c t ih => exact ih (rank_step_le h c)

/-- A text that is put together of parts is never ahead of another one, if none of its parts is
ahead of the part at the same place. -/
theorem rank_after_flatMap_le {α : Type _} {f g : α → Text} {l : List α}
    (h : ∀ a ∈ l, ∀ s s' : GroupState, s'.rank ≤ s.rank →
      (s'.after (f a)).rank ≤ (s.after (g a)).rank) {s s' : GroupState} (hs : s'.rank ≤ s.rank) :
    (s'.after (l.flatMap f)).rank ≤ (s.after (l.flatMap g)).rank := by
  induction l generalizing s s' with
  | nil => exact hs
  | cons a l ih =>
    obtain ⟨ha, hl⟩ := List.forall_mem_cons.1 h
    rw [List.flatMap_cons, List.flatMap_cons, after_append, after_append]
    exact ih hl (ha s s' hs)

end GroupState

open GroupState

/-! ### Texts without a group -/

theorem isInner_iff {c : Char} : isInner c = true ↔ c ≠ '<' ∧ c ≠ '>' := by simp [isInner]

theorem removeGroup?_cons_eq_none_iff {c : Char} {r : Text} :
    removeGroup? (c :: r) = none ↔
      (c = '<' → behindGroup? r = none) ∧ removeGroup? r = none := by
  rw [removeGroup?]
  by_cases hc : c = '<'
  · rcases behindGroup? r with _ | rest <;> simp [hc]
  · simp [hc]

theorem behindGroup?_cons_of_not_inner {c : Char} (h : isInner c = false) (r : Text) :
    behindGroup? (c :: r) = none := by
  rw [behindGroup?, List.dropWhile_cons_of_neg (by simp [h]),
    List.takeWhile_cons_of_neg (by simp [h])]
  split <;> rfl

theorem behindGroup?_cons_eq_none_iff {c : Char} (h : isInner c = true) {r : Text} :
    behindGroup? (c :: r) = none ↔ (r.dropWhile isInner).head? ≠ some '>' := by
  rw [behindGroup?, List.dropWhile_cons_of_pos h, List.takeWhile_cons_of_pos h]
  rcases r.dropWhile isInner with _ | ⟨d, rest⟩
  · simp
  · by_cases hd : d = '>'
    · simp [hd]
    · simp only [List.head?_cons, ne_eq, Option.some.injEq, hd, not_false_eq_true, iff_true]
      split
      next heq => exact absurd (List.cons.inj heq).1 hd
      next => rfl

/-- Whether a text, read in a given state, completes a group: one that is open when it begins, or
one of its own. -/
theorem after_eq_found_iff (t : Text) :
    (outside.after t = found ↔ removeGroup? t ≠ none) ∧
    (opened.after t = found ↔ behindGroup? t ≠ none ∨ removeGroup? t ≠ none) ∧
    (inside.after t = found ↔
      (t.dropWhile isInner).head? = some '>' ∨ removeGroup? t ≠ none) := by
  induction t with
  | nil => simp [removeGroup?, behindGroup?]
  | cons c r ih =>
    obtain ⟨houtside, hopened, hinside⟩ := ih
    have hremove := removeGroup?_cons_eq_none_iff (c := c) (r := r)
    by_cases hopen : c = '<'
    · subst hopen
      have hbehind := behindGroup?_cons_of_not_inner (c := '<') (by decide) r
      have hdrop : ('<' :: r).dropWhile isInner = '<' :: r := rfl
      have hgroup : opened.after r = found ↔ removeGroup? ('<' :: r) ≠ none := by
        rw [hopened, ne_eq, ne_eq, ne_eq, hremove, Classical.not_and_iff_not_or_not]
        simp
      simp [step, hgroup, hbehind, hdrop]
    · by_cases hclose : c = '>'
      · subst hclose
        have hbehind := behindGroup?_cons_of_not_inner (c := '>') (by decide) r
        have hdrop : ('>' :: r).dropWhile isInner = '>' :: r := rfl
        simp [step, hremove, hbehind, hdrop, houtside]
      · have hinner : isInner c = true := isInner_iff.2 ⟨hopen, hclose⟩
        have hbehind := behindGroup?_cons_eq_none_iff hinner (r := r)
        have hdrop : (c :: r).dropWhile isInner = r.dropWhile isInner :=
          List.dropWhile_cons_of_pos hinner
        simp [step, hopen, hclose, hremove, hbehind, hdrop, houtside, hinside]

/-- A text has no group exactly if none is complete at its end. -/
theorem removeGroup?_eq_none_iff {t : Text} :
    removeGroup? t = none ↔ outside.after t ≠ found := by
  rw [ne_eq, (after_eq_found_iff t).1, ne_eq, Classical.not_not]

/-- A text that a group comes no further in than in a stripped text is stripped. -/
theorem strip_eq_self_of_rank_le {t u : Text}
    (h : (outside.after u).rank ≤ (outside.after (strip t)).rank) : strip u = u := by
  rw [strip_eq_self_iff, removeGroup?_eq_none_iff]
  have hstrip := removeGroup?_eq_none_iff.1 (removeGroup?_strip t)
  intro hfound
  rw [hfound] at h
  exact hstrip (eq_found_of_rank h)

/-! ### Removal in front of other text -/

/-- What is removed is an opening bracket, other characters behind it and a closing bracket. -/
theorem exists_of_removeGroup? {t rest : Text} (h : removeGroup? t = some rest) :
    ∃ before group behind, t = before ++ '<' :: (group ++ '>' :: behind) ∧
      rest = before ++ behind ∧ group ≠ [] ∧ ∀ c ∈ group, isInner c = true := by
  induction t generalizing rest with
  | nil => simp [removeGroup?] at h
  | cons c r ih =>
    rw [removeGroup?] at h
    split at h
    next rest' hbehind =>
      obtain rfl := Option.some.inj h
      split at hbehind
      next hc =>
        obtain ⟨group, rfl, hne, hall⟩ := behindGroup?_eq_some_iff.1 hbehind
        exact ⟨[], group, _, by rw [hc]; rfl, rfl, hne, hall⟩
      next => cases hbehind
    next =>
      obtain ⟨rest', hr, rfl⟩ := Option.map_eq_some_iff.1 h
      obtain ⟨before, group, behind, rfl, rfl, hgroup⟩ := ih hr
      exact ⟨c :: before, group, behind, rfl, rfl, hgroup⟩

theorem strip_sublist (t : Text) : (strip t).Sublist t := by
  fun_induction strip t with
  | case1 t rest h ih =>
    obtain ⟨before, group, behind, rfl, rfl, -⟩ := exists_of_removeGroup? h
    refine ih.trans (List.Sublist.append_left ?_ before)
    refine List.Sublist.cons _ ?_
    exact (List.sublist_cons_self _ behind).trans (List.sublist_append_right group _)
  | case2 => exact .refl _

/-- A text without opening brackets has no type arguments. -/
theorem strip_of_not_mem {t : Text} (h : '<' ∉ t) : strip t = t := by
  refine strip_of_removeGroup?_eq_none (Option.eq_none_iff_forall_ne_some.2 fun rest hrest => ?_)
  obtain ⟨before, group, behind, rfl, -⟩ := exists_of_removeGroup? hrest
  exact h (List.mem_append_right _ List.mem_cons_self)

theorem behindGroup?_append {t rest : Text} (h : behindGroup? t = some rest) (u : Text) :
    behindGroup? (t ++ u) = some (rest ++ u) := by
  obtain ⟨group, rfl, hgroup⟩ := behindGroup?_eq_some_iff.1 h
  exact behindGroup?_eq_some_iff.2 ⟨group, by simp, hgroup⟩

/-- Text that is added behind a bracket completes no group that the bracket ends. -/
theorem behindGroup?_append_eq_none {t : Text} (h : behindGroup? t = none) {c : Char} (hc : c ∈ t)
    (hinner : isInner c = false) (u : Text) : behindGroup? (t ++ u) = none := by
  rw [Option.eq_none_iff_forall_ne_some]
  intro rest hsome
  obtain ⟨group, heq, hne, hall⟩ := behindGroup?_eq_some_iff.1 hsome
  have houtside : c ∉ group := fun hmem => by rw [hall c hmem] at hinner; cases hinner
  rcases List.append_eq_append_iff.1 heq with ⟨more, hgroup, -⟩ | ⟨more, ht, hmore⟩
  · exact houtside (hgroup ▸ List.mem_append_left _ hc)
  · rcases more with _ | ⟨d, more⟩
    · rw [List.append_nil] at ht
      exact houtside (ht ▸ hc)
    · obtain ⟨rfl, -⟩ := List.cons.inj hmore
      rw [behindGroup?_eq_some_iff.2 ⟨group, ht, hne, hall⟩] at h
      cases h

/-- The first group of a text is the first group also where the text goes on. -/
theorem removeGroup?_append {t rest : Text} (h : removeGroup? t = some rest) (u : Text) :
    removeGroup? (t ++ u) = some (rest ++ u) := by
  induction t generalizing rest with
  | nil => simp [removeGroup?] at h
  | cons c r ih =>
    rw [List.cons_append, removeGroup?]
    rw [removeGroup?] at h
    by_cases hc : c = '<'
    · simp only [if_pos hc] at h ⊢
      rcases hbehind : behindGroup? r with _ | r'
      · rw [hbehind] at h
        obtain ⟨r', hr, rfl⟩ := Option.map_eq_some_iff.1 h
        obtain ⟨before, group, behind, heq, -⟩ := exists_of_removeGroup? hr
        have hmem : '<' ∈ r := by
          rw [heq]
          exact List.mem_append_right _ List.mem_cons_self
        rw [behindGroup?_append_eq_none hbehind hmem rfl u, ih hr]
        rfl
      · rw [hbehind] at h
        obtain rfl := Option.some.inj h
        rw [behindGroup?_append hbehind u]
    · simp only [if_neg hc] at h ⊢
      obtain ⟨r', hr, rfl⟩ := Option.map_eq_some_iff.1 h
      rw [ih hr]
      rfl

/-- Groups may be removed from the first part of a text before they are removed from the whole. -/
theorem strip_strip_append (t u : Text) : strip (strip t ++ u) = strip (t ++ u) := by
  fun_induction strip t with
  | case1 t rest h ih =>
    rw [ih]
    conv => rhs; rw [strip]
    rw [removeGroup?_append h u]
  | case2 => rfl

/-- Behind a text without a group, at the end of which no bracket is open, groups are those of what
follows. For an open bracket the first closing one may not follow with only other characters
before it. -/
theorem removeGroup?_append_of_after (u : Text) {s : GroupState} {t : Text}
    (h : s.after t = outside) :
    removeGroup? (t ++ u) = (removeGroup? u).map (t ++ ·) ∧
      (s = opened → behindGroup? (t ++ u) = none) ∧
      (s = inside → ((t ++ u).dropWhile isInner).head? ≠ some '>') := by
  induction t generalizing s with
  | nil =>
    obtain rfl : s = outside := h
    simp
  | cons c t ih =>
    obtain ⟨hremove, hopened, hinside⟩ := ih h
    have hcons : (c = '<' → behindGroup? (t ++ u) = none) →
        removeGroup? (c :: t ++ u) = (removeGroup? u).map (c :: t ++ ·) := by
      intro hbehind
      rw [List.cons_append, removeGroup?, hremove]
      by_cases hc : c = '<'
      · simp only [if_pos hc, hbehind hc, Option.map_map]
        rfl
      · simp only [if_neg hc, Option.map_map]
        rfl
    have hs : s ≠ found := by
      rintro rfl
      rw [after_found] at h
      cases h
    by_cases hopen : c = '<'
    · subst hopen
      have hstep : s.step '<' = opened := by cases s <;> simp_all [step]
      refine ⟨hcons fun _ => hopened hstep, fun _ => ?_, fun _ => ?_⟩
      · exact behindGroup?_cons_of_not_inner (by decide) (t ++ u)
      · simp [isInner]
    · by_cases hclose : c = '>'
      · subst hclose
        refine ⟨hcons fun hc => absurd hc hopen, fun _ => ?_, fun hinner => ?_⟩
        · exact behindGroup?_cons_of_not_inner (by decide) (t ++ u)
        · rw [hinner, after_cons, show inside.step '>' = found from rfl, after_found] at h
          cases h
      · have hinner : isInner c = true := isInner_iff.2 ⟨hopen, hclose⟩
        have hstep : s ≠ outside → s.step c = inside := by
          intro hne
          cases s <;> simp_all [step]
        refine ⟨hcons fun hc => absurd hc hopen, fun hs' => ?_, fun hs' => ?_⟩
        · exact (behindGroup?_cons_eq_none_iff hinner).2 (hinside (hstep (by simp [hs'])))
        · rw [List.cons_append, List.dropWhile_cons_of_pos hinner]
          exact hinside (hstep (by simp [hs']))

/-- Type arguments are removed by themselves from what follows a text at the end of which no
bracket is open. -/
theorem strip_append {t : Text} (h : outside.after (strip t) = outside) (u : Text) :
    strip (t ++ u) = strip t ++ strip u := by
  rw [← strip_strip_append]
  generalize strip t = s at h
  fun_induction strip u with
  | case1 u rest hrest ih =>
    have hremove : removeGroup? (s ++ u) = some (s ++ rest) := by
      rw [(removeGroup?_append_of_after u h).1, hrest, Option.map_some]
    rw [← ih, strip, hremove]
  | case2 u hnone =>
    refine strip_of_removeGroup?_eq_none ?_
    rw [(removeGroup?_append_of_after u h).1, hnone, Option.map_none]

/-! ### Text outside groups -/

/-- The text outside all groups, where a closing bracket ends each group and every group has a
character of its own. For each group that is open, the innermost first, `groups` tells whether it
has had a character of its own. -/
def outsideFrom? : (groups : List Bool) → Text → Option Text
  | [], [] => some []
  | _ :: _, [] => none
  | [], c :: r =>
    if c = '<' then outsideFrom? [false] r
    else if c = '>' then none
    else (outsideFrom? [] r).map (c :: ·)
  | own :: outer, c :: r =>
    if c = '<' then outsideFrom? (false :: own :: outer) r
    else if c = '>' then if own then outsideFrom? outer r else none
    else outsideFrom? (true :: outer) r

/-- The text outside all groups. There is none unless brackets are balanced and every group has a
character that is in no smaller group. -/
def outside? (t : Text) : Option Text := outsideFrom? [] t

/-- Characters in a group are not outside, but they are characters of its own. -/
theorem outsideFrom?_group {group : Text} (hne : group ≠ [])
    (hall : ∀ c ∈ group, isInner c = true) (own : Bool) (groups : List Bool) (r : Text) :
    outsideFrom? (own :: groups) (group ++ r) = outsideFrom? (true :: groups) r := by
  induction group generalizing own with
  | nil => exact absurd rfl hne
  | cons c group ih =>
    obtain ⟨hc, hgroup⟩ := List.forall_mem_cons.1 hall
    obtain ⟨hopen, hclose⟩ := isInner_iff.1 hc
    rw [List.cons_append, outsideFrom?, if_neg hopen, if_neg hclose]
    rcases group with _ | ⟨d, group⟩
    · rfl
    · exact ih (List.cons_ne_nil d group) hgroup true

theorem outsideFrom?_append_congr {t u : Text}
    (h : ∀ groups, outsideFrom? groups t = outsideFrom? groups u) (before : Text)
    (groups : List Bool) :
    outsideFrom? groups (before ++ t) = outsideFrom? groups (before ++ u) := by
  induction before generalizing groups with
  | nil => exact h groups
  | cons c before ih =>
    cases groups with
    | nil => simp only [List.cons_append, outsideFrom?, ih]
    | cons own outer => simp only [List.cons_append, outsideFrom?, ih]

/-- Text without brackets in front of a text is outside all groups. -/
theorem outside?_append {t : Text} (h : ∀ c ∈ t, isInner c = true) (u : Text) :
    outside? (t ++ u) = (outside? u).map (t ++ ·) := by
  induction t with
  | nil => simp
  | cons c t ih =>
    obtain ⟨hc, ht⟩ := List.forall_mem_cons.1 h
    obtain ⟨hopen, hclose⟩ := isInner_iff.1 hc
    rw [List.cons_append, outside?, outsideFrom?, if_neg hopen, if_neg hclose, ← outside?, ih ht,
      Option.map_map]
    rfl

/-- A text with nothing outside its groups begins with one. -/
theorem eq_nil_or_of_outside?_eq_nil {t : Text} (h : outside? t = some []) :
    t = [] ∨ ∃ r, t = '<' :: r := by
  rcases t with _ | ⟨c, r⟩
  · exact .inl rfl
  · rw [outside?, outsideFrom?] at h
    split at h
    next hopen => exact .inr ⟨r, by rw [hopen]⟩
    next =>
      split at h
      next => cases h
      next =>
        obtain ⟨_, -, hcons⟩ := Option.map_eq_some_iff.1 h
        cases hcons

/-- Removing a group leaves the text outside all groups as it is. -/
theorem outside?_of_removeGroup? {t rest : Text} (h : removeGroup? t = some rest) :
    outside? rest = outside? t := by
  obtain ⟨before, group, behind, rfl, rfl, hne, hall⟩ := exists_of_removeGroup? h
  refine outsideFrom?_append_congr (fun groups => ?_) before []
  symm
  calc outsideFrom? groups ('<' :: (group ++ '>' :: behind))
      = outsideFrom? (false :: groups) (group ++ '>' :: behind) := by cases groups <;> rfl
    _ = outsideFrom? (true :: groups) ('>' :: behind) := outsideFrom?_group hne hall false groups _
    _ = outsideFrom? groups behind := rfl

theorem outside?_strip (t : Text) : outside? (strip t) = outside? t := by
  fun_induction strip t with
  | case1 t rest h ih => rw [ih, outside?_of_removeGroup? h]
  | case2 => rfl

/-- Where a group is open and all brackets are closed in the end, a group is completed. -/
theorem after_eq_found_of_outsideFrom? {own : Bool} {groups : List Bool} {t rest : Text}
    (h : outsideFrom? (own :: groups) t = some rest) :
    (if own then inside else opened).after t = found := by
  induction t generalizing own groups with
  | nil => simp [outsideFrom?] at h
  | cons c t ih =>
    rw [outsideFrom?] at h
    split at h
    next hopen =>
      subst hopen
      cases own <;> exact ih h
    next hopen =>
      split at h
      next hclose =>
        subst hclose
        cases own
        · simp at h
        · exact after_found t
      next hclose =>
        have hstep : (if own then inside else opened).step c = inside := by
          cases own <;> simp [step, hopen, hclose]
        rw [after_cons, hstep]
        exact ih h

/-- A text without groups whose brackets are balanced is outside all groups. -/
theorem eq_of_outside?_of_after {t rest : Text} (h : outside? t = some rest)
    (hgroup : outside.after t ≠ found) : t = rest ∧ ∀ c ∈ rest, isInner c = true := by
  induction t generalizing rest with
  | nil =>
    obtain rfl : [] = rest := by simpa [outside?, outsideFrom?] using h
    simp
  | cons c t ih =>
    rw [outside?, outsideFrom?] at h
    split at h
    next hopen =>
      subst hopen
      exact absurd (after_eq_found_of_outsideFrom? h) hgroup
    next hopen =>
      split at h
      next => cases h
      next hclose =>
        obtain ⟨rest', hrest, rfl⟩ := Option.map_eq_some_iff.1 h
        have hstep : outside.step c = outside := by simp [step, hopen, hclose]
        rw [after_cons, hstep] at hgroup
        obtain ⟨rfl, hall⟩ := ih hrest hgroup
        exact ⟨rfl, List.forall_mem_cons.2 ⟨isInner_iff.2 ⟨hopen, hclose⟩, hall⟩⟩

/-- Where brackets are balanced and every group has a character of its own, the text outside all
groups is left, and it has no brackets. -/
theorem strip_eq_of_outside? {t rest : Text} (h : outside? t = some rest) :
    strip t = rest ∧ ∀ c ∈ rest, isInner c = true := by
  rw [← outside?_strip] at h
  exact eq_of_outside?_of_after h (removeGroup?_eq_none_iff.1 (removeGroup?_strip t))

example : outside? "a.Map<b.K,a.List<b.V>>[]".toList = some "a.Map[]".toList := by decide

example : outside? "a.B<<c.D>>".toList = none := by decide

end ApiSurface
