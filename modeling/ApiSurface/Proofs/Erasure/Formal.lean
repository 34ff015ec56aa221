import ApiSurface.Erasure.Formal
import Mathlib.Data.List.Nodup

/-!
# Formal parameters replaced in turn and all at once

The parameters of a type are replaced position by position, each in the text that the positions
before it have left. That is what replacing all of them at once gives as long as no position finds
its placeholder more often than the text had it at first (`replaceInTurn_eq_together`). In texts
whose braces pair off, replacing in turn is replacing at once by arguments that the later positions
have rewritten (`replaceInTurn_eq_together_rewritten`).
-/

namespace ApiSurface

open Text

/-! ### Replacing all at once -/

/-- The text with every occurrence of the first part of a rule, found from left to right, replaced
by the second part. What is put in is not looked at again. -/
def replaceTogether (rules : List (Text × Text)) (t : Text) : Text :=
  match t with
  | [] => []
  | c :: r =>
    match rules.find? fun rule => rule.1 <+: c :: r with
    | some rule => rule.2 ++ replaceTogether rules (r.drop (rule.1.length - 1))
    | none => c :: replaceTogether rules r
termination_by t.length
decreasing_by
  · rw [List.length_drop, List.length_cons]
    omega
  · exact Nat.lt_succ_self _

/-- A text in braces that has none inside. -/
def IsBraced (p : Text) : Prop := ∃ name, p = '{' :: name ++ ['}'] ∧ '{' ∉ name ∧ '}' ∉ name

/-- The rules replace texts in braces, each text once. -/
structure ReplacesFormals (rules : List (Text × Text)) : Prop where
  /-- What is replaced stands in braces. -/
  braced : ∀ rule ∈ rules, IsBraced rule.1
  /-- No two rules replace one text. -/
  nodup : (rules.map (·.1)).Nodup

section Together

variable {rules : List (Text × Text)} {rule : Text × Text} {p q t u w : Text} {c : Char}

theorem IsBraced.head (hp : IsBraced p) (h : p <+: c :: t) : c = '{' := by
  obtain ⟨name, rfl, -⟩ := hp
  exact (List.cons_prefix_cons.1 h).1.symm

/-- Two texts in braces at the start of one text are the same. -/
theorem IsBraced.eq_of_starts (hp : IsBraced p) (hq : IsBraced q) (h : p <+: t) (h' : q <+: t) :
    p = q := by
  obtain ⟨name, rfl, -, hname⟩ := hp
  obtain ⟨name', rfl, -, hname'⟩ := hq
  obtain ⟨s, rfl⟩ := h
  obtain ⟨s', heq⟩ := h'
  have hcut : cutFirst? '}' (name ++ '}' :: s) = some (name', s') :=
    cutFirst?_eq_some_iff.2 ⟨by simpa using heq.symm, hname'⟩
  rw [cutFirst?_eq_some_iff.2 ⟨rfl, hname⟩] at hcut
  cases hcut
  rfl

/-- Without rules nothing is replaced. -/
theorem replaceTogether_nil (t : Text) : replaceTogether [] t = t := by
  induction t with
  | nil => rw [replaceTogether]
  | cons c t ih =>
    rw [replaceTogether, List.find?_nil]
    exact congrArg (c :: ·) ih

theorem replaceTogether_cons (h : ∀ rule ∈ rules, ¬ rule.1 <+: c :: t) :
    replaceTogether rules (c :: t) = c :: replaceTogether rules t := by
  have hnone : (rules.find? fun rule => rule.1 <+: c :: t) = none :=
    List.find?_eq_none.2 fun rule hrule => by simpa using h rule hrule
  rw [replaceTogether, hnone]

/-- A character that no rule can start with stays. -/
theorem replaceTogether_cons_of_ne (h : ∀ rule ∈ rules, IsBraced rule.1) (hc : c ≠ '{') (t : Text) :
    replaceTogether rules (c :: t) = c :: replaceTogether rules t :=
  replaceTogether_cons fun rule hrule hstart => hc ((h rule hrule).head hstart)

theorem replaceTogether_append_of_not_mem (h : ∀ rule ∈ rules, IsBraced rule.1) (hw : '{' ∉ w)
    (t : Text) : replaceTogether rules (w ++ t) = w ++ replaceTogether rules t := by
  induction w with
  | nil => rfl
  | cons c w ih =>
    rw [List.mem_cons, not_or] at hw
    rw [List.cons_append, replaceTogether_cons_of_ne h (Ne.symm hw.1), ih hw.2, List.cons_append]

theorem replaceTogether_of_mem (h : ReplacesFormals rules) (hrule : rule ∈ rules) (t : Text) :
    replaceTogether rules (rule.1 ++ t) = rule.2 ++ replaceTogether rules t := by
  obtain ⟨name, hname, -⟩ := h.braced rule hrule
  have hfind : (rules.find? fun r => r.1 <+: rule.1 ++ t) = some rule := by
    obtain ⟨found, hfound⟩ : ∃ found, (rules.find? fun r => r.1 <+: rule.1 ++ t) = some found := by
      refine Option.isSome_iff_exists.1 (List.find?_isSome.2 ⟨rule, hrule, ?_⟩)
      simp
    have hmem := List.mem_of_find?_eq_some hfound
    have hprefix : found.1 <+: rule.1 ++ t := by simpa using List.find?_some hfound
    have hsame : found.1 = rule.1 := (h.braced _ hmem).eq_of_starts (h.braced _ hrule) hprefix
      (List.prefix_append _ _)
    rw [hfound, List.inj_on_of_nodup_map h.nodup hmem hrule hsame]
  have hdrop : (name ++ '}' :: t).drop (rule.1.length - 1) = t := by simp [hname]
  have heq : rule.1 ++ t = '{' :: (name ++ '}' :: t) := by simp [hname]
  rw [heq] at hfind ⊢
  rw [replaceTogether, hfind]
  exact congrArg (rule.2 ++ replaceTogether rules ·) hdrop

/-- A text in braces that no rule replaces stays. -/
theorem replaceTogether_braced (h : ∀ rule ∈ rules, IsBraced rule.1) (hp : IsBraced p)
    (hmem : ∀ rule ∈ rules, rule.1 ≠ p) (t : Text) :
    replaceTogether rules (p ++ t) = p ++ replaceTogether rules t := by
  have hstart : ∀ rule ∈ rules, ¬ rule.1 <+: p ++ t := fun rule hrule hprefix =>
    hmem rule hrule ((h rule hrule).eq_of_starts hp hprefix (List.prefix_append _ _))
  obtain ⟨name, rfl, hopen, -⟩ := hp
  have hinside : '{' ∉ name ++ ['}'] := by simp [hopen]
  show replaceTogether rules ('{' :: (name ++ ['}'] ++ t)) = '{' :: (name ++ ['}'] ++ _)
  rw [replaceTogether_cons (t := name ++ ['}'] ++ t) hstart,
    replaceTogether_append_of_not_mem h hinside]

/-- A rule applies at the start of a text, or none does and the first character stays. -/
theorem together_induction {motive : Text → Prop} (rules : List (Text × Text))
    (hne : ∀ rule ∈ rules, rule.1 ≠ []) (nil : motive [])
    (found : ∀ rule ∈ rules, ∀ t, motive t → motive (rule.1 ++ t))
    (cons : ∀ c t, (∀ rule ∈ rules, ¬ rule.1 <+: c :: t) → motive t → motive (c :: t))
    (t : Text) : motive t := by
  induction hn : t.length using Nat.strongRecOn generalizing t with
  | ind n ih =>
    cases t with
    | nil => exact nil
    | cons c r =>
      by_cases hnone : ∀ rule ∈ rules, ¬ rule.1 <+: c :: r
      · exact cons c r hnone (ih r.length (by rw [← hn]; exact Nat.lt_succ_self _) r rfl)
      · push Not at hnone
        obtain ⟨rule, hmem, rest, heq⟩ := hnone
        rw [← heq]
        refine found rule hmem rest (ih rest.length ?_ rest rfl)
        have hpos := List.length_pos_of_ne_nil (hne rule hmem)
        rw [← hn, ← heq, List.length_append]
        omega

theorem IsBraced.ne_nil (hp : IsBraced p) : p ≠ [] := by
  obtain ⟨name, rfl, -⟩ := hp
  exact List.cons_ne_nil _ _

theorem ReplacesFormals.tail (h : ReplacesFormals (rule :: rules)) : ReplacesFormals rules where
  braced := (List.forall_mem_cons.1 h.braced).2
  nodup := (List.nodup_cons.1 h.nodup).2

/-- What the rules put in does not matter. -/
theorem ReplacesFormals.of_map_eq {rules' : List (Text × Text)} (h : ReplacesFormals rules)
    (heq : rules'.map (·.1) = rules.map (·.1)) : ReplacesFormals rules' where
  braced := by
    intro rule hrule
    obtain ⟨r, hr, hsame⟩ := List.mem_map.1 (heq ▸ List.mem_map_of_mem hrule)
    exact hsame ▸ h.braced r hr
  nodup := heq ▸ h.nodup

theorem ReplacesFormals.ne_head (h : ReplacesFormals (rule :: rules)) :
    ∀ other ∈ rules, other.1 ≠ rule.1 := fun other hother heq =>
  (List.nodup_cons.1 h.nodup).1 (List.mem_map.2 ⟨other, hother, heq⟩)

theorem ReplacesFormals.singleton (hp : IsBraced p) (a : Text) : ReplacesFormals [(p, a)] where
  braced := List.forall_mem_singleton.2 hp
  nodup := List.nodup_singleton _

/-- Replacing one placeholder is replacing by one rule. -/
theorem replaceAll_eq_together (hp : IsBraced p) (a t : Text) :
    replaceAll p a t = replaceTogether [(p, a)] t := by
  fun_induction replaceAll p a t with
  | case1 => rw [replaceTogether]
  | case2 c r h => exact absurd h hp.ne_nil
  | case3 c r _ rest h ih =>
    rw [after?_eq_some_iff.1 h, ih]
    exact (replaceTogether_of_mem (.singleton hp a) List.mem_cons_self rest).symm
  | case4 c r _ h ih =>
    have hstart : ¬ p <+: c :: r := by
      rintro ⟨rest, heq⟩
      rw [after?_eq_some_iff.2 heq.symm] at h
      cases h
    rw [ih, replaceTogether_cons (List.forall_mem_singleton.2 hstart)]

/-! ### Counting placeholders -/

/-- How often a text stands in another one, at whatever places. -/
def occurrences (p : Text) : Text → Nat
  | [] => 0
  | c :: t => (if p <+: c :: t then 1 else 0) + occurrences p t

theorem le_occurrences_append (p t u : Text) :
    occurrences p t + occurrences p u ≤ occurrences p (t ++ u) := by
  induction t with
  | nil => exact Nat.le_of_eq (Nat.zero_add _)
  | cons c t ih =>
    have hstart : p <+: c :: t → p <+: c :: (t ++ u) := fun h => h.trans (List.prefix_append _ u)
    rw [List.cons_append, occurrences, occurrences]
    by_cases h : p <+: c :: t
    · rw [if_pos h, if_pos (hstart h)]
      omega
    · rw [if_neg h]
      omega

theorem occurrences_of_not_mem (hp : IsBraced p) (hw : '{' ∉ w) (t : Text) :
    occurrences p (w ++ t) = occurrences p t := by
  induction w with
  | nil => rfl
  | cons c w ih =>
    rw [List.mem_cons, not_or] at hw
    rw [List.cons_append, occurrences, if_neg fun h => hw.1 (hp.head h).symm, ih hw.2,
      Nat.zero_add]

/-- A text in braces is found in front of another text if it stands there. -/
theorem occurrences_braced (hp : IsBraced p) (hq : IsBraced q) (t : Text) :
    occurrences p (q ++ t) = (if p = q then 1 else 0) + occurrences p t := by
  have hstart : p <+: q ++ t ↔ p = q := by
    constructor
    · exact fun h => hp.eq_of_starts hq h (List.prefix_append q t)
    · rintro rfl
      exact List.prefix_append p t
  obtain ⟨name, rfl, hopen, -⟩ := hq
  have hinside : '{' ∉ name ++ ['}'] := by simp [hopen]
  show occurrences p ('{' :: (name ++ ['}'] ++ t)) = _
  rw [occurrences, occurrences_of_not_mem hp hinside]
  simp only [← hstart]
  rfl

/-- A character in front begins no text that is not found more often for it. -/
theorem not_isPrefix_of_occurrences_cons {c : Char} {u : Text}
    (hle : occurrences p u ≤ occurrences p t) (h : occurrences p (c :: t) = occurrences p u) :
    ¬ p <+: c :: t ∧ occurrences p t = occurrences p u := by
  rw [occurrences] at h
  by_cases hstart : p <+: c :: t
  · rw [if_pos hstart] at h
    omega
  · rw [if_neg hstart] at h
    exact ⟨hstart, by omega⟩

/-- Where a text that is put in front brings no placeholder along, it stays and so does what is
made of the rest. -/
theorem replaceTogether_append_of_occurrences {a : Text}
    (h : ∀ rule ∈ rules, occurrences rule.1 (a ++ t) = occurrences rule.1 t) :
    replaceTogether rules (a ++ t) = a ++ replaceTogether rules t := by
  induction a with
  | nil => rfl
  | cons c a ih =>
    have hrest : ∀ rule ∈ rules, ¬ rule.1 <+: c :: (a ++ t) ∧
        occurrences rule.1 (a ++ t) = occurrences rule.1 t := fun rule hrule =>
      not_isPrefix_of_occurrences_cons
        (Nat.le_trans (Nat.le_add_left ..) (le_occurrences_append rule.1 a t)) (h rule hrule)
    rw [List.cons_append, replaceTogether_cons fun r hr => (hrest r hr).1,
      ih fun r hr => (hrest r hr).2, List.cons_append]

/-- The placeholders that a text has stay where another one is replaced. -/
theorem le_occurrences_replaceTogether {a : Text} (hp : IsBraced p) (hq : IsBraced q) (hne : q ≠ p)
    (t : Text) : occurrences q t ≤ occurrences q (replaceTogether [(p, a)] t) := by
  have hrules : ReplacesFormals [(p, a)] := .singleton hp a
  induction t using together_induction [(p, a)]
    (List.forall_mem_singleton.2 hp.ne_nil) with
  | nil => exact Nat.zero_le _
  | found rule hrule t ih =>
    obtain rfl := List.mem_singleton.1 hrule
    rw [replaceTogether_of_mem hrules hrule, occurrences_braced hq hp, if_neg hne, Nat.zero_add]
    have happend := le_occurrences_append q a (replaceTogether [(p, a)] t)
    show occurrences q t ≤ occurrences q (a ++ replaceTogether [(p, a)] t)
    omega
  | cons c t hstart ih =>
    have hkeep : q <+: c :: t → q <+: c :: replaceTogether [(p, a)] t := by
      rintro ⟨rest, heq⟩
      rw [← replaceTogether_cons hstart, ← heq,
        replaceTogether_braced hrules.braced hq (by simpa using hne.symm)]
      exact List.prefix_append _ _
    rw [replaceTogether_cons hstart, occurrences, occurrences]
    by_cases h : q <+: c :: t
    · rw [if_pos h, if_pos (hkeep h)]
      omega
    · rw [if_neg h]
      omega

/-- What is put in for a placeholder brings no other one along if there are no more of that. -/
theorem occurrences_of_replaced {a : Text} (hp : IsBraced p) (hq : IsBraced q) (hne : q ≠ p)
    (h : occurrences q (a ++ replaceTogether [(p, a)] t) = occurrences q (p ++ t)) :
    occurrences q (replaceTogether [(p, a)] t) = occurrences q t ∧
      occurrences q (a ++ replaceTogether [(p, a)] t) =
        occurrences q (replaceTogether [(p, a)] t) := by
  rw [occurrences_braced hq hp, if_neg hne] at h
  have happend := le_occurrences_append q a (replaceTogether [(p, a)] t)
  have hrest : occurrences q t ≤ occurrences q (replaceTogether [(p, a)] t) :=
    le_occurrences_replaceTogether hp hq hne t
  omega

/-- A placeholder more is replaced at once with the others, if replacing it first leaves every
other one as often as it was. -/
theorem replaceTogether_replaced {a : Text} (h : ReplacesFormals ((p, a) :: rules))
    (hcount : ∀ rule ∈ rules,
      occurrences rule.1 (replaceTogether [(p, a)] t) = occurrences rule.1 t) :
    replaceTogether rules (replaceTogether [(p, a)] t) = replaceTogether ((p, a) :: rules) t := by
  obtain ⟨hp, hbraced⟩ := List.forall_mem_cons.1 h.braced
  have hrules := h.tail
  have hother := h.ne_head
  have hone : ReplacesFormals [(p, a)] := .singleton hp a
  induction t using together_induction ((p, a) :: rules)
    (fun rule hrule => (h.braced rule hrule).ne_nil) with
  | nil => simp only [replaceTogether]
  | found rule hmem t ih =>
    rw [replaceTogether_of_mem h hmem]
    rcases List.mem_cons.1 hmem with rfl | hrule
    · -- nothing of what is put in belongs to a placeholder, or there would be one more
      rw [replaceTogether_of_mem hone List.mem_cons_self] at hcount ⊢
      dsimp only at hcount ⊢
      have hequal := fun rule hrule =>
        occurrences_of_replaced hp (hbraced rule hrule) (hother rule hrule) (hcount rule hrule)
      rw [replaceTogether_append_of_occurrences fun r hr => (hequal r hr).2,
        ih fun r hr => (hequal r hr).1]
    · have hstays : replaceTogether [(p, a)] (rule.1 ++ t) =
          rule.1 ++ replaceTogether [(p, a)] t :=
        replaceTogether_braced hone.braced (hbraced rule hrule)
          (List.forall_mem_singleton.2 (hother rule hrule).symm) t
      rw [hstays] at hcount ⊢
      rw [replaceTogether_of_mem hrules hrule, ih fun r hr => ?_]
      have htotal := hcount r hr
      rw [occurrences_braced (hbraced r hr) (hbraced rule hrule),
        occurrences_braced (hbraced r hr) (hbraced rule hrule)] at htotal
      omega
  | cons c t hstart ih =>
    have hfirst : replaceTogether [(p, a)] (c :: t) = c :: replaceTogether [(p, a)] t :=
      replaceTogether_cons (List.forall_mem_singleton.2 (hstart _ List.mem_cons_self))
    rw [hfirst] at hcount ⊢
    have hequal : ∀ rule ∈ rules, ¬ rule.1 <+: c :: replaceTogether [(p, a)] t ∧
        occurrences rule.1 (replaceTogether [(p, a)] t) = occurrences rule.1 t := by
      intro rule hrule
      have hold : occurrences rule.1 (c :: t) = occurrences rule.1 t := by
        rw [occurrences, if_neg (hstart rule (List.mem_cons_of_mem _ hrule)), Nat.zero_add]
      exact not_isPrefix_of_occurrences_cons
        (le_occurrences_replaceTogether hp (hbraced rule hrule) (hother rule hrule) t)
        ((hcount rule hrule).trans hold)
    rw [replaceTogether_cons hstart, replaceTogether_cons fun r hr => (hequal r hr).1,
      ih fun r hr => (hequal r hr).2]

end Together

/-! ### Replacing in turn -/

/-- The text with the rules applied one after the other, each to what the ones before have left. -/
def replaceInTurn (rules : List (Text × Text)) (t : Text) : Text :=
  rules.foldl (fun t rule => replaceAll rule.1 rule.2 t) t

section InTurn

variable {rules : List (Text × Text)} {rule : Text × Text} {p a t u : Text}

/-- The placeholders that a text has stay where others are replaced in turn. -/
theorem le_occurrences_replaceInTurn (hp : IsBraced p)
    (h : ∀ rule ∈ rules, IsBraced rule.1 ∧ p ≠ rule.1) (t : Text) :
    occurrences p t ≤ occurrences p (replaceInTurn rules t) := by
  induction rules generalizing t with
  | nil => exact Nat.le_refl _
  | cons rule rules ih =>
    obtain ⟨⟨hrule, hne⟩, hrules⟩ := List.forall_mem_cons.1 h
    have hfirst := le_occurrences_replaceTogether (a := rule.2) hrule hp hne t
    rw [← replaceAll_eq_together hrule] at hfirst
    exact Nat.le_trans hfirst (ih hrules _)

/-- Replacing in turn is replacing at once, as long as every placeholder is found as often as it
was in the text at first. -/
theorem replaceInTurn_eq_together (h : ReplacesFormals rules)
    (hcount : ∀ before rule after, rules = before ++ rule :: after →
      occurrences rule.1 (replaceInTurn before t) = occurrences rule.1 t) :
    replaceInTurn rules t = replaceTogether rules t := by
  induction rules generalizing t with
  | nil => exact (replaceTogether_nil t).symm
  | cons rule rules ih =>
    obtain ⟨hp, hbraced⟩ := List.forall_mem_cons.1 h.braced
    -- the first rule leaves as many as there were: it takes none away, and no more come to light
    have hfirst : ∀ before r after, rules = before ++ r :: after →
        occurrences r.1 (replaceAll rule.1 rule.2 t) = occurrences r.1 t ∧
        occurrences r.1 (replaceInTurn before (replaceAll rule.1 rule.2 t)) =
          occurrences r.1 t := by
      intro before r after heq
      have hmem : r ∈ rules := by simp [heq]
      have htotal := hcount (rule :: before) r after (by rw [heq, List.cons_append])
      have hone := le_occurrences_replaceTogether (a := rule.2) hp (hbraced r hmem)
        (h.ne_head r hmem) t
      have hnodup : ∀ b ∈ before, IsBraced b.1 ∧ r.1 ≠ b.1 := by
        intro b hb
        refine ⟨hbraced b (by simp [heq, hb]), ?_⟩
        have hn := h.tail.nodup
        rw [heq, List.map_append, List.nodup_append] at hn
        exact fun hsame => hn.2.2 b.1 (List.mem_map_of_mem hb) r.1 (by simp) hsame.symm
      have hrest := le_occurrences_replaceInTurn (hbraced r hmem) hnodup
        (replaceAll rule.1 rule.2 t)
      rw [← replaceAll_eq_together hp] at hone
      have hstep : replaceInTurn (rule :: before) t =
          replaceInTurn before (replaceAll rule.1 rule.2 t) := rfl
      rw [hstep] at htotal
      omega
    calc replaceInTurn (rule :: rules) t
        = replaceInTurn rules (replaceAll rule.1 rule.2 t) := rfl
      _ = replaceTogether rules (replaceAll rule.1 rule.2 t) := by
        refine ih h.tail fun before r after heq => ?_
        obtain ⟨hone, hall⟩ := hfirst before r after heq
        rw [hall, hone]
      _ = replaceTogether (rule :: rules) t := by
        rw [replaceAll_eq_together hp]
        refine replaceTogether_replaced h fun r hr => ?_
        obtain ⟨before, after, heq⟩ := List.append_of_mem hr
        rw [← replaceAll_eq_together hp]
        exact (hfirst before r after heq).1

/-! ### Texts whose braces pair off -/

/-- A text in which every brace is one of a pair with none inside. -/
inductive Flat : Text → Prop where
  /-- The empty text. -/
  | nil : Flat []
  /-- A character outside braces. -/
  | plain {c : Char} {t : Text} : c ≠ '{' → c ≠ '}' → Flat t → Flat (c :: t)
  /-- A text in braces. -/
  | braced {p t : Text} : IsBraced p → Flat t → Flat (p ++ t)

/-- What follows a text whose braces pair off does not matter to it. -/
theorem replaceTogether_append (h : ReplacesFormals rules) (ht : Flat t) (u : Text) :
    replaceTogether rules (t ++ u) = replaceTogether rules t ++ replaceTogether rules u := by
  induction ht with
  | nil => rw [replaceTogether]; rfl
  | plain hopen _ _ ih =>
    rw [List.cons_append, replaceTogether_cons_of_ne h.braced hopen, ih,
      replaceTogether_cons_of_ne h.braced hopen, List.cons_append]
  | @braced p t hp _ ih =>
    rw [List.append_assoc]
    by_cases hmem : ∃ rule ∈ rules, rule.1 = p
    · obtain ⟨rule, hrule, rfl⟩ := hmem
      rw [replaceTogether_of_mem h hrule, replaceTogether_of_mem h hrule, ih, List.append_assoc]
    · push Not at hmem
      rw [replaceTogether_braced h.braced hp hmem, replaceTogether_braced h.braced hp hmem, ih,
        List.append_assoc]

/-- Replacing a placeholder first and the others then is replacing it at once with the others, by
an argument in which these are replaced. -/
theorem replaceTogether_replaceAll (h : ReplacesFormals ((p, a) :: rules)) (ha : Flat a)
    (ht : Flat t) : replaceTogether rules (replaceAll p a t) =
      replaceTogether ((p, replaceTogether rules a) :: rules) t := by
  have hp : IsBraced p := h.braced _ List.mem_cons_self
  have hone : ReplacesFormals [(p, a)] := .singleton hp a
  have hall : ReplacesFormals ((p, replaceTogether rules a) :: rules) := h.of_map_eq rfl
  rw [replaceAll_eq_together hp]
  induction ht with
  | nil => simp only [replaceTogether]
  | plain hopen _ _ ih =>
    rw [replaceTogether_cons_of_ne hone.braced hopen, replaceTogether_cons_of_ne h.tail.braced hopen,
      replaceTogether_cons_of_ne hall.braced hopen, ih]
  | @braced q t hq _ ih =>
    by_cases hqp : q = p
    · subst hqp
      rw [replaceTogether_of_mem hone List.mem_cons_self, replaceTogether_append h.tail ha, ih]
      exact (replaceTogether_of_mem hall List.mem_cons_self t).symm
    · rw [replaceTogether_braced hone.braced hq (List.forall_mem_singleton.2 (Ne.symm hqp))]
      by_cases hmem : ∃ rule ∈ rules, rule.1 = q
      · obtain ⟨rule, hrule, rfl⟩ := hmem
        rw [replaceTogether_of_mem h.tail hrule, ih,
          replaceTogether_of_mem hall (List.mem_cons_of_mem _ hrule)]
      · push Not at hmem
        rw [replaceTogether_braced h.tail.braced hq hmem, ih, replaceTogether_braced hall.braced hq
          (List.forall_mem_cons.2 ⟨Ne.symm hqp, hmem⟩)]

theorem Flat.append (ht : Flat t) (hu : Flat u) : Flat (t ++ u) := by
  induction ht with
  | nil => exact hu
  | plain hopen hclose _ ih => exact .plain hopen hclose ih
  | braced hp _ ih =>
    rw [List.append_assoc]
    exact .braced hp ih

/-- Braces pair off again where placeholders give way to texts in which they do. -/
theorem Flat.replaceAll (hp : IsBraced p) (ha : Flat a) (ht : Flat t) :
    Flat (Text.replaceAll p a t) := by
  have hone : ReplacesFormals [(p, a)] := .singleton hp a
  rw [replaceAll_eq_together hp]
  induction ht with
  | nil =>
    rw [replaceTogether]
    exact .nil
  | plain hopen hclose _ ih =>
    rw [replaceTogether_cons_of_ne hone.braced hopen]
    exact .plain hopen hclose ih
  | @braced q t hq _ ih =>
    by_cases hqp : q = p
    · subst hqp
      rw [replaceTogether_of_mem hone List.mem_cons_self]
      exact ha.append ih
    · rw [replaceTogether_braced hone.braced hq (List.forall_mem_singleton.2 (Ne.symm hqp))]
      exact .braced hq ih

/-- The rules, each with its argument as the rules after it leave it. -/
def rewriteInTurn : List (Text × Text) → List (Text × Text)
  | [] => []
  | rule :: rules => (rule.1, replaceInTurn rules rule.2) :: rewriteInTurn rules

theorem map_fst_rewriteInTurn (rules : List (Text × Text)) :
    (rewriteInTurn rules).map (·.1) = rules.map (·.1) := by
  induction rules with
  | nil => rfl
  | cons rule rules ih => rw [rewriteInTurn, List.map_cons, List.map_cons, ih]

/-- In texts whose braces pair off, replacing in turn is replacing at once by arguments that the
later rules have rewritten. -/
theorem replaceInTurn_eq_together_rewritten (h : ReplacesFormals rules)
    (hflat : ∀ rule ∈ rules, Flat rule.2) (ht : Flat t) :
    replaceInTurn rules t = replaceTogether (rewriteInTurn rules) t := by
  induction rules generalizing t with
  | nil => exact (replaceTogether_nil t).symm
  | cons rule rules ih =>
    obtain ⟨hrule, hrules⟩ := List.forall_mem_cons.1 hflat
    have hp := h.braced rule List.mem_cons_self
    have hrewritten : ReplacesFormals ((rule.1, rule.2) :: rewriteInTurn rules) :=
      h.of_map_eq (by rw [List.map_cons, List.map_cons, map_fst_rewriteInTurn])
    calc replaceInTurn (rule :: rules) t
        = replaceInTurn rules (replaceAll rule.1 rule.2 t) := rfl
      _ = replaceTogether (rewriteInTurn rules) (replaceAll rule.1 rule.2 t) :=
        ih h.tail hrules (.replaceAll hp hrule ht)
      _ = replaceTogether ((rule.1, replaceTogether (rewriteInTurn rules) rule.2) ::
            rewriteInTurn rules) t := replaceTogether_replaceAll hrewritten hrule ht
      _ = replaceTogether (rewriteInTurn (rule :: rules)) t := by
        rw [← ih h.tail hrules hrule, rewriteInTurn]

theorem mem_rewriteInTurn {before after : List (Text × Text)} :
    (rule.1, replaceInTurn after rule.2) ∈ rewriteInTurn (before ++ rule :: after) := by
  induction before with
  | nil => exact List.mem_cons_self
  | cons r before ih => exact List.mem_cons_of_mem _ ih

theorem rewriteInTurn_eq_self
    (h : ∀ before rule after, rules = before ++ rule :: after →
      replaceInTurn after rule.2 = rule.2) : rewriteInTurn rules = rules := by
  induction rules with
  | nil => rfl
  | cons rule rules ih =>
    rw [rewriteInTurn, h [] rule rules rfl,
      ih fun before r after heq => h (rule :: before) r after (by rw [heq, List.cons_append])]

/-- Replacing in turn is replacing at once in all texts whose braces pair off, exactly if the later
rules leave every argument as it is. -/
theorem forall_replaceInTurn_iff (h : ReplacesFormals rules)
    (hflat : ∀ rule ∈ rules, Flat rule.2) :
    (∀ t, Flat t → replaceInTurn rules t = replaceTogether rules t) ↔
      ∀ before rule after, rules = before ++ rule :: after →
        replaceInTurn after rule.2 = rule.2 := by
  constructor
  · rintro hall before rule after rfl
    have hmem : rule ∈ before ++ rule :: after := by simp
    have hp := h.braced rule hmem
    have hrewritten : ReplacesFormals (rewriteInTurn (before ++ rule :: after)) :=
      h.of_map_eq (map_fst_rewriteInTurn _)
    have hflatPlaceholder : Flat (rule.1 ++ []) := .braced hp .nil
    have heq := hall _ hflatPlaceholder
    rw [replaceInTurn_eq_together_rewritten h hflat hflatPlaceholder,
      replaceTogether_of_mem h hmem] at heq
    have hlater := replaceTogether_of_mem hrewritten mem_rewriteInTurn []
    rw [hlater] at heq
    simpa only [replaceTogether, List.append_nil] using heq
  · intro hlater t ht
    rw [replaceInTurn_eq_together_rewritten h hflat ht, rewriteInTurn_eq_self hlater]

end InTurn

/-! ### Members -/

theorem isBraced_formalPlaceholder {Q : Text} (hQ : '{' ∉ Q ∧ '}' ∉ Q) (i : Nat) :
    IsBraced (formalPlaceholder Q i) := by
  have hdigits : ∀ c ∈ Nat.toDigits 10 i, c ≠ '{' ∧ c ≠ '}' := by
    intro c hc
    have hdigit := Nat.isDigit_of_mem_toDigits (by decide) (by decide) hc
    constructor <;> rintro rfl <;> exact absurd hdigit (by decide)
  refine ⟨Q ++ '%' :: Nat.toDigits 10 i, by simp [formalPlaceholder], ?_, ?_⟩
  · simpa [hQ.1] using fun hc => (hdigits _ hc).1 rfl
  · simpa [hQ.2] using fun hc => (hdigits _ hc).2 rfl

theorem formalPlaceholder_inj {Q : Text} {i j : Nat} :
    formalPlaceholder Q i = formalPlaceholder Q j ↔ i = j := by
  refine ⟨fun h => ?_, fun h => h ▸ rfl⟩
  have hdigits : Nat.toDigits 10 i = Nat.toDigits 10 j := by simpa [formalPlaceholder] using h
  rw [← Nat.ofDigitChars_ten_toDigits (n := i), hdigits, Nat.ofDigitChars_ten_toDigits]

namespace Member

/-- The texts of a member in which formal parameters are replaced. -/
def openTexts (m : Member) : List Text :=
  m.args :: m.typeName :: if m.kind.isTypeRef then m.typeParams.toList else []

/-- The member with `f` applied to these texts. -/
def mapOpenTexts (f : Text → Text) (m : Member) : Member :=
  { m with
    args := f m.args
    typeName := f m.typeName
    typeParams := if m.kind.isTypeRef then m.typeParams.map f else m.typeParams }

theorem openTexts_mapOpenTexts (f : Text → Text) (m : Member) :
    (m.mapOpenTexts f).openTexts = m.openTexts.map f := by
  cases h : m.kind.isTypeRef <;> cases hp : m.typeParams <;> simp [openTexts, mapOpenTexts, h, hp]

theorem mapOpenTexts_congr {f g : Text → Text} {m : Member} (h : ∀ t ∈ m.openTexts, f t = g t) :
    m.mapOpenTexts f = m.mapOpenTexts g := by
  obtain ⟨hargs, htypeName, hparams⟩ : f m.args = g m.args ∧ f m.typeName = g m.typeName ∧
      ∀ t ∈ if m.kind.isTypeRef then m.typeParams.toList else [], f t = g t := by
    simpa only [openTexts, List.forall_mem_cons] using h
  have htypeParams : (if m.kind.isTypeRef then m.typeParams.map f else m.typeParams) =
      if m.kind.isTypeRef then m.typeParams.map g else m.typeParams := by
    split
    next href =>
      rw [if_pos href] at hparams
      exact Option.map_congr fun t ht => hparams t (Option.mem_toList.2 ht)
    next => rfl
  rw [mapOpenTexts, mapOpenTexts, hargs, htypeName, htypeParams]

theorem mapOpenTexts_mapOpenTexts (f g : Text → Text) (m : Member) :
    (m.mapOpenTexts f).mapOpenTexts g = m.mapOpenTexts fun t => g (f t) := by
  cases h : m.kind.isTypeRef <;> simp [mapOpenTexts, h, Function.comp_def]

theorem mapOpenTexts_id (m : Member) : (m.mapOpenTexts fun t => t) = m := by
  cases h : m.kind.isTypeRef <;> simp [mapOpenTexts, h]

/-- The placeholders that are replaced by actual arguments, from a position on. With `skipRaw` an
argument without a percent sign replaces nothing. -/
def formalRules (Q : Text) (skipRaw : Bool) (position : Nat) : List Text → List (Text × Text)
  | [] => []
  | actual :: rest =>
    if skipRaw ∧ '%' ∉ actual then formalRules Q skipRaw (position + 1) rest
    else (formalPlaceholder Q position, actual) :: formalRules Q skipRaw (position + 1) rest

/-- The member with actual arguments in the place of the parameters of a type, all at once. -/
def replaceFormalsTogether (Q : Text) (actual : List Text) (skipRaw : Bool) (m : Member) :
    Member :=
  m.mapOpenTexts (replaceTogether (formalRules Q skipRaw 0 actual))

section Formals

variable {Q : Text} {skipRaw : Bool} {position : Nat} {actual : List Text} {m : Member}

theorem replaceFormalsFrom_eq (Q : Text) (skipRaw : Bool) (position : Nat) (actual : List Text)
    (m : Member) : replaceFormalsFrom Q skipRaw position actual m =
      m.mapOpenTexts (replaceInTurn (formalRules Q skipRaw position actual)) := by
  induction actual generalizing position m with
  | nil => exact (mapOpenTexts_id m).symm
  | cons a rest ih =>
    rw [replaceFormalsFrom, ih, formalRules]
    by_cases hskip : skipRaw ∧ '%' ∉ a
    · rw [if_pos hskip, if_pos hskip]
    · rw [if_neg hskip, if_neg hskip]
      exact mapOpenTexts_mapOpenTexts (replaceAll (formalPlaceholder Q position) a) _ m

theorem exists_of_mem_formalRules {rule : Text × Text}
    (h : rule ∈ formalRules Q skipRaw position actual) :
    ∃ i, position ≤ i ∧ rule.1 = formalPlaceholder Q i := by
  induction actual generalizing position with
  | nil => cases h
  | cons a rest ih =>
    rw [formalRules] at h
    split at h
    next =>
      obtain ⟨i, hi, heq⟩ := ih h
      exact ⟨i, by omega, heq⟩
    next =>
      rcases List.mem_cons.1 h with rfl | h
      · exact ⟨position, Nat.le_refl _, rfl⟩
      · obtain ⟨i, hi, heq⟩ := ih h
        exact ⟨i, by omega, heq⟩

theorem replacesFormals_formalRules (hQ : '{' ∉ Q ∧ '}' ∉ Q) (skipRaw : Bool) (position : Nat)
    (actual : List Text) : ReplacesFormals (formalRules Q skipRaw position actual) where
  braced := by
    intro rule hrule
    obtain ⟨i, -, heq⟩ := exists_of_mem_formalRules hrule
    exact heq ▸ isBraced_formalPlaceholder hQ i
  nodup := by
    induction actual generalizing position with
    | nil => exact List.nodup_nil
    | cons a rest ih =>
      rw [formalRules]
      split
      next => exact ih (position + 1)
      next =>
        refine List.nodup_cons.2 ⟨fun hmem => ?_, ih (position + 1)⟩
        obtain ⟨rule, hrule, hsame⟩ := List.mem_map.1 hmem
        obtain ⟨i, hi, heq⟩ := exists_of_mem_formalRules hrule
        have hposition : i = position := formalPlaceholder_inj.1 (heq.symm.trans hsame)
        omega

theorem formalRules_append (before after : List Text) :
    formalRules Q skipRaw position (before ++ after) = formalRules Q skipRaw position before ++
      formalRules Q skipRaw (position + before.length) after := by
  induction before generalizing position with
  | nil => rfl
  | cons a before ih =>
    rw [List.cons_append, formalRules, formalRules, ih, List.length_cons,
      show position + 1 + before.length = position + (before.length + 1) by omega]
    split
    next => rfl
    next => rw [List.cons_append]

theorem formalRules_cons {a : Text} (ha : skipRaw = true → '%' ∈ a) (after : List Text) :
    formalRules Q skipRaw position (a :: after) =
      (formalPlaceholder Q position, a) :: formalRules Q skipRaw (position + 1) after := by
  rw [formalRules, if_neg fun h => h.2 (ha h.1)]

/-- Every rule is that of an argument which is not passed over. -/
theorem exists_of_formalRules_eq {before after : List (Text × Text)} {rule : Text × Text}
    (h : formalRules Q skipRaw position actual = before ++ rule :: after) :
    ∃ as a bs, actual = as ++ a :: bs ∧ (skipRaw = true → '%' ∈ a) ∧
      before = formalRules Q skipRaw position as ∧
      rule = (formalPlaceholder Q (position + as.length), a) ∧
      after = formalRules Q skipRaw (position + as.length + 1) bs := by
  induction actual generalizing position before with
  | nil => simp [formalRules] at h
  | cons b rest ih =>
    have hshift : ∀ n, position + 1 + n = position + (n + 1) := fun n => by omega
    by_cases hb : skipRaw = true → '%' ∈ b
    · rw [formalRules_cons hb] at h
      cases before with
      | nil =>
        obtain ⟨rfl, rfl⟩ := List.cons.inj h
        exact ⟨[], b, rest, rfl, hb, rfl, rfl, rfl⟩
      | cons r before =>
        obtain ⟨rfl, hrest⟩ := List.cons.inj h
        obtain ⟨as, a, bs, rfl, ha, rfl, rfl, rfl⟩ := ih hrest
        exact ⟨b :: as, a, bs, rfl, ha, (formalRules_cons hb as).symm, by
          rw [List.length_cons, hshift], by rw [List.length_cons, hshift]⟩
    · have hskip : ∀ l, formalRules Q skipRaw position (b :: l) =
          formalRules Q skipRaw (position + 1) l := fun l => if_pos (Classical.not_imp.1 hb)
      rw [hskip] at h
      obtain ⟨as, a, bs, rfl, ha, rfl, rfl, rfl⟩ := ih h
      exact ⟨b :: as, a, bs, rfl, ha, (hskip as).symm, by rw [List.length_cons, hshift], by
        rw [List.length_cons, hshift]⟩

/-- The parameters of a type are replaced all at once where the placeholder of every position is
found, in the texts that the positions before it leave, as often as in the texts at first. -/
theorem replaceFormals_eq_together (hQ : '{' ∉ Q ∧ '}' ∉ Q)
    (hcount : ∀ before a after, actual = before ++ a :: after → (skipRaw = true → '%' ∈ a) →
      (replaceFormals Q before skipRaw m).openTexts.map
          (occurrences (formalPlaceholder Q before.length)) =
        m.openTexts.map (occurrences (formalPlaceholder Q before.length))) :
    replaceFormals Q actual skipRaw m = replaceFormalsTogether Q actual skipRaw m := by
  rw [replaceFormals, replaceFormalsFrom_eq]
  refine mapOpenTexts_congr fun t ht => ?_
  refine replaceInTurn_eq_together (replacesFormals_formalRules hQ skipRaw 0 actual) ?_
  intro before rule after heq
  obtain ⟨as, a, bs, hactual, ha, rfl, rfl, rfl⟩ := exists_of_formalRules_eq heq
  have hall := hcount as a bs hactual ha
  rw [replaceFormals, replaceFormalsFrom_eq, openTexts_mapOpenTexts, List.map_map] at hall
  rw [Nat.zero_add]
  exact List.map_inj_left.1 hall t ht

/-- Where the braces of arguments pair off, the parameters of a type are replaced all at once in all
members whose braces pair off, exactly if every argument stays as it is at later positions. -/
theorem forall_replaceFormals_iff (hQ : '{' ∉ Q ∧ '}' ∉ Q)
    (hflat : ∀ a ∈ actual, (skipRaw = true → '%' ∈ a) → Flat a) :
    (∀ m : Member, (∀ t ∈ m.openTexts, Flat t) →
      replaceFormals Q actual skipRaw m = replaceFormalsTogether Q actual skipRaw m) ↔
    ∀ before a after, actual = before ++ a :: after → (skipRaw = true → '%' ∈ a) →
      ∀ m : Member, m.args = a →
        (replaceFormalsFrom Q skipRaw (before.length + 1) after m).args = a := by
  have hrules := replacesFormals_formalRules hQ skipRaw 0 actual
  have hflatRules : ∀ rule ∈ formalRules Q skipRaw 0 actual, Flat rule.2 := by
    intro rule hrule
    obtain ⟨before, after, heq⟩ := List.append_of_mem hrule
    obtain ⟨as, a, bs, rfl, ha, -, rfl, -⟩ := exists_of_formalRules_eq heq
    exact hflat a (by simp) ha
  have htexts : (∀ m : Member, (∀ t ∈ m.openTexts, Flat t) →
      replaceFormals Q actual skipRaw m = replaceFormalsTogether Q actual skipRaw m) ↔
      ∀ t, Flat t → replaceInTurn (formalRules Q skipRaw 0 actual) t =
        replaceTogether (formalRules Q skipRaw 0 actual) t := by
    constructor
    · intro hall t ht
      have hmember := hall { kind := .method, name := [], args := t }
        (List.forall_mem_cons.2 ⟨ht, List.forall_mem_singleton.2 .nil⟩)
      rw [replaceFormals, replaceFormalsFrom_eq] at hmember
      exact congrArg Member.args hmember
    · intro hall m hm
      rw [replaceFormals, replaceFormalsFrom_eq]
      exact mapOpenTexts_congr fun t ht => hall t (hm t ht)
  rw [htexts, forall_replaceInTurn_iff hrules hflatRules]
  constructor
  · rintro hlater before a after rfl ha m rfl
    rw [replaceFormalsFrom_eq]
    refine hlater (formalRules Q skipRaw 0 before)
      (formalPlaceholder Q (0 + before.length), m.args) _ ?_
    rw [formalRules_append, formalRules_cons ha, Nat.zero_add]
  · intro hlater before rule after heq
    obtain ⟨as, a, bs, hactual, ha, rfl, rfl, rfl⟩ := exists_of_formalRules_eq heq
    have hargs := hlater as a bs hactual ha { kind := .method, name := [], args := a } rfl
    rw [replaceFormalsFrom_eq] at hargs
    rw [Nat.zero_add]
    exact hargs

end Formals

end Member

open Member

/-- The parameters of a type are replaced all at once where the placeholder of every position is
found, in the texts that the positions before it leave, as often as in the texts at first. For
arguments whose braces pair off, this is so in all members whose braces pair off exactly if every
argument stays as it is at the positions after its own. -/
theorem formals_replaced_together {Q : Text} (hQ : '{' ∉ Q ∧ '}' ∉ Q) (actual : List Text)
    (skipRaw : Bool) :
    (∀ m : Member,
      (∀ before a after, actual = before ++ a :: after → (skipRaw = true → '%' ∈ a) →
        (replaceFormals Q before skipRaw m).openTexts.map
            (occurrences (formalPlaceholder Q before.length)) =
          m.openTexts.map (occurrences (formalPlaceholder Q before.length))) →
      replaceFormals Q actual skipRaw m = replaceFormalsTogether Q actual skipRaw m) ∧
    ((∀ a ∈ actual, (skipRaw = true → '%' ∈ a) → Flat a) →
      ((∀ m : Member, (∀ t ∈ m.openTexts, Flat t) →
        replaceFormals Q actual skipRaw m = replaceFormalsTogether Q actual skipRaw m) ↔
      ∀ before a after, actual = before ++ a :: after → (skipRaw = true → '%' ∈ a) →
        ∀ m : Member, m.args = a →
          (replaceFormalsFrom Q skipRaw (before.length + 1) after m).args = a)) :=
  ⟨fun _ hcount => replaceFormals_eq_together hQ hcount,
    fun hflat => forall_replaceFormals_iff hQ hflat⟩

/-- A method of `a.Q` whose arguments are given. -/
def methodOfQ (args : Text) : Member where
  kind := .method
  declaring := "a.Q".toList
  name := "m".toList
  typeName := "void".toList
  args := args

/-- Arguments that mention no parameter of `a.Q` replace those at once. -/
theorem formals_replaced_together_apart :
    replaceFormals "a.Q".toList ["{a.R%0}".toList, "a.X".toList] false
        (methodOfQ "{a.Q%0},{a.Q%1}".toList) = methodOfQ "{a.R%0},a.X".toList ∧
    replaceFormals "a.Q".toList ["{a.R%0}".toList, "a.X".toList] false
        (methodOfQ "{a.Q%0},{a.Q%1}".toList) =
      replaceFormalsTogether "a.Q".toList ["{a.R%0}".toList, "a.X".toList] false
        (methodOfQ "{a.Q%0},{a.Q%1}".toList) ∧
    ∀ m : Member, (∀ t ∈ m.openTexts, Flat t) →
      replaceFormals "a.Q".toList ["{a.R%0}".toList, "a.X".toList] false m =
        replaceFormalsTogether "a.Q".toList ["{a.R%0}".toList, "a.X".toList] false m := by
  obtain ⟨hcounted, hflat⟩ := formals_replaced_together (Q := "a.Q".toList) (by decide)
    ["{a.R%0}".toList, "a.X".toList] false
  have hsplit : ∀ {P : List Text → Text → List Text → Prop},
      P [] "{a.R%0}".toList ["a.X".toList] → P ["{a.R%0}".toList] "a.X".toList [] →
      ∀ before a after, ["{a.R%0}".toList, "a.X".toList] = before ++ a :: after →
        P before a after := by
    intro P hfirst hsecond before a after heq
    rcases before with _ | ⟨b, _ | ⟨c, before⟩⟩
    · cases heq
      exact hfirst
    · cases heq
      exact hsecond
    · have hlength := congrArg List.length heq
      simp only [List.length_append, List.length_cons, List.length_nil] at hlength
      omega
  refine ⟨by decide +kernel, hcounted _ (hsplit (fun _ => by decide +kernel)
    (fun _ => by decide +kernel)), ?_⟩
  refine (hflat ?_).2 (hsplit (fun _ m hm => ?_) (fun _ m hm => hm))
  · refine List.forall_mem_cons.2 ⟨fun _ => ?_, List.forall_mem_singleton.2 fun _ => ?_⟩
    · exact .braced (p := "{a.R%0}".toList) ⟨"a.R%0".toList, rfl, by decide, by decide⟩ .nil
    · exact .plain (by decide) (by decide) (.plain (by decide) (by decide)
        (.plain (by decide) (by decide) .nil))
  · show replaceAll (formalPlaceholder "a.Q".toList 1) "a.X".toList m.args = "{a.R%0}".toList
    rw [hm]
    decide +kernel

/-- What the first argument brings in is replaced by the second one. -/
theorem second_argument_replaces_first :
    replaceFormals "a.Q".toList ["{a.Q%1}".toList, "a.X".toList] false
        (methodOfQ "{a.Q%0}".toList) = methodOfQ "a.X".toList ∧
    replaceFormalsTogether "a.Q".toList ["{a.Q%1}".toList, "a.X".toList] false
        (methodOfQ "{a.Q%0}".toList) = methodOfQ "{a.Q%1}".toList := by
  decide +kernel

end ApiSurface
