import ApiSurface.Line.Annot
import ApiSurface.Line.Entity
import Mathlib.Tactic.MkIffOfInductiveProp

/-!
# Annotation lines read back

The line of a readable annotation is read as that annotation (`parseAnnot_line`). The values of
an annotation can be any texts that the commas between them do not cut (`Annot.Readable`). In a text
of many lines the line must in addition be one line, and the name one word (`Annot.WellFormed`).
-/

namespace ApiSurface

open Text

namespace Annot

/-! ### Lists of values -/

/-- A named value as it is written. -/
def item (m : Text × Text) : Text := m.1 ++ '=' :: m.2

/-- A text without blanks that does not open a list of values. -/
def IsTypeName (t : Text) : Prop := t ≠ [] ∧ ∀ c ∈ t, isBlank c = false ∧ c ≠ '('

/-- What an annotation has to satisfy for its line to say all of it. -/
@[mk_iff]
structure WellFormed (a : Annot) : Prop where
  /-- The name ends neither at a blank nor at a parenthesis. -/
  name : IsTypeName a.name
  /-- The names of the values end before the equals sign, and blanks at the ends do not count. -/
  trimmed : ∀ m ∈ a.members, '=' ∉ m.1 ∧ trim m.1 = m.1 ∧ trim m.2 = m.2
  /-- No comma cuts a value. -/
  whole : ∀ m ∈ a.members, splitItems (.plain 0) (item m) = [item m]
  /-- In front of a comma all brackets and strings are closed. -/
  closed : ∀ m ∈ a.members.dropLast, (item m).foldl Place.next (.plain 0) = .plain 0
  /-- Nothing in the line ends it. -/
  oneLine : '\n' ∉ a.line

/-- What an annotation has to satisfy for its line, on its own, to be read as the annotation. -/
structure Readable (a : Annot) : Prop where
  /-- There is a name. -/
  named : a.name ≠ []
  /-- The name does not open the list of values. -/
  unopened : '(' ∉ a.name
  /-- No space stands in the name. -/
  spaceless : ' ' ∉ a.name
  /-- Blanks at the ends of the name do not count. -/
  trimmedName : trim a.name = a.name
  /-- The names of the values end before the equals sign, and blanks at the ends do not count. -/
  trimmed : ∀ m ∈ a.members, '=' ∉ m.1 ∧ trim m.1 = m.1 ∧ trim m.2 = m.2
  /-- No comma cuts a value. -/
  whole : ∀ m ∈ a.members, splitItems (.plain 0) (item m) = [item m]
  /-- In front of a comma all brackets and strings are closed. -/
  closed : ∀ m ∈ a.members.dropLast, (item m).foldl Place.next (.plain 0) = .plain 0

instance (t : Text) : Decidable (IsTypeName t) :=
  have : Decidable (∀ c ∈ t, isBlank c = false ∧ c ≠ '(') := List.decidableBAll _ t
  inferInstanceAs (Decidable (_ ∧ _))

instance (a : Annot) : Decidable a.WellFormed := decidable_of_iff' _ (wellFormed_iff a)

theorem IsTypeName.isBlank {t : Text} (h : IsTypeName t) {c : Char} (hc : c ∈ t) :
    isBlank c = false := (h.2 c hc).1

/-- A well-formed annotation is readable. -/
theorem WellFormed.readable {a : Annot} (h : a.WellFormed) : a.Readable where
  named := h.name.1
  unopened := fun hmem => (h.name.2 _ hmem).2 rfl
  spaceless := fun hmem => absurd (h.name.isBlank hmem) (by decide)
  trimmedName := trim_eq_self (fun _ hc => h.name.isBlank (List.mem_of_head? hc))
    fun _ hc => h.name.isBlank (List.mem_of_getLast? hc)
  trimmed := h.trimmed
  whole := h.whole
  closed := h.closed

/-! ### Named values -/

/-- A comma outside brackets and strings ends a piece that nothing cut before. -/
theorem splitItems_append {p : Place} {t : Text} (ht : splitItems p t = [t])
    (hp : t.foldl Place.next p = .plain 0) (r : Text) :
    splitItems p (t ++ ',' :: r) = t :: splitItems (.plain 0) r := by
  induction t generalizing p with
  | nil =>
    obtain rfl : p = .plain 0 := hp
    rw [List.nil_append, splitItems, if_pos ⟨rfl, rfl⟩]
  | cons c t ih =>
    rw [splitItems] at ht
    split at ht
    next => cases ht
    next hcut =>
      have hrest : splitItems (p.next c) t = [t] := by
        rcases hpieces : splitItems (p.next c) t with _ | ⟨u, us⟩
        · rw [hpieces] at ht
          obtain rfl : [] = t := (List.cons.inj (List.cons.inj ht).1).2
          cases hpieces
        · rw [hpieces] at ht
          obtain ⟨hhead, rfl⟩ := List.cons.inj ht
          rw [(List.cons.inj hhead).2]
      rw [List.cons_append, splitItems, if_neg hcut, ih hrest hp]
      rfl

/-- Pieces that nothing cuts are found again where commas join them, each with the space in front
of it. -/
theorem splitItems_intercalate {t : Text} {ts : List Text}
    (hwhole : ∀ u ∈ t :: ts, splitItems (.plain 0) u = [u])
    (hclosed : ∀ u ∈ (t :: ts).dropLast, u.foldl Place.next (.plain 0) = .plain 0) :
    splitItems (.plain 0) (", ".toList.intercalate (t :: ts)) = t :: ts.map (' ' :: ·) := by
  induction ts generalizing t with
  | nil =>
    rw [List.intercalate_singleton]
    exact hwhole t List.mem_cons_self
  | cons u us ih =>
    obtain ⟨ht, hus⟩ := List.forall_mem_cons.1 hwhole
    rw [List.dropLast_cons_cons] at hclosed
    obtain ⟨hend, hrest⟩ := List.forall_mem_cons.1 hclosed
    have hspace : ∀ r, splitItems (.plain 0) (' ' :: r) = consHead ' ' (splitItems (.plain 0) r) :=
      fun r => rfl
    rw [List.intercalate_cons_cons, List.append_assoc]
    change splitItems (.plain 0) (t ++ ',' :: ' ' :: ", ".toList.intercalate (u :: us)) = _
    rw [splitItems_append ht hend, hspace, ih hus hrest]
    rfl

theorem readMember?_item {m : Text × Text}
    (h : '=' ∉ m.1 ∧ trim m.1 = m.1 ∧ trim m.2 = m.2) : readMember? (item m) = some m := by
  have hcut : cutFirst? '=' (item m) = some m := cutFirst?_eq_some_iff.2 ⟨rfl, h.1⟩
  rw [readMember?, hcut, Option.map_some, h.2.1, h.2.2]

/-- A space in front of a named value changes nothing. -/
theorem readMember?_space_item {m : Text × Text}
    (h : '=' ∉ m.1 ∧ trim m.1 = m.1 ∧ trim m.2 = m.2) : readMember? (' ' :: item m) = some m := by
  have hcut : cutFirst? '=' (' ' :: item m) = some (' ' :: m.1, m.2) := by
    refine cutFirst?_eq_some_iff.2 ⟨rfl, fun hmem => ?_⟩
    rcases List.mem_cons.1 hmem with heq | hmem
    · cases heq
    · exact h.1 hmem
  have htrim : trim (' ' :: m.1) = trim m.1 := rfl
  rw [readMember?, hcut, Option.map_some, htrim, h.2.1, h.2.2]

theorem mapM_readMember?_space_item {ms : List (Text × Text)}
    (h : ∀ m ∈ ms, '=' ∉ m.1 ∧ trim m.1 = m.1 ∧ trim m.2 = m.2) :
    ((ms.map item).map (' ' :: ·)).mapM readMember? = some ms := by
  induction ms with
  | nil => rfl
  | cons m ms ih =>
    obtain ⟨hm, hms⟩ := List.forall_mem_cons.1 h
    rw [List.map_cons, List.map_cons, List.mapM_cons, readMember?_space_item hm, ih hms]
    rfl

/-- The named values that are read from the list in the parentheses. -/
theorem mapM_readMember? {a : Annot} (h : a.Readable) :
    ((splitItems (.plain 0) (", ".toList.intercalate (a.members.map item))).filter
      fun t => trim t ≠ []).mapM readMember? = some a.members := by
  rcases hmembers : a.members with _ | ⟨m, ms⟩
  · rfl
  have htrimmed := h.trimmed
  rw [hmembers] at htrimmed
  have hwhole : ∀ u ∈ item m :: ms.map item, splitItems (.plain 0) u = [u] := by
    rw [← List.map_cons, ← hmembers]
    exact List.forall_mem_map.2 h.whole
  have hclosed : ∀ u ∈ (item m :: ms.map item).dropLast,
      u.foldl Place.next (.plain 0) = .plain 0 := by
    rw [← List.map_cons, ← hmembers, ← List.map_dropLast]
    exact List.forall_mem_map.2 h.closed
  have hne : ∀ n, trim (item n) ≠ [] ∧ trim (' ' :: item n) ≠ [] := by
    intro n
    have hmem : '=' ∈ item n := List.mem_append_right _ List.mem_cons_self
    exact ⟨trim_ne_nil_of_mem hmem rfl, trim_ne_nil_of_mem (List.mem_cons_of_mem _ hmem) rfl⟩
  have hfilter : (item m :: (ms.map item).map (' ' :: ·)).filter (fun t => trim t ≠ []) =
      item m :: (ms.map item).map (' ' :: ·) := by
    refine List.filter_eq_self.2 ?_
    intro t ht
    rw [List.map_map, List.mem_cons, List.mem_map] at ht
    rcases ht with rfl | ⟨n, -, rfl⟩
    · exact decide_eq_true (hne m).1
    · exact decide_eq_true (hne n).2
  rw [List.map_cons, splitItems_intercalate hwhole hclosed, hfilter, List.mapM_cons,
    readMember?_item (htrimmed m List.mem_cons_self),
    mapM_readMember?_space_item (List.forall_mem_cons.1 htrimmed).2]
  rfl

/-! ### Whole lines -/

/-- The text of an annotation starts with the name. -/
theorem head?_text {a : Annot} (h : a.Readable) :
    ∀ c, a.text.head? = some c → isBlank c = false := by
  intro c hc
  have hname : a.name.head? = some c := by
    obtain ⟨d, r, hd⟩ := List.exists_cons_of_ne_nil h.named
    rw [text] at hc
    split at hc
    next => exact hc
    next =>
      rw [hd] at hc ⊢
      exact hc
  rw [← h.trimmedName] at hname
  exact head?_trim a.name c hname

/-- It ends with the name or with a parenthesis. -/
theorem getLast?_text {a : Annot} (h : a.Readable) :
    ∀ c, a.text.getLast? = some c → isBlank c = false := by
  intro c hc
  rw [text] at hc
  split at hc
  next =>
    rw [← h.trimmedName] at hc
    exact getLast?_dropEndWhile isBlank _ c hc
  next =>
    rw [List.getLast?_append, List.getLast?_singleton] at hc
    cases hc
    rfl

theorem getLast?_line {a : Annot} (h : a.Readable) :
    ∀ c, a.line.getLast? = some c → isBlank c = false := by
  intro c hc
  rw [line, List.getLast?_append] at hc
  rcases hlast : a.text.getLast? with _ | d
  · rw [hlast] at hc
    cases hc
    rfl
  · rw [hlast] at hc
    cases hc
    exact getLast?_text h _ hlast

theorem head?_line (a : Annot) : ∀ c, a.line.head? = some c → isBlank c = false := by
  intro c hc
  cases hc
  rfl

theorem trim_text {a : Annot} (h : a.Readable) : trim a.text = a.text :=
  trim_eq_self (head?_text h) (getLast?_text h)

theorem trim_line {a : Annot} (h : a.Readable) : trim a.line = a.line :=
  trim_eq_self (head?_line a) (getLast?_line h)

/-- Nothing is taken off the ends of an annotation line. -/
theorem entityText_line {a : Annot} (h : a.WellFormed) : Line.entityText a.line = a.line := by
  refine Line.entityText_eq_self (head?_line a) ?_ ?_
  · intro hc
    cases getLast?_line h.readable _ hc
  · intro hc
    cases getLast?_line h.readable _ hc

/-- The name and the list of values are cut apart again. -/
theorem cutBody?_text {a : Annot} (h : a.Readable) :
    cutBody? a.text = some (a.name, ", ".toList.intercalate (a.members.map item)) := by
  by_cases hnil : a.members = []
  · rw [text, if_pos hnil, cutBody?, cutFirst?_eq_none_iff.2 h.unopened, hnil]
    rfl
  · have hcut : ∀ r, cutFirst? '(' (a.name ++ '(' :: r) = some (a.name, r) :=
      fun r => cutFirst?_eq_some_iff.2 ⟨rfl, h.unopened⟩
    have hdrop : ∀ r, dropEnd? ')' (r ++ [')']) = some r := fun r => dropEnd?_eq_some_iff.2 rfl
    rw [text, if_neg hnil, List.append_assoc, List.cons_append, cutBody?, hcut]
    simp only [hdrop, Option.map_some, h.trimmedName]
    rfl

end Annot

open Annot

theorem parseAnnot_ok_iff {line : Text} {a : Annot} :
    parseAnnot line = .ok a ↔ ofLine? line = some a := by
  unfold parseAnnot
  split
  next b hb => simp [hb]
  next hnone => simp [hnone]

/-- The line of a readable annotation says all of it. -/
theorem parseAnnot_line {a : Annot} (h : a.Readable) : parseAnnot a.line = .ok a := by
  have hafter : after? lineTag a.line = some a.text := after?_eq_some_iff.2 rfl
  have hread : ofLine? a.line = some a := by
    rw [ofLine?, trim_line h, hafter]
    change (cutBody? (trim a.text) >>= _) = _
    rw [trim_text h, cutBody?_text h]
    change (if a.name = [] ∨ ' ' ∈ a.name then none else _) = _
    rw [if_neg (by simp [h.named, h.spaceless])]
    rw [mapM_readMember? h]
    rfl
  exact parseAnnot_ok_iff.2 hread

end ApiSurface
