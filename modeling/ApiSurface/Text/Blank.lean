import ApiSurface.Text.Basic

/-!
# Blank characters

The characters of the Unicode property `White_Space`, and the removal of them from the ends of
a text. `trim_trim` says that trimming a trimmed text changes nothing.
-/

namespace ApiSurface

namespace Text

/-- Whether a character has the Unicode property `White_Space`. -/
def isBlank (c : Char) : Bool :=
  let n := c.toNat
  (0x09 ≤ n && n ≤ 0x0D) || n == 0x20 || n == 0x85 || n == 0xA0 || n == 0x1680
    || (0x2000 ≤ n && n ≤ 0x200A) || n == 0x2028 || n == 0x2029 || n == 0x202F
    || n == 0x205F || n == 0x3000

/-- The text without the blanks at its start. -/
def trimStart (t : Text) : Text := t.dropWhile isBlank

/-- The text without the characters at its end for which `p` holds. -/
def dropEndWhile (p : Char → Bool) (t : Text) : Text := (t.reverse.dropWhile p).reverse

/-- The text without the blanks at both ends. -/
def trim (t : Text) : Text := dropEndWhile isBlank (trimStart t)

/-- The text of a file without the byte order mark that may stand in front of it. -/
def dropByteOrderMark (t : Text) : Text := (after? ['\uFEFF'] t).getD t

/-! ### What is left at the ends -/

/-- Dropping from the end keeps a start of the text. -/
theorem exists_eq_dropEndWhile_append (p : Char → Bool) (t : Text) :
    ∃ dropped, t = dropEndWhile p t ++ dropped ∧ ∀ c ∈ dropped, p c = true := by
  refine ⟨(t.reverse.takeWhile p).reverse, ?_, fun c hc => ?_⟩
  · rw [dropEndWhile, ← List.reverse_append, List.takeWhile_append_dropWhile, List.reverse_reverse]
  · exact (List.all_eq_true.1 List.all_takeWhile) c (List.mem_reverse.1 hc)

theorem mem_dropWhile_of_neg {p : Char → Bool} {t : Text} {c : Char} (hmem : c ∈ t)
    (hc : p c = false) : c ∈ t.dropWhile p := by
  rw [← List.takeWhile_append_dropWhile (p := p) (l := t)] at hmem
  refine (List.mem_append.1 hmem).resolve_left fun h => ?_
  rw [(List.all_eq_true.1 List.all_takeWhile) c h] at hc
  cases hc

/-- What stands in front of a text is kept, if not all of the text is dropped. -/
theorem dropEndWhile_append_of_mem {p : Char → Bool} {u : Text} {c : Char} (hmem : c ∈ u)
    (hc : p c = false) (t : Text) : dropEndWhile p (t ++ u) = t ++ dropEndWhile p u := by
  have hkeeps : ¬ (u.reverse.dropWhile p).isEmpty = true := by
    rw [List.isEmpty_iff]
    exact List.ne_nil_of_mem (mem_dropWhile_of_neg (List.mem_reverse.2 hmem) hc)
  rw [dropEndWhile, List.reverse_append, List.dropWhile_append, if_neg hkeeps,
    List.reverse_append, List.reverse_reverse, dropEndWhile]

/-- What is dropped anyway may as well not stand there. -/
theorem dropEndWhile_append_of_forall {p : Char → Bool} {u : Text} (h : ∀ c ∈ u, p c = true)
    (t : Text) : dropEndWhile p (t ++ u) = dropEndWhile p t := by
  have hdropped : ∀ c ∈ u.reverse, p c = true := fun c hc => h c (List.mem_reverse.1 hc)
  rw [dropEndWhile, List.reverse_append, List.dropWhile_append_of_pos hdropped, dropEndWhile]

theorem dropEndWhile_sublist (p : Char → Bool) (t : Text) : (dropEndWhile p t).Sublist t := by
  obtain ⟨dropped, heq, -⟩ := exists_eq_dropEndWhile_append p t
  have hsublist := List.sublist_append_left (dropEndWhile p t) dropped
  rwa [← heq] at hsublist

theorem trim_sublist (t : Text) : (trim t).Sublist t :=
  (dropEndWhile_sublist isBlank _).trans (List.dropWhile_sublist _)

theorem head?_trimStart (t : Text) : ∀ c, (trimStart t).head? = some c → isBlank c = false := by
  intro c h
  have := List.head?_dropWhile_not isBlank t
  rw [trimStart] at h
  simpa [h] using this

theorem getLast?_dropEndWhile (p : Char → Bool) (t : Text) :
    ∀ c, (dropEndWhile p t).getLast? = some c → p c = false := by
  intro c h
  have := List.head?_dropWhile_not p t.reverse
  rw [dropEndWhile, List.getLast?_reverse] at h
  simpa [h] using this

theorem dropWhile_eq_self {p : Char → Bool} {t : Text}
    (h : ∀ c, t.head? = some c → p c = false) : t.dropWhile p = t := by
  cases t with
  | nil => rfl
  | cons c r => simp [h c rfl]

theorem dropEndWhile_eq_self {p : Char → Bool} {t : Text}
    (h : ∀ c, t.getLast? = some c → p c = false) : dropEndWhile p t = t := by
  rw [dropEndWhile, dropWhile_eq_self (by simpa using h), List.reverse_reverse]

/-- A text that has no blank at either end is its own trimmed form. -/
theorem trim_eq_self {t : Text} (hs : ∀ c, t.head? = some c → isBlank c = false)
    (he : ∀ c, t.getLast? = some c → isBlank c = false) : trim t = t := by
  rw [trim, trimStart, dropWhile_eq_self hs, dropEndWhile_eq_self he]

theorem head?_trim (t : Text) : ∀ c, (trim t).head? = some c → isBlank c = false := by
  intro c h
  obtain ⟨d, hd, -⟩ := exists_eq_dropEndWhile_append isBlank (trimStart t)
  refine head?_trimStart t c ?_
  rw [hd]
  change (dropEndWhile isBlank (trimStart t)).head? = some c at h
  simp [List.head?_append, h]

/-- A text with a character that is not blank is not empty without its blanks. -/
theorem trim_ne_nil_of_mem {t : Text} {c : Char} (hmem : c ∈ t) (hc : isBlank c = false) :
    trim t ≠ [] := by
  have hstart : c ∈ trimStart t := mem_dropWhile_of_neg hmem hc
  intro hnil
  obtain ⟨dropped, heq, hdropped⟩ := exists_eq_dropEndWhile_append isBlank (trimStart t)
  change dropEndWhile isBlank (trimStart t) = [] at hnil
  rw [heq, hnil, List.nil_append] at hstart
  rw [hdropped c hstart] at hc
  cases hc

theorem trim_append_of_blank_left {blanks : Text} (h : ∀ c ∈ blanks, isBlank c = true) (t : Text) :
    trim (blanks ++ t) = trim t := by
  rw [trim, trimStart, List.dropWhile_append_of_pos h, trim, trimStart]

theorem trim_of_forall_blank {t : Text} (h : ∀ c ∈ t, isBlank c = true) : trim t = [] := by
  rw [← List.append_nil t, trim_append_of_blank_left h]
  rfl

theorem trim_append_of_blank_right {blanks : Text} (h : ∀ c ∈ blanks, isBlank c = true) (t : Text) :
    trim (t ++ blanks) = trim t := by
  by_cases ht : ∀ c ∈ t, isBlank c = true
  · rw [trim_append_of_blank_left ht, trim_of_forall_blank h, trim_of_forall_blank ht]
  · simp only [Classical.not_forall, Bool.not_eq_true] at ht
    obtain ⟨c, hmem, hc⟩ := ht
    have hkeeps : ¬ (t.dropWhile isBlank).isEmpty = true := by
      rw [List.isEmpty_iff]
      exact List.ne_nil_of_mem (mem_dropWhile_of_neg hmem hc)
    rw [trim, trimStart, List.dropWhile_append, if_neg hkeeps, dropEndWhile_append_of_forall h]
    rfl

@[simp] theorem trim_trim (t : Text) : trim (trim t) = trim t :=
  trim_eq_self (head?_trim t) (getLast?_dropEndWhile isBlank _)

end Text

end ApiSurface
