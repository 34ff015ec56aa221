/-!
# Texts

A text is the list of its characters. This module cuts texts at given characters and puts
pieces together again; everything that reads or writes signature lines is built from these
few functions.

The main statements say that a cut loses nothing: `cutFirst?_eq_some_iff` and
`eq_of_cutLast?_eq_some` give back the text from its two parts, `intercalate_split` from all
its pieces, and `after?_eq_some_iff` from the start that was taken off.
-/

namespace ApiSurface

/-- A text, as the list of its characters. -/
abbrev Text := List Char

namespace Text

/-- Whether a text is one of several texts can be decided. -/
instance decidableMem (t : Text) (l : List Text) : Decidable (t ∈ l) :=
  List.instDecidableMemOfLawfulBEq t l

/-! ### Cutting at one place -/

/-- The parts before and after the first `c`. -/
def cutFirst? (c : Char) : Text → Option (Text × Text)
  | [] => none
  | x :: r => if x = c then some ([], r) else (cutFirst? c r).map fun (a, b) => (x :: a, b)

/-- The parts before and after the last character for which `p` holds. -/
def cutLast? (p : Char → Bool) : Text → Option (Text × Text)
  | [] => none
  | x :: r =>
    match cutLast? p r with
    | some (a, b) => some (x :: a, b)
    | none => if p x then some ([], r) else none

theorem cutFirst?_eq_some_iff {c : Char} {t a b : Text} :
    cutFirst? c t = some (a, b) ↔ t = a ++ c :: b ∧ c ∉ a := by
  induction t generalizing a with
  | nil => simp [cutFirst?]
  | cons x r ih =>
    by_cases hx : x = c
    · subst hx
      cases a <;> simp +contextual [cutFirst?, eq_comm]
    · cases a with
      | nil => simp [cutFirst?, hx]
      | cons y a =>
        simp only [cutFirst?, hx, if_false, Option.map_eq_some_iff, Prod.exists, Prod.mk.injEq,
          List.cons.injEq, List.cons_append, List.mem_cons, not_or]
        constructor
        · rintro ⟨a', b', h, ⟨rfl, rfl⟩, rfl⟩
          obtain ⟨rfl, hc⟩ := ih.1 h
          exact ⟨⟨rfl, rfl⟩, fun h => hx h.symm, hc⟩
        · rintro ⟨⟨rfl, rfl⟩, -, hc⟩
          exact ⟨a, b, ih.2 ⟨rfl, hc⟩, ⟨rfl, rfl⟩, rfl⟩

theorem cutFirst?_eq_none_iff {c : Char} {t : Text} : cutFirst? c t = none ↔ c ∉ t := by
  induction t with
  | nil => simp [cutFirst?]
  | cons x r ih =>
    by_cases hx : x = c
    · simp [cutFirst?, hx]
    · simp [cutFirst?, hx, ih, Ne.symm hx]

theorem cutLast?_eq_none_iff {p : Char → Bool} {t : Text} :
    cutLast? p t = none ↔ ∀ c ∈ t, p c = false := by
  induction t with
  | nil => simp [cutLast?]
  | cons x r ih =>
    rcases h : cutLast? p r with _ | ⟨a, b⟩
    · simpa [cutLast?, h] using fun _ => ih.1 h
    · have : ¬ ∀ c ∈ r, p c = false := fun hr => by simp [ih.2 hr] at h
      simp [cutLast?, h]
      exact fun _ => by simpa using this

theorem eq_of_cutLast?_eq_some {p : Char → Bool} {t a b : Text} (h : cutLast? p t = some (a, b)) :
    ∃ c, t = a ++ c :: b ∧ p c = true ∧ ∀ x ∈ b, p x = false := by
  induction t generalizing a with
  | nil => simp [cutLast?] at h
  | cons x r ih =>
    rcases hr : cutLast? p r with _ | ⟨a', b'⟩
    · simp only [cutLast?, hr] at h
      split at h
      next hp =>
        simp only [Option.some.injEq, Prod.mk.injEq] at h
        obtain ⟨rfl, rfl⟩ := h
        exact ⟨x, rfl, hp, cutLast?_eq_none_iff.1 hr⟩
      next => simp at h
    · simp only [cutLast?, hr, Option.some.injEq, Prod.mk.injEq] at h
      obtain ⟨rfl, rfl⟩ := h
      obtain ⟨c, rfl, hc⟩ := ih hr
      exact ⟨c, rfl, hc⟩

theorem cutLast?_append {p : Char → Bool} {a b : Text} {c : Char} (hc : p c = true)
    (hb : ∀ x ∈ b, p x = false) : cutLast? p (a ++ c :: b) = some (a, b) := by
  induction a with
  | nil => rw [List.nil_append, cutLast?, cutLast?_eq_none_iff.2 hb, if_pos hc]
  | cons x a ih => rw [List.cons_append, cutLast?, ih]

/-! ### Taking off a start or an end -/

/-- The text after `start`, where the text begins with it. -/
def after? : (start : Text) → Text → Option Text
  | [], t => some t
  | _ :: _, [] => none
  | c :: s, x :: r => if x = c then after? s r else none

/-- The text without its last character, where that is `c`. -/
def dropEnd? (c : Char) (t : Text) : Option Text :=
  if t.getLast? = some c then some t.dropLast else none

theorem after?_eq_some_iff {start t rest : Text} :
    after? start t = some rest ↔ t = start ++ rest := by
  fun_induction after? start t with
  | case1 => simp [eq_comm]
  | case2 => simp
  | case3 c s r ih => simp [ih]
  | case4 c s x r h => simp [h]

theorem dropEnd?_eq_some_iff {c : Char} {t rest : Text} :
    dropEnd? c t = some rest ↔ t = rest ++ [c] := by
  unfold dropEnd?
  split
  next h =>
    obtain ⟨ys, rfl⟩ := List.getLast?_eq_some_iff.1 h
    simp
  next h => simpa using fun h' => h (by simp [h'])

/-! ### Cutting at every place -/

/-- Puts a character in front of the first text of a list. -/
def consHead (c : Char) : List Text → List Text
  | [] => [[c]]
  | t :: ts => (c :: t) :: ts

/-- The pieces between the characters for which `p` holds. -/
def split (p : Char → Bool) : Text → List Text
  | [] => [[]]
  | c :: r => if p c then [] :: split p r else consHead c (split p r)

/-- The pieces between line ends. -/
def lines (t : Text) : List Text := split (· == '\n') t

@[simp] theorem consHead_ne_nil (c : Char) (ts : List Text) : consHead c ts ≠ [] := by
  cases ts <;> simp [consHead]

@[simp] theorem split_ne_nil (p : Char → Bool) (t : Text) : split p t ≠ [] := by
  cases t with
  | nil => simp [split]
  | cons c r => by_cases h : p c <;> simp [split, h]

theorem intercalate_consHead (sep : Text) (c : Char) {ts : List Text} (h : ts ≠ []) :
    sep.intercalate (consHead c ts) = c :: sep.intercalate ts := by
  cases ts with
  | nil => simp at h
  | cons t ts => cases ts <;> simp [consHead, List.intercalate, List.intersperse]

theorem intercalate_nil_cons (sep : Text) {ts : List Text} (h : ts ≠ []) :
    sep.intercalate ([] :: ts) = sep ++ sep.intercalate ts := by
  cases ts with
  | nil => simp at h
  | cons t ts => simp [List.intercalate, List.intersperse]

/-- The pieces between separators, joined by the separator, are the text. -/
theorem intercalate_split (c : Char) (t : Text) : [c].intercalate (split (· == c) t) = t := by
  induction t with
  | nil => rfl
  | cons x r ih =>
    by_cases h : x = c
    · simp [split, h, intercalate_nil_cons, ih]
    · simp [split, h, intercalate_consHead, ih]

/-- The pieces are without the characters between them. -/
theorem of_mem_split {p : Char → Bool} {t u : Text} (h : u ∈ split p t) : ∀ c ∈ u, p c = false := by
  induction t generalizing u with
  | nil =>
    obtain rfl := List.mem_singleton.1 h
    exact List.forall_mem_nil _
  | cons d r ih =>
    rw [split] at h
    split at h
    next =>
      rcases List.mem_cons.1 h with rfl | h
      · exact List.forall_mem_nil _
      · exact ih h
    next hd =>
      rcases hsplit : split p r with _ | ⟨v, vs⟩
      · exact absurd hsplit (split_ne_nil p r)
      · rw [hsplit] at h ih
        rcases List.mem_cons.1 h with rfl | h
        · exact List.forall_mem_cons.2 ⟨Bool.eq_false_iff.2 hd, ih List.mem_cons_self⟩
        · exact ih (List.mem_cons_of_mem _ h)

theorem mem_of_mem_split {p : Char → Bool} {t u : Text} (h : u ∈ split p t) : ∀ c ∈ u, c ∈ t := by
  induction t generalizing u with
  | nil =>
    obtain rfl := List.mem_singleton.1 h
    exact List.forall_mem_nil _
  | cons d r ih =>
    rw [split] at h
    split at h
    next =>
      rcases List.mem_cons.1 h with rfl | h
      · exact List.forall_mem_nil _
      · exact fun c hc => List.mem_cons_of_mem d (ih h c hc)
    next =>
      rcases hsplit : split p r with _ | ⟨v, vs⟩
      · exact absurd hsplit (split_ne_nil p r)
      · rw [hsplit] at h ih
        rcases List.mem_cons.1 h with rfl | h
        · exact fun c hc => (List.mem_cons.1 hc).elim (· ▸ List.mem_cons_self)
            fun hv => List.mem_cons_of_mem d (ih List.mem_cons_self c hv)
        · exact fun c hc => List.mem_cons_of_mem d (ih (List.mem_cons_of_mem _ h) c hc)

/-- A character that is neither in the pieces nor in the separator is not in the joined text. -/
theorem not_mem_intercalate {c : Char} {sep : Text} (hsep : c ∉ sep) {ts : List Text}
    (h : ∀ t ∈ ts, c ∉ t) : c ∉ sep.intercalate ts := by
  induction ts with
  | nil => exact List.not_mem_nil
  | cons t ts ih =>
    obtain ⟨ht, hts⟩ := List.forall_mem_cons.1 h
    cases ts with
    | nil => rwa [List.intercalate_singleton]
    | cons u us =>
      rw [List.intercalate_cons_cons, List.mem_append, List.mem_append]
      rintro ((hc | hc) | hc)
      · exact ht hc
      · exact hsep hc
      · exact ih hts hc

theorem split_of_forall_not {p : Char → Bool} {t : Text} (h : ∀ c ∈ t, p c = false) :
    split p t = [t] := by
  induction t with
  | nil => rfl
  | cons c r ih =>
    obtain ⟨hc, hr⟩ := List.forall_mem_cons.1 h
    rw [split, hc, ih hr]
    rfl

theorem consHead_append (c : Char) {ts : List Text} (h : ts ≠ []) (us : List Text) :
    consHead c (ts ++ us) = consHead c ts ++ us := by
  cases ts with
  | nil => exact absurd rfl h
  | cons t ts => rfl

/-- Texts with a separator between them are cut by themselves. -/
theorem split_append {p : Char → Bool} {c : Char} (hc : p c = true) (t r : Text) :
    split p (t ++ c :: r) = split p t ++ split p r := by
  induction t with
  | nil => simp [split, hc]
  | cons d t ih =>
    rw [List.cons_append, split, split, ih]
    split
    next => rfl
    next => exact consHead_append d (split_ne_nil p t) (split p r)

theorem split_append_cons {p : Char → Bool} {t : Text} (h : ∀ c ∈ t, p c = false) {c : Char}
    (hc : p c = true) (r : Text) : split p (t ++ c :: r) = t :: split p r := by
  rw [split_append hc, split_of_forall_not h, List.singleton_append]

/-- The first piece reaches up to the first separator. -/
theorem split_eq_takeWhile_cons (p : Char → Bool) (t : Text) :
    split p t = t.takeWhile (!p ·) :: (split p t).tail := by
  induction t with
  | nil => rfl
  | cons c r ih =>
    rw [split]
    split
    next hc => rw [List.takeWhile_cons_of_neg (by simp [hc]), List.tail_cons]
    next hc =>
      rw [List.takeWhile_cons_of_pos (by simp [hc]), ih]
      rfl

/-- A text without separators belongs to the first piece of what follows it. -/
theorem split_append_of_forall_not {p : Char → Bool} {t u piece : Text} {more : List Text}
    (h : ∀ c ∈ t, p c = false) (hu : split p u = piece :: more) :
    split p (t ++ u) = (t ++ piece) :: more := by
  induction t with
  | nil => exact hu
  | cons d t ih =>
    obtain ⟨hd, ht⟩ := List.forall_mem_cons.1 h
    rw [List.cons_append, split, hd, ih ht]
    rfl

/-- Pieces without the separator are found again where they are joined by it. -/
theorem split_intercalate {c : Char} {ts : List Text} (hne : ts ≠ []) (h : ∀ t ∈ ts, c ∉ t) :
    split (· == c) ([c].intercalate ts) = ts := by
  have hpiece : ∀ t ∈ ts, ∀ d ∈ t, (d == c) = false := by
    intro t ht d hd
    rw [beq_eq_false_iff_ne]
    rintro rfl
    exact h t ht hd
  induction ts with
  | nil => exact absurd rfl hne
  | cons t ts ih =>
    obtain ⟨ht, hts⟩ := List.forall_mem_cons.1 hpiece
    cases ts with
    | nil =>
      rw [List.intercalate_singleton]
      exact split_of_forall_not ht
    | cons u us =>
      rw [List.intercalate_cons_cons, List.append_assoc, List.singleton_append,
        split_append_cons ht (beq_self_eq_true c),
        ih (List.cons_ne_nil u us) (fun v hv => h v (List.mem_cons_of_mem _ hv)) hts]

/-! ### Replacing -/

/-- Every occurrence of `pattern`, found from left to right, gives way to `replacement`. An empty
pattern is found nowhere. -/
def replaceAll (pattern replacement : Text) (t : Text) : Text :=
  match t with
  | [] => []
  | c :: r =>
    if pattern = [] then c :: r
    else match _h : after? pattern (c :: r) with
      | some rest => replacement ++ replaceAll pattern replacement rest
      | none => c :: replaceAll pattern replacement r
termination_by t.length
decreasing_by
  · have hl := congrArg List.length (after?_eq_some_iff.1 _h)
    have : pattern.length ≠ 0 := by simpa
    simp only [List.length_append, List.length_cons] at hl ⊢
    omega
  · simp

/-! ### Size -/

/-- The number of bytes of a text in UTF-8. -/
def utf8Size : Text → Nat
  | [] => 0
  | c :: t => c.utf8Size + utf8Size t

/-- The longest start of a text that takes up at most so many bytes. -/
def takeBytes : (bytes : Nat) → Text → Text
  | _, [] => []
  | bytes, c :: t => if c.utf8Size ≤ bytes then c :: takeBytes (bytes - c.utf8Size) t else []

@[simp] theorem utf8Size_append (s t : Text) : utf8Size (s ++ t) = utf8Size s + utf8Size t := by
  induction s with
  | nil => exact (Nat.zero_add _).symm
  | cons c s ih => simp only [List.cons_append, utf8Size, ih, Nat.add_assoc]

end Text

end ApiSurface
