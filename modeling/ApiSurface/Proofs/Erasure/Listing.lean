import ApiSurface.Proofs.Erasure.Depth
import Mathlib.Algebra.Group.Int.Defs
import Mathlib.Algebra.Group.Nat.Defs

/-!
# Lists of type arguments

Text without a comma among its outer characters belongs to one argument of a list
(`outerPieces_append`), so that a comma behind a balanced argument ends it. The reader counts open
brackets in 32 bits; as long as the depth is in the range of the count, it finds the commas at depth
zero (`splitAtZero_eq_outerPieces`).

Main statement: balanced arguments without outer commas are listed as they were joined if they are
not nested too deep for the count, and the arguments of any list make up the text between its
brackets (`splitTypeArgs_join`). Where the count wraps around, an argument is cut in two
(`splitTypeArgs_groupedComma`).
-/

namespace ApiSurface

open Text

/-! ### Pieces -/

/-- The pieces of a text between the commas at depth zero, where `depth` brackets are open in front
of the text. -/
def outerPieces (depth : Int) : Text → List Text
  | [] => [[]]
  | c :: r =>
    if c = ',' ∧ depth = 0 then [] :: outerPieces depth r
    else consHead c (outerPieces (depthAfter depth c) r)

theorem outerPieces_ne_nil (depth : Int) (t : Text) : outerPieces depth t ≠ [] := by
  cases t with
  | nil => simp [outerPieces]
  | cons c r => unfold outerPieces; split <;> simp

/-- Text without a comma at depth zero belongs to the first piece of what follows it. -/
theorem outerPieces_append {depth : Int} {t u piece : Text} {more : List Text}
    (h : ',' ∉ outerFrom depth t) (hu : outerPieces (depthBehind depth t) u = piece :: more) :
    outerPieces depth (t ++ u) = (t ++ piece) :: more := by
  induction t generalizing depth with
  | nil =>
    rw [depthBehind_nil] at hu
    exact hu
  | cons c t ih =>
    rw [depthBehind_cons] at hu
    rw [outerFrom] at h
    have hcomma : ¬ (c = ',' ∧ depth = 0) := by
      rintro ⟨rfl, rfl⟩
      rw [if_pos ⟨rfl, rfl⟩] at h
      exact h List.mem_cons_self
    have hrest : ',' ∉ outerFrom (depthAfter depth c) t := by
      split at h
      next => exact fun hmem => h (List.mem_cons_of_mem c hmem)
      next => exact h
    rw [List.cons_append, outerPieces, if_neg hcomma, ih hrest hu]
    rfl

/-- A balanced text without outer commas is one piece. -/
theorem outerPieces_of_balanced {t : Text} (ht : IsBalanced t) (h : ',' ∉ outer t) :
    outerPieces 0 t = [t] := by
  have happend : outerPieces 0 (t ++ []) = [t ++ []] :=
    outerPieces_append h (by rw [ht.depthBehind_eq, outerPieces])
  rwa [List.append_nil] at happend

/-- A comma ends a balanced text without outer commas. -/
theorem outerPieces_append_comma {t : Text} (ht : IsBalanced t) (h : ',' ∉ outer t) (r : Text) :
    outerPieces 0 (t ++ ',' :: r) = t :: outerPieces 0 r := by
  have happend : outerPieces 0 (t ++ ',' :: r) = (t ++ []) :: outerPieces 0 r :=
    outerPieces_append h (by rw [ht.depthBehind_eq, outerPieces, if_pos ⟨rfl, rfl⟩])
  rwa [List.append_nil] at happend

/-- Balanced texts without outer commas are found again where they are joined by commas. -/
theorem outerPieces_intercalate {items : List Text} (hne : items ≠ [])
    (h : ∀ t ∈ items, IsBalanced t ∧ ',' ∉ outer t) :
    outerPieces 0 ([','].intercalate items) = items := by
  induction items with
  | nil => exact absurd rfl hne
  | cons t items ih =>
    obtain ⟨⟨ht, hcomma⟩, hitems⟩ := List.forall_mem_cons.1 h
    cases items with
    | nil =>
      rw [List.intercalate_singleton]
      exact outerPieces_of_balanced ht hcomma
    | cons u us =>
      rw [List.intercalate_cons_cons, List.append_assoc, List.singleton_append,
        outerPieces_append_comma ht hcomma, ih (List.cons_ne_nil u us) hitems]

theorem length_consHead {c : Char} {ts : List Text} (h : ts ≠ []) :
    (consHead c ts).length = ts.length := by
  cases ts with
  | nil => exact absurd rfl h
  | cons t ts => rfl

/-- There is a piece more than there are commas at depth zero. -/
theorem length_outerPieces (depth : Int) (t : Text) :
    (outerPieces depth t).length = (outerFrom depth t).count ',' + 1 := by
  induction t generalizing depth with
  | nil => rfl
  | cons c t ih =>
    rw [outerPieces, outerFrom]
    split
    next hc =>
      obtain ⟨rfl, rfl⟩ := hc
      rw [if_pos ⟨rfl, rfl⟩, List.count_cons_self, List.length_cons, ih]
      rfl
    next hc =>
      rw [length_consHead (outerPieces_ne_nil _ _), ih]
      split
      next hzero => rw [List.count_cons_of_ne fun heq => hc ⟨heq, hzero.1⟩]
      next => rfl

/-- The commas between balanced texts are outer characters, besides those in the texts. -/
theorem count_outer_intercalate {items : List Text} (hne : items ≠ [])
    (h : ∀ t ∈ items, IsBalanced t) :
    (outer ([','].intercalate items)).count ',' + 1 =
      (items.flatMap outer).count ',' + items.length := by
  induction items with
  | nil => exact absurd rfl hne
  | cons t items ih =>
    obtain ⟨ht, hitems⟩ := List.forall_mem_cons.1 h
    cases items with
    | nil => simp
    | cons u us =>
      have htail := ih (List.cons_ne_nil u us) hitems
      rw [List.intercalate_cons_cons, List.append_assoc, List.singleton_append, outer_append ht,
        outer_cons rfl, List.count_append, List.count_cons_self, List.flatMap_cons,
        List.count_append, List.length_cons]
      omega

/-- Joined texts are empty only if there is no text or a single empty one. -/
theorem intercalate_comma_ne_nil {items : List Text} (hne : items ≠ []) (hsingle : items ≠ [[]]) :
    [','].intercalate items ≠ [] := by
  match items with
  | [] => exact absurd rfl hne
  | [t] =>
    rw [List.intercalate_singleton]
    rintro rfl
    exact hsingle rfl
  | t :: u :: us => simp [List.intercalate_cons_cons]

/-- Balanced texts are found again where they are joined by commas exactly if they have no outer
commas. -/
theorem outerPieces_intercalate_iff {items : List Text} (hne : items ≠ [])
    (h : ∀ t ∈ items, IsBalanced t) :
    outerPieces 0 ([','].intercalate items) = items ↔ ∀ t ∈ items, ',' ∉ outer t := by
  refine ⟨fun heq => ?_, fun hcomma =>
    outerPieces_intercalate hne fun t ht => ⟨h t ht, hcomma t ht⟩⟩
  have hlength := length_outerPieces 0 ([','].intercalate items)
  have hcount := count_outer_intercalate hne h
  rw [heq] at hlength
  have hnone : (items.flatMap outer).count ',' = 0 := by
    rw [outer] at hcount
    omega
  intro t ht hcomma
  exact List.count_eq_zero.1 hnone (List.mem_flatMap.2 ⟨t, ht, hcomma⟩)

/-! ### The count of open brackets -/

theorem countAfter_ofInt (depth : Int) (c : Char) :
    countAfter (.ofInt 32 depth) c = .ofInt 32 (depthAfter depth c) := by
  unfold countAfter depthAfter
  split
  next => rw [BitVec.ofInt_add]; rfl
  next =>
    split
    next => rw [Int.sub_eq_add_neg, BitVec.ofInt_add, BitVec.sub_eq_add_neg]; rfl
    next => rfl

/-- Nowhere in a text, in front of which `depth` brackets are open, is the depth out of the range of
a count of 32 bits. -/
def InRange (depth : Int) (t : Text) : Prop :=
  ∀ s, s <+: t → -2 ^ 31 ≤ depthBehind depth s ∧ depthBehind depth s < 2 ^ 31

theorem InRange.tail {depth : Int} {c : Char} {t : Text} (h : InRange depth (c :: t)) :
    InRange (depthAfter depth c) t := by
  intro s hs
  rw [← depthBehind_cons]
  exact h (c :: s) (List.cons_prefix_cons.2 ⟨rfl, hs⟩)

/-- Only depth zero is counted as zero. -/
theorem InRange.ofInt_eq_zero_iff {depth : Int} {t : Text} (h : InRange depth t) :
    BitVec.ofInt 32 depth = 0 ↔ depth = 0 := by
  have hrange := h [] List.nil_prefix
  rw [depthBehind_nil] at hrange
  constructor
  · intro hzero
    have hint := BitVec.toInt_ofInt_eq_self (w := 32) (n := depth) (by decide) hrange.1 hrange.2
    rw [← hint, hzero]
    rfl
  · rintro rfl
    rfl

/-- The count of open brackets tells the commas at depth zero as long as the depth is in its
range. -/
theorem splitAtZero_eq_outerPieces {depth : Int} {t : Text} (h : InRange depth t) :
    splitAtZero (.ofInt 32 depth) t = outerPieces depth t := by
  induction t generalizing depth with
  | nil => rfl
  | cons c t ih =>
    simp only [splitAtZero, outerPieces, h.ofInt_eq_zero_iff, countAfter_ofInt]
    split
    next hc =>
      obtain ⟨rfl, rfl⟩ := hc
      exact congrArg ([] :: ·) (ih h.tail)
    next => rw [ih h.tail]

/-- So it does in every text with fewer than 2^31 brackets of either kind. -/
theorem splitAtZero_eq_outerPieces_of_count_lt {t : Text} (hopen : t.count '<' < 2 ^ 31)
    (hclose : t.count '>' < 2 ^ 31) : splitAtZero 0 t = outerPieces 0 t := by
  have hrange : InRange 0 t := by
    intro s hs
    have hle := hs.sublist.count_le '<'
    have hle' := hs.sublist.count_le '>'
    unfold depthBehind
    omega
  exact splitAtZero_eq_outerPieces hrange

/-- Nowhere in a text are as many as 2^31 brackets open. -/
@[mk_iff]
structure IsShallow (t : Text) : Prop where
  /-- Nowhere are so many more brackets opened than have been closed. -/
  opened : ∀ s, s <+: t → s.count '<' < s.count '>' + 2 ^ 31

instance (t : Text) : Decidable (IsShallow t) :=
  decidable_of_iff (∀ s ∈ t.inits, s.count '<' < s.count '>' + 2 ^ 31)
    ⟨fun h => ⟨fun s hs => h s ((List.mem_inits s t).2 hs)⟩,
      fun h s hs => h.opened s ((List.mem_inits s t).1 hs)⟩

theorem isShallow_of_count_lt {t : Text} (h : t.count '<' < 2 ^ 31) : IsShallow t where
  opened s hs := by
    have hle := hs.sublist.count_le '<'
    omega

theorem IsBalanced.inRange {t : Text} (h : IsBalanced t) (hshallow : IsShallow t) :
    InRange 0 t := by
  intro s hs
  have hopened := h.opened s hs
  have hlt := hshallow.opened s hs
  unfold depthBehind
  omega

/-- Balanced texts are in range also where they are joined by commas. -/
theorem inRange_intercalate {items : List Text}
    (h : ∀ t ∈ items, IsBalanced t ∧ IsShallow t) : InRange 0 ([','].intercalate items) := by
  induction items with
  | nil => exact isBalanced_nil.inRange (isShallow_of_count_lt (by decide))
  | cons t items ih =>
    obtain ⟨⟨ht, hshallow⟩, hitems⟩ := List.forall_mem_cons.1 h
    cases items with
    | nil =>
      rw [List.intercalate_singleton]
      exact ht.inRange hshallow
    | cons u us =>
      rw [List.intercalate_cons_cons, List.append_assoc, List.singleton_append]
      intro s hs
      rcases prefix_append_cases hs with hs | ⟨v, rfl, hv⟩
      · exact ht.inRange hshallow s hs
      · rw [depthBehind_append, ht.depthBehind_eq]
        rcases List.prefix_cons_iff.1 hv with rfl | ⟨v, rfl, hv'⟩
        · exact ⟨by decide, by decide⟩
        · rw [depthBehind_cons]
          exact ih hitems v hv'

/-! ### Lists in brackets -/

theorem insideBrackets?_eq_some (inside : Text) :
    insideBrackets? ('<' :: (inside ++ ['>'])) = some inside :=
  dropEnd?_eq_some_iff.2 rfl

theorem splitTypeArgs_of_ne_nil {inside : Text} (h : inside ≠ []) :
    splitTypeArgs ('<' :: (inside ++ ['>'])) = splitAtZero 0 inside := by
  rw [splitTypeArgs, insideBrackets?_eq_some]
  split
  next hnone => cases hnone
  next hnil => exact absurd (Option.some.inj hnil) h
  next heq => rw [Option.some.inj heq]

/-- Balanced arguments without as many as 2^31 open brackets are listed as they were joined exactly
if they have no outer commas and are not a single empty one. Whatever stands between the brackets,
its arguments with commas between them make it up. -/
theorem splitTypeArgs_join :
    (∀ items : List Text, (∀ item ∈ items, IsBalanced item ∧ IsShallow item) →
      (splitTypeArgs ('<' :: ([','].intercalate items ++ ['>'])) = items ↔
        items ≠ [[]] ∧ ∀ item ∈ items, ',' ∉ outer item)) ∧
      ∀ inside : Text, [','].intercalate (splitTypeArgs ('<' :: (inside ++ ['>']))) = inside := by
  refine ⟨fun items h => ?_, fun inside => ?_⟩
  · by_cases hne : items = []
    · subst hne
      exact iff_of_true rfl ⟨by decide, List.forall_mem_nil _⟩
    by_cases hsingle : items = [[]]
    · subst hsingle
      exact iff_of_false (by decide) fun hand => hand.1 rfl
    · have hsplit := splitAtZero_eq_outerPieces (inRange_intercalate h)
      rw [splitTypeArgs_of_ne_nil (intercalate_comma_ne_nil hne hsingle)]
      change splitAtZero (.ofInt 32 0) _ = items ↔ _
      rw [hsplit, outerPieces_intercalate_iff hne fun t ht => (h t ht).1, and_iff_right hsingle]
  · exact intercalate_splitTypeArgs (insideBrackets?_eq_some inside)

/-- Arguments with commas and with arguments of their own, one of them empty. -/
def severalArgs : List Text := ["a.B".toList, " a.Map<b.K,b.V<?>>".toList, [], "a.C<>".toList]

/-- They are listed as they were joined. -/
theorem splitTypeArgs_join_severalArgs :
    (∀ item ∈ severalArgs, IsBalanced item ∧ IsShallow item) ∧
      (∀ item ∈ severalArgs, ',' ∉ outer item) ∧
      splitTypeArgs "<a.B, a.Map<b.K,b.V<?>>,,a.C<>>".toList = severalArgs ∧
      [','].intercalate (splitTypeArgs "<a.B>>,(<,a.C>".toList) = "a.B>>,(<,a.C".toList := by
  have hitems : ∀ item ∈ severalArgs, IsBalanced item ∧ IsShallow item := by decide
  have hcomma : ∀ item ∈ severalArgs, ',' ∉ outer item := by decide
  refine ⟨hitems, hcomma, ?_, ?_⟩
  · exact (splitTypeArgs_join.1 severalArgs hitems).2 ⟨by decide, hcomma⟩
  · exact splitTypeArgs_join.2 "a.B>>,(<,a.C".toList

/-! ### A count that wraps around -/

/-- A comma in `n` groups. -/
def groupedComma (n : Nat) : Text := List.replicate n '<' ++ ',' :: List.replicate n '>'

theorem groupedComma_succ (n : Nat) : groupedComma (n + 1) = '<' :: (groupedComma n ++ ['>']) := by
  rw [groupedComma, groupedComma, List.replicate_succ, List.replicate_succ', List.append_assoc]
  rfl

theorem isBalanced_groupedComma (n : Nat) : IsBalanced (groupedComma n) := by
  induction n with
  | zero => exact (isBalanced_cons_iff (by decide)).2 isBalanced_nil
  | succ n ih =>
    rw [groupedComma_succ]
    exact isBalanced_open_iff.2 ⟨groupedComma n, [], rfl, ih, isBalanced_nil⟩

theorem outer_groupedComma {n : Nat} (h : n ≠ 0) : outer (groupedComma n) = [] := by
  obtain ⟨n, rfl⟩ := Nat.exists_eq_succ_of_ne_zero h
  rw [groupedComma_succ]
  exact outer_group (isBalanced_groupedComma n) []

theorem groupedComma_ne_nil (n : Nat) : groupedComma n ≠ [] := by simp [groupedComma]

/-- Where as many groups are open as the count has values, it is zero. -/
theorem splitAtZero_groupedComma {n : Nat} {count : BitVec 32} (h : count + .ofNat 32 n = 0)
    (r : Text) :
    splitAtZero count (groupedComma n ++ r) =
      List.replicate n '<' :: splitAtZero 0 (List.replicate n '>' ++ r) := by
  induction n generalizing count r with
  | zero =>
    obtain rfl : count = 0 := by simpa using h
    rfl
  | succ n ih =>
    have hcount : count + 1 + .ofNat 32 n = 0 := by
      rw [← h, BitVec.ofNat_add, BitVec.add_assoc, BitVec.add_comm 1]
      rfl
    calc splitAtZero count (groupedComma (n + 1) ++ r)
        = consHead '<' (splitAtZero (count + 1) (groupedComma n ++ '>' :: r)) := by
          rw [groupedComma_succ, List.cons_append, List.append_assoc, splitAtZero,
            if_neg (by simp)]
          rfl
      _ = List.replicate (n + 1) '<' :: splitAtZero 0 (List.replicate n '>' ++ '>' :: r) := by
          rw [ih hcount]
          rfl
      _ = List.replicate (n + 1) '<' :: splitAtZero 0 (List.replicate (n + 1) '>' ++ r) := by
          rw [List.replicate_succ' (n := n) (a := '>'), List.append_assoc]
          rfl

/-- An argument that is balanced and has no outer commas, but one comma in 2^32 groups, is cut in
two. -/
theorem splitTypeArgs_groupedComma :
    IsBalanced (groupedComma (2 ^ 32)) ∧ ',' ∉ outer (groupedComma (2 ^ 32)) ∧
      [groupedComma (2 ^ 32)] ≠ [[]] ∧
      splitTypeArgs ('<' :: ([','].intercalate [groupedComma (2 ^ 32)] ++ ['>'])) ≠
        [groupedComma (2 ^ 32)] := by
  have hne : groupedComma (2 ^ 32) ≠ [] := groupedComma_ne_nil _
  refine ⟨isBalanced_groupedComma _, ?_, fun h => hne (List.cons.inj h).1, fun h => ?_⟩
  · rw [outer_groupedComma (by decide)]
    exact List.not_mem_nil
  · have hcut : splitAtZero 0 (groupedComma (2 ^ 32) ++ []) = _ :=
      splitAtZero_groupedComma (by decide) []
    rw [List.append_nil] at hcut
    rw [List.intercalate_singleton, splitTypeArgs_of_ne_nil hne, hcut] at h
    exact splitAtZero_ne_nil _ _ (List.cons.inj h).2

end ApiSurface
