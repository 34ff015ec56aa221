import ApiSurface.Grouping
import Mathlib.Data.Finset.Card
import Mathlib.Data.List.Nodup

/-!
# Groups of a list

The groups of a list are told by their keys: `mem_groupsBy_iff` says that a group is the list of
all elements of one key. A list in which no key comes twice, written several times in a row, has
one group for each element (`groupsBy_copies`), and of each key its first element is that of the
list (`distinctBy_copies`). The first elements may be taken from two parts of a list by themselves
(`distinctBy_append`). What comes up again in a list is all that it has beyond its distinct elements
(`length_repeats`), each as often as it comes up again (`count_repeats`).
-/

namespace ApiSurface

variable {α κ : Type _} [DecidableEq κ]

/-- The elements of one key come from the list and have that key. -/
theorem of_filter_key_eq {key : α → κ} {k : κ} {l group : List α}
    (h : l.filter (key · = k) = group) : ∀ a ∈ group, a ∈ l ∧ key a = k := by
  intro a ha
  rw [← h] at ha
  simpa using List.mem_filter.1 ha

/-- A group is made of all elements of its key, in the order of the list. -/
theorem mem_groupsBy_iff {key : α → κ} {l : List α} {a : α} {rest : List α} :
    (a, rest) ∈ groupsBy key l ↔ l.filter (fun b => key b = key a) = a :: rest := by
  fun_induction groupsBy key l with
  | case1 => simp
  | case2 b l ih =>
    rw [List.mem_cons, Prod.mk.injEq, ih]
    by_cases h : key b = key a
    · have hnone : (withoutKey key (key b) l).filter (fun x => key x = key a) = [] := by
        refine List.filter_eq_nil_iff.2 ?_
        intro x hx
        simpa [← h] using (mem_withoutKey_iff.1 hx).2
      rw [hnone, List.filter_cons_of_pos (by simpa using h), List.cons.injEq]
      constructor
      · rintro (⟨rfl, rfl⟩ | h')
        · exact ⟨rfl, rfl⟩
        · cases h'
      · rintro ⟨rfl, rfl⟩
        exact .inl ⟨rfl, rfl⟩
    · have hall : (withoutKey key (key b) l).filter (fun x => key x = key a) =
          l.filter fun x => key x = key a := by
        rw [withoutKey, List.filter_filter]
        refine List.filter_congr ?_
        intro x _
        by_cases hx : key x = key a
        · simp [hx, Ne.symm h]
        · simp [hx]
      rw [hall, List.filter_cons_of_neg (by simpa using h)]
      constructor
      · rintro (⟨rfl, -⟩ | h')
        · exact absurd rfl h
        · exact h'
      · exact .inr

/-- The elements of a group come from the list and have the key of the first. -/
theorem of_mem_groupsBy {key : α → κ} {l : List α} {a : α} {rest : List α}
    (h : (a, rest) ∈ groupsBy key l) : a ∈ l ∧ ∀ b ∈ rest, b ∈ l ∧ key b = key a := by
  have hmem := of_filter_key_eq (mem_groupsBy_iff.1 h)
  exact ⟨(hmem a List.mem_cons_self).1, fun b hb => hmem b (List.mem_cons_of_mem _ hb)⟩

/-- Every element of the list belongs to a group of its key. -/
theorem exists_mem_groupsBy (key : α → κ) {l : List α} {b : α} (h : b ∈ l) :
    ∃ g ∈ groupsBy key l, key g.1 = key b ∧ b ∈ g.1 :: g.2 := by
  have hb : b ∈ l.filter fun x => key x = key b := List.mem_filter.2 ⟨h, by simp⟩
  obtain ⟨a, rest, hf⟩ := List.exists_cons_of_ne_nil (List.ne_nil_of_mem hb)
  have ha : key a = key b := (of_filter_key_eq hf a List.mem_cons_self).2
  refine ⟨(a, rest), mem_groupsBy_iff.2 (by rw [ha, hf]), ha, ?_⟩
  rw [hf] at hb
  exact hb

/-- A map that keeps keys keeps groups. -/
theorem groupsBy_map {key : α → κ} {f : α → α} (hf : ∀ a, key (f a) = key a) (l : List α) :
    groupsBy key (l.map f) = (groupsBy key l).map fun g => (f g.1, g.2.map f) := by
  have hfilter : ∀ (p : κ → Bool) (l : List α),
      (l.map f).filter (fun b => p (key b)) = (l.filter fun b => p (key b)).map f := by
    intro p l
    rw [List.filter_map]
    exact congrArg (List.map f) (List.filter_congr fun b _ => congrArg p (hf b))
  fun_induction groupsBy key l with
  | case1 => rw [List.map_nil, groupsBy, List.map_nil]
  | case2 a l ih =>
    rw [List.map_cons, groupsBy, List.map_cons, hf a, ← ih]
    refine congrArg₂ List.cons (congrArg (f a, ·) ?_) (congrArg (groupsBy key) ?_)
    · exact hfilter (· = key a) l
    · exact hfilter (· ≠ key a) l

/-- In a list without repeated keys a search that only one key can pass finds the element of that
key. -/
theorem find?_eq_some_of_nodup_map {β : Type _} (key : α → β) {l : List α} {a : α}
    {p : α → Bool} (hl : (l.map key).Nodup) (ha : a ∈ l) (hp : p a = true)
    (hkey : ∀ b ∈ l, p b = true → key b = key a) : l.find? p = some a := by
  obtain ⟨b, hb⟩ := Option.isSome_iff_exists.1 (List.find?_isSome.2 ⟨a, ha, hp⟩)
  have hmem := List.mem_of_find?_eq_some hb
  rw [hb, List.inj_on_of_nodup_map hl hmem ha (hkey b hmem (List.find?_some hb))]

theorem head?_distinctBy (key : α → κ) (l : List α) : (distinctBy key l).head? = l.head? := by
  cases l with
  | nil => rw [distinctBy]
  | cons a l => rw [distinctBy, List.head?_cons, List.head?_cons]

/-- A search that goes by keys finds the same element among the first ones of each key. -/
theorem find?_distinctBy (key : α → κ) (p : κ → Bool) (l : List α) :
    (distinctBy key l).find? (fun a => p (key a)) = l.find? fun a => p (key a) := by
  fun_induction distinctBy key l with
  | case1 => rfl
  | case2 a l ih =>
    rw [List.find?_cons, List.find?_cons]
    cases ha : p (key a) with
    | true => rfl
    | false =>
      have hwithout : (withoutKey key (key a) l).find? (fun b => p (key b)) =
          l.find? fun b => p (key b) := by
        rw [withoutKey, List.find?_filter]
        refine congrArg (List.find? · l) (funext fun b => ?_)
        by_cases hb : key b = key a
        · simp [hb, ha]
        · simp [hb]
      exact ih.trans hwithout

/-- What a search for a result finds is the result of the first element that has one. -/
theorem findSome?_eq_bind_find? {β : Type _} (f : α → Option β) (l : List α) :
    l.findSome? f = (l.find? fun a => (f a).isSome).bind f := by
  induction l with
  | nil => rfl
  | cons a l ih =>
    rcases ha : f a with _ | b
    · rw [List.findSome?_cons_of_isNone (by simp [ha]), List.find?_cons_of_neg (by simp [ha]), ih]
    · rw [List.findSome?_cons_of_isSome (by simp [ha]), List.find?_cons_of_pos (by simp [ha]),
        Option.bind_some]

/-! ### Copies of a list -/

theorem filter_flatten_replicate (p : α → Bool) (n : Nat) (l : List α) :
    (List.replicate n l).flatten.filter p = (List.replicate n (l.filter p)).flatten := by
  rw [List.filter_flatten, List.map_replicate]

/-- A list without repeated keys, followed by `n` copies of it, has a group of `n + 1` elements
for each element. -/
theorem groupsBy_copies {key : α → κ} {l : List α} (h : (l.map key).Nodup) (n : Nat) :
    groupsBy key (List.replicate (n + 1) l).flatten = l.map fun a => (a, List.replicate n a) := by
  rw [List.replicate_succ, List.flatten_cons]
  induction l with
  | nil => simp [groupsBy]
  | cons a l ih =>
    rw [List.map_cons, List.nodup_cons] at h
    have hne : ∀ b ∈ l, key b ≠ key a := fun b hb heq => h.1 (List.mem_map.2 ⟨b, hb, heq⟩)
    have hsame : l.filter (fun b => key b = key a) = [] :=
      List.filter_eq_nil_iff.2 fun b hb => by simpa using hne b hb
    have hother : l.filter (fun b => key b ≠ key a) = l :=
      List.filter_eq_self.2 fun b hb => by simpa using hne b hb
    rw [List.cons_append, groupsBy, List.map_cons]
    congr 1
    · rw [List.filter_append, hsame, List.nil_append, filter_flatten_replicate,
        List.filter_cons_of_pos (by simp), hsame]
      simp
    · rw [withoutKey, List.filter_append, hother, filter_flatten_replicate,
        List.filter_cons_of_neg (by simp), hother, ih h.2]

theorem distinctBy_copies {key : α → κ} {l : List α} (h : (l.map key).Nodup) (n : Nat) :
    distinctBy key (List.replicate (n + 1) l).flatten = l := by
  rw [← map_fst_groupsBy, groupsBy_copies h, List.map_map]
  exact List.map_id _

/-- Where no key comes twice, an element is the only one of its key. -/
theorem filter_key_of_nodup {key : α → κ} {l : List α} {a : α} (h : (l.map key).Nodup)
    (ha : a ∈ l) : l.filter (key · = key a) = [a] := by
  have hgroups := groupsBy_copies h 0
  rw [List.replicate_one, List.flatten_singleton] at hgroups
  refine mem_groupsBy_iff.1 ?_
  rw [hgroups]
  exact List.mem_map_of_mem (f := fun a => (a, List.replicate 0 a)) ha

/-! ### Lists in two parts -/

theorem withoutKey_append (key : α → κ) (k : κ) (l r : List α) :
    withoutKey key k (l ++ r) = withoutKey key k l ++ withoutKey key k r := List.filter_append ..

theorem withoutKey_cons_of_eq {key : α → κ} {k : κ} {a : α} (h : key a = k) (l : List α) :
    withoutKey key k (a :: l) = withoutKey key k l := List.filter_cons_of_neg (by simpa using h)

theorem withoutKey_cons_of_ne {key : α → κ} {k : κ} {a : α} (h : key a ≠ k) (l : List α) :
    withoutKey key k (a :: l) = a :: withoutKey key k l :=
  List.filter_cons_of_pos (by simpa using h)

theorem withoutKey_distinctBy (key : α → κ) (k : κ) (l : List α) :
    withoutKey key k (distinctBy key l) = distinctBy key (withoutKey key k l) := by
  fun_induction distinctBy key l with
  | case1 => simp [withoutKey, distinctBy]
  | case2 a l ih =>
    by_cases h : key a = k
    · have hsame : withoutKey key k (withoutKey key (key a) l) = withoutKey key k l := by
        simp [withoutKey, h]
      rw [withoutKey_cons_of_eq h, ih, hsame, withoutKey_cons_of_eq h]
    · have hcomm : withoutKey key k (withoutKey key (key a) l) =
          withoutKey key (key a) (withoutKey key k l) := List.filter_comm ..
      rw [withoutKey_cons_of_ne h, ih, hcomm, withoutKey_cons_of_ne h, distinctBy]

theorem distinctBy_distinctBy_append (key : α → κ) (l r : List α) :
    distinctBy key (distinctBy key l ++ r) = distinctBy key (l ++ r) := by
  fun_induction distinctBy key l generalizing r with
  | case1 => rfl
  | case2 a l ih =>
    have hidem : withoutKey key (key a) (withoutKey key (key a) l) = withoutKey key (key a) l := by
      simp [withoutKey]
    rw [List.cons_append, distinctBy, withoutKey_append, withoutKey_distinctBy, hidem, ih,
      List.cons_append, distinctBy, withoutKey_append]

theorem distinctBy_append_distinctBy (key : α → κ) (l r : List α) :
    distinctBy key (l ++ distinctBy key r) = distinctBy key (l ++ r) := by
  fun_induction distinctBy key l generalizing r with
  | case1 => simpa using distinctBy_distinctBy_append key r []
  | case2 a l ih =>
    rw [List.cons_append, distinctBy, withoutKey_append, withoutKey_distinctBy, ih,
      List.cons_append, distinctBy, withoutKey_append]

/-- The first elements of each key can be taken from two parts of a list by themselves. -/
theorem distinctBy_append (key : α → κ) (l r : List α) :
    distinctBy key (distinctBy key l ++ distinctBy key r) = distinctBy key (l ++ r) := by
  rw [distinctBy_distinctBy_append, distinctBy_append_distinctBy]

/-- Which keys come up, and in which order, is told by the keys of the list. -/
theorem map_distinctBy (key : α → κ) (l : List α) :
    (distinctBy key l).map key = distinctBy id (l.map key) := by
  fun_induction distinctBy key l with
  | case1 => simp [distinctBy]
  | case2 a l ih =>
    have hkeys : (withoutKey key (key a) l).map key = withoutKey id (key a) (l.map key) := by
      rw [withoutKey, withoutKey, List.filter_map]
      rfl
    rw [List.map_cons, ih, hkeys, List.map_cons, distinctBy, id]

/-- Lists with the same keys in the same order are the same if they have the same elements of each
key. -/
theorem eq_of_filter_key_eq (key : α → κ) {l l' : List α} (hkeys : l.map key = l'.map key)
    (h : ∀ k, l.filter (key · = k) = l'.filter (key · = k)) : l = l' := by
  induction l generalizing l' with
  | nil => exact (List.map_eq_nil_iff.1 hkeys.symm).symm
  | cons a l ih =>
    obtain ⟨b, l', rfl⟩ := List.exists_cons_of_ne_nil (l := l') (by rintro rfl; cases hkeys)
    rw [List.map_cons, List.map_cons, List.cons.injEq] at hkeys
    obtain ⟨hkey, hkeys⟩ := hkeys
    have hhead := h (key a)
    rw [List.filter_cons_of_pos (by simp), List.filter_cons_of_pos (by simp [hkey])] at hhead
    obtain ⟨rfl, -⟩ := List.cons.inj hhead
    refine congrArg (a :: ·) (ih hkeys fun k => ?_)
    have hk := h k
    by_cases ha : key a = k
    · rw [List.filter_cons_of_pos (by simpa using ha), List.filter_cons_of_pos (by simpa using ha)]
        at hk
      exact (List.cons.inj hk).2
    · rwa [List.filter_cons_of_neg (by simpa using ha),
        List.filter_cons_of_neg (by simpa using ha)] at hk

/-- Of pieces that are all empty but one, that one is left. -/
theorem flatMap_eq_of_nodup {β : Type _} {f : α → List β} {l : List α} {a : α} (hl : l.Nodup)
    (ha : a ∈ l) (hf : ∀ b ∈ l, b ≠ a → f b = []) : l.flatMap f = f a := by
  obtain ⟨before, after, rfl⟩ := List.append_of_mem ha
  have hnew : a ∉ before ++ after := (List.nodup_cons.1 (List.nodup_middle.1 hl)).1
  have hempty : (before ++ after).flatMap f = [] := by
    refine List.flatMap_eq_nil_iff.2 fun b hb => hf b ?_ fun heq => hnew (heq ▸ hb)
    exact ((List.sublist_cons_self a after).append_left before).subset hb
  rw [List.flatMap_append, List.append_eq_nil_iff] at hempty
  rw [List.flatMap_append, List.flatMap_cons, hempty.1, hempty.2, List.nil_append, List.append_nil]

/-! ### Repeated keys -/

/-- Nothing comes up again in a list exactly if it has no duplicates and nothing of `seen`. -/
theorem repeats_eq_nil_iff {seen l : List κ} :
    repeats seen l = [] ↔ l.Nodup ∧ ∀ k ∈ l, k ∉ seen := by
  induction l generalizing seen with
  | nil => simp [repeats]
  | cons k l ih =>
    unfold repeats
    split
    next h => simp [h]
    next h =>
      rw [ih, List.nodup_cons]
      constructor
      · rintro ⟨hn, hs⟩
        refine ⟨⟨fun hk => hs k hk List.mem_cons_self, hn⟩, fun x hx => ?_⟩
        rcases List.mem_cons.1 hx with rfl | hx
        · exact h
        · exact fun hxs => hs x hx (List.mem_cons_of_mem _ hxs)
      · rintro ⟨⟨hk, hn⟩, hs⟩
        refine ⟨hn, fun x hx hxs => ?_⟩
        rcases List.mem_cons.1 hxs with rfl | hxs
        · exact hk hx
        · exact hs x (List.mem_cons_of_mem _ hx) hxs

section Count

variable [BEq κ] [LawfulBEq κ]

theorem count_repeats_of_mem {seen l : List κ} {k : κ} (h : k ∈ seen) :
    (repeats seen l).count k = l.count k := by
  induction l generalizing seen with
  | nil => rfl
  | cons x l ih =>
    unfold repeats
    split
    next => rw [List.count_cons, List.count_cons, ih h]
    next hx =>
      have hne : x ≠ k := fun heq => hx (heq ▸ h)
      rw [ih (List.mem_cons_of_mem x h), List.count_cons_of_ne hne]

theorem count_repeats_of_not_mem {seen l : List κ} {k : κ} (h : k ∉ seen) :
    (repeats seen l).count k = l.count k - 1 := by
  induction l generalizing seen with
  | nil => rfl
  | cons x l ih =>
    unfold repeats
    by_cases hk : x = k
    · subst hk
      rw [if_neg h, count_repeats_of_mem List.mem_cons_self, List.count_cons_self,
        Nat.add_sub_cancel]
    · rw [List.count_cons_of_ne hk]
      split
      next => rw [List.count_cons_of_ne hk, ih h]
      next => exact ih fun hmem => (List.mem_cons.1 hmem).elim (Ne.symm hk) h

/-- An element comes up again once less often than it is in the list. -/
theorem count_repeats (l : List κ) (k : κ) : (repeats [] l).count k = l.count k - 1 :=
  count_repeats_of_not_mem List.not_mem_nil

theorem mem_repeats_iff {l : List κ} {k : κ} : k ∈ repeats [] l ↔ 2 ≤ l.count k := by
  rw [← List.one_le_count_iff, count_repeats]
  omega

end Count

/-- Every element that is not the first of its kind comes up again. -/
theorem length_repeats (l : List κ) : (repeats [] l).length + l.toFinset.card = l.length := by
  have hseen : ∀ seen : List κ,
      (repeats seen l).length + (l.toFinset \ seen.toFinset).card = l.length := by
    induction l with
    | nil => simp [repeats]
    | cons x l ih =>
      intro seen
      unfold repeats
      rw [List.toFinset_cons, List.length_cons]
      split
      next h =>
        have hsame : insert x l.toFinset \ seen.toFinset = l.toFinset \ seen.toFinset :=
          Finset.insert_sdiff_of_mem _ (List.mem_toFinset.2 h)
        rw [hsame, List.length_cons, ← ih seen]
        omega
      next h =>
        have hnew : insert x l.toFinset \ seen.toFinset =
            insert x (l.toFinset \ (x :: seen).toFinset) := by
          ext y
          by_cases hy : y = x
          · simp [hy, h]
          · simp [hy]
        have hfresh : x ∉ l.toFinset \ (x :: seen).toFinset := by simp
        rw [hnew, Finset.card_insert_of_notMem hfresh, ← ih (x :: seen)]
        omega
  simpa using hseen []

end ApiSurface
