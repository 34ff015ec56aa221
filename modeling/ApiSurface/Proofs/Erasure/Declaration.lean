import ApiSurface.Proofs.Erasure.Params

/-!
# Declarations that are read

A generics declaration is read in pieces between brackets and commas, wherever these stand: the
arguments of a bound give pieces beside those of the parameters. A declaration is written by
`declText`; `foldl_addPiece_text` says that the pieces of one written parameter add its own entry
and no other, and `get?_ofDecl_declText` that the entries of a written declaration are those of its
parameters.
-/

namespace ApiSurface

open Text

namespace Params

/-! ### Written declarations -/

/-- A bound of a type parameter, as it is written. -/
structure Bound where
  /-- The name, or a placeholder. -/
  name : Text
  /-- What stands between angle brackets behind it, if anything does. -/
  args : Option Text := none
  deriving DecidableEq

/-- The name with its type arguments. -/
def Bound.text (b : Bound) : Text :=
  match b.args with
  | none => b.name
  | some args => b.name ++ '<' :: (args ++ ['>'])

/-- A type parameter, as it is written in a declaration. -/
structure ParamDecl where
  /-- Its number. -/
  digits : Text
  /-- Its bounds, of which the first one is what it is erased to. -/
  bounds : List Bound := []
  /-- How many spaces stand in front of it. -/
  before : Nat := 0
  /-- How many spaces stand behind it. -/
  after : Nat := 0
  deriving DecidableEq

namespace ParamDecl

/-- The parameter with its percent sign. -/
def param (p : ParamDecl) : Text := '%' :: p.digits

/-- The parameter and its bounds. -/
def core (p : ParamDecl) : Text :=
  match p.bounds with
  | [] => p.param
  | bound :: bounds =>
    p.param ++ (" extends ".toList ++ (bound.text ++ bounds.flatMap (" & ".toList ++ ·.text)))

/-- The parameter as it stands between commas. -/
def text (p : ParamDecl) : Text :=
  List.replicate p.before ' ' ++ (p.core ++ List.replicate p.after ' ')

/-- What the parameter is erased to, if anything. -/
def erasure (policy : UnboundPolicy) (p : ParamDecl) : Option Text :=
  match p.bounds with
  | bound :: _ => some bound.name
  | [] => if policy = .object then some objectName else none

end ParamDecl

/-- A declaration of several parameters. -/
def declText (ps : List ParamDecl) : Text :=
  '<' :: ([','].intercalate (ps.map ParamDecl.text) ++ ['>'])

/-- Whether a text begins with a percent sign and a digit. -/
def startsWithParam : Text → Bool
  | '%' :: d :: _ => d.isDigit
  | _ => false

/-- A bound that can be read again. Its type arguments may be any text, of which no piece is taken
for a parameter. -/
structure Bound.WellFormed (b : Bound) : Prop where
  /-- There is a name. -/
  name_ne_nil : b.name ≠ []
  /-- The name has no spaces, commas or angle brackets. -/
  name_plain : ∀ c ∈ b.name, c ≠ ' ' ∧ isSeparator c = false
  /-- Nor has it other blanks at its ends. -/
  trim_name : trim b.name = b.name
  /-- No piece of the type arguments begins like a parameter. -/
  args : ∀ args ∈ b.args, ∀ piece ∈ declPieces args, startsWithParam piece = false

theorem Bound.wellFormed_iff {b : Bound} : b.WellFormed ↔
    b.name ≠ [] ∧ b.name.all (fun c => c ≠ ' ' && !isSeparator c) = true ∧ trim b.name = b.name ∧
      ∀ args ∈ b.args, ∀ piece ∈ declPieces args, startsWithParam piece = false := by
  have hplain : b.name.all (fun c => c ≠ ' ' && !isSeparator c) = true ↔
      ∀ c ∈ b.name, c ≠ ' ' ∧ isSeparator c = false := by
    simp only [List.all_eq_true, Bool.and_eq_true, decide_eq_true_eq, Bool.not_eq_true']
  rw [hplain]
  exact ⟨fun h => ⟨h.name_ne_nil, h.name_plain, h.trim_name, h.args⟩,
    fun ⟨hne, hname, htrim, hargs⟩ => ⟨hne, hname, htrim, hargs⟩⟩

instance (b : Bound) : Decidable b.WellFormed := decidable_of_iff _ Bound.wellFormed_iff.symm

/-- A type parameter that can be read again. -/
structure ParamDecl.WellFormed (p : ParamDecl) : Prop where
  /-- It has a number. -/
  isParam : IsParam p.param
  /-- Its bounds can be read. -/
  bounds : ∀ b ∈ p.bounds, b.WellFormed

variable {scope : Scope} {policy : UnboundPolicy} {params : Params}

/-! ### Single pieces -/

theorem isBlank_of_isDigit {d : Char} (h : d.isDigit = true) : isBlank d = false := by
  have hbounds : 0x30 ≤ d.toNat ∧ d.toNat ≤ 0x39 := by
    simpa [Char.isDigit, UInt32.le_iff_toNat_le] using h
  simp only [isBlank, Bool.or_eq_false_iff, Bool.and_eq_false_iff, decide_eq_false_iff_not,
    beq_eq_false_iff_ne]
  omega

/-- A parameter has no blanks. -/
theorem IsParam.not_blank {param : Text} (h : IsParam param) : ∀ c ∈ param, isBlank c = false := by
  obtain ⟨digits, rfl, -, hall⟩ := h
  exact List.forall_mem_cons.2 ⟨rfl, fun d hd => isBlank_of_isDigit (hall d hd)⟩

/-- Only at its end blanks are removed from a text that begins with a parameter. -/
theorem trim_param_append {param : Text} (h : IsParam param) (t : Text) :
    trim (param ++ t) = dropEndWhile isBlank (param ++ t) := by
  obtain ⟨digits, rfl, -⟩ := h
  rfl

theorem cutParam?_eq_none_of {piece : Text} (h : startsWithParam piece = false) :
    cutParam? piece = none := by
  unfold cutParam?
  split
  next r =>
    rw [if_pos]
    rcases r with _ | ⟨d, r⟩
    · rfl
    · exact List.takeWhile_cons_of_neg (Bool.eq_false_iff.1 h)
  next => rfl

/-- Pieces that do not begin like a parameter add nothing. -/
theorem foldl_addPiece_of_startsWithParam {pieces : List Text}
    (h : ∀ piece ∈ pieces, startsWithParam piece = false) :
    pieces.foldl (addPiece scope policy) params = params := by
  induction pieces with
  | nil => rfl
  | cons piece pieces ih =>
    obtain ⟨hpiece, hpieces⟩ := List.forall_mem_cons.1 h
    rw [List.foldl_cons, addPiece, cutParam?_eq_none_of hpiece]
    exact ih hpieces

/-- What follows `extends` is trimmed, and the first word of it is the bound. -/
theorem addPiece_extends {param t : Text} (hparam : IsParam param)
    (ht : ∃ c ∈ t, isBlank c = false) :
    addPiece scope policy params (trim (param ++ (" extends ".toList ++ t))) =
      params.insert (scope.placeholder param) ((trim t).takeWhile (· ≠ ' ')) := by
  obtain ⟨c, hmem, hc⟩ := ht
  have hpiece : trim (param ++ (" extends ".toList ++ t)) =
      param ++ (" extends ".toList ++ dropEndWhile isBlank t) := by
    rw [trim_param_append hparam, dropEndWhile_append_of_mem (List.mem_append_right _ hmem) hc,
      dropEndWhile_append_of_mem hmem hc]
  have hafter : after? " extends ".toList (" extends ".toList ++ dropEndWhile isBlank t) =
      some (dropEndWhile isBlank t) := after?_eq_some_iff.2 rfl
  have htrim : trim (dropEndWhile isBlank t) = trim t := by
    obtain ⟨dropped, heq, hdropped⟩ := exists_eq_dropEndWhile_append isBlank t
    conv => rhs; rw [heq]
    exact (trim_append_of_blank_right hdropped _).symm
  rw [hpiece, addPiece, cutParam?_append hparam (by rintro c ⟨⟩; rfl)]
  simp only [boundOf?, hafter, Option.map_some, htrim]

/-- Where only blanks follow `extends`, it is not read as such. -/
theorem addPiece_extends_blank {param t : Text} (hparam : IsParam param)
    (ht : ∀ c ∈ t, isBlank c = true) :
    addPiece scope policy params (trim (param ++ (" extends ".toList ++ t))) = params := by
  have hblank : ∀ c ∈ ' ' :: t, isBlank c = true := List.forall_mem_cons.2 ⟨rfl, ht⟩
  have hpiece : trim (param ++ (" extends ".toList ++ t)) = param ++ " extends".toList := by
    have hassoc : param ++ (" extends ".toList ++ t) = (param ++ " extends".toList) ++ ' ' :: t := by
      simp
    rw [hassoc, trim_append_of_blank_right hblank, trim_param_append hparam,
      dropEndWhile_append_of_mem (c := 's') (by simp) rfl]
    rfl
  rw [hpiece, addPiece, cutParam?_append hparam (by rintro c ⟨⟩; rfl)]
  have hnone : boundOf? " extends".toList = none := rfl
  have hne : " extends".toList ≠ [] := by simp
  simp only [hnone, hne, false_and, if_false]

/-- A parameter without a bound is erased to the root, if it is erased to anything. -/
theorem addPiece_param {param : Text} (hparam : IsParam param)
    (hfresh : params.get? (scope.placeholder param) = none) :
    addPiece scope policy params (trim param) =
      if policy = .object then params.insert (scope.placeholder param) objectName else params := by
  have hpiece : trim param = param :=
    trim_eq_self (fun c hc => hparam.not_blank c (List.mem_of_head? hc))
      fun c hc => hparam.not_blank c (List.mem_of_getLast? hc)
  have hcut : cutParam? (param ++ []) = some (param, []) := cutParam?_append hparam (by rintro c ⟨⟩)
  have hnone : boundOf? [] = none := rfl
  rw [List.append_nil] at hcut
  rw [hpiece, addPiece, hcut]
  simp only [hnone, hfresh, true_and, and_true]

/-! ### Pieces of a parameter -/

theorem not_isSeparator_space {n : Nat} : ∀ c ∈ List.replicate n ' ', isSeparator c = false := by
  intro c hc
  rw [List.eq_of_mem_replicate hc]
  rfl

theorem isBlank_space {n : Nat} : ∀ c ∈ List.replicate n ' ', isBlank c = true := by
  intro c hc
  rw [List.eq_of_mem_replicate hc]
  rfl

theorem IsParam.not_isSeparator {param : Text} (h : IsParam param) :
    ∀ c ∈ param, isSeparator c = false := by
  obtain ⟨digits, rfl, -, hall⟩ := h
  refine List.forall_mem_cons.2 ⟨rfl, fun d hd => ?_⟩
  have hdigit := hall d hd
  simp only [isSeparator, Bool.or_eq_false_iff, beq_eq_false_iff_ne]
  refine ⟨⟨?_, ?_⟩, ?_⟩ <;> rintro rfl <;> cases hdigit

theorem startsWithParam_trim_ampersand (t : Text) :
    startsWithParam (trim (" & ".toList ++ t)) = false := by
  have htrim : trim (" & ".toList ++ t) = dropEndWhile isBlank ('&' :: ' ' :: t) := rfl
  obtain ⟨dropped, heq, hdropped⟩ := exists_eq_dropEndWhile_append isBlank ('&' :: ' ' :: t)
  rw [htrim]
  rcases hkept : dropEndWhile isBlank ('&' :: ' ' :: t) with _ | ⟨c, kept⟩
  · rfl
  · rw [hkept] at heq
    obtain ⟨rfl, -⟩ := List.cons.inj heq
    simp [startsWithParam]

/-- No piece of a text begins like a parameter, and the first one begins with a space or is
empty. -/
def Continues (t : Text) : Prop :=
  ∃ piece more, split isSeparator t = piece :: more ∧ (∀ c, piece.head? = some c → c = ' ') ∧
    ∀ q ∈ piece :: more, startsWithParam (trim q) = false

theorem continues_spaces (n : Nat) : Continues (List.replicate n ' ') := by
  refine ⟨List.replicate n ' ', [], split_of_forall_not not_isSeparator_space, ?_, ?_⟩
  · exact fun c hc => List.eq_of_mem_replicate (List.mem_of_head? hc)
  · rw [List.forall_mem_singleton, trim_of_forall_blank isBlank_space]
    rfl

/-- A bound belongs to the piece in front of it up to its type arguments, if it has any. -/
theorem exists_split_bound {b : Bound} (hb : b.WellFormed) {t rest : Text}
    (ht : ∀ c ∈ t, isSeparator c = false) (hrest : Continues rest) :
    ∃ behind more, split isSeparator (t ++ (b.text ++ rest)) = (t ++ (b.name ++ behind)) :: more ∧
      (∀ c, behind.head? = some c → c = ' ') ∧ ∀ q ∈ more, startsWithParam (trim q) = false := by
  obtain ⟨piece, more, hsplit, hspace, hmore⟩ := hrest
  have hname : ∀ c ∈ t ++ b.name, isSeparator c = false :=
    List.forall_mem_append.2 ⟨ht, fun c hc => (hb.name_plain c hc).2⟩
  rcases hargs : b.args with _ | args
  · refine ⟨piece, more, ?_, hspace, (List.forall_mem_cons.1 hmore).2⟩
    rw [Bound.text, hargs, ← List.append_assoc, ← List.append_assoc,
      split_append_of_forall_not hname hsplit]
  · refine ⟨[], split isSeparator args ++ piece :: more, ?_, by rintro c ⟨⟩, ?_⟩
    · have hassoc : t ++ (b.text ++ rest) = (t ++ b.name) ++ '<' :: (args ++ '>' :: rest) := by
        simp [Bound.text, hargs]
      rw [hassoc, split_append_cons hname rfl, split_append rfl, hsplit, List.append_nil]
    · refine List.forall_mem_append.2 ⟨fun q hq => ?_, hmore⟩
      exact hb.args args hargs _ (List.mem_map_of_mem hq)

/-- Further bounds belong to the piece in front of them, or to pieces of their own. -/
theorem continues_bounds {bounds : List Bound} (h : ∀ b ∈ bounds, b.WellFormed) (spaces : Nat) :
    Continues (bounds.flatMap (" & ".toList ++ ·.text) ++ List.replicate spaces ' ') := by
  induction bounds with
  | nil => exact continues_spaces spaces
  | cons b bounds ih =>
    obtain ⟨hb, hbounds⟩ := List.forall_mem_cons.1 h
    obtain ⟨behind, more, hsplit, -, hmore⟩ :=
      exists_split_bound hb (not_isSeparator_of_all (t := " & ".toList) (by decide)) (ih hbounds)
    refine ⟨" & ".toList ++ (b.name ++ behind), more, ?_, by rintro c ⟨⟩; rfl,
      List.forall_mem_cons.2 ⟨startsWithParam_trim_ampersand _, hmore⟩⟩
    rw [List.flatMap_cons, List.append_assoc, List.append_assoc, hsplit]

theorem Bound.WellFormed.exists_cons {b : Bound} (h : b.WellFormed) :
    ∃ c r, b.name = c :: r ∧ isBlank c = false := by
  obtain ⟨c, r, hname⟩ := List.exists_cons_of_ne_nil h.name_ne_nil
  refine ⟨c, r, hname, head?_trim b.name c ?_⟩
  rw [h.trim_name, hname, List.head?_cons]

/-- Blanks are removed only from what follows the name of a bound. -/
theorem exists_trim_name_append {b : Bound} (h : b.WellFormed) (behind : Text) :
    ∃ kept dropped, trim (b.name ++ behind) = b.name ++ kept ∧ behind = kept ++ dropped := by
  by_cases hblank : ∀ c ∈ behind, isBlank c = true
  · refine ⟨[], behind, ?_, rfl⟩
    rw [trim_append_of_blank_right hblank, h.trim_name, List.append_nil]
  · simp only [Classical.not_forall, Bool.not_eq_true] at hblank
    obtain ⟨c, hmem, hc⟩ := hblank
    obtain ⟨dropped, heq, -⟩ := exists_eq_dropEndWhile_append isBlank behind
    refine ⟨dropEndWhile isBlank behind, dropped, ?_, heq⟩
    obtain ⟨first, r, hname, hfirst⟩ := h.exists_cons
    have hstart : trimStart (b.name ++ behind) = b.name ++ behind := by
      refine dropWhile_eq_self fun d hd => ?_
      rw [hname, List.cons_append, List.head?_cons] at hd
      exact Option.some.inj hd ▸ hfirst
    rw [trim, hstart, dropEndWhile_append_of_mem hmem hc]

/-- What is left of a bound up to the next space is its name. -/
theorem takeWhile_trim_name {b : Bound} (h : b.WellFormed) {behind : Text}
    (hbehind : ∀ c, behind.head? = some c → c = ' ') :
    (trim (b.name ++ behind)).takeWhile (· ≠ ' ') = b.name := by
  have hname : ∀ c ∈ b.name, decide (c ≠ ' ') = true :=
    fun c hc => decide_eq_true (h.name_plain c hc).1
  obtain ⟨kept, dropped, htrim, rfl⟩ := exists_trim_name_append h behind
  rw [htrim, List.takeWhile_append_of_pos hname]
  rcases kept with _ | ⟨c, kept⟩
  · exact List.append_nil _
  · rw [hbehind c rfl, List.takeWhile_cons_of_neg (by decide), List.append_nil]

/-! ### Entries of a parameter -/

/-- The pieces of a parameter add its entry, if it is erased to anything, and no other. -/
theorem foldl_addPiece_text {p : ParamDecl} (h : p.WellFormed)
    (hfresh : params.get? (scope.placeholder p.param) = none) :
    (declPieces p.text).foldl (addPiece scope policy) params =
      match p.erasure policy with
      | some value => params.insert (scope.placeholder p.param) value
      | none => params := by
  have hspaces : ∀ c ∈ List.replicate p.before ' ', isBlank c = true := isBlank_space
  have hfront : ∀ c ∈ List.replicate p.before ' ' ++ p.param, isSeparator c = false :=
    List.forall_mem_append.2 ⟨not_isSeparator_space, h.isParam.not_isSeparator⟩
  rcases hbounds : p.bounds with _ | ⟨b, bounds⟩
  · have hcore : p.core = p.param := by rw [ParamDecl.core, hbounds]
    have hpieces : declPieces p.text = [trim p.param] := by
      have hsplit : split isSeparator p.text = [p.text] := by
        refine split_of_forall_not ?_
        rw [ParamDecl.text, hcore, ← List.append_assoc]
        exact List.forall_mem_append.2 ⟨hfront, not_isSeparator_space⟩
      rw [declPieces, hsplit, List.map_singleton, ParamDecl.text, hcore,
        trim_append_of_blank_left hspaces, trim_append_of_blank_right isBlank_space]
    rw [hpieces, List.foldl_cons, List.foldl_nil, addPiece_param h.isParam hfresh,
      ParamDecl.erasure, hbounds]
    dsimp only
    split <;> rfl
  · have hwell := h.bounds
    rw [hbounds] at hwell
    obtain ⟨hb, hrest⟩ := List.forall_mem_cons.1 hwell
    obtain ⟨behind, more, hsplit, hbehind, hmore⟩ := exists_split_bound hb
      (t := List.replicate p.before ' ' ++ p.param ++ " extends ".toList)
      (List.forall_mem_append.2 ⟨hfront, not_isSeparator_of_all (by decide)⟩)
      (continues_bounds hrest p.after)
    have hnonblank : ∃ c ∈ b.name ++ behind, isBlank c = false := by
      obtain ⟨c, r, hname, hc⟩ := hb.exists_cons
      exact ⟨c, List.mem_append_left _ (hname ▸ List.mem_cons_self), hc⟩
    have htext : p.text = List.replicate p.before ' ' ++ p.param ++ " extends ".toList ++
        (b.text ++ (bounds.flatMap (" & ".toList ++ ·.text) ++ List.replicate p.after ' ')) := by
      simp [ParamDecl.text, ParamDecl.core, hbounds]
    have hsilent : ∀ piece ∈ more.map trim, startsWithParam piece = false :=
      List.forall_mem_map.2 hmore
    rw [declPieces, htext, hsplit, List.map_cons, List.foldl_cons,
      foldl_addPiece_of_startsWithParam hsilent, List.append_assoc, List.append_assoc,
      trim_append_of_blank_left hspaces, addPiece_extends h.isParam hnonblank,
      takeWhile_trim_name hb hbehind, ParamDecl.erasure, hbounds]

theorem declPieces_append {c : Char} (hc : isSeparator c = true) (t r : Text) :
    declPieces (t ++ c :: r) = declPieces t ++ declPieces r := by
  rw [declPieces, split_append hc, List.map_append]
  rfl

/-- The parameters of a declaration are read one after the other. -/
theorem foldl_addPiece_intercalate (ps : List ParamDecl) :
    (declPieces ([','].intercalate (ps.map ParamDecl.text))).foldl (addPiece scope policy) params =
      ps.foldl (fun params p => (declPieces p.text).foldl (addPiece scope policy) params)
        params := by
  induction ps generalizing params with
  | nil => rfl
  | cons p ps ih =>
    rcases ps with _ | ⟨q, ps⟩
    · rw [List.map_singleton, List.intercalate_singleton]
      rfl
    · rw [List.map_cons, List.map_cons, List.intercalate_cons_cons, List.append_assoc,
        List.singleton_append, declPieces_append rfl, List.foldl_append, ← List.map_cons, ih]
      rfl

/-- The brackets around a declaration make no difference. -/
theorem ofDecl_enclosed (r : Text) :
    ofDecl scope policy ('<' :: (r ++ ['>'])) = (declPieces r).foldl (addPiece scope policy) ∅ := by
  have hstart : declPieces ('<' :: (r ++ ['>'])) = [[]] ++ declPieces (r ++ ['>']) :=
    declPieces_append rfl [] (r ++ ['>'])
  have hend : declPieces (r ++ ['>']) = declPieces r ++ [[]] := declPieces_append rfl r []
  rw [ofDecl, ← declPieces, hstart, hend, List.foldl_append, List.foldl_append]
  rfl

theorem ofDecl_declText (ps : List ParamDecl) :
    ofDecl scope policy (declText ps) =
      ps.foldl (fun params p => (declPieces p.text).foldl (addPiece scope policy) params) ∅ := by
  rw [declText, ofDecl_enclosed, foldl_addPiece_intercalate]

theorem placeholder_inj {a b : Text} : scope.placeholder a = scope.placeholder b ↔ a = b := by
  cases scope <;> simp [Scope.placeholder]

/-- Parameters that have no entries yet get their own, and nothing else is changed. -/
theorem get?_foldl_addPiece_iff {ps : List ParamDecl} (h : ∀ p ∈ ps, p.WellFormed)
    (hdistinct : (ps.map (·.digits)).Nodup)
    (hfresh : ∀ p ∈ ps, params.get? (scope.placeholder p.param) = none) {key value : Text} :
    (ps.foldl (fun params p => (declPieces p.text).foldl (addPiece scope policy) params)
        params).get? key = some value ↔
      params.get? key = some value ∨
        ∃ p ∈ ps, scope.placeholder p.param = key ∧ p.erasure policy = some value := by
  induction ps generalizing params with
  | nil => simp
  | cons p ps ih =>
    obtain ⟨hp, hps⟩ := List.forall_mem_cons.1 h
    obtain ⟨hfirst, hlater⟩ := List.forall_mem_cons.1 hfresh
    rw [List.map_cons, List.nodup_cons] at hdistinct
    have hother : ∀ q ∈ ps, scope.placeholder q.param ≠ scope.placeholder p.param := by
      intro q hq heq
      have hdigits : q.digits = p.digits := (List.cons.inj (placeholder_inj.1 heq)).2
      exact hdistinct.1 (List.mem_map.2 ⟨q, hq, hdigits⟩)
    rw [List.foldl_cons, foldl_addPiece_text hp hfirst]
    simp only [List.mem_cons, exists_eq_or_imp]
    rcases herasure : p.erasure policy with _ | erased
    · rw [ih hps hdistinct.2 hlater]
      simp
    · have hfresh' : ∀ q ∈ ps, (params.insert (scope.placeholder p.param) erased).get?
          (scope.placeholder q.param) = none := by
        intro q hq
        rw [SortedMap.get?_insert, if_neg (hother q hq)]
        exact hlater q hq
      have hinsert : (params.insert (scope.placeholder p.param) erased).get? key = some value ↔
          params.get? key = some value ∨ scope.placeholder p.param = key ∧ erased = value := by
        rw [SortedMap.get?_insert]
        by_cases hkey : key = scope.placeholder p.param
        · subst hkey
          simp [hfirst]
        · simp [hkey, Ne.symm hkey]
      rw [ih hps hdistinct.2 hfresh', hinsert, Option.some.injEq, or_assoc]

/-- A declaration of different parameters is read as the map from each parameter to the name of its
first bound, or to the root if it has no bound and the policy says so. There are no other entries,
whatever further bounds and type arguments are written. -/
theorem get?_ofDecl_declText (scope : Scope) (policy : UnboundPolicy) {ps : List ParamDecl}
    (h : ∀ p ∈ ps, p.WellFormed) (hdistinct : (ps.map (·.digits)).Nodup) (key value : Text) :
    (ofDecl scope policy (declText ps)).get? key = some value ↔
      ∃ p ∈ ps, scope.placeholder p.param = key ∧ p.erasure policy = some value := by
  rw [ofDecl_declText, get?_foldl_addPiece_iff h hdistinct fun _ _ => rfl]
  simp

/-- A parameter with nested type arguments and a second bound, one without a bound, and one whose
bound is a parameter. -/
def nestedDecl : List ParamDecl :=
  [{ digits := "0".toList, after := 1
     bounds := [⟨"a.Map".toList, some "?, a.List<a.B<{%1}>>".toList⟩, ⟨"a.N".toList, some []⟩] },
    { digits := "10".toList, before := 1 },
    { digits := "1".toList, bounds := [⟨"{%0}".toList, none⟩] }]

/-- The parameter without a bound has an entry under one policy only. -/
theorem get?_ofDecl_nestedDecl :
    declText nestedDecl =
      "<%0 extends a.Map<?, a.List<a.B<{%1}>>> & a.N<> , %10,%1 extends {%0}>".toList ∧
    (ofDecl .ofMember .object (declText nestedDecl)).get? "{%0}".toList = some "a.Map".toList ∧
    (ofDecl .ofMember .object (declText nestedDecl)).get? "{%10}".toList = some objectName ∧
    (ofDecl .ofMember .object (declText nestedDecl)).get? "{%1}".toList = some "{%0}".toList ∧
    (ofDecl .ofMember .unresolved (declText nestedDecl)).get? "{%10}".toList = none := by
  have hbounds : ∀ p ∈ nestedDecl, ∀ b ∈ p.bounds, b.WellFormed := by decide
  have hparams : ∀ p ∈ nestedDecl, p.digits ≠ [] ∧ p.digits.all Char.isDigit = true := by decide
  have hwell : ∀ p ∈ nestedDecl, p.WellFormed := fun p hp =>
    ⟨⟨p.digits, rfl, (hparams p hp).1, List.all_eq_true.1 (hparams p hp).2⟩, hbounds p hp⟩
  have hdistinct : (nestedDecl.map (·.digits)).Nodup := by decide
  have hobject := get?_ofDecl_declText .ofMember .object hwell hdistinct
  have hunresolved := get?_ofDecl_declText .ofMember .unresolved hwell hdistinct
  refine ⟨by decide, (hobject _ _).2 ?_, (hobject _ _).2 ?_, (hobject _ _).2 ?_, ?_⟩
  · decide
  · decide
  · decide
  · refine Option.eq_none_iff_forall_ne_some.2 fun value hvalue => ?_
    obtain ⟨p, hp, hkey, herasure⟩ := (hunresolved _ _).1 hvalue
    have hnone : ∀ p ∈ nestedDecl, Scope.ofMember.placeholder p.param = "{%10}".toList →
        p.erasure .unresolved = none := by decide
    rw [hnone p hp hkey] at herasure
    cases herasure

end Params

end ApiSurface
