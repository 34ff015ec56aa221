import ApiSurface.NameTable
import ApiSurface.Proofs.Valid
import Mathlib.Data.Finset.Card

/-!
# Runs on a name table

A reader of one kind of lines enters the names of the draft that it reads, and none where it fails,
whatever table it has at hand (`Reading.Enters`; one lemma for each reader). So what a line is read
as tells which names the table gets from it (`NameTable.parseMember_eq`): an accepted line those of
its member, a line that is rejected for its modifiers those in the qualified name that the error
shows, and every other line none.

Main statement: a table that is given names and lines in some order hands out the answers of fresh
tables and gets no other names than these (`NameTable.runSpec`).
-/

namespace ApiSurface

open Text Line

/-! ### Entering names -/

namespace NameTable

variable {t : NameTable} {names : List Text} {x : Text}

/-- The table with all names of a list entered. -/
def enterAll (t : NameTable) (names : List Text) : NameTable := names.foldl enter t

theorem mem_enterAll_iff : x ∈ (t.enterAll names).names ↔ x ∈ t.names ∨ x ∈ names := by
  induction names generalizing t with
  | nil => simp [enterAll]
  | cons n ns ih =>
    change x ∈ ((t.enter n).enterAll ns).names ↔ _
    rw [ih, mem_enter_iff, List.mem_cons, or_assoc]

theorem enterAll_append (t : NameTable) (names names' : List Text) :
    t.enterAll (names ++ names') = (t.enterAll names).enterAll names' := List.foldl_append

/-- Names that were entered keep their numbers. -/
theorem prefix_enterAll (t : NameTable) (names : List Text) :
    t.names <+: (t.enterAll names).names := by
  induction names generalizing t with
  | nil => exact List.prefix_rfl
  | cons name names ih => exact (t.prefix_enter name).trans (ih (t.enter name))

/-- No name is counted twice. -/
theorem size_eq_card (t : NameTable) : t.size = t.names.toFinset.card :=
  (List.toFinset_card_of_nodup t.nodup).symm

theorem size_enterAll (t : NameTable) (names : List Text) :
    (t.enterAll names).size = (t.names ++ names).toFinset.card := by
  rw [size_eq_card]
  congr 1
  ext x
  simp only [List.mem_toFinset, mem_enterAll_iff, List.mem_append]

/-- Names that are entered make a table grow by at most their number. -/
theorem size_enterAll_le (t : NameTable) (names : List Text) :
    (t.enterAll names).size ≤ t.size + names.length := by
  rw [size_enterAll, size, ← List.length_append]
  exact List.toFinset_card_le _

end NameTable

/-! ### The names in a line -/

/-- The names of a member: of a reference to a type its name, of any other member the declaring
type and the simple name. -/
def Member.names (m : Member) : List Text :=
  if m.kind.isTypeRef then [m.name] else [m.declaring, m.name]

theorem Member.length_names_le (m : Member) : m.names.length ≤ 2 := by
  unfold names
  split
  next => exact Nat.le_succ 1
  next => exact Nat.le_refl 2

/-- The names in a qualified name: of a reference to a type the whole name, of any other member
what is before and after the last delimiter. -/
def Kind.namesIn (kind : Kind) (qualified : Text) : List Text :=
  if kind.isTypeRef then [qualified]
  else ((cutLast? (· == kind.delimiter) qualified).map fun cut => [cut.1, cut.2]).getD []

theorem Kind.length_namesIn_le (kind : Kind) (qualified : Text) :
    (kind.namesIn qualified).length ≤ 2 := by
  unfold namesIn
  split
  next => exact Nat.le_succ 1
  next =>
    rcases cutLast? (· == kind.delimiter) qualified with _ | cut
    · exact Nat.zero_le 2
    · exact Nat.le_refl 2

/-! ### What a reader enters -/

/-- The table that is left where the names of what is read are entered, and none where reading
fails. -/
def NameTable.afterReading {ε α : Type} (t : NameTable) (names : α → List Text) :
    Except ε α → NameTable
  | .ok a => t.enterAll (names a)
  | .error _ => t

namespace Reading

variable {ε ε' α β : Type} {r : Reading ε α} {names : α → List Text}

/-- Whatever table is at hand, the same is read, the names of what is read are entered, and no name
is where reading fails. -/
def Enters (names : α → List Text) (r : Reading ε α) : Prop :=
  ∀ t : NameTable, r.run t = (r.result, t.afterReading names r.result)

theorem enters_throw (e : ε) : Enters names (throw e : Reading ε α) := fun _ => rfl

/-- A check in front of a reader is made before any name is entered. -/
theorem enters_check {x : Except ε β} {k : β → Reading ε α} (h : ∀ b, Enters names (k b)) :
    Enters names (liftM x >>= k) := by
  rcases x with e | b
  · exact enters_throw e
  · exact h b

theorem enters_one {name : Text} {a : α} (h : names a = [name]) :
    Enters names (do enter name; return a : Reading ε α) := by
  intro t
  show _ = (Except.ok a, t.enterAll (names a))
  rw [h]
  rfl

theorem enters_two {name name' : Text} {a : α} (h : names a = [name, name']) :
    Enters names (do enter name; enter name'; return a : Reading ε α) := by
  intro t
  show _ = (Except.ok a, t.enterAll (names a))
  rw [h]
  rfl

theorem Enters.adapt (h : Enters names r) (f : ε → ε') : Enters names (r.adapt f) := by
  intro t
  show ((r.run t).1.mapError f, (r.run t).2) =
    (r.result.mapError f, t.afterReading names (r.result.mapError f))
  rw [h t]
  rcases r.result with e | a <;> rfl

end Reading

namespace Line

open Reading

theorem enters_readHeader (ts : List Text) : Enters (·.member.names) (readHeader ts) := by
  unfold readHeader
  dsimp only
  split
  next => exact enters_throw _
  next => exact enters_check fun _ => enters_one rfl

theorem enters_readConstructor (ts : List Text) : Enters (·.member.names) (readConstructor ts) := by
  unfold readConstructor
  dsimp only
  split
  next => exact enters_throw _
  next =>
    exact enters_check fun _ => enters_check fun _ => enters_check fun _ => enters_two rfl

theorem enters_readMethod (ts : List Text) : Enters (·.member.names) (readMethod ts) := by
  unfold readMethod
  dsimp only
  split
  next =>
    exact enters_check fun _ => enters_check fun _ => enters_check fun _ => enters_two rfl
  next => exact enters_throw _

theorem enters_readField (ts : List Text) : Enters (·.member.names) (readField ts) := by
  unfold readField
  dsimp only
  split
  next => exact enters_check fun _ => enters_check fun _ => enters_two rfl
  next => exact enters_throw _

theorem enters_readInner (ts : List Text) : Enters (·.member.names) (readInner ts) := by
  unfold readInner
  dsimp only
  split
  next => exact enters_throw _
  next => exact enters_check fun _ => enters_check fun _ => enters_two rfl

theorem enters_readTypeRef {kind : Kind} (hk : kind.isTypeRef = true) (direct : Bool)
    (ts : List Text) : Enters (·.member.names) (readTypeRef kind direct ts) := by
  unfold readTypeRef
  split
  next => exact enters_throw _
  next => exact enters_one (if_pos hk)

theorem enters_readTokens (kind : Kind) (marked : Bool) (ts : List Text) :
    Enters (·.member.names) (readTokens kind marked ts) := by
  cases kind with
  | header => exact enters_readHeader ts
  | superclass | interface | permitted => exact enters_readTypeRef rfl _ ts
  | constructor => exact enters_readConstructor ts
  | method => exact enters_readMethod ts
  | field => exact enters_readField ts
  | inner => exact enters_readInner ts

/-- A draft is read with its names entered, before its modifiers are checked. -/
theorem enters_readDraft (raw : Text) : Enters (·.member.names) (readDraft raw) := by
  unfold readDraft
  dsimp only
  split
  next => exact enters_throw _
  next kind _ =>
    split
    next => exact enters_throw _
    next =>
      split
      next => exact enters_throw _
      next ts _ => exact (enters_readTokens kind _ ts).adapt _

/-- The names that can be told from what a line is read as. An error shows names only if it is
about modifiers. -/
def namesTold : Except ParseError Member → List Text
  | .ok m => m.names
  | .error (.model (.modifierNotAllowed kind qualified _)) => kind.namesIn qualified
  | .error _ => []

theorem length_namesTold_le (result : Except ParseError Member) :
    (namesTold result).length ≤ 2 := by
  unfold namesTold
  split
  next m => exact m.length_names_le
  next kind qualified _ => exact kind.length_namesIn_le qualified
  next => exact Nat.zero_le 2

/-- A line without a draft shows no names. -/
theorem namesTold_of_readDraft_eq_error {raw : Text} {e : ParseError}
    (h : (readDraft raw).result = .error e) : namesTold (.error e) = [] := by
  unfold readDraft at h
  dsimp only at h
  split at h
  next =>
    cases h
    rfl
  next =>
    split at h
    next =>
      cases h
      rfl
    next =>
      split at h
      next =>
        cases h
        rfl
      next =>
        obtain ⟨fault, -, rfl⟩ := mapError_eq_error_iff.1 h
        rfl

/-- A draft with a simple name is declared by something, with which the name is not mixed up. -/
theorem declaring_of_readDraft {raw : Text} {d : Member.Draft} (h : (readDraft raw).result = .ok d)
    (hk : d.member.kind.isTypeRef = false) :
    d.member.declaring ≠ [] ∧ d.member.name ≠ [] ∧ d.member.kind.delimiter ∉ d.member.name := by
  obtain ⟨kind, ts, -, hmarked, htokens, hread⟩ := readDraft_eq_ok_iff.1 h
  have hmade : Member.MadeOf ts { d.member with modifiers := .none } :=
    Member.madeOf_of_readTokens hmarked hread (isToken_of_mem_tokens htokens)
      (closed_dropLast htokens) (Member.valid_of_modifiers_eq_none rfl)
  exact hmade.shaped.declaring hk

/-- The qualified name of a draft shows the names of the draft. -/
theorem namesIn_qualifiedName {raw : Text} {d : Member.Draft} (h : (readDraft raw).result = .ok d) :
    d.member.kind.namesIn d.member.qualifiedName = d.member.names := by
  unfold Kind.namesIn Member.names
  rcases hk : d.member.kind.isTypeRef with _ | _
  · obtain ⟨hdeclaring, -, hdelimiter⟩ := declaring_of_readDraft h hk
    rw [Member.cutLast?_qualifiedName hk hdeclaring hdelimiter]
    rfl
  · rw [if_pos rfl, if_pos rfl, Member.qualifiedName, if_pos (.inl hk)]

/-- What a line is read as shows the names of its draft, whether or not its modifiers are
accepted. -/
theorem namesTold_member? {raw : Text} {d : Member.Draft} (h : (readDraft raw).result = .ok d) :
    namesTold (d.member?.mapError .model) = d.member.names := by
  unfold Member.Draft.member? Member.setModifiers?
  split
  next => rfl
  next => exact namesIn_qualifiedName h

end Line

namespace NameTable

variable {t t' : NameTable}

/-- Reading a line through a table leaves the names of its draft, also where its modifiers are not
accepted; what is read is the same as with a fresh table. -/
theorem parseMember_eq_afterReading (t : NameTable) (line : Text) :
    t.parseMember line =
      (t.afterReading (·.member.names) (readDraft line).result, ApiSurface.parseMember line) := by
  rw [ApiSurface.parseMember_eq, parseMember, readMember, Reading.run_bind_lift,
    enters_readDraft line t]
  rfl

/-- Reading a line through a table enters the names that can be told from the result, which is the
same as with a fresh table. -/
theorem parseMember_eq (t : NameTable) (line : Text) :
    t.parseMember line =
      (t.enterAll (namesTold (ApiSurface.parseMember line)), ApiSurface.parseMember line) := by
  rw [parseMember_eq_afterReading, ApiSurface.parseMember_eq]
  rcases hdraft : (readDraft line).result with e | d
  · rw [show Except.error e >>= _ = Except.error e from rfl, namesTold_of_readDraft_eq_error hdraft]
    rfl
  · show (t.enterAll d.member.names, _) = (t.enterAll (namesTold (d.member?.mapError _)), _)
    rw [namesTold_member? hdraft]

/-- The table has no influence on what a line is read as. -/
theorem parseMember_snd (t : NameTable) (line : Text) :
    (t.parseMember line).2 = ApiSurface.parseMember line := by
  rw [parseMember_eq]

/-! ### Runs -/

/-- What a table is given. -/
inductive Step where
  /-- A name to intern. -/
  | intern (name : Text)
  /-- A line to read. -/
  | parse (line : Text)

/-- What a table answers. -/
inductive Answer where
  /-- The number of a name. -/
  | number (n : Nat)
  /-- What a line is read as. -/
  | outcome (result : Except ParseError Member)

/-- The texts that a step enters, told by what a fresh table answers. -/
def Step.texts : Step → List Text
  | .intern name => [name]
  | .parse line => namesTold (empty.parseMember line).2

/-- One step on a table. -/
def step (t : NameTable) : Step → NameTable × Answer
  | .intern name => ((t.intern name).1, .number (t.intern name).2)
  | .parse line => ((t.parseMember line).1, .outcome (t.parseMember line).2)

/-- Steps on a table one after another, with all answers. -/
def run (t : NameTable) : List Step → NameTable × List Answer
  | [] => (t, [])
  | s :: steps =>
    let (t, answer) := t.step s
    let (t, answers) := t.run steps
    (t, answer :: answers)

/-- An answer is right in view of the table that is left in the end: a number is that of the name,
and a line is read as a fresh table reads it. -/
def Answered (final : NameTable) : Step → Answer → Prop
  | .intern name, .number n => final.names[n]? = some name
  | .parse line, .outcome result => result = (empty.parseMember line).2
  | _, _ => False

/-- What holds of a run on a table. -/
structure RunSpec (t : NameTable) (steps : List Step) : Prop where
  /-- All steps are answered. -/
  answers : List.Forall₂ (Answered (t.run steps).1) steps (t.run steps).2
  /-- The table that is left has the texts of the steps besides those it had. -/
  contents : ∀ x, x ∈ (t.run steps).1.names ↔ x ∈ t.names ∨ ∃ s ∈ steps, x ∈ s.texts
  /-- Its size is the number of distinct texts. -/
  size : (t.run steps).1.size = (t.names ++ steps.flatMap Step.texts).toFinset.card
  /-- Earlier names keep their numbers. -/
  kept : t.names <+: (t.run steps).1.names
  /-- No further step makes it smaller, or larger by more than two. -/
  growth : ∀ s, (t.run steps).1.size ≤ (t.run (steps ++ [s])).1.size ∧
    (t.run (steps ++ [s])).1.size ≤ (t.run steps).1.size + 2

/-- A step enters its texts. -/
theorem step_fst (t : NameTable) (s : Step) : (t.step s).1 = t.enterAll s.texts := by
  cases s with
  | intern name => rfl
  | parse line =>
    show (t.parseMember line).1 = t.enterAll (namesTold (empty.parseMember line).2)
    rw [parseMember_eq, parseMember_snd]

/-- A step is answered by the table that it leaves. -/
theorem answered_step (t : NameTable) (s : Step) : Answered (t.step s).1 s (t.step s).2 := by
  cases s with
  | intern name => exact t.getElem?_intern name
  | parse line =>
    show (t.parseMember line).2 = (empty.parseMember line).2
    rw [parseMember_snd, parseMember_snd]

/-- Answers stay right when names are entered. -/
theorem Answered.mono {s : Step} {answer : Answer} (h : Answered t s answer)
    (hkept : t.names <+: t'.names) : Answered t' s answer := by
  match s, answer with
  | .intern name, .number n =>
    obtain ⟨rest, hrest⟩ := hkept
    show t'.names[n]? = some name
    have hlt : n < t.names.length := (List.getElem?_eq_some_iff.1 h).1
    rw [← hrest, List.getElem?_append_left hlt]
    exact h
  | .parse _, .outcome _ => exact h

/-- No step has more than two texts. -/
theorem Step.length_texts_le (s : Step) : s.texts.length ≤ 2 := by
  cases s with
  | intern name => exact Nat.le_succ 1
  | parse line => exact length_namesTold_le _

/-- A run enters the texts of its steps. -/
theorem run_fst (t : NameTable) (steps : List Step) :
    (t.run steps).1 = t.enterAll (steps.flatMap Step.texts) := by
  induction steps generalizing t with
  | nil => rfl
  | cons s steps ih =>
    rw [List.flatMap_cons, enterAll_append, ← step_fst]
    exact ih (t.step s).1

/-- The steps of a run are answered by the table that is left in the end. -/
theorem answered_run (t : NameTable) (steps : List Step) :
    List.Forall₂ (Answered (t.run steps).1) steps (t.run steps).2 := by
  induction steps generalizing t with
  | nil => exact .nil
  | cons s steps ih =>
    have hkept : (t.step s).1.names <+: ((t.step s).1.run steps).1.names := by
      rw [run_fst]
      exact prefix_enterAll _ _
    exact .cons ((answered_step t s).mono hkept) (ih (t.step s).1)

/-- Every run answers as fresh tables do, and enters the texts of its steps and no others. -/
theorem runSpec (t : NameTable) (steps : List Step) : RunSpec t steps where
  answers := answered_run t steps
  contents x := by rw [run_fst, mem_enterAll_iff, List.mem_flatMap]
  size := by rw [run_fst, size_enterAll]
  kept := by
    rw [run_fst]
    exact prefix_enterAll t _
  growth s := by
    have hstep : (t.run (steps ++ [s])).1 = (t.run steps).1.enterAll s.texts := by
      rw [run_fst, run_fst, List.flatMap_append, enterAll_append, List.flatMap_singleton]
    rw [hstep]
    have hle := size_enterAll_le (t.run steps).1 s.texts
    have htexts := s.length_texts_le
    exact ⟨(prefix_enterAll (t.run steps).1 s.texts).length_le, by omega⟩

/-- A constructor with a modifier that it may not have leaves its names, a method without its
arguments leaves none, and a nested superclass only its whole name. -/
example : (empty.run [.parse "constructor final a.B.C()".toList, .parse "method int a.B.m".toList,
    .parse "superclass a.B$C".toList]).1.names = ["a.B".toList, "C".toList, "a.B$C".toList] := by
  decide +kernel

end NameTable

end ApiSurface
