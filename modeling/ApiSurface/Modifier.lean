import ApiSurface.Text.Basic

/-!
# Modifiers

The fourteen declaration modifiers and the sets of them. A set is the 32-bit word of access
flags of a class file; bits that stand for no modifier are kept and have no word.

Main statements: `Modifiers.has_union` and its companions say what each operation does to
single modifiers, and `Modifiers.isSubset_iff` reads inclusion bit by bit.
-/

namespace ApiSurface

/-- A declaration modifier. -/
inductive Modifier where
  /-- The keyword `public`. -/
  | pub
  /-- The keyword `protected`. -/
  | prot
  /-- The keyword `private`. -/
  | priv
  /-- The keyword `abstract`. -/
  | abstract
  /-- The keyword `static`. -/
  | static
  /-- The keyword `final`. -/
  | final
  /-- The keyword `transient`. -/
  | transient
  /-- The keyword `volatile`. -/
  | volatile
  /-- The keyword `synchronized`. -/
  | synchronized
  /-- The keyword `native`. -/
  | native
  /-- The keyword `strictfp`. -/
  | strictfp
  /-- The flag of interfaces, written `interface`. -/
  | interface
  /-- The flag of annotation types, written `annotation`. -/
  | annot
  /-- The flag of enumeration types and their constants, written `enum`. -/
  | enum
  deriving DecidableEq, Repr

namespace Modifier

/-- Every modifier, in the order in which modifiers are written. -/
def all : List Modifier :=
  [pub, prot, priv, abstract, static, final, transient, volatile, synchronized, native, strictfp,
    interface, annot, enum]

theorem mem_all (m : Modifier) : m ∈ all := by cases m <;> decide

/-- The place of a modifier's flag in the word of access flags, counted from the lowest bit. -/
def bitIndex : Modifier → Nat
  | pub => 0
  | priv => 1
  | prot => 2
  | static => 3
  | final => 4
  | synchronized => 5
  | volatile => 6
  | transient => 7
  | native => 8
  | interface => 9
  | abstract => 10
  | strictfp => 11
  | annot => 13
  | enum => 14

theorem bitIndex_lt (m : Modifier) : m.bitIndex < 32 := by cases m <;> decide

theorem bitIndex_inj {m n : Modifier} : m.bitIndex = n.bitIndex ↔ m = n :=
  ⟨fun h => by revert h; cases m <;> cases n <;> decide, fun h => h ▸ rfl⟩

/-- The keyword of a modifier. -/
def word : Modifier → Text
  | pub => "public".toList
  | prot => "protected".toList
  | priv => "private".toList
  | abstract => "abstract".toList
  | static => "static".toList
  | final => "final".toList
  | transient => "transient".toList
  | volatile => "volatile".toList
  | synchronized => "synchronized".toList
  | native => "native".toList
  | strictfp => "strictfp".toList
  | interface => "interface".toList
  | annot => "annotation".toList
  | enum => "enum".toList

/-- The modifier with a given keyword. -/
def ofWord? (t : Text) : Option Modifier := all.find? (·.word = t)

theorem ofWord?_word (m : Modifier) : ofWord? m.word = some m := by cases m <;> decide

theorem ofWord?_eq_some_iff {t : Text} {m : Modifier} : ofWord? t = some m ↔ t = m.word := by
  constructor
  · intro h
    simpa [eq_comm] using List.find?_some h
  · rintro rfl
    exact ofWord?_word m

end Modifier

/-- A set of modifiers, as a word of access flags. -/
structure Modifiers where
  /-- The access flags. -/
  bits : BitVec 32
  deriving DecidableEq

namespace Modifiers

/-- The set without modifiers. -/
def none : Modifiers := ⟨0#32⟩

instance : Inhabited Modifiers := ⟨none⟩

/-- Whether a modifier is in the set. -/
def has (s : Modifiers) (m : Modifier) : Bool := s.bits.getLsbD m.bitIndex

/-- The set with a modifier added. -/
def insert (s : Modifiers) (m : Modifier) : Modifiers := ⟨s.bits ||| BitVec.twoPow 32 m.bitIndex⟩

/-- The set with a modifier taken out. -/
def erase (s : Modifiers) (m : Modifier) : Modifiers :=
  ⟨s.bits &&& ~~~(BitVec.twoPow 32 m.bitIndex)⟩

/-- The flags of either set. -/
def union (s t : Modifiers) : Modifiers := ⟨s.bits ||| t.bits⟩

/-- The flags of both sets. -/
def inter (s t : Modifiers) : Modifiers := ⟨s.bits &&& t.bits⟩

/-- The flags of the first set that are not in the second. -/
def diff (s t : Modifiers) : Modifiers := ⟨s.bits &&& ~~~t.bits⟩

/-- Whether every flag of the first set is in the second. -/
def isSubset (s t : Modifiers) : Bool := (s.diff t).bits == 0#32

/-- Whether no flag is set. -/
def isEmpty (s : Modifiers) : Bool := s.bits == 0#32

/-- The set of the modifiers of a list. -/
def ofList (l : List Modifier) : Modifiers := l.foldl insert none

/-- The modifiers of the set in the order in which they are written. -/
def toList (s : Modifiers) : List Modifier := Modifier.all.filter s.has

/-- The keywords of the set, with a space between any two. -/
def text (s : Modifiers) : Text := [' '].intercalate (s.toList.map Modifier.word)

/-- The three flags that decide visibility. -/
def visibility : Modifiers := ofList [.pub, .prot, .priv]

/-! ### Single flags -/

@[ext] theorem ext {s t : Modifiers} (h : ∀ i < 32, s.bits.getLsbD i = t.bits.getLsbD i) :
    s = t := by
  cases s
  cases t
  simpa using BitVec.eq_of_getLsbD_eq h

theorem mem_toList_iff {s : Modifiers} {m : Modifier} : m ∈ s.toList ↔ s.has m = true := by
  simp [toList, Modifier.mem_all]

@[simp] theorem has_none (m : Modifier) : none.has m = false := by simp [has, none]

@[simp] theorem has_insert (s : Modifiers) (m n : Modifier) :
    (s.insert m).has n = (s.has n || decide (m = n)) := by
  simp [has, insert, Modifier.bitIndex_lt, Modifier.bitIndex_inj, eq_comm (a := n)]

@[simp] theorem has_erase (s : Modifiers) (m n : Modifier) :
    (s.erase m).has n = (s.has n && !decide (m = n)) := by
  simp [has, erase, Modifier.bitIndex_lt, Modifier.bitIndex_inj, eq_comm (a := n)]

@[simp] theorem has_union (s t : Modifiers) (m : Modifier) :
    (s.union t).has m = (s.has m || t.has m) := by
  simp [has, union]

@[simp] theorem has_inter (s t : Modifiers) (m : Modifier) :
    (s.inter t).has m = (s.has m && t.has m) := by
  simp [has, inter]

@[simp] theorem has_diff (s t : Modifiers) (m : Modifier) :
    (s.diff t).has m = (s.has m && !t.has m) := by
  simp [has, diff, Modifier.bitIndex_lt]

theorem insert_eq_self {x : Modifiers} {m : Modifier} (h : x.has m = true) : x.insert m = x := by
  ext i hi
  simp only [insert, BitVec.getLsbD_or, BitVec.getLsbD_twoPow]
  by_cases hmi : m.bitIndex = i
  · subst hmi
    simpa [has] using fun _ => h
  · simp [hmi]

theorem isSubset_iff {s t : Modifiers} :
    s.isSubset t = true ↔ ∀ i < 32, s.bits.getLsbD i = true → t.bits.getLsbD i = true := by
  simp only [isSubset, diff, beq_iff_eq]
  constructor
  · intro h i hi hs
    have := congrArg (fun b => b.getLsbD i) h
    simpa [hi, hs] using this
  · intro h
    refine BitVec.eq_of_getLsbD_eq fun i hi => ?_
    by_cases hs : s.bits.getLsbD i = true
    · simp [h i hi hs]
    · simp [hs]

end Modifiers

end ApiSurface
