import ApiSurface.Line.Error
import ApiSurface.NameTable

/-!
# Entity lines

One line holds one entity: the tag of its kind, then modifiers, a generics declaration, types,
names, arguments, exceptions or a constant, as the kind has them.

Reading a line gives a draft: the member, still without modifiers, and the modifiers that were
read. Whoever reads has a name table at hand: when all else is in order, the names of the draft are
entered, and only then are the modifiers checked against the kind's mask (`Member.Draft.member?`).
-/

namespace ApiSurface

open Text

namespace Line

open Reading (enter)

/-! ### Parts of a line -/

/-- The modifiers at the head of the tokens, and the tokens after them. -/
def takeModifiers : List Text → Modifiers × List Text
  | [] => (.none, [])
  | t :: ts =>
    match Modifier.ofWord? t with
    | some m => ((takeModifiers ts).1.insert m, (takeModifiers ts).2)
    | none => (.none, t :: ts)

/-- The generics declaration at the head of the tokens, if there is one, and the tokens after
it. -/
def takeGenerics : List Text → Option Text × List Text
  | [] => (none, [])
  | t :: ts => if t.head? = some '<' then (some t, ts) else (none, t :: ts)

/-- A name cut before its first angle bracket, and the type arguments from there on. -/
def cutTypeArgs (t : Text) : Text × Option Text :=
  let args := t.dropWhile (· ≠ '<')
  (t.takeWhile (· ≠ '<'), if args = [] then none else some args)

/-- The declaring type and the simple name, cut at the last delimiter. Neither may be empty. -/
def cutName (delimiter : Char) (qualified : Text) : Except Fault (Text × Text) :=
  match cutLast? (· == delimiter) qualified with
  | some (declaring, name) =>
    if declaring = [] ∨ name = [] then .error (.malformedName qualified) else .ok (declaring, name)
  | none => .error (.malformedName qualified)

/-- The arguments in the parentheses of a token. -/
def argsOf? : Text → Option Text
  | '(' :: r => dropEnd? ')' r
  | _ => none

/-- The list of arguments at the head of the tokens, and the tokens after it. -/
def takeArgs : List Text → Except Fault (Text × List Text)
  | [] => .error .missingArguments
  | t :: ts =>
    match argsOf? t with
    | some args => .ok (args, ts)
    | none => .error .missingArguments

/-- Nothing may be left of the line. -/
def expectEnd : List Text → Except Fault Unit
  | [] => .ok ()
  | t :: _ => .error (.unexpectedToken t)

/-- The exceptions that a list of tokens declares, and nothing but them. -/
def readThrows : List Text → Except Fault (List Text)
  | [] => .ok []
  | keyword :: ts =>
    if keyword ≠ "throws".toList then .error (.missingThrowsKeyword keyword)
    else match ts with
      | [] => .error .missingToken
      | list :: rest => (expectEnd rest).map fun _ => split (· == ',') list

/-- The constant that a list of tokens declares, and nothing but it. One space after the equals
sign is not part of it. -/
def readConstant : List Text → Except Fault (Option Text)
  | [] => .ok none
  | t :: rest =>
    match t with
    | '=' :: ' ' :: value => (expectEnd rest).map fun _ => some value
    | '=' :: value => (expectEnd rest).map fun _ => some value
    | _ => .error (.unexpectedToken t)

/-! ### Lines of each kind -/

/-- The class itself: modifiers, generics declaration, name. -/
def readHeader (ts : List Text) : Reading Fault Member.Draft :=
  let (mods, ts) := takeModifiers ts
  let (generics, ts) := takeGenerics ts
  match ts with
  | [] => throw .missingToken
  | t :: rest => do
    expectEnd rest
    let (name, args) := cutTypeArgs t
    enter name
    return ⟨{ Member.typeRef .header name with typeParams := generics <|> args }, mods⟩

/-- A constructor: modifiers, generics declaration, name, arguments, exceptions. -/
def readConstructor (ts : List Text) : Reading Fault Member.Draft :=
  let (mods, ts) := takeModifiers ts
  let (generics, ts) := takeGenerics ts
  match ts with
  | [] => throw .missingToken
  | qualified :: ts => do
    let (declaring, name) ← cutName '.' qualified
    let (args, ts) ← takeArgs ts
    let throws ← readThrows ts
    enter declaring
    enter name
    let m : Member :=
      { kind := .constructor, declaring, name, args, typeParams := generics,
        throws := Member.throwsText throws }
    return ⟨m, mods⟩

/-- A method: modifiers, generics declaration, return type, name, arguments, exceptions. -/
def readMethod (ts : List Text) : Reading Fault Member.Draft :=
  let (mods, ts) := takeModifiers ts
  let (generics, ts) := takeGenerics ts
  match ts with
  | typeName :: qualified :: ts => do
    let (declaring, name) ← cutName '.' qualified
    let (args, ts) ← takeArgs ts
    let throws ← readThrows ts
    enter declaring
    enter name
    let m : Member :=
      { kind := .method, declaring, name, typeName, args, typeParams := generics,
        throws := Member.throwsText throws }
    return ⟨m, mods⟩
  | _ => throw .missingToken

/-- A field: modifiers, type, name, constant. -/
def readField (ts : List Text) : Reading Fault Member.Draft :=
  let (mods, ts) := takeModifiers ts
  match ts with
  | typeName :: qualified :: ts => do
    let (declaring, name) ← cutName '.' qualified
    let constant ← readConstant ts
    enter declaring
    enter name
    return ⟨{ kind := .field, declaring, name, typeName, constant }, mods⟩
  | _ => throw .missingToken

/-- A reference to a nested type: modifiers, name. -/
def readInner (ts : List Text) : Reading Fault Member.Draft :=
  let (mods, ts) := takeModifiers ts
  match ts with
  | [] => throw .missingToken
  | qualified :: rest => do
    expectEnd rest
    let (declaring, name) ← cutName '$' qualified
    enter declaring
    enter name
    return ⟨{ kind := .inner, declaring, name }, mods⟩

/-- A reference to a type: the last token is its name with the type arguments. -/
def readTypeRef (kind : Kind) (direct : Bool) (ts : List Text) : Reading Fault Member.Draft :=
  match ts.getLast? with
  | none => throw .missingToken
  | some t => do
    let (name, args) := cutTypeArgs t
    enter name
    return ⟨{ Member.typeRef kind name with typeParams := args, direct }, .none⟩

/-- The draft that the tokens after a tag make up. An interface is direct if `marked` or if its
first token is an at sign. -/
def readTokens (kind : Kind) (marked : Bool) (ts : List Text) : Reading Fault Member.Draft :=
  match kind with
  | .header => readHeader ts
  | .constructor => readConstructor ts
  | .method => readMethod ts
  | .field => readField ts
  | .inner => readInner ts
  | .superclass | .permitted => readTypeRef kind false ts
  | .interface => readTypeRef kind (marked || ts.head? == some ['@']) ts

/-! ### Whole lines -/

/-- A line without the blanks in front of it and without line ends behind it. Spaces at its end
stay: they can belong to the constant of a field. -/
def entityText (line : Text) : Text :=
  dropEndWhile (fun c => c == '\r' || c == '\n') (trimStart line)

/-- A line without blanks in front of it and line ends behind it is read as it stands. -/
theorem entityText_eq_self {line : Text} (hs : ∀ c, line.head? = some c → isBlank c = false)
    (hr : line.getLast? ≠ some '\r') (hn : line.getLast? ≠ some '\n') : entityText line = line := by
  have hstart : trimStart line = line := dropWhile_eq_self hs
  rw [entityText, hstart]
  refine dropEndWhile_eq_self fun c hc => ?_
  rw [Bool.or_eq_false_iff, beq_eq_false_iff_ne, beq_eq_false_iff_ne]
  constructor
  · rintro rfl
    exact hr hc
  · rintro rfl
    exact hn hc

/-- Whether a line starts with an at sign, and the line without it. -/
def takeMark : Text → Bool × Text
  | '@' :: r => (true, trimStart r)
  | t => (false, t)

/-- The first word of a line and what follows the space after it. -/
def cutTag (body : Text) : Text × Text := (cutFirst? ' ' body).getD (body, [])

/-- Reads a line, except for the check of its modifiers. -/
def readDraft (raw : Text) : Reading ParseError Member.Draft :=
  let line := entityText raw
  let (marked, body) := takeMark line
  let (tag, rest) := cutTag body
  match Kind.ofTag? tag with
  | none => throw (.faulty (.unknownKind tag) line)
  | some kind =>
    if marked ∧ kind ≠ .interface then throw (.faulty (.unexpectedToken ['@']) line)
    else match scan rest with
      | .error b => throw (.unbalancedBracket b rest)
      | .ok ts => (readTokens kind marked ts).adapt (.faulty · line)

/-- Reads a line. -/
def readMember (raw : Text) : Reading ParseError Member := do
  let d ← readDraft raw
  d.member?.mapError ParseError.model

end Line

/-- The member that a line declares. -/
def parseMember (line : Text) : Except ParseError Member := (Line.readMember line).result

/-- A line is read as its draft is, if the modifiers are accepted. -/
theorem parseMember_eq (line : Text) :
    parseMember line =
      (Line.readDraft line).result >>= fun d => d.member?.mapError ParseError.model :=
  Reading.result_bind_lift _ _

/-- Reads a line through a table. -/
def NameTable.parseMember (t : NameTable) (line : Text) : NameTable × Except ParseError Member :=
  ((Line.readMember line).run t).swap

end ApiSurface
