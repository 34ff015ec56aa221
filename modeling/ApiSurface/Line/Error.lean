import ApiSurface.Member
import ApiSurface.Line.Token

/-!
# Errors of reading

What can be wrong with signature text, and the message for it.
-/

namespace ApiSurface

/-- What can be wrong with the words of an entity line. -/
inductive Fault where
  /-- The line starts with a word that is no tag. -/
  | unknownKind (tag : Text)
  /-- A callable has no list of arguments in parentheses. -/
  | missingArguments
  /-- Something other than `throws` follows the list of arguments. -/
  | missingThrowsKeyword (found : Text)
  /-- The line ends too early. -/
  | missingToken
  /-- A token stands where none may stand. -/
  | unexpectedToken (found : Text)
  /-- A name has no declaring type or no simple name. -/
  | malformedName (name : Text)
  deriving DecidableEq

/-- An error in signature text. -/
inductive ParseError where
  /-- A line has a fault. -/
  | faulty (fault : Fault) (line : Text)
  /-- A bracket of a line is not closed; `text` is what was cut into tokens. -/
  | unbalancedBracket (bracket : Line.Unclosed) (text : Text)
  /-- An annotation line is malformed. -/
  | malformedAnnot (line : Text)
  /-- A group of lines does not start with a class line. -/
  | missingClassHeader (line : Text)
  /-- A group of lines has a second class line. -/
  | unexpectedClassHeader (line : Text)
  /-- A line violates a rule of the model. -/
  | model (error : ModelError)
  deriving DecidableEq

/-- The first part of the message for a fault, up to the line itself. -/
def Fault.message : Fault → Text
  | unknownKind tag => "Unknown entity kind `".toList ++ tag ++ "` in line: ".toList
  | missingArguments => "Missing argument list in line: ".toList
  | missingThrowsKeyword found =>
    "Expected `throws`, found `".toList ++ found ++ "` in line: ".toList
  | missingToken => "Unexpected end of line: ".toList
  | unexpectedToken found => "Unexpected token `".toList ++ found ++ "` in line: ".toList
  | malformedName name => "Malformed name `".toList ++ name ++ "` in line: ".toList

/-- The message for an error. -/
def ParseError.message : ParseError → Text
  | faulty fault line => fault.message ++ line
  | unbalancedBracket b text =>
    "Unbalanced `".toList ++ [b.bracket] ++ "` at column ".toList ++ Nat.toDigits 10 b.column
      ++ " in line: ".toList ++ text
  | malformedAnnot line => "Malformed annotation: ".toList ++ line
  | missingClassHeader line => "Class group must start with a class line, found: ".toList ++ line
  | unexpectedClassHeader line => "Second class header in one class group: ".toList ++ line
  | model e => e.message

end ApiSurface
