import GroundLogic.Query

/-!
# Constructor notation

A second written form, for diagnosis: every value, term, rule and query with the name of its
constructor, symbols in quotes and variables with their numbers.  Unlike the plain form it tells
`1`, `"1"` and a variable named `1` apart.
-/

namespace GroundLogic

namespace Text

/-- A character inside quotes.  Quotes and backslashes are escaped, common control characters have
short names, and the other control characters of ASCII are given by their code in hexadecimal. -/
def quotedChar (character : Char) : String :=
  if character = '"' then "\\\""
  else if character = '\\' then "\\\\"
  else if character = '\n' then "\\n"
  else if character = '\t' then "\\t"
  else if character = '\r' then "\\r"
  else if character.toNat = 0 then "\\0"
  else if character.toNat < 32 ∨ character.toNat = 127 then
    "\\u\x7b" ++ String.ofList (Nat.toDigits 16 character.toNat) ++ "\x7d"
  else character.toString

def quoted (text : String) : String :=
  "\"" ++ String.join (text.toList.map quotedChar) ++ "\""

def bracketed (items : List String) : String :=
  "[" ++ commaSeparated items ++ "]"

end Text

namespace Value

def inspect : Value → String
  | .bool true => "Bool(true)"
  | .bool false => "Bool(false)"
  | .int number => "Int(" ++ toString number.toInt ++ ")"
  | .symbol name => "Symbol(" ++ Text.quoted name ++ ")"

end Value

namespace Tuple

def inspect (tuple : Tuple) : String :=
  "Tuple(" ++ Text.bracketed (tuple.map Value.inspect) ++ ")"

end Tuple

namespace Variable

def inspect (names : Naming) (unknown : Variable) : String :=
  names unknown ++ "#" ++ toString unknown.id

end Variable

namespace Term

def inspect (names : Naming) : Term → String
  | .value constant => "Value(" ++ constant.inspect ++ ")"
  | .var unknown => "Var(" ++ unknown.inspect names ++ ")"
  | .wildcard => "Wildcard"

end Term

namespace Pattern

def inspect (names : Naming) (pattern : Pattern) : String :=
  Text.bracketed (pattern.map (Term.inspect names))

end Pattern

namespace Rule

/-- The name and the arity of a rule; its body is left out. -/
def inspect (rule : Rule) : String :=
  "Rule \x7b name: " ++ Text.quoted rule.name ++ ", arity: " ++ toString rule.arity ++
    ", .. \x7d"

end Rule

namespace RuleQuery

def inspect (names : Naming) (query : RuleQuery) : String :=
  "RuleQuery \x7b rule: " ++ query.rule.inspect ++ ", pattern: " ++
    query.pattern.inspect names ++ " \x7d"

end RuleQuery

namespace Invocation

def inspect (names : Naming) : Invocation → String
  | .holds true => "Exists(true)"
  | .holds false => "Exists(false)"
  | .query asked => "Query(" ++ asked.inspect names ++ ")"

end Invocation

namespace Answers

/-- An enumeration shows nothing of itself. -/
def inspect (_ : Answers) : String :=
  "Answers \x7b .. \x7d"

end Answers

end GroundLogic
