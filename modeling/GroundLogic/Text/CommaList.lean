/-!
# Lists of texts separated by commas

Tuples, argument lists and environments are all written as items separated by a comma and one
blank.  This module holds that one rule, with the empty list giving the empty text.
-/

namespace GroundLogic.Text

def commaSeparated : List String → String
  | [] => ""
  | [item] => item
  | item :: next :: rest => item ++ ", " ++ commaSeparated (next :: rest)

@[simp]
theorem commaSeparated_nil : commaSeparated [] = "" :=
  rfl

@[simp]
theorem commaSeparated_singleton (item : String) : commaSeparated [item] = item :=
  rfl

theorem commaSeparated_cons_cons (item next : String) (rest : List String) :
    commaSeparated (item :: next :: rest) =
      item ++ ", " ++ commaSeparated (next :: rest) :=
  rfl

def parenthesized (items : List String) : String :=
  "(" ++ commaSeparated items ++ ")"

end GroundLogic.Text
