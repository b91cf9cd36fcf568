import GroundLogic.Json
import GroundLogic.Session.Expression
import GroundLogic.Session.Limit

/-!
# Commands

What a session can be asked to do, one constructor for each request.  Operands that may be
unreadable without making the whole request unreadable are optional; `malformed` is a request that
makes no sense at all.
-/

namespace GroundLogic

inductive Inspection where
  | value (constant : Value)
  | tuple (tuple : Tuple)
  | variable (label : String)
  | terms (operands : List Operand)
  | rule (rule : String)
  | invocation (rule : String) (operands : List Operand)
  | answers (query : String)
  deriving Repr

inductive Command where
  -- Values, terms and variables
  | value (constant : Value)
  | compareValues (left right : Value)
  | decodeValue (document : Json)
  | tuple (tuple : Tuple)
  | compareTuples (left right : Tuple)
  | decodeTuple (document : Json)
  | wildcard
  | declare (label : String) (declaration : Declaration)
  | relabel (label source : String)
  | compareVariables (left right : String)
  | term (operand : Operand)
  | equalTerms (left right : Operand)
  -- Relations
  | createRelation (handle name : String)
  | showRelation (relation : String)
  | insert (relation : String) (tuple : Option Tuple)
  | insertAll (relation : String) (tuples : Option (List Tuple))
  | query (relation : String) (pattern : List Operand) (limit : Limit)
  | contains (relation : String) (pattern : List Operand)
  | count (relation : String) (pattern : List Operand)
  | openQuery (handle relation : String) (pattern : List Operand)
  | cloneCursor (handle source : String)
  -- Cursors
  | next (cursor : String) (wanted : Option Nat) (save : Option String)
  | drop (cursor : String)
  -- Environments
  | createEnvironment (handle : String)
  | showEnvironment (environment : String)
  | bind (environment label : String) (constant : Value) (handle : String)
  | merge (left right handle : String)
  | lookUp (environment label : String)
  | compareEnvironments (left right : String)
  -- Goals
  | storeGoal (handle : Option String) (goal : Expression)
  | validate (goal : Expression)
  | solve (goal : Expression) (limit : Limit)
  | evaluate (goal : Expression) (environment : String) (limit : Limit)
  | openSolve (handle : Option String) (goal : Expression)
  | openEvaluate (handle : Option String) (goal : Expression) (environment : String)
  -- Rules
  | define (definition : RuleExpression)
  | showRule (rule : String)
  | countBuilds (rule : String)
  | invoke (rule : String) (operands : List Operand) (limit : Limit)
  | succeeds (rule : String) (operands : List Operand)
  | storeQuery (handle rule : String) (operands : List Operand)
  | answers (query : String) (limit : Limit)
  | openAnswers (handle query : String)
  -- Rule books
  | createBook (handle : String)
  | showBook (book : String)
  | cloneBook (handle source : String)
  | register (book rule : String)
  | findRule (book name : String) (handle : Option String)
  -- Diagnosis
  | lines
  | inspect (inspection : Inspection)
  | malformed

end GroundLogic
