import GroundLogic.Session.Basic
import GroundLogic.Session.Expression

/-!
# Reading goal expressions

Reading turns an expression into a template body.  A label means a local or a parameter of the
innermost rule around it, then of the rules further out, then a variable of the session; the
handle of a call means a rule defined around it, or a recursive rule around it, and then a rule of
the session.  What is taken from the session is captured as it is at that moment.

Every relation that a fact mentions is frozen as soon as it is read, whatever becomes of the rest.
-/

namespace GroundLogic

/-- What the labels and handles inside one rule body mean. -/
structure Scope where
  /-- The slots of the locals and parameters; the first entry of a label counts. -/
  labels : Handles Nat
  /-- The number of slots of this body. -/
  frameSize : Nat
  /-- The handle of the rule itself, if it may call itself. -/
  own : Option String
  /-- The rules defined around this point inside the body, the nearest first. -/
  visible : Handles Nat
  /-- The number of rules defined in the body before the one that is being read. -/
  preceding : Nat

namespace Scope

/-- The scope at the top of an expression, outside of any rule. -/
def top : Scope :=
  ⟨[], 0, none, [], 0⟩

/-- The scope of a rule body.  Of two equal labels the later counts, and a local counts before a
parameter. -/
def ofRule (parameters : List String) (locals : List String) (own : Option String) : Scope :=
  ⟨(parameters ++ locals).zipIdx.reverse, parameters.length + locals.length, own, [], 0⟩

/-- The slot that a label means inside nested scopes, or else the first slot after them all, where
the captured variables stand. -/
def slot (label : String) : List Scope → Nat ⊕ Nat
  | [] => .inr 0
  | scope :: outer =>
      match scope.labels.get? label with
      | some position => .inl position
      | none =>
          match slot label outer with
          | .inl position => .inl (scope.frameSize + position)
          | .inr beyond => .inr (scope.frameSize + beyond)

/-- The captured rule that a handle means in the scopes around a body, or else the place after all
that these scopes offer.  A body captures the rules that precede it, the nearest first, then the
rule around it, then what that rule captures. -/
def captured (handle : String) : List Scope → Nat ⊕ Nat
  | [] => .inr 0
  | scope :: outer =>
      match scope.visible.get? handle with
      | some position => .inl (scope.preceding - 1 - position)
      | none =>
          if scope.own = some handle then .inl scope.preceding
          else
            match captured handle outer with
            | .inl position => .inl (scope.preceding + 1 + position)
            | .inr beyond => .inr (scope.preceding + 1 + beyond)

/-- The rule that a handle means in a body, or else the first place for a rule of the session. -/
def callee (handle : String) (scope : Scope) (outer : List Scope) : Callee ⊕ Nat :=
  match scope.visible.get? handle with
  | some position => .inl (.inner position)
  | none =>
      if scope.own = some handle then .inl .self
      else
        match captured handle outer with
        | .inl position => .inl (.outer position)
        | .inr beyond => .inr beyond

end Scope

/-- The progress of a reading: what is frozen and captured, and the rules defined in the body that
is being read. -/
structure Reader where
  session : Session
  frozen : List Relation
  captured : List Variable
  rules : List Rule
  inner : List Template
  templateCount : Nat

namespace Reader

def ofSession (session : Session) : Reader :=
  ⟨session, session.frozen, [], [], [], session.templateCount⟩

/-- The position of a captured variable, which is captured now if it was not before. -/
def captureVariable (reader : Reader) (unknown : Variable) : Nat × Reader :=
  match reader.captured.idxOf? unknown with
  | some position => (position, reader)
  | none =>
      (reader.captured.length, { reader with captured := reader.captured ++ [unknown] })

def captureRule (reader : Reader) (rule : Rule) : Nat × Reader :=
  (reader.rules.length, { reader with rules := reader.rules ++ [rule] })

def operand (scopes : List Scope) (reader : Reader) : Operand → Option (Place × Reader)
  | .value constant => some (.value constant, reader)
  | .wildcard => some (.wildcard, reader)
  | .malformed => none
  | .var label =>
      match Scope.slot label scopes with
      | .inl position => some (.slot position, reader)
      | .inr beyond =>
          match reader.session.labels.get? label with
          | none => none
          | some unknown =>
              match reader.captureVariable unknown with
              | (position, after) => some (.slot (beyond + position), after)

def operands (scopes : List Scope) (reader : Reader) :
    List Operand → Option (List Place × Reader)
  | [] => some ([], reader)
  | first :: rest =>
      match reader.operand scopes first with
      | none => none
      | some (place, after) =>
          match after.operands scopes rest with
          | none => none
          | some (places, final) => some (place :: places, final)

def slotCount (scopes : List Scope) : Nat :=
  scopes.foldr (fun scope total => scope.frameSize + total) 0

/-- The number of rules that the scopes around a body offer to it. -/
def offered (outer : List Scope) : Nat :=
  outer.foldr (fun scope total => scope.preceding + 1 + total) 0

/-- Takes a term of a stored goal over into the body that is being read. -/
def embedTerm (scopes : List Scope) (reader : Reader) : Term → Place × Reader
  | .value constant => (.value constant, reader)
  | .wildcard => (.wildcard, reader)
  | .var unknown =>
      match reader.captureVariable unknown with
      | (position, after) => (.slot (slotCount scopes + position), after)

def embedPattern (scopes : List Scope) (reader : Reader) : Pattern → List Place × Reader
  | [] => ([], reader)
  | term :: terms =>
      match reader.embedTerm scopes term with
      | (place, after) =>
          match after.embedPattern scopes terms with
          | (places, final) => (place :: places, final)

/-- Takes a stored goal over into the body that is being read. -/
def embed (scope : Scope) (outer : List Scope) (reader : Reader) :
    Goal → Formula Place Callee × Reader
  | .fact relation pattern =>
      match reader.embedPattern (scope :: outer) pattern with
      | (places, after) => (.fact relation places, after)
  | .conj left right =>
      match embed scope outer reader left with
      | (first, after) =>
          match embed scope outer after right with
          | (second, final) => (.conj first second, final)
  | .disj left right =>
      match embed scope outer reader left with
      | (first, after) =>
          match embed scope outer after right with
          | (second, final) => (.disj first second, final)
  | .call rule arguments =>
      match reader.embedPattern (scope :: outer) arguments with
      | (places, after) =>
          match after.captureRule rule with
          | (position, final) => (.call (.outer (offered outer + position)) places, final)

def callee (scope : Scope) (outer : List Scope) (reader : Reader) (handle : String) :
    Option (Callee × Reader) :=
  match Scope.callee handle scope outer with
  | .inl known => some (known, reader)
  | .inr beyond =>
      match reader.session.rules.get? handle with
      | none => none
      | some stored =>
          match reader.captureRule stored.rule with
          | (position, after) => some (.outer (beyond + position), after)

mutual

def expression (scope : Scope) (outer : List Scope) :
    Expression → Reader → Option (Formula Place Callee) × Reader
  | .fact handle written, reader =>
      match reader.session.relations.get? handle with
      | none => (none, reader)
      | some relation =>
          let freezing := { reader with frozen := relation :: reader.frozen }
          match freezing.operands (scope :: outer) written with
          | none => (none, freezing)
          | some (places, after) => (some (.fact relation places), after)
  | .call handle written, reader =>
      match reader.callee scope outer handle with
      | none => (none, reader)
      | some (callee, after) =>
          match after.operands (scope :: outer) written with
          | none => (none, after)
          | some (places, final) => (some (.call callee places), final)
  | .stored handle, reader =>
      match reader.session.goals.get? handle with
      | none => (none, reader)
      | some goal =>
          match reader.embed scope outer goal with
          | (formula, after) => (some formula, after)
  | .within definition body, reader =>
      let position := reader.inner.length
      let around := { scope with preceding := position } :: outer
      match rule around definition { reader with inner := [] } with
      | (none, after) => (none, after)
      | (some template, after) =>
          expression { scope with visible := (definition.handle, position) :: scope.visible }
            outer body { after with inner := reader.inner ++ [template] }
  | .every parts, reader =>
      match expressions scope outer parts reader with
      | (some (first :: rest), after) => (some (first.conjAll rest), after)
      | (_, after) => (none, after)
  | .some parts, reader =>
      match expressions scope outer parts reader with
      | (some (first :: rest), after) => (some (first.disjAll rest), after)
      | (_, after) => (none, after)
  | .malformed, reader => (none, reader)

def expressions (scope : Scope) (outer : List Scope) :
    List Expression → Reader → Option (List (Formula Place Callee)) × Reader
  | [], reader => (some [], reader)
  | first :: rest, reader =>
      match expression scope outer first reader with
      | (none, after) => (none, after)
      | (some formula, after) =>
          match expressions scope outer rest after with
          | (none, final) => (none, final)
          | (some formulas, final) => (some (formula :: formulas), final)

/-- Reads a rule in the scopes around it.  The rules defined in its body are gathered on the
way. -/
def rule (around : List Scope) : RuleExpression → Reader → Option Template × Reader
  | .mk handle name parameters locals recursive body, reader =>
      let own := if recursive then some handle else none
      let numbered := { reader with templateCount := reader.templateCount + 1 }
      match expression (Scope.ofRule parameters (locals.map Prod.fst) own) around body numbered with
      | (none, after) => (none, after)
      | (some formula, after) =>
          (some ⟨reader.templateCount, name, parameters.length, locals.map Prod.snd,
            after.inner, formula⟩, after)

end

end Reader

namespace Session

def afterReading (session : Session) (reader : Reader) : Session :=
  { session with frozen := reader.frozen, templateCount := reader.templateCount }

def readRule (session : Session) (written : RuleExpression) : Option Rule × Session :=
  match Reader.rule [] written (.ofSession session) with
  | (none, reader) => (none, session.afterReading reader)
  | (some template, reader) =>
      (some ⟨template, reader.captured, reader.rules⟩, session.afterReading reader)

/-- Reads a goal.  An expression at the top is the body of a rule without name and variables; the
rules inside it are defined at once. -/
def readGoal (session : Session) (written : Expression) : Option Goal × Session :=
  match Reader.expression .top [] written (.ofSession session) with
  | (none, reader) => (none, session.afterReading reader)
  | (some formula, reader) =>
      let rule : Rule :=
        ⟨⟨reader.templateCount, "", 0, [], reader.inner, formula⟩,
          reader.captured, reader.rules⟩
      match rule.expand session.state with
      | (goal, expanded) =>
          (some goal, { session.afterReading reader with
            state := expanded, templateCount := reader.templateCount + 1 })

end Session

end GroundLogic
