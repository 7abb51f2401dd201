import Scim.Grammar.Path

/-!
# A descent over one list of tokens

The same grammar, read from the tokens of the whole text alone: a group is a part of the list, so no
text is scanned a second time.

* `Descent.Reader`          reads from a list of tokens whose text ends at `stop`;
* `Descent.enclosed`        the tokens of a group;
* `Descent.expression`      an expression with at most a given number of nested groups and brackets;
* `Descent.filter`, `Descent.path`    a filter and a path; a list of tokens has no more groups and
                            brackets than tokens.
-/

namespace Scim

namespace Descent

open Grammar

/-- Reads from a list of tokens whose text ends at `stop`, and leaves the rest of the list. -/
abbrev Reader (α : Type) := (stop : Int) → (ts : List Token) → Except Failed (α × List Token)

/-- A fault at the next token, or at the end of the text. -/
def missing (cause : Cause) (stop : Int) (ts : List Token) : Failed :=
  .fault ⟨cause, ts.head?.map Token.text, (ts.head?.map Token.position).getD stop⟩

/-- A step that can meet an invalid part. -/
def valid {α : Type} (x : Except Invalid α) : Except Failed α := x.mapError Failed.invalid

/-- Reads a token of one of the kinds. -/
def take (kinds : List Kind) : Reader Token := fun stop ts =>
  match ts with
  | t :: rest =>
    if kinds.contains t.kind then .ok (t, rest) else .error (missing (.expected kinds) stop ts)
  | [] => .error (missing (.expected kinds) stop ts)

/-- Nothing may be left. -/
def expectEnd (stop : Int) (ts : List Token) : Except Failed Unit :=
  match ts with
  | [] => .ok ()
  | t :: _ =>
    if isDangling t then .error (missing .danglingOperator stop ts)
    else .error (missing .trailingToken stop ts)

/-- The tokens before the closing parenthesis that matches no opening one among them. -/
def enclosed (ts : List Token) : List Token :=
  Cursor.runUntil .closeParen (some .openParen) 0 ts

/-- The rest of a comparison after its attribute path. -/
def comparison (path : AttributePath) : Reader Node := fun stop ts => do
  let (operator, ts) ← take [.comparison] stop ts
  if wordOf operator = ['p', 'r'] then
    let made ← valid (Comparison.make path (String.ofList (wordOf operator)) .null)
    return (.comparison made, ts)
  else
    let (token, ts) ← take Kind.values stop ts
    let v ← valid (value token)
    let made ← valid (Comparison.make path (String.ofList (wordOf operator)) v)
    return (.comparison made, ts)

/-- What reads the contents of groups and brackets, if the budget of nesting allows one more. -/
abbrev Inner := Option (Place → Reader (Option Node))

/-- The reader for one more level of nesting. -/
def descend : Inner → Except Failed (Place → Reader (Option Node))
  | some inner => .ok inner
  | none => .error .exhausted

/-- The tokens of a group as an expression of their own; a group without tokens is no filter. -/
def contents (inner : Place → Reader (Option Node)) (place : Place) (ts : List Token) :
    Except Failed (Option Node) :=
  match ts.getLast? with
  | none => .ok none
  | some last => do
    let (node, rest) ← inner place last.stop ts
    expectEnd last.stop rest
    return node

def group (inner : Inner) (place : Place) : Reader (Option Node) := fun stop ts => do
  let (_, ts) ← take [.openParen] stop ts
  let inner ← descend inner
  let (_, rest) ← take [.closeParen] stop (ts.drop (enclosed ts).length)
  let node ← contents inner place (enclosed ts)
  return (node, rest)

def negation (inner : Inner) (place : Place) : Reader (Option Node) := fun stop ts => do
  let (_, ts) ← take [.negation] stop ts
  let (node, ts) ← group inner place stop ts
  return (node.map .negation, ts)

/-- The filter between the brackets on an attribute, its comparisons put below the attribute. -/
def bracketed (inner : Inner) (path : AttributePath) : Reader Node := fun stop ts => do
  let (bracket, ts) ← take [.openBracket] stop ts
  let inner ← descend inner
  let (node, ts) ← inner .brackets stop ts
  match node.filter isCondition with
  | none => .error (faultAt (.emptyValuePath path.fullName) bracket)
  | some n =>
    let (_, ts) ← take [.closeBracket] stop ts
    match (n.qualify path).obstacle with
    | some obstacle => .error (.obstacle path obstacle)
    | none => return ((n.qualify path).tree, ts)

def isNext (kind : Kind) (ts : List Token) : Bool := ts.head?.any fun t => t.kind == kind

/-- A comparison, or a value path on a top-level attribute. -/
def condition (inner : Inner) (place : Place) : Reader (Option Node) := fun stop ts => do
  let (token, ts) ← take [.name] stop ts
  let path ← valid (AttributePath.ofText token.text)
  if isNext .openBracket ts then
    if place = .brackets then .error (faultAt .nestedValuePath token)
    else if path.names.length ≠ 1 then .error (faultAt .deepValuePath token)
    else
      let (filter, ts) ← bracketed inner path stop ts
      let node ← valid (Node.within path filter none)
      return (some node, ts)
  else
    let (node, ts) ← comparison path stop ts
    return (some node, ts)

def operand (inner : Inner) (place : Place) : Reader (Option Node) := fun stop ts =>
  match ts.head?.map Token.kind with
  | some .openParen => group inner place stop ts
  | some .negation => negation inner place stop ts
  | some .name => condition inner place stop ts
  | _ => .error (missing (missingOperand place) stop ts)

/-- Operators, each with the operand after it, as long as an operator comes next; at most `n`. -/
def moreOperands (operand : Reader (Option Node)) :
    (n : Nat) → Reader (List (Connective × Node))
  | 0 => fun _ ts => .ok ([], ts)
  | n + 1 => fun stop ts => do
    if isNext .logical ts then
      let (operator, ts) ← take [.logical] stop ts
      match ← operand stop ts with
      | (none, _) => .error (faultAt .emptyOperand operator)
      | (some node, ts) =>
        let (more, ts) ← moreOperands operand n stop ts
        return ((connectiveOf operator, node) :: more, ts)
    else return ([], ts)

/-- An operand and the operators and operands that follow it. -/
def expressionOver (inner : Inner) (place : Place) : Reader (Option Node) := fun stop ts => do
  let (first, ts) ← operand inner place stop ts
  match first with
  | none => return (none, ts)
  | some node =>
    let (more, ts) ← moreOperands (operand inner place) ts.length stop ts
    if more.isEmpty then return (some node, ts)
    else
      let tree ← assemble node more
      return (some tree, ts)

/-- An expression with at most `budget` nested groups and brackets. -/
def expression : (budget : Nat) → Place → Reader (Option Node)
  | 0 => expressionOver none
  | budget + 1 => expressionOver (some (expression budget))

/-- What reads the contents of groups and brackets within a budget. -/
def nested : (budget : Nat) → Inner
  | 0 => none
  | budget + 1 => some (expression budget)

theorem expression_eq (budget : Nat) : expression budget = expressionOver (nested budget) := by
  cases budget <;> rfl

/-! ## Filters and paths -/

def filterWithin (budget : Nat) (stop : Int) (ts : List Token) : Except Failed (Option Node) := do
  if ts.isEmpty then return none
  else
    let (node, rest) ← expression budget .filter stop ts
    expectEnd stop rest
    return node

def filter (stop : Int) (ts : List Token) : Except Failed (Option Node) :=
  filterWithin ts.length stop ts

/-- The sub-attribute behind the brackets, if there is one, without its dot. -/
def subAttribute : Reader (Option String) := fun stop ts => do
  if isNext .subAttribute ts then
    let (token, ts) ← take [.subAttribute] stop ts
    return (some (String.ofList (token.text.drop 1)), ts)
  else return (none, ts)

def target (budget : Nat) : Reader Node := fun stop ts => do
  let (token, ts) ← take [.name] stop ts
  let path ← valid (AttributePath.ofText token.text)
  if isNext .openBracket ts then
    if path.names.length ≠ 1 then .error (faultAt .deepValuePath token)
    else
      let (filter, ts) ← bracketed (nested budget) path stop ts
      let (sub, ts) ← subAttribute stop ts
      let node ← valid (Node.within path filter sub)
      return (node, ts)
  else return (.path path, ts)

def pathWithin (budget : Nat) (stop : Int) (ts : List Token) : Except Failed (Option Node) := do
  if ts.isEmpty then return none
  else
    let (node, rest) ← target budget stop ts
    expectEnd stop rest
    return some node

def path (stop : Int) (ts : List Token) : Except Failed (Option Node) :=
  pathWithin ts.length stop ts

end Descent

end Scim
