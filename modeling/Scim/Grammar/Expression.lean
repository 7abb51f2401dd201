import Scim.Cursor
import Scim.Grammar.Traced
import Scim.Number.Numeral

/-!
# Expressions

The grammar that filters and the brackets of paths share.

* `Place`                      at the top of a filter, or inside the brackets of a value path, where
                               no other value path may stand;
* `Grammar.value`              the value of a token;
* `Grammar.operandRuns`        the operands of a chain, cut at every `or`;
* `Grammar.assemble`           the tree of a chain: `and` binds tighter than `or`, and a last
                               operand of the same connective gives up its children to it;
* `Grammar.expressionOver`     an operand and the operators and operands that follow it, where the
                               contents of groups and brackets are read by another reader;
* `Grammar.expression`         an expression with at most a given number of nested groups and
                               brackets.

The contents of a group are scanned again, as a text of their own at their place in the input.  An
empty group is no filter: it counts as no operand.
-/

namespace Scim

/-- Where an expression stands. -/
inductive Place where
  | filter
  | brackets
  deriving DecidableEq, Repr

namespace Grammar

open Number (Double)

/-- Reads an optional tree. -/
abbrev Reader := Cursor → Traced (Option Node × Cursor)

/-- Reads a token of one of the kinds. -/
def take (kinds : List Kind) (c : Cursor) : Traced (Token × Cursor) := .ofFault (c.take kinds)

/-- A fault at a token. -/
def faultAt (cause : Cause) (t : Token) : Failed := .fault ⟨cause, some t.text, t.position⟩

/-- The word of an operator token, in lower case. -/
def wordOf (t : Token) : List Char := (Text.stripBlanks t.text).map Text.lowerAscii

/-- A whole number of a limited number of digits. -/
def wholeNumber (digits : List Char) : Except Invalid Value :=
  if Number.maxNumeralDigits < digits.length then .error (.longNumber digits.length)
  else .ok (.int (Text.digitsValue digits))

/-- A number: with a point it is a double, without one it is whole. -/
def number (text : List Char) : Except Invalid Value :=
  match Number.splitAtMark '.' text with
  | (whole, some fraction) =>
    .ok (.double (.ofDecimal false (Text.digitsValue (whole ++ fraction)) (-fraction.length)))
  | (whole, none) => wholeNumber whole

/-- The value of a token. -/
def value (t : Token) : Except Invalid Value :=
  match t.kind with
  | .string => .ok (.string (String.ofList (t.text.drop 1).dropLast))
  | .number => number t.text
  | .boolean => .ok (.bool (decide (t.text.map Text.lowerAscii = ['t', 'r', 'u', 'e'])))
  | _ => .ok .null

/-- Whether a token is a name that spells a logical operator. -/
def isDangling (t : Token) : Bool :=
  t.kind == .name && Lexeme.logicalWords.contains (t.text.map Text.lowerAscii)

/-- Nothing may be left.  An operator without a blank after it reads as a name. -/
def expectEnd (c : Cursor) : Except Fault Unit :=
  match c.peek? with
  | none => .ok ()
  | some t =>
    if isDangling t then .error (c.fault .danglingOperator)
    else .error (c.fault .trailingToken)

/-- The rest of a comparison after its attribute path. -/
def comparison (path : AttributePath) (c : Cursor) : Traced (Node × Cursor) := do
  let (operator, c) ← take [.comparison] c
  let word := wordOf operator
  if word = ['p', 'r'] then
    let made ← .ofInvalid (Comparison.make path (String.ofList word) .null)
    return (.comparison made, c)
  else
    let (token, c) ← take Kind.values c
    let v ← .ofInvalid (value token)
    let made ← .ofInvalid (Comparison.make path (String.ofList word) v)
    return (.comparison made, c)

/-- What reads the contents of groups and brackets, if the budget of nesting allows one more. -/
abbrev Inner := Option (Place → Reader)

/-- The reader for one more level of nesting. -/
def descend : Inner → Traced (Place → Reader)
  | some inner => pure inner
  | none => .fail .exhausted

/-- A group: an expression between parentheses, or nothing between them. -/
def group (mode : Mode) (inner : Inner) (place : Place) : Reader := fun c => do
  let (_, c) ← take [.openParen] c
  let inner ← descend inner
  let offset := c.position
  let (text, c) := c.takeUntil .closeParen (some .openParen)
  let (_, c) ← take [.closeParen] c
  if text.isEmpty then return (none, c)
  else
    let contents ← .ofFault (Cursor.ofText mode text offset)
    let (node, contents) ← inner place contents
    .ofFault (expectEnd contents)
    return (node, c)

/-- A negated group. -/
def negation (mode : Mode) (inner : Inner) (place : Place) : Reader := fun c => do
  let (_, c) ← take [.negation] c
  let (node, c) ← group mode inner place c
  return (node.map .negation, c)

/-- A tree that may stand between the brackets of a value path. -/
def isCondition : Node → Bool
  | .comparison _ | .negation _ | .connective _ _ => true
  | _ => false

/-- The filter between the brackets on an attribute, its comparisons put below the attribute. -/
def bracketed (inner : Inner) (path : AttributePath) (c : Cursor) : Traced (Node × Cursor) := do
  let (bracket, c) ← take [.openBracket] c
  let inner ← descend inner
  let (node, c) ← inner .brackets c
  match node.filter isCondition with
  | none => .fail (faultAt (.emptyValuePath path.fullName) bracket)
  | some n =>
    let (_, c) ← take [.closeBracket] c
    let q := n.qualify path
    .note q.renamed
    match q.obstacle with
    | some obstacle => .fail (.obstacle path obstacle)
    | none => return (q.tree, c)

/-- A comparison, or a value path on a top-level attribute. -/
def condition (inner : Inner) (place : Place) : Reader := fun c => do
  let (token, c) ← take [.name] c
  let path ← .ofInvalid (AttributePath.ofText token.text)
  if c.isNext [.openBracket] then
    if place = .brackets then .fail (faultAt .nestedValuePath token)
    else if path.names.length ≠ 1 then .fail (faultAt .deepValuePath token)
    else
      let (filter, c) ← bracketed inner path c
      let node ← .ofInvalid (Node.within path filter none)
      return (some node, c)
  else
    let (node, c) ← comparison path c
    return (some node, c)

/-- The cause if no operand starts here. -/
def missingOperand : Place → Cause
  | .filter => .expectedOperand
  | .brackets => .expectedComparison

/-- An operand of a chain. -/
def operand (mode : Mode) (inner : Inner) (place : Place) : Reader := fun c =>
  match c.peek?.map Token.kind with
  | some .openParen => group mode inner place c
  | some .negation => negation mode inner place c
  | some .name => condition inner place c
  | _ => .fail (.fault (c.fault (missingOperand place)))

/-- The connective of an operator token. -/
def connectiveOf (t : Token) : Connective :=
  if wordOf t = ['a', 'n', 'd'] then .conjunction else .disjunction

/-- Operators, each with the operand after it, as long as an operator comes next.  Each pair takes a
token at least, so the number of tokens left is enough for `n`. -/
def moreOperands (operand : Reader) : (n : Nat) → Cursor →
    Traced (List (Connective × Node) × Cursor)
  | 0, c => pure ([], c)
  | n + 1, c => do
    if c.isNext [.logical] then
      let (operator, c) ← take [.logical] c
      match ← operand c with
      | (none, _) => .fail (faultAt .emptyOperand operator)
      | (some node, c) =>
        let (more, c) ← moreOperands operand n c
        return ((connectiveOf operator, node) :: more, c)
    else return ([], c)

/-- The operands of a chain, cut at every `or`. -/
def operandRuns (first : Node) : List (Connective × Node) → List (List Node)
  | [] => [[first]]
  | (kind, node) :: more =>
    if kind = .conjunction then (operandRuns node more).modifyHead (first :: ·)
    else [first] :: operandRuns node more

/-- Joins two trees; a second one of the same connective gives up its children. -/
def join (kind : Connective) (first : Node) : Node → Except Invalid Node
  | .connective k children =>
    if k = kind then Node.connect kind (first :: children)
    else Node.connect kind [first, .connective k children]
  | second => Node.connect kind [first, second]

/-- Joins trees from right to left, beginning with the last one; a single tree stays as it is. -/
def joinAll (kind : Connective) : List Node → Except Invalid Node
  | [] => .error .noChild
  | [node] => .ok node
  | node :: more => do join kind node (← joinAll kind more)

/-- The runs of a chain joined by `and`, and these joined by `or`. -/
def joinRuns (runs : List (List Node)) : Except Invalid Node := do
  let terms ← runs.mapM (joinAll .conjunction)
  joinAll .disjunction terms

/-- The tree of a chain of more than one operand, which is a connective. -/
def assemble (first : Node) (more : List (Connective × Node)) : Except Failed Node :=
  match joinRuns (operandRuns first more) with
  | .ok (.connective kind children) => .ok (.connective kind children)
  | .ok other => .error (.unlinked other)
  | .error e => .error (.invalid e)

/-- An operand and the operators and operands that follow it.  If the first operand is an empty
group, the expression ends there. -/
def expressionOver (mode : Mode) (inner : Inner) (place : Place) : Reader := fun c => do
  let (first, c) ← operand mode inner place c
  match first with
  | none => return (none, c)
  | some node =>
    let (more, c) ← moreOperands (operand mode inner place) c.rest.length c
    if more.isEmpty then return (some node, c)
    else
      let tree ← .ofFailed (assemble node more)
      return (some tree, c)

/-- An expression with at most `budget` nested groups and brackets. -/
def expression (mode : Mode) : (budget : Nat) → Place → Reader
  | 0 => expressionOver mode none
  | budget + 1 => expressionOver mode (some (expression mode budget))

/-- What reads the contents of groups and brackets within a budget. -/
def nested (mode : Mode) : (budget : Nat) → Inner
  | 0 => none
  | budget + 1 => some (expression mode budget)

theorem expression_eq (mode : Mode) (budget : Nat) :
    expression mode budget = expressionOver mode (nested mode budget) := by
  cases budget <;> rfl

end Grammar

end Scim
