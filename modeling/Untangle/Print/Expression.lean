import Untangle.Print.Piece

set_option autoImplicit false

/-!
# Printing expressions

One function per kind of expression, from the pieces of its operands.  Arrays of two or more elements
and objects of two or more properties take a line per element; patterns stay on one line where their
properties are plain names.
-/

namespace Untangle.Print

/-! ## Names -/

/-- A name, if it is one. -/
def validName (name : Text) : Out := if Text.isName name then .ok name else .error .invalidName

/-- The name of an identifier. -/
def nameText (p : Piece) : Out :=
  match p.node.name? with
  | some name => validName name
  | none => .error .invalidName

/-- The name of a label, which is printed as it is. -/
def labelText (p : Piece) : Out :=
  match p.node.name? with
  | some name => .ok name
  | none => .error .malformed

/-! ## Functions -/

/-- The parameter of an arrow function that needs no parentheses. -/
def loneName? (params : List Piece) : Option Piece :=
  match params with
  | [p] => if p.node.name?.isSome then some p else none
  | _ => none

/-- The word before an asynchronous function. -/
def asyncWord (flags : FunctionFlags) : Text := if flags.isAsync then "async " else []

/-- The star of a generator and the space before its name. -/
def starWord (flags : FunctionFlags) : Text := if flags.generator then "* " else " "

/-- Parameters in parentheses. -/
def paramsText (params : List Piece) (indent : Nat) : Out := do
  return inParens (commas (← params.mapM fun p => p.expression Level.assignment .all indent))

/-- The body of a function. -/
def functionBodyText (flags : FunctionFlags) (body : Piece) (indent : Nat) : Out := do
  if flags.concise then
    let e ← body.expression Level.assignment .all indent
    return " " ++ (if e.head? == some 0x7B then inParens e else e)
  else bodyText body indent

/-- The parameters and the body of a function. -/
def callableText (flags : FunctionFlags) (ps : Parts) (indent : Nat) : Out := do
  let params ← paramsText (ps.all .params) indent
  return params ++ (← functionBodyText flags (← ps.get .body) indent)

/-- An arrow function. -/
def arrowText (flags : FunctionFlags) (ps : Parts) (indent : Nat) : Out := do
  let params ← match loneName? (ps.all .params) with
    | some p => nameText p
    | none => paramsText (ps.all .params) indent
  let body ← functionBodyText flags (← ps.get .body) indent
  return asyncWord flags ++ params ++ " =>" ++ body

/-- A function with its keyword and its name. -/
def functionText (flags : FunctionFlags) (ps : Parts) (indent : Nat) : Out := do
  let name ← match ps.opt .id with
    | some p => nameText p
    | none => pure []
  return asyncWord flags ++ "function" ++ starWord flags ++ name ++
    (← callableText flags ps indent)

/-! ## Classes -/

/-- A class. -/
def classText (ps : Parts) (indent : Nat) : Out := do
  let head ← match ps.opt .id with
    | some id => pure (spaced "class" (← id.expression Level.sequence .all indent))
    | none => pure (Text.of "class")
  let head ← match ps.opt .superClass with
    | some base =>
      pure (spaced head (spaced "extends" (← base.expression Level.unary .all indent)))
    | none => pure head
  return head ++ " " ++ (← (← ps.get .body).statement true indent)

/-- The body of a class. -/
def classBodyText (members : List Piece) (indent : Nat) : Out := do
  let lines ← members.mapM fun p => do
    return indentText (indent + 1) ++ (← p.expression Level.sequence .all (indent + 1)) ++ "\n"
  return "\x7b\n" ++ lines.flatten ++ indentText indent ++ "\x7d"

/-! ## Keys and properties -/

/-- The key of a property. -/
def keyText (computed : Bool) (k : Piece) (indent : Nat) : Out := do
  let t ← k.expression Level.assignment .all indent
  return if computed then "[" ++ t ++ "]" else t

/-- The words before a method. -/
def methodWords (value : Node) : Text :=
  match value.form with
  | .functionExpression flags | .arrowFunction flags | .functionDeclaration flags =>
    asyncWord flags ++ (if flags.generator then Text.of "*" else [])
  | _ => []

/-- A method: its key, its parameters and its body. -/
def methodText (computed : Bool) (k value : Piece) (indent : Nat) : Out := do
  return (← keyText computed k indent) ++ (← value.callable indent)

/-- A member of a class. -/
def memberText (computed : Bool) (kind : MethodKind) (isStatic : Bool) (ps : Parts)
    (indent : Nat) : Out := do
  let k ← ps.get .key
  let value ← ps.get .value
  let body ← methodText computed k value indent
  let words : Text := match kind with
    | .getter => "get "
    | .setter => "set "
    | .method | .constructor => methodWords value.node
  return (if isStatic then Text.of "static " else []) ++ words ++ body

/-- Whether a node is a pattern with a default value. -/
def hasDefault (n : Node) : Bool :=
  match n.form with
  | .assignmentPattern => true
  | _ => false

/-- A property of an object. -/
def propertyText (computed : Bool) (kind : PropertyKind) (method shorthand : Bool) (ps : Parts)
    (indent : Nat) : Out := do
  let k ← ps.get .key
  let value ← ps.get .value
  match kind with
  | .getter => return "get " ++ (← methodText computed k value indent)
  | .setter => return "set " ++ (← methodText computed k value indent)
  | .plain =>
    if shorthand then
      if hasDefault value.node then value.expression Level.sequence .all indent
      else keyText computed k indent
    else if method then
      return methodWords value.node ++ (← methodText computed k value indent)
    else
      return (← keyText computed k indent) ++ ": " ++
        (← value.expression Level.assignment .all indent)

/-! ## Collections -/

/-- The elements of an array, with a comma after each but the last; an element that is left out at the
end needs a comma too. -/
def elementTexts (ps : List Piece) (indent : Nat) : Except Refusal (List Text) :=
  match ps with
  | [] => .ok []
  | p :: rest => do
    let t : Text ← if p.node.isHole then pure (if rest.isEmpty then "," else [])
      else p.expression Level.assignment .all indent
    return t :: (← elementTexts rest indent)

/-- An array. -/
def arrayText (elements : List Piece) (indent : Nat) : Out := do
  match elements with
  | [] => return "[]"
  | [_] => return "[" ++ (← elementTexts elements (indent + 1)).flatten ++ "]"
  | _ =>
    let ts ← elementTexts elements (indent + 1)
    let lines := Text.join ",\n" (ts.map fun t => indentText (indent + 1) ++ t)
    return "[\n" ++ lines ++ newLine indent ++ "]"

/-- An array pattern, on one line. -/
def arrayPatternText (elements : List Piece) (indent : Nat) : Out := do
  return "[" ++ commas (← elementTexts elements (indent + 1)) ++ "]"

/-- Properties, one in a line. -/
def propertyLines (ts : List Text) (indent : Nat) : Text :=
  "\x7b\n" ++ Text.join ",\n" (ts.map fun t => indentText (indent + 1) ++ t) ++ newLine indent ++
    "\x7d"

/-- An object. -/
def objectText (properties : List Piece) (indent : Nat) : Out := do
  let ts ← properties.mapM fun p => p.expression Level.sequence .all (indent + 1)
  match ts with
  | [] => return "\x7b\x7d"
  | [t] => return if hasBreak t then propertyLines ts indent else "\x7b " ++ t ++ " \x7d"
  | _ => return propertyLines ts indent

/-- Whether a property of a pattern asks for a line of its own; `alone` says that it is the only
one. -/
def breaksPattern (alone : Bool) (p : Node) : Bool :=
  match p.form with
  | .property _ _ _ shorthand =>
    if alone then ((p.child? .value).bind Node.name?).isNone else !shorthand
  | _ => false

/-- An object pattern. -/
def objectPatternText (properties : List Piece) (indent : Nat) : Out := do
  let ts ← properties.mapM fun p => p.expression Level.sequence .all (indent + 1)
  if ts.isEmpty then return "\x7b\x7d"
  if properties.any fun p => breaksPattern (properties.length == 1) p.node then
    return propertyLines ts indent
  return "\x7b" ++ commas ts ++ "\x7d"

/-- A template. -/
def templateText : List Piece → List Piece → Nat → Out
  | [], _, _ => .ok []
  | [q], _, indent => q.expression Level.primary .all indent
  | q :: qs, e :: es, indent => do
    let t ← q.expression Level.primary .all indent
    let inner ← e.expression Level.sequence .all indent
    return t ++ "$\x7b " ++ inner ++ " \x7d" ++ (← templateText qs es indent)
  | _ :: _, [], _ => .error .malformed

/-! ## Operators -/

/-- The operators between two operands with their levels. -/
def operatorLevels : List (Level × List String) :=
  [(Level.nullish, ["??"]), (4, ["||"]), (5, ["&&"]), (6, ["|"]), (7, ["^"]), (8, ["&"]),
   (9, ["==", "!=", "===", "!=="]), (10, ["<", ">", "<=", ">=", "in", "instanceof"]),
   (11, ["<<", ">>", ">>>"]), (12, ["+", "-"]), (13, ["*", "/", "%"]), (Level.exponent, ["**"])]

/-- The level of an operator between two operands. -/
def operatorLevel? (symbol : String) : Option Level :=
  (operatorLevels.find? fun e => e.2.contains symbol).map (·.1)

/-- Two operands with an operator between them. -/
def infixText (symbol : Text) (l r : Text) : Text := spaced (spaced l symbol) r

/-- An operation on two operands.  Where `in` may not stand, and around `??` the other logical
operators, an operation stands in parentheses whatever is asked. -/
def operationText (symbol : String) (ps : Parts) (asked : Level) (allow : Allow) (indent : Nat) :
    Out := do
  match operatorLevel? symbol with
  | none => .error .malformed
  | some own =>
    let allow := if own < asked then { allow with inOperator := true } else allow
    let allow := if symbol == "??" then { allow with nullish := true } else allow
    let isPower := symbol == "**"
    let l ← (← ps.get .left).expression (if isPower then Level.postfixed else own) allow indent
    let r ← (← ps.get .right).expression (if isPower then own else own + 1) allow indent
    let t := infixText symbol l r
    if symbol == "in" && !allow.inOperator then return inParens t
    if (symbol == "||" || symbol == "&&") && allow.nullish then return inParens t
    return atLevel own asked t

/-- An assignment, or a pattern with a default value. -/
def assignmentText (symbol : Text) (ps : Parts) (asked : Level) (allow : Allow) (indent : Nat) :
    Out := do
  let allow := if Level.assignment < asked then { allow with inOperator := true } else allow
  let l ← (← ps.get .left).expression Level.call allow indent
  let r ← (← ps.get .right).expression Level.assignment allow indent
  return atLevel Level.assignment asked (l ++ " " ++ symbol ++ " " ++ r)

/-- A choice. -/
def conditionalText (ps : Parts) (asked : Level) (allow : Allow) (indent : Nat) : Out := do
  let allow := if Level.conditional < asked then { allow with inOperator := true } else allow
  let test ← (← ps.get .test).expression Level.nullish allow indent
  let yes ← (← ps.get .consequent).expression Level.assignment allow indent
  let no ← (← ps.get .alternate).expression Level.assignment allow indent
  return atLevel Level.conditional asked (test ++ " ? " ++ yes ++ " : " ++ no)

/-- Expressions with commas between them, at least one. -/
def sequenceText (ps : Parts) (asked : Level) (allow : Allow) (indent : Nat) : Out := do
  let allow := if Level.sequence < asked then { allow with inOperator := true } else allow
  let ts ← (ps.all .expressions).mapM fun p => p.expression Level.assignment allow indent
  if ts.isEmpty then .error .malformed else return atLevel Level.sequence asked (commas ts)

/-- Arguments in parentheses. -/
def argumentsText (ps : Parts) (indent : Nat) : Out := do
  return inParens (commas (← (ps.all .arguments).mapM fun p =>
    p.expression Level.assignment .all indent))

/-- The sign of an access or a call that may be left out. -/
def optionalSign (isOptional : Bool) : Text := if isOptional then "?." else []

/-- A call; as the callee of `new` it has to stand in parentheses. -/
def callText (isOptional : Bool) (ps : Parts) (asked : Level) (allow : Allow) (indent : Nat) :
    Out := do
  let callee ← (← ps.get .callee).expression Level.call .all indent
  let t := callee ++ optionalSign isOptional ++ (← argumentsText ps indent)
  return if allow.calls then atLevel Level.call asked t else inParens t

/-- A call with `new`. -/
def constructText (ps : Parts) (asked : Level) (indent : Nat) : Out := do
  let callee ← (← ps.get .callee).expression Level.construct ⟨true, false, false⟩ indent
  return atLevel Level.construct asked (spaced "new" callee ++ (← argumentsText ps indent))

/-- Whether a number would take a point after it for its own. -/
def takesPoint (object : Node) (t : Text) : Bool :=
  match object.form with
  | .literal (.number _) =>
    !t.any (fun c => c == 0x2E || c == 0x65 || c == 0x45 || c == 0x78 || c == 0x58) &&
      (t.getLast?.map Text.isAsciiDigit).getD false && !(t.length ≥ 2 && t.head? == some 0x30)
  | _ => false

/-- A member access. -/
def memberAccessText (isOptional computed : Bool) (ps : Parts) (asked : Level) (allow : Allow)
    (indent : Nat) : Out := do
  let object ← ps.get .object
  let k ← ps.get .property
  let inner : Allow := ⟨true, allow.calls, false⟩
  let o ← object.expression Level.call inner indent
  if computed then
    let index ← k.expression Level.sequence inner indent
    return atLevel Level.member asked (o ++ optionalSign isOptional ++ "[" ++ index ++ "]")
  let name ← nameText k
  let point : Text := if isOptional then optionalSign true
    else if takesPoint object.node o then " ." else "."
  return atLevel Level.member asked (o ++ point ++ name)

/-- A chain of accesses and calls. -/
def chainText (ps : Parts) (asked : Level) (allow : Allow) (indent : Nat) : Out := do
  let allow := if Level.chain < asked then { allow with calls := true } else allow
  let t ← (← ps.get .expression).expression Level.chain allow indent
  return atLevel Level.chain asked t

/-- An operator in front of an operand. -/
def unaryText (op : UnaryOp) (ps : Parts) (asked : Level) (indent : Nat) : Out := do
  let e ← (← ps.get .argument).expression Level.unary .all indent
  let symbol : Text := op.symbol
  let sign := symbol.getLast?
  let t := if symbol.length > 2 then spaced symbol e
    else if (sign == some 0x2B || sign == some 0x2D) && sign == e.head? then symbol ++ " " ++ e
    else symbol ++ e
  return atLevel Level.unary asked t

/-- An increment or a decrement. -/
def updateText (op : UpdateOp) (before : Bool) (ps : Parts) (asked : Level) (indent : Nat) :
    Out := do
  let e ← ps.get .argument
  if before then
    return atLevel Level.unary asked (op.symbol ++ (← e.expression Level.unary .all indent))
  return atLevel Level.postfixed asked
    (keepLine (← e.expression Level.postfixed .all indent) ++ op.symbol)

/-- A template with a tag. -/
def taggedText (ps : Parts) (asked : Level) (allow : Allow) (indent : Nat) : Out := do
  let tag ← (← ps.get .tag).expression Level.call ⟨true, allow.calls, false⟩ indent
  let quasi ← (← ps.get .quasi).expression Level.primary .all indent
  return atLevel Level.tagged asked (tag ++ quasi)

/-- A `yield`. -/
def yieldText (delegate : Bool) (ps : Parts) (asked : Level) (indent : Nat) : Out := do
  let word : Text := if delegate then "yield*" else "yield"
  let t ← match ps.opt .argument with
    | some e => pure (spaced word (keepLine (← e.expression Level.assignment .all indent)))
    | none => pure word
  return atLevel Level.assignment asked t

/-- The level of a literal: a number with a minus sign is an operation. -/
def literalLevel : Literal → Level
  | .number n => if isNegative n then Level.unary else Level.primary
  | _ => Level.primary

/-- A node as an expression. -/
def expressionText (form : Form) (ps : Parts) (asked : Level) (allow : Allow) (indent : Nat) :
    Out := do
  match form with
  | .identifier name => validName name
  | .literal value => return atLevel (literalLevel value) asked (← literalText value)
  | .thisExpression => return "this"
  | .superWord => return "super"
  | .templateElement raw _ _ => return raw
  | .template =>
    return "\x60" ++ (← templateText (ps.all .quasis) (ps.all .expressions) indent) ++ "\x60"
  | .taggedTemplate => taggedText ps asked allow indent
  | .arrayExpression => arrayText (ps.all .elements) indent
  | .arrayPattern => arrayPatternText (ps.all .elements) indent
  | .objectExpression => objectText (ps.all .properties) indent
  | .objectPattern => objectPatternText (ps.all .properties) indent
  | .property computed kind method shorthand =>
    propertyText computed kind method shorthand ps indent
  | .methodDefinition computed kind isStatic => memberText computed kind isStatic ps indent
  | .spread | .rest =>
    return "..." ++ (← (← ps.get .argument).expression Level.assignment .all indent)
  | .functionExpression flags => functionText flags ps indent
  | .arrowFunction flags => return atLevel Level.conditional asked (← arrowText flags ps indent)
  | .classExpression => classText ps indent
  | .unary op => unaryText op ps asked indent
  | .update op before => updateText op before ps asked indent
  | .binary op => operationText op.symbol ps asked allow indent
  | .logical op => operationText op.symbol ps asked allow indent
  | .assignment op => assignmentText op.symbol ps asked allow indent
  | .assignmentPattern => assignmentText "=" ps asked allow indent
  | .conditional => conditionalText ps asked allow indent
  | .sequence => sequenceText ps asked allow indent
  | .call => callText false ps asked allow indent
  | .optionalCall => callText true ps asked allow indent
  | .chain => chainText ps asked allow indent
  | .construct => constructText ps asked indent
  | .member computed => memberAccessText false computed ps asked allow indent
  | .optionalMember computed => memberAccessText true computed ps asked allow indent
  | .metaProperty =>
    return atLevel Level.member asked
      ((← nameText (← ps.get .metaWord)) ++ "." ++ (← nameText (← ps.get .property)))
  | .yieldExpression delegate => yieldText delegate ps asked indent
  | .awaitExpression =>
    return atLevel Level.unary asked
      (spaced "await" (← (← ps.get .argument).expression Level.unary .all indent))
  | _ => .error .malformed

end Untangle.Print
