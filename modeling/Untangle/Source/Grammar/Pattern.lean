import Untangle.Source.Grammar.Target

set_option autoImplicit false

/-!
# Names, keys and patterns

Names that bind, keys of objects and classes, and the patterns of declarations and parameters.  A
pattern is read together with the tokens of the names that it binds.
-/

namespace Untangle.Source.Parse

/-- Reads a name that is bound or assigned.  After `var`, outside of strict code, any token that spells
`let` is that name, a string too. -/
def variableName (kind : Option VariableKind) : Parse Node := do
  let t ← advance
  let c ← context
  match t.lexeme with
  | .keyword "yield" =>
    if c.strict then blameToken t .strictReserved
    if !c.allowYield then unexpected t
    return .ident "yield"
  | .name w =>
    if c.awaits && w == Text.of "await" then unexpected t
    return .ident w
  | l =>
    let reserved := match l with
      | .keyword w => isStrictReserved w
      | _ => false
    if c.strict && reserved then blameToken t .strictReserved
    if c.strict || l.spelling != Text.of "let" || kind != some .var then unexpected t
    return .ident "let"

/-- Reads a name where keywords are names too. -/
def anyName : Parse Node := do
  let t ← advance
  match t.lexeme.word? with
  | some w => return .ident w
  | none => unexpected t

/-- Takes a literal number or string; strict code refuses octal forms. -/
def literalKey (t : Token) (value : Literal) : Parse Node := do
  if (← isStrict) && t.lexeme.isOctal then blameToken t .strictOctal
  return .literal value

/-- Reads a key of an object or a class. -/
def key (g : Grammar) : Parse Node := do
  let t ← advance
  match t.lexeme with
  | .string v _ _ => literalKey t (.string v)
  | .number v _ => literalKey t (.number v)
  | .name w => return .ident w
  | .keyword w => return .ident w
  | .boolean b => return .ident (if b then "true" else "false")
  | .null => return .ident "null"
  | .sign "[" =>
    let k ← isolated g.assignment
    expect "]"
    return k
  | _ => unexpected t

/-- Whether a key is the given word, as a name or as a string. -/
def isKey (k : Node) (word : String) : Bool :=
  match k.form with
  | .identifier name => name == Text.of word
  | .literal (.string t) => t == Text.of word
  | _ => false

/-- Reads a pattern and the default value after it. -/
def patternWithDefault (g : Grammar) (kind : Option VariableKind) : Parse (Node × List Token) := do
  let (p, names) ← g.pattern kind
  if ← sees "=" then
    let _ ← advance
    let value ← withYield true (isolated g.assignment)
    return (.withDefault p value, names)
  return (p, names)

/-- Reads one element of an array pattern: the element, its names, and whether it is the last. -/
def elementPattern (g : Grammar) (kind : Option VariableKind) :
    Parse (Node × List Token × Bool) := do
  if ← sees "," then
    let _ ← advance
    return (.leaf .hole, [], false)
  if ← sees "..." then
    expect "..."
    let (p, names) ← g.pattern kind
    return (.rest p, names, true)
  let (p, names) ← patternWithDefault g kind
  if !(← sees "]") then expect ","
  return (p, names, false)

/-- Reads an array pattern. -/
def arrayPattern (g : Grammar) (kind : Option VariableKind) : Parse (Node × List Token) := do
  expect "["
  let (elements, names) ← loop (fun (acc : List Node × List Token) => do
    if ← sees "]" then return (false, acc)
    let (e, names, last) ← elementPattern g kind
    return (!last, e :: acc.1, acc.2 ++ names)) ([], [])
  expect "]"
  return (.arrayPattern elements.reverse, names)

/-- Reads a property of an object pattern. -/
def propertyPattern (g : Grammar) (kind : Option VariableKind) : Parse (Node × List Token) := do
  let first := (← get).ahead
  match first.lexeme with
  | .name w =>
    let k ← variableName none
    if ← sees "=" then
      let _ ← advance
      let value ← g.assignment
      return (.property .plain k false (.withDefault (.ident w) value) false true, [first])
    if !(← sees ":") then
      return (.property .plain k false (.ident w) false true, [first])
    expect ":"
    let (p, names) ← patternWithDefault g kind
    return (.property .plain k false p false false, names)
  | _ =>
    let computed ← sees "["
    let k ← key g
    expect ":"
    let (p, names) ← patternWithDefault g kind
    return (.property .plain k computed p false false, names)

/-- Reads the rest of an object pattern. -/
def restProperty (g : Grammar) : Parse (Node × List Token) := do
  expect "..."
  let (p, names) ← g.pattern none
  if ← sees "=" then fail .defaultRest
  if !(← sees "\x7d") then fail .bareToken
  return (.rest p, names)

/-- Reads an object pattern. -/
def objectPattern (g : Grammar) (kind : Option VariableKind) : Parse (Node × List Token) := do
  expect "\x7b"
  let properties ← collectUntil "\x7d" do
    let p ← if ← sees "..." then restProperty g else propertyPattern g kind
    if !(← sees "\x7d") then expect ","
    return p
  return (.objectPattern (properties.map (·.1)),
    (properties.map (·.2)).flatten)

/-- Reads a pattern. -/
def pattern (g : Grammar) (kind : Option VariableKind) : Parse (Node × List Token) := do
  if ← sees "[" then arrayPattern g kind
  else if ← sees "\x7b" then objectPattern g kind
  else
    let first := (← get).ahead
    if (← seesKeyword "let") && (kind == some .constant || kind == some .lexical) then
      blameToken first .letAsName
    return (← variableName kind, [first])

/-- Reads the rest of a list of parameters. -/
def restParameter (g : Grammar) : Parse (Node × List Token) := do
  expect "..."
  let (p, names) ← g.pattern none
  if ← sees "=" then fail .defaultRest
  if !(← sees ")") then fail .restNotLast
  return (.rest p, names)

/-- Reads one parameter. -/
def parameter (g : Grammar) (ps : Parameters) : Parse Parameters := do
  let (p, names) ← if ← sees "..." then restParameter g else patternWithDefault g none
  let strict ← isStrict
  let check := names.foldl (fun o t => o.bind strict (.token t) t.lexeme.spelling) ps.check
  return ⟨p :: ps.nodes, check.shape p⟩

/-- Reads the parameters of a function; the name of the function may be at fault already. -/
def parameters (g : Grammar) (laterFault : Option Blame) : Parse Parameters := do
  expect "("
  let start : Parameters := ⟨[], .start laterFault⟩
  let ps ← if ← sees ")" then pure start else
    loop (fun (ps : Parameters) => do
      if ← seesEnd then return (false, ps)
      let ps ← parameter g ps
      if ← sees ")" then return (false, ps)
      expect ","
      return (!(← sees ")"), ps)) start
  expect ")"
  return ⟨ps.nodes.reverse, ps.check⟩

end Untangle.Source.Parse
