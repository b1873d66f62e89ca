import Untangle.Text.Basic

set_option autoImplicit false

/-!
# Faults of a script's source

Why a source text is no script, and where.  Every cause has its wording in `Complaint.message`; the
report begins with the number of the line.  One cause, a template that starts in its middle, breaks an
assumption of the reader and is reported without a place.
-/

namespace Untangle.Source

/-- Why a source text is refused. -/
inductive Complaint where
  | accessorConstructor
  | asyncConstructor
  | bareToken
  | defaultRest
  | duplicateBinding (name : Text)
  | duplicateConstructor
  | duplicateLabel (name : Text)
  | duplicateParameter
  | duplicateProto
  | escapedKeyword
  | futureReserved
  | generatorInLabel
  | getterArity
  | hexEscape
  | illegalBreak
  | illegalCharacter
  | illegalContinue
  | illegalReturn
  | illegalStrictDirective
  | invalidForInTarget
  | invalidForOfTarget
  | invalidRegex
  | invalidTarget
  | letAsName
  | loopInitializer
  | missingConstValue
  | newlineAfterThrow
  | noCatchOrFinally
  | restNotLast
  | secondDefault
  | setterArity
  | setterRest
  | staticPrototype
  | strictAssignment
  | strictCatchName
  | strictDelete
  | strictFunctionName
  | strictFunctionPlace
  | strictOctal
  | strictParameterName
  | strictPostfix
  | strictPrefixed
  | strictReserved
  | strictVariableName
  | strictWith
  | templateMiddle
  | templateOctal
  | tooDeep
  | unexpectedEnd
  | unexpectedIdentifier
  | unexpectedNumber
  | unexpectedReserved
  | unexpectedString
  | unexpectedTemplate (raw : Text)
  | unexpectedToken (value : Text)
  | unknownLabel (name : Text)
  | unterminatedRegex
  deriving Repr, DecidableEq

/-- The wording of a complaint. -/
def Complaint.message : Complaint → Text
  | .accessorConstructor => "Class constructor may not be an accessor"
  | .asyncConstructor => "Class constructor may not be an async method"
  | .bareToken => "Unexpected token"
  | .defaultRest => "Unexpected token ="
  | .duplicateBinding name => "Duplicate binding " ++ name
  | .duplicateConstructor => "A class may only have one constructor"
  | .duplicateLabel name => Text.of "Label '" ++ name ++ Text.of "' has already been declared"
  | .duplicateParameter => "Strict mode function may not have duplicate parameter names"
  | .duplicateProto => "Duplicate __proto__ fields are not allowed in object literals"
  | .escapedKeyword => "Keyword must not contain escaped characters"
  | .futureReserved => "Use of future reserved word in strict mode"
  | .generatorInLabel => "Generator declarations are not allowed in legacy contexts"
  | .getterArity => "Getter must not have any formal parameters"
  | .hexEscape => "Invalid hexadecimal escape sequence"
  | .illegalBreak => "Illegal break statement"
  | .illegalCharacter => "Unexpected token ILLEGAL"
  | .illegalContinue => "Illegal continue statement"
  | .illegalReturn => "Illegal return statement"
  | .illegalStrictDirective =>
    "Illegal 'use strict' directive in function with non-simple parameter list"
  | .invalidForInTarget => "Invalid left-hand side in for-in"
  | .invalidForOfTarget => "Invalid left-hand side in for-loop"
  | .invalidRegex => "Invalid regular expression"
  | .invalidTarget => "Invalid left-hand side in assignment"
  | .letAsName => "let is disallowed as a lexically bound name"
  | .loopInitializer => "for-in loop variable declaration may not have an initializer"
  | .missingConstValue => "Missing initializer in const declaration"
  | .newlineAfterThrow => "Illegal newline after throw"
  | .noCatchOrFinally => "Missing catch or finally after try"
  | .restNotLast => "Rest parameter must be last formal parameter"
  | .secondDefault => "More than one default clause in switch statement"
  | .setterArity => "Setter must have exactly one formal parameter"
  | .setterRest => "Setter function argument must not be a rest parameter"
  | .staticPrototype => "Classes may not have static property named prototype"
  | .strictAssignment => "Assignment to eval or arguments is not allowed in strict mode"
  | .strictCatchName => "Catch variable may not be eval or arguments in strict mode"
  | .strictDelete => "Delete of an unqualified identifier in strict mode."
  | .strictFunctionName => "Function name may not be eval or arguments in strict mode"
  | .strictFunctionPlace =>
    "In strict mode code, functions can only be declared at top level or inside a block"
  | .strictOctal => "Octal literals are not allowed in strict mode."
  | .strictParameterName => "Parameter name eval or arguments is not allowed in strict mode"
  | .strictPostfix =>
    "Postfix increment/decrement may not have eval or arguments operand in strict mode"
  | .strictPrefixed =>
    "Prefix increment/decrement may not have eval or arguments operand in strict mode"
  | .strictReserved => "Use of future reserved word in strict mode"
  | .strictVariableName => "Variable name may not be eval or arguments in strict mode"
  | .strictWith => "Strict mode code may not include a with statement"
  | .templateMiddle => "Template literal must start with a template head"
  | .templateOctal => "Octal literals are not allowed in template strings."
  | .tooDeep => "Constructs are nested too deeply"
  | .unexpectedEnd => "Unexpected end of input"
  | .unexpectedIdentifier => "Unexpected identifier"
  | .unexpectedNumber => "Unexpected number"
  | .unexpectedReserved => "Unexpected reserved word"
  | .unexpectedString => "Unexpected string"
  | .unexpectedTemplate raw => "Unexpected quasi " ++ raw
  | .unexpectedToken value => "Unexpected token " ++ value
  | .unknownLabel name => Text.of "Undefined label '" ++ name ++ Text.of "'"
  | .unterminatedRegex => "Invalid regular expression: missing /"

/-- A complaint with its place.  Lines and columns count from one; a column is counted from the
start of the line that was read last, so it is not positive for a place on an earlier line. -/
structure Fault where
  line : Nat
  column : Int
  complaint : Complaint
  deriving Repr

/-- Whether a fault breaks an assumption of the reader, so that it is no verdict on the source. -/
def Fault.isAssertion (f : Fault) : Bool := f.complaint == .templateMiddle

/-- The report of a fault; a broken assumption has no line. -/
def Fault.message (f : Fault) : Text :=
  if f.isAssertion then f.complaint.message
  else Text.of "Line " ++ Text.ofNat f.line ++ Text.of ": " ++ f.complaint.message

end Untangle.Source
