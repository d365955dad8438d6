/-
  Offside/Diagnostic.lean
  =======================
  **Why a program is refused.**  A `Cause` says what is wrong, a `Diagnostic` also where.
  The wording is decided here and nowhere else: the cause's name, the stage it belongs
  to, the one-line text and the tip that the report shows beside the name.

  While it goes on, a compilation also tells about itself in records: the results of its
  stages, and in more detail the steps inside them.
-/
import Offside.Position
import Offside.Text.Invisible

namespace Offside

/-- The stage of the compilation a cause belongs to. -/
inductive Stage where
  | lex | parse | type | codegen
deriving DecidableEq, Repr

def Stage.name : Stage → String
  | .lex => "LexError"
  | .parse => "ParseError"
  | .type => "TypeError"
  | .codegen => "CodeGenError"

/-- What is wrong with a program. -/
inductive Cause where
  | unrecognisedToken (token : String)
  | inconsistentIndentation (width : Nat)
  | unterminatedLiteral (literal : String)
  | invalidCharLiteral (literal : String)
  | unexpectedToken (token : String)
  | unexpectedTokenDetailed (token message : String)
  | numberParse (token : String)
  | variableNotDeclared (name : String)
  | variableAlreadyDeclared (name : String)
  | unexpectedArguments (expected received : Nat)
  | missingArguments (expected received : Nat)
  | argumentTypeMatch (expected received : String)
  | typeMatch (expected received : String)
  | conditionType (received : String)
  | expectedValue (received : String)
  | functionAlreadyDeclared (function : String)
  | unknownType (type : String)
  | unexpectedReturnValue (function : String)
  | expectedReturnValue (function expected : String)
  | missingReturn (function : String)
  | breakOutsideLoop (keyword : String)
  | unsupportedConstruct (construct : String)
  | stackMismatch (function message : String)
deriving DecidableEq, Repr

namespace Cause

def stage : Cause → Stage
  | unrecognisedToken _ | inconsistentIndentation _ | unterminatedLiteral _
  | invalidCharLiteral _ => .lex
  | unexpectedToken _ | unexpectedTokenDetailed _ _ | numberParse _ => .parse
  | variableNotDeclared _ | variableAlreadyDeclared _ | unexpectedArguments _ _
  | missingArguments _ _ | argumentTypeMatch _ _ | typeMatch _ _ | conditionType _
  | expectedValue _ | functionAlreadyDeclared _ | unknownType _ | unexpectedReturnValue _
  | expectedReturnValue _ _ | missingReturn _ => .type
  | breakOutsideLoop _ | unsupportedConstruct _ | stackMismatch _ _ => .codegen

/-- The name a report shows. -/
def name : Cause → String
  | unrecognisedToken _ => "UnrecognisedToken"
  | inconsistentIndentation _ => "InconsistentIndentation"
  | unterminatedLiteral _ => "UnterminatedLiteral"
  | invalidCharLiteral _ => "InvalidCharLiteral"
  | unexpectedToken _ => "UnexpectedToken"
  | unexpectedTokenDetailed _ _ => "UnexpectedTokenDetailed"
  | numberParse _ => "NumberParseError"
  | variableNotDeclared _ => "VariableNotDeclared"
  | variableAlreadyDeclared _ => "VariableAlreadyDeclared"
  | unexpectedArguments _ _ => "UnexpectedArguments"
  | missingArguments _ _ => "MissingArguments"
  | argumentTypeMatch _ _ => "ArgumentTypeMatchError"
  | typeMatch _ _ => "TypeMatchError"
  | conditionType _ => "ConditionTypeError"
  | expectedValue _ => "ExpectedValue"
  | functionAlreadyDeclared _ => "FunctionAlreadyDeclared"
  | unknownType _ => "UnknownType"
  | unexpectedReturnValue _ => "UnexpectedReturnValue"
  | expectedReturnValue _ _ => "ExpectedReturnValue"
  | missingReturn _ => "MissingReturn"
  | breakOutsideLoop _ => "BreakOutsideLoop"
  | unsupportedConstruct _ => "UnsupportedConstruct"
  | stackMismatch _ _ => "StackMismatch"

/-- The one-line description. -/
def text : Cause → String
  | unrecognisedToken token => "unrecognised token: " ++ Text.quoted token
  | inconsistentIndentation width =>
    s!"unindent to width {width} does not match any outer indentation level"
  | unterminatedLiteral literal => "unterminated literal: " ++ Text.quoted literal
  | invalidCharLiteral literal => "invalid character literal: " ++ Text.quoted literal
  | unexpectedToken token => "unexpected token: " ++ Text.quoted token
  | unexpectedTokenDetailed token message =>
    s!"unexpected token ({message}): " ++ Text.quoted token
  | numberParse token => "error parsing number: " ++ Text.quoted token
  | variableNotDeclared name => "name " ++ Text.quoted name ++ " not declared"
  | variableAlreadyDeclared name =>
    "variable " ++ Text.quoted name ++ " already declared"
  | unexpectedArguments expected received =>
    s!"unexpected arguments: expected {expected}, received {received}"
  | missingArguments expected received =>
    s!"missing arguments: expected {expected}, received {received}"
  | argumentTypeMatch expected received =>
    s!"argument types do not match: expected {expected}, received {received}"
  | typeMatch expected received =>
    s!"types do not match: expected {expected}, received {received}"
  | conditionType received => s!"condition must be boolean, received {received}"
  | expectedValue received => s!"expected a numeric value, received {received}"
  | functionAlreadyDeclared function =>
    "function " ++ Text.quoted function ++ " already declared"
  | unknownType type => s!"unknown type {type} found"
  | unexpectedReturnValue function =>
    "function " ++ Text.quoted function ++ " has no return type but returns a value"
  | expectedReturnValue function expected =>
    "function " ++ Text.quoted function ++ s!" must return a value of type {expected}"
  | missingReturn function =>
    "function " ++ Text.quoted function ++ " is missing a return on some path"
  | breakOutsideLoop keyword => Text.quoted keyword ++ " outside of loop"
  | unsupportedConstruct construct => s!"cannot generate code for {construct}"
  | stackMismatch function message =>
    "operand stack mismatch in " ++ Text.quoted function ++ s!": {message}"

/-- What the user may do about it, where there is something to say. -/
def tip? : Cause → Option String
  | unrecognisedToken _ | unsupportedConstruct _ | stackMismatch _ _ => none
  | inconsistentIndentation width =>
    some s!"Dedent to column {width} does not match any enclosing block"
  | unterminatedLiteral _ => some "Close the literal with a matching quote"
  | invalidCharLiteral literal =>
    some s!"Character literal `{literal}` must contain exactly one character"
  | unexpectedToken token => some s!"Unexpected token: `{token}`"
  | unexpectedTokenDetailed token message =>
    some s!"Unexpected token: `{token}`, {message}"
  | numberParse token =>
    some s!"Invalid number: `{token}`, is it above the integer limit?"
  | variableNotDeclared name => some s!"Name `{name}` is not defined"
  | variableAlreadyDeclared name => some s!"Parameter `{name}` is declared twice"
  | unexpectedArguments expected received | missingArguments expected received =>
    some s!"Expected {expected} arguments, received {received}"
  | argumentTypeMatch expected received =>
    some s!"Expected argument type `{expected}`, received `{received}`"
  | typeMatch expected received => some s!"Expected type `{expected}`, received `{received}`"
  | conditionType received =>
    some s!"Conditions must be comparisons or `and`/`or` of comparisons, received `{received}`"
  | expectedValue received =>
    some s!"Expected an `int` or `float` value, received `{received}`"
  | functionAlreadyDeclared function => some s!"Function `{function}` already declared"
  | unknownType type => some s!"Unknown type `{type}` found, use `int` or `float`"
  | unexpectedReturnValue function =>
    some s!"Function `{function}` declares no return type, add `-> <type>` to its signature"
  | expectedReturnValue function expected =>
    some s!"Function `{function}` must return a value of type `{expected}`"
  | missingReturn function =>
    some s!"Function `{function}` can reach its end without returning a value"
  | breakOutsideLoop keyword => some s!"`{keyword}` can only be used inside `while`"

end Cause

/-- A cause and the position it is reported at. -/
structure Diagnostic where
  cause : Cause
  position : Position
deriving DecidableEq, Repr

/-- The diagnostic on one line, such as `3:7: TypeError: name "x" not declared`. -/
def Diagnostic.message (d : Diagnostic) : String :=
  toString d.position.line ++ ":" ++ toString d.position.column ++ ": " ++
    d.cause.stage.name ++ ": " ++ d.cause.text

/-! ### Records -/

/-- How much a record matters. -/
inductive LogLevel where
  | info | debug
deriving DecidableEq, Repr

def LogLevel.name : LogLevel → String
  | info => "INFO"
  | debug => "DEBUG"

/-- One line of the log. -/
structure LogRecord where
  level : LogLevel
  message : String
deriving DecidableEq, Repr

def LogRecord.info (message : String) : LogRecord := ⟨.info, message⟩

def LogRecord.debug (message : String) : LogRecord := ⟨.debug, message⟩

end Offside
