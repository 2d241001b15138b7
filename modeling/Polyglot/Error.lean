import Polyglot.Expr
import Polyglot.Lexeme
import Polyglot.Value

/-!
What can go wrong, by cause. A malformed template, a phrase that holds more than text and simple
variables, and a plural without a count point at a line of the template; a failure while rendering
and a refused options document do not.
-/
namespace Polyglot

/-- Why a template cannot be read. -/
inductive Fault where
  | unterminatedString
  | numberTooLarge (digits : String)
  | strayCharacter (c : Char)
  | endOfTemplate
  | endOfRawSection (name : String)
  | rawSectionTooLate
  | strayToken (found : Lexeme)
  | expectedName (found : Lexeme)
  | expectedLexeme (found expected : Lexeme)
  | expectedExpression (found : Lexeme)
  | afterExpression (found : Lexeme)
  | expectedTagName
  | unknownTag (name : String)
  | strayBranch (name : String)
  deriving DecidableEq

def Fault.message : Fault → String
  | unterminatedString => "Unterminated string literal"
  | numberTooLarge digits => "Integer literal " ++ digits ++ " is out of range"
  | strayCharacter c => "Unexpected character " ++ Diagnostic.char c
  | endOfTemplate => "Unexpected end of template"
  | endOfRawSection name => "Unexpected end of template (\"" ++ name ++ "\" expected)"
  | rawSectionTooLate => "A raw section must start right after a block end"
  | strayToken found => "Unexpected token " ++ found.described
  | expectedName found => "Unexpected token " ++ found.described ++ " (a name was expected)"
  | expectedLexeme found expected =>
    "Unexpected token " ++ found.described ++ " (" ++ expected.described ++ " expected)"
  | expectedExpression found =>
    "Unexpected token " ++ found.described ++ " (an expression was expected)"
  | afterExpression found => "Unexpected token " ++ found.described ++ " after expression"
  | expectedTagName => "A block must start with a tag name"
  | unknownTag name => "Unknown \"" ++ name ++ "\" tag"
  | strayBranch name => "Unexpected \"" ++ name ++ "\" tag (expecting elif, else or endif)"

/-- Why an expression or a template has no value. -/
inductive Failure where
  | notPrintable (v : Value)
  | memberOfNonMap (key : String) (v : Value)
  | outOfBounds (i : Integer)
  | badIndex
  | notIterable (v : Value)
  | notNegatable (v : Value)
  | notANumber (v : Value)
  | noLength (v : Value)
  | overflow (a : Integer) (op : BinaryOp) (b : Integer)
  | negationOverflow (a : Integer)
  | absoluteOverflow (a : Integer)
  | unknownFunction (name : String)
  | notTwoForms (v : Option Value)
  | notReplacements (v : Value)
  deriving DecidableEq

namespace Failure

def message : Failure → String
  | notPrintable v => "Cannot render complex type " ++ v.described
  | memberOfNonMap key v => "Cannot get attribute " ++ key ++ " of non-map " ++ v.described
  | outOfBounds i => "Index " ++ i.text ++ " out of bounds"
  | badIndex => "Invalid index access"
  | notIterable v => "Expected array for loop, got " ++ v.described
  | notNegatable v => "Cannot negate " ++ v.described
  | notANumber (.text s) => "Expected a number, got " ++ Diagnostic.text s
  | notANumber v => "Expected a number, got " ++ v.described
  | noLength v => "Cannot take length of " ++ v.described
  | overflow a op b =>
    "Integer overflow in " ++ a.text ++ " " ++ op.symbol ++ " " ++ b.text
  | negationOverflow a => "Integer overflow in -(" ++ a.text ++ ")"
  | absoluteOverflow a => "Integer overflow in abs(" ++ a.text ++ ")"
  | unknownFunction name => "Unknown function " ++ name
  | notTwoForms none => "Plural translation needs [singular, plural], got None"
  | notTwoForms (some v) =>
    "Plural translation needs [singular, plural], got Some(" ++ v.described ++ ")"
  | notReplacements v => "Placeholder replacements must be a map, got " ++ v.described

end Failure

inductive Error where
  | malformed (fault : Fault) (line : Nat)
  | untranslatable (line : Nat)
  | pluralWithoutCount (line : Nat)
  | rendering (failure : Failure)
  | refusedOptions
  deriving DecidableEq

namespace Error

/-- The line of the source that an error points at. -/
def line? : Error → Option Nat
  | malformed _ line => some line
  | untranslatable line => some line
  | pluralWithoutCount line => some line
  | rendering _ => none
  | refusedOptions => none

def message : Error → String
  | malformed fault line =>
    "Syntax error at line " ++ Decimal.natText line ++ ": " ++ fault.message
  | untranslatable line =>
    "The text to be translated with \"trans\" can only contain references to simple variables" ++
      " (line " ++ Decimal.natText line ++ ")"
  | pluralWithoutCount line =>
    "A plural translation needs a count expression (line " ++ Decimal.natText line ++ ")"
  | rendering failure => "Render error: " ++ failure.message
  | refusedOptions => "Invalid options"

end Error

end Polyglot
