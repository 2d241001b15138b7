import Polyglot.Diagnostic
import Polyglot.Integer

/-!
Lexemes are the words of a template: stretches of plain text, the delimiters of tags, and inside
tags names, literals and symbols. A token is a lexeme with the line on which it starts.
-/
namespace Polyglot

inductive Symbol where
  | equal
  | notEqual
  | less
  | greater
  | plus
  | minus
  | star
  | tilde
  | pipe
  | dot
  | comma
  | colon
  | openParen
  | closeParen
  | openBracket
  | closeBracket
  | openBrace
  | closeBrace
  deriving DecidableEq

namespace Symbol

def spelled : Symbol → List Char
  | equal => ['=', '=']
  | notEqual => ['!', '=']
  | less => ['<']
  | greater => ['>']
  | plus => ['+']
  | minus => ['-']
  | star => ['*']
  | tilde => ['~']
  | pipe => ['|']
  | dot => ['.']
  | comma => [',']
  | colon => [':']
  | openParen => ['(']
  | closeParen => [')']
  | openBracket => ['[']
  | closeBracket => [']']
  | openBrace => ['\x7b']
  | closeBrace => ['\x7d']

/-- The symbol that a text begins with. -/
def leading? : List Char → Option Symbol
  | '=' :: '=' :: _ => some equal
  | '!' :: '=' :: _ => some notEqual
  | '<' :: _ => some less
  | '>' :: _ => some greater
  | '+' :: _ => some plus
  | '-' :: _ => some minus
  | '*' :: _ => some star
  | '~' :: _ => some tilde
  | '|' :: _ => some pipe
  | '.' :: _ => some dot
  | ',' :: _ => some comma
  | ':' :: _ => some colon
  | '(' :: _ => some openParen
  | ')' :: _ => some closeParen
  | '[' :: _ => some openBracket
  | ']' :: _ => some closeBracket
  | '\x7b' :: _ => some openBrace
  | '\x7d' :: _ => some closeBrace
  | _ => none

theorem eq_spelled_of_leading? {cs : List Char} {y : Symbol} (h : leading? cs = some y) :
    ∃ rest, cs = y.spelled ++ rest := by
  unfold leading? at h
  split at h <;> cases h <;> exact ⟨_, rfl⟩

end Symbol

inductive Lexeme where
  | text (s : String)
  | blockStart
  | blockEnd
  | printStart
  | printEnd
  | name (n : String)
  | str (s : String)
  | int (i : Integer)
  | symbol (y : Symbol)
  deriving DecidableEq

/-- How an error message refers to a lexeme. -/
def Lexeme.described : Lexeme → String
  | text _ => "text"
  | blockStart => "\"\x7b%\""
  | blockEnd => "\"%\x7d\""
  | printStart => "\"\x7b\x7b\""
  | printEnd => "\"\x7d\x7d\""
  | name n => "name \"" ++ n ++ "\""
  | str s => "string " ++ Diagnostic.text s
  | int i => "number " ++ i.text
  | symbol y => "\"" ++ String.ofList y.spelled ++ "\""

structure Token where
  lexeme : Lexeme
  line : Nat
  deriving DecidableEq

end Polyglot
