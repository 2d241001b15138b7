import Polyglot.Decimal

/-!
A translator answers two kinds of requests: for one text, and for one of two forms by a number.
It gets the texts with their placeholders and returns a text with placeholders.
-/
namespace Polyglot

inductive Request where
  | single (message domain : String)
  | plural (singular plural domain : String) (n : Nat)
  deriving DecidableEq

/-- A translator has no state: what it answers depends on the request alone. -/
abbrev Translator := Request → String

namespace Translator

/-- Leaves every text untranslated. -/
def passthrough : Translator
  | .single message _ => message
  | .plural singular plural _ n => if n = 1 then singular else plural

/-- Shows the request instead of answering it. -/
def echo : Translator
  | .single message domain => "<" ++ domain ++ ">" ++ message
  | .plural singular plural domain n =>
    "<" ++ domain ++ "#" ++ Decimal.natText n ++ ">" ++ singular ++ "|" ++ plural

structure SingleRow where
  domain : String
  message : String
  text : String

structure PluralRow where
  domain : String
  singular : String
  one : String
  many : String

/-- Texts in another language by domain and untranslated text. -/
structure Catalog where
  singles : List SingleRow
  plurals : List PluralRow

/-- Answers with the first row that matches, and leaves a text without a row untranslated. -/
def ofCatalog (catalog : Catalog) : Translator
  | .single message domain =>
    match catalog.singles.find? fun row => row.domain == domain && row.message == message with
    | some row => row.text
    | none => passthrough (.single message domain)
  | .plural singular plural domain n =>
    match catalog.plurals.find? fun row => row.domain == domain && row.singular == singular with
    | some row => if 1 < n then row.many else row.one
    | none => passthrough (.plural singular plural domain n)

end Translator

end Polyglot
