import Polyglot.Error

/-!
A template is a list of nodes. A phrase is a text to be translated: it has a singular body, the
domain it is looked up in, and optionally a count, a plural body and notes for translators. There is
no plural body without a count, so the two are kept together.
-/
namespace Polyglot

/-- The singular body of a phrase: one expression, or the nodes between two tags. -/
inductive Body (N : Type) where
  | inline (e : Expr)
  | block (nodes : List N)

structure Counted (N : Type) where
  count : Expr
  plural : Option (List N)

structure Phrase (N : Type) where
  body : Body N
  domain : Expr
  counted : Option (Counted N)
  notes : Option (List N)
  line : Nat

inductive Node where
  | text (s : String)
  | print (e : Expr)
  | loop (target : String) (items : Expr) (body : List Node)
  | branch (cases : List (Expr × List Node)) (otherwise : Option (List Node))
  | phrase (p : Phrase Node)

namespace Node

mutual

def beq : Node → Node → Bool
  | text a, text b => a == b
  | print a, print b => a == b
  | loop m a as, loop n b bs => m == n && a == b && beqNodes as bs
  | branch as a, branch bs b => beqCases as bs && beqOptional a b
  | phrase p, phrase q => beqPhrase p q
  | _, _ => false

def beqNodes : List Node → List Node → Bool
  | [], [] => true
  | a :: as, b :: bs => beq a b && beqNodes as bs
  | _, _ => false

def beqCases : List (Expr × List Node) → List (Expr × List Node) → Bool
  | [], [] => true
  | (a, as) :: cs, (b, bs) :: ds => a == b && beqNodes as bs && beqCases cs ds
  | _, _ => false

def beqOptional : Option (List Node) → Option (List Node) → Bool
  | none, none => true
  | some as, some bs => beqNodes as bs
  | _, _ => false

def beqBody : Body Node → Body Node → Bool
  | .inline a, .inline b => a == b
  | .block as, .block bs => beqNodes as bs
  | _, _ => false

def beqCounted : Option (Counted Node) → Option (Counted Node) → Bool
  | none, none => true
  | some ⟨a, as⟩, some ⟨b, bs⟩ => a == b && beqOptional as bs
  | _, _ => false

def beqPhrase : Phrase Node → Phrase Node → Bool
  | ⟨a, d, c, as, i⟩, ⟨b, e, x, bs, j⟩ =>
    beqBody a b && d == e && beqCounted c x && beqOptional as bs && i == j

end

mutual

theorem beq_iff : (a b : Node) → (beq a b = true ↔ a = b)
  | text a, b => by cases b <;> simp [beq]
  | print a, b => by cases b <;> simp [beq]
  | loop m a as, b => by cases b <;> simp [beq, beqNodes_iff as, and_assoc]
  | branch as a, b => by cases b <;> simp [beq, beqCases_iff as, beqOptional_iff a]
  | phrase p, b => by cases b <;> simp [beq, beqPhrase_iff p]

theorem beqNodes_iff : (as bs : List Node) → (beqNodes as bs = true ↔ as = bs)
  | [], bs => by cases bs <;> simp [beqNodes]
  | a :: as, bs => by cases bs <;> simp [beqNodes, beq_iff a, beqNodes_iff as]

theorem beqCases_iff : (as bs : List (Expr × List Node)) → (beqCases as bs = true ↔ as = bs)
  | [], bs => by cases bs <;> simp [beqCases]
  | (a, as) :: cs, bs => by
    rcases bs with _ | ⟨⟨b, bs⟩, ds⟩ <;> simp [beqCases, beqNodes_iff as, beqCases_iff cs]

theorem beqOptional_iff : (a b : Option (List Node)) → (beqOptional a b = true ↔ a = b)
  | none, b => by cases b <;> simp [beqOptional]
  | some as, b => by cases b <;> simp [beqOptional, beqNodes_iff as]

theorem beqBody_iff : (a b : Body Node) → (beqBody a b = true ↔ a = b)
  | .inline a, b => by cases b <;> simp [beqBody]
  | .block as, b => by cases b <;> simp [beqBody, beqNodes_iff as]

theorem beqCounted_iff : (a b : Option (Counted Node)) → (beqCounted a b = true ↔ a = b)
  | none, b => by cases b <;> simp [beqCounted]
  | some ⟨a, as⟩, b => by
    rcases b with _ | ⟨b, bs⟩ <;> simp [beqCounted, beqOptional_iff as]

theorem beqPhrase_iff : (p q : Phrase Node) → (beqPhrase p q = true ↔ p = q)
  | ⟨a, d, c, as, i⟩, ⟨b, e, x, bs, j⟩ => by
    simp [beqPhrase, beqBody_iff a, beqCounted_iff c, beqOptional_iff as, and_assoc]

end

instance : DecidableEq Node := fun a b => decidable_of_iff (beq a b = true) (beq_iff a b)

end Node

namespace Phrase

variable {N : Type}

def count? (p : Phrase N) : Option Expr := p.counted.map (·.count)

def plural? (p : Phrase N) : Option (List N) := p.counted.bind (·.plural)

/-- Puts a phrase together from parts that were read on their own. -/
def ofParts (body : Body N) (domain : Expr) (count : Option Expr) (plural notes : Option (List N))
    (line : Nat) : Except Error (Phrase N) :=
  match count, plural with
  | none, some _ => .error (.pluralWithoutCount line)
  | none, none => .ok ⟨body, domain, none, notes, line⟩
  | some count, plural => .ok ⟨body, domain, some ⟨count, plural⟩, notes, line⟩

/-- A count and its plural body can be taken apart and put together again. -/
theorem ofParts_counted (body : Body N) (domain : Expr) (counted : Option (Counted N))
    (notes : Option (List N)) (line : Nat) :
    ofParts body domain (counted.map (·.count)) (counted.bind (·.plural)) notes line =
      .ok ⟨body, domain, counted, notes, line⟩ := by
  cases counted <;> rfl

end Phrase

end Polyglot
