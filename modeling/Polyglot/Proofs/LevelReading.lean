import Polyglot.Expr.Reader
import Polyglot.Proofs.CursorRules

/-!
How the levels of expressions are read. A level takes from what comes next only operators of its
own, so what a tighter level reads is read by every looser one as well, unless an operator of a
level in between stands around it. An operand ends where neither a selector nor a filter follows.
-/
namespace Polyglot

def BinaryOp.lexeme : BinaryOp → Lexeme
  | equal => .symbol .equal
  | notEqual => .symbol .notEqual
  | less => .symbol .less
  | greater => .symbol .greater
  | add => .symbol .plus
  | subtract => .symbol .minus
  | multiply => .symbol .star
  | concat => .symbol .tilde
  | and => .name "and"
  | or => .name "or"

def UnaryOp.lexeme : UnaryOp → Lexeme
  | not => .name "not"
  | negate => .symbol .minus

def BinaryOp.level : BinaryOp → Level
  | equal => .comparison
  | notEqual => .comparison
  | less => .comparison
  | greater => .comparison
  | add => .sum
  | subtract => .sum
  | multiply => .product
  | concat => .concat
  | and => .and
  | or => .or

namespace BinaryOp

theorem operator?_lexeme (op : BinaryOp) : op.level.operator? op.lexeme = some op := by
  cases op <;> rfl

theorem operator?_lexeme_of_ne {op : BinaryOp} {l : Level} (h : l ≠ op.level) :
    l.operator? op.lexeme = none := by
  cases op <;> cases l <;> first | rfl | exact absurd rfl h

theorem level_ne_sign (op : BinaryOp) : op.level ≠ .sign := by
  cases op <;> decide

end BinaryOp

/-- Whether an operand can begin with a lexeme. -/
def Lexeme.begins : Lexeme → Bool
  | str _ => true
  | int _ => true
  | name n => n != "not"
  | symbol .openParen => true
  | symbol .openBracket => true
  | symbol .openBrace => true
  | _ => false

/-- Whether a lexeme can only stand after a whole expression. -/
def Lexeme.closes : Lexeme → Bool
  | blockEnd => true
  | printEnd => true
  | symbol .closeParen => true
  | symbol .closeBracket => true
  | symbol .closeBrace => true
  | symbol .comma => true
  | symbol .colon => true
  | _ => false

theorem Lexeme.ne_of_begins_of_closes {x y : Lexeme} (hx : x.begins = true)
    (hy : y.closes = true) : x ≠ y := by
  rintro rfl
  cases x with
  | symbol y => cases y <;> simp_all [begins, closes]
  | _ => simp_all [begins, closes]

theorem Level.sign?_of_begins {x : Lexeme} (h : x.begins = true) (l : Level) :
    l.sign? x = none := by
  cases hs : l.sign? x with
  | none => rfl
  | some op =>
    unfold sign? at hs
    split at hs
    · cases h
    · cases h
    · cases hs

namespace Expr

/-- No expression of level `l` goes on with what comes next. -/
structure Ends (l : Level) (x? : Option Lexeme) : Prop where
  operator : ∀ k : Level, k.looseness ≤ l.looseness → x?.bind k.operator? = none
  selector : x? ≠ some (.symbol .dot) ∧ x? ≠ some (.symbol .openBracket) ∧
    x? ≠ some (.symbol .openParen)
  filter : x? ≠ some (.symbol .pipe)

theorem ends_none (l : Level) : Ends l none :=
  ⟨fun _ _ => rfl, by simp, by simp⟩

theorem ends_of_closes {x : Lexeme} (h : x.closes = true) (l : Level) : Ends l (some x) where
  operator k _ := by
    change k.operator? x = none
    unfold Level.operator?
    split <;> first | cases h | rfl
  selector := by
    refine ⟨?_, ?_, ?_⟩ <;> rintro ⟨⟩ <;> cases h
  filter := by
    rintro ⟨⟩
    cases h

theorem ends_binaryOp {op : BinaryOp} {l : Level} (h : l.looseness < op.level.looseness) :
    Ends l (some op.lexeme) where
  operator k hk := by
    refine BinaryOp.operator?_lexeme_of_ne ?_
    rintro rfl
    omega
  selector := by cases op <;> decide
  filter := by cases op <;> decide

variable {checks : Bool}

theorem exactly_self (x : Lexeme) : exactly x x = some () := if_pos rfl

theorem exactly_of_ne {x? : Option Lexeme} {x : Lexeme} (h : x? ≠ some x) :
    x?.bind (exactly x) = none := by
  cases x? with
  | none => rfl
  | some y => exact if_neg fun hxy => h (congrArg some hxy)

/-- Wherever the cursor supplies some lexemes, a level reads them as an expression. -/
def Reads (checks : Bool) (l : Level) (xs : List Lexeme) (t : Cursor) (e : Expr) : Prop :=
  ∀ s : Cursor, s.Supplies xs t → (level checks l s).Gives e t.looked

/-- Some lexemes are read as an operand to which the selectors after it apply. -/
def ReadsOperand (checks : Bool) (xs : List Lexeme) (t : Cursor) (e : Expr) : Prop :=
  ∀ (s u : Cursor) (b : Expr), s.Supplies xs t → (selectors checks e t).Gives b u →
    ∃ a v, (primary checks s).Gives a v ∧ (selectors checks a v).Gives b u

theorem gives_selectors {e : Expr} {t : Cursor} {x? : Option Lexeme} (ht : t.Shows x?)
    (h : x? ≠ some (.symbol .dot) ∧ x? ≠ some (.symbol .openBracket) ∧
      x? ≠ some (.symbol .openParen)) : (selectors checks e t).Gives e t.looked := by
  obtain ⟨hdot, hbracket, hparen⟩ := h
  rw [selectors]
  refine Cursor.gives_choose_no ht (exactly_of_ne hdot) fun _ => ?_
  refine Cursor.gives_choose_no ht.looked (exactly_of_ne hbracket) fun _ => ?_
  refine Cursor.gives_choose_no ht.looked.looked ?_ fun _ => ?_
  · cases x? with
    | none => rfl
    | some x => exact if_neg fun hx => hparen (congrArg some hx)
  · rw [Cursor.looked_looked, Cursor.looked_looked]
    exact Reading.gives_done _ _

theorem gives_filters (checks : Bool) (e : Expr) {t : Cursor} {x? : Option Lexeme}
    (ht : t.Shows x?) (h : x? ≠ some (.symbol .pipe)) : (filters checks e t).Gives e t.looked := by
  rw [filters]
  exact Cursor.gives_choose_no ht (exactly_of_ne h) fun _ => Reading.gives_done _ _

theorem gives_operators (checks : Bool) (e : Expr) {l : Level} {t : Cursor} {x? : Option Lexeme}
    (ht : t.Shows x?) (h : x?.bind l.operator? = none) :
    (operators checks l e t).Gives e t.looked := by
  rw [operators]
  exact Cursor.gives_choose_no ht h fun _ => Reading.gives_done _ _

/-- Some lexemes are read by a level as the first operand of the operators after them. -/
def ReadsLeft (checks : Bool) (l : Level) (xs : List Lexeme) (t : Cursor) (e : Expr) : Prop :=
  ∀ (s u : Cursor) (b : Expr), s.Supplies xs t → (operators checks l e t.looked).Gives b u →
    (level checks l s).Gives b u

/-- A first operand is a whole expression if no operator comes after it. -/
theorem ReadsLeft.reads {l : Level} {xs : List Lexeme} {t : Cursor} {e : Expr}
    {x? : Option Lexeme} (h : ReadsLeft checks l xs t e) (ht : t.Shows x?)
    (hop : x?.bind l.operator? = none) : Reads checks l xs t e := by
  intro s hs
  have hops := gives_operators checks e ht.looked hop
  rw [Cursor.looked_looked] at hops
  exact h s t.looked e hs hops

/-- What the next tighter level reads is a first operand. -/
theorem Reads.left {l : Level} {x : Lexeme} {xs : List Lexeme} {t : Cursor} {e : Expr}
    (h : Reads checks l.tighter (x :: xs) t e) (hl : l ≠ .sign) (hx : l.sign? x = none) :
    ReadsLeft checks l (x :: xs) t e := by
  intro s u b hs hops
  rw [level]
  refine Cursor.gives_choose_no hs.shows hx fun _ => ?_
  rw [dif_neg hl]
  exact Reading.gives_andThen (h _ hs.looked) fun _ => hops

/-- What a level reads, a looser one reads if no operator of a level in between stands around it. -/
theorem Reads.climb {k l : Level} {x : Lexeme} {xs : List Lexeme} {t : Cursor} {e : Expr}
    {x? : Option Lexeme} (h : Reads checks k (x :: xs) t e) (hkl : k.looseness ≤ l.looseness)
    (hx : ∀ m : Level, k.looseness < m.looseness → m.sign? x = none) (ht : t.Shows x?)
    (hop : ∀ m : Level, k.looseness < m.looseness → m.looseness ≤ l.looseness →
      x?.bind m.operator? = none) : Reads checks l (x :: xs) t e := by
  induction hn : l.looseness using Nat.strongRecOn generalizing l with
  | ind n ih =>
    by_cases hlt : k.looseness < l.looseness
    · have hl : l ≠ .sign := by
        rintro rfl
        exact absurd hlt (Nat.not_lt_zero _)
      have htighter := Level.looseness_tighter_lt hl
      have hle : k.looseness ≤ l.tighter.looseness := by
        cases l <;> simp only [Level.tighter, Level.looseness] at hlt ⊢ <;> omega
      have htight := ih l.tighter.looseness (by omega) hle
        (fun m hm hm' => hop m hm (by omega)) rfl
      exact (htight.left hl (hx l hlt)).reads ht (hop l hlt (Nat.le_refl _))
    · have hkl' : k = l := by
        cases k <;> cases l <;> simp [Level.looseness] at hkl hlt ⊢
      exact hkl' ▸ h

end Expr

end Polyglot
