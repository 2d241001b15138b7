import Polyglot.Proofs.NestedReaders

/-!
How deep the calls of the readers are nested. Readers that are themselves only to some depth, and
anything below it, give the same as the readers where that depth is not reached. Every call is on
less to read, or on as much by a reader that comes later in an order without cycles; so a depth that
grows with what is left to read is enough, and whatever stands below it is never asked.
-/
namespace Polyglot

variable {α β : Type} {s : Cursor}

theorem Reading.andThen_congr {r : Reading s α}
    {next next' : (a : α) → (t : Cursor) → t.size ≤ s.size → Reading t β}
    (h : ∀ a t ht, next a t ht = next' a t ht) : r.andThen next = r.andThen next' := by
  congr 1
  funext a t ht
  exact h a t ht

theorem Cursor.take_congr {k k' : (token : Token) → (t : Cursor) → t.size < s.size → Reading t β}
    (h : ∀ token t ht, k token t ht = k' token t ht) : s.take k = s.take k' := by
  congr 1
  funext token t ht
  exact h token t ht

theorem Cursor.takeName_congr {k k' : (n : String) → (t : Cursor) → t.size < s.size → Reading t β}
    (h : ∀ n t ht, k n t ht = k' n t ht) : s.takeName k = s.takeName k' := by
  congr 1
  funext n t ht
  exact h n t ht

theorem Cursor.choose_congr {wanted : Lexeme → Option α}
    {yes yes' : (a : α) → (t : Cursor) → t.size < s.size → Reading t β}
    {no no' : (t : Cursor) → t.size ≤ s.size → Reading t β}
    (hyes : ∀ a t ht, yes a t ht = yes' a t ht) (hno : ∀ t ht, no t ht = no' t ht) :
    s.choose wanted yes no = s.choose wanted yes' no' := by
  congr 1
  · funext a t ht
    exact hyes a t ht
  · funext t ht
    exact hno t ht

namespace Expr

/-- The readers agree where so little is left to read that fewer than `n` calls can be nested. -/
structure Readers.AgreeBelow (n : Nat) (r r' : Readers) : Prop where
  level : ∀ l (s : Cursor), 16 * s.size + l.looseness + 1 < n → r.level l s = r'.level l s
  operators : ∀ l e (s : Cursor), 16 * s.size < n → r.operators l e s = r'.operators l e s
  filters : ∀ e (s : Cursor), 16 * s.size < n → r.filters e s = r'.filters e s
  selectors : ∀ e (s : Cursor), 16 * s.size < n → r.selectors e s = r'.selectors e s
  primary : ∀ s : Cursor, 16 * s.size < n → r.primary s = r'.primary s
  arguments : ∀ close (s : Cursor), 16 * s.size + 10 < n →
    r.arguments close s = r'.arguments close s
  items : ∀ s : Cursor, 16 * s.size + 9 < n → r.items s = r'.items s
  pairs : ∀ s : Cursor, 16 * s.size + 10 < n → r.pairs s = r'.pairs s
  entries : ∀ s : Cursor, 16 * s.size + 9 < n → r.entries s = r'.entries s

/-- The readers themselves down to `n` nested calls, and `r` below. -/
def Readers.nested (checks : Bool) (n : Nat) (r : Readers) : Readers :=
  Nat.repeat (·.calling checks) n r

variable {checks : Bool} {n : Nat} {r : Readers}

namespace Readers.AgreeBelow

/-! One call more is answered by the readers themselves. Each of them calls readers that are below
the bound, and the rest of a loop is read after a token was taken. -/

theorem calling_level (h : r.AgreeBelow n (readers checks)) (l : Level) (s : Cursor)
    (hs : 16 * s.size + l.looseness + 1 < n + 1) :
    (r.calling checks).level l s = (readers checks).level l s := by
  rw [← calling_readers checks]
  dsimp only [Readers.calling]
  refine Cursor.choose_congr (fun op t ht => ?_) fun t ht => ?_
  · rw [h.level l t (by omega)]
  · split
    · rw [h.primary t (by omega)]
      refine Reading.andThen_congr fun e u hu => ?_
      rw [h.selectors e u (by omega)]
      refine Reading.andThen_congr fun e v hv => ?_
      exact h.filters e v (by omega)
    · next hl =>
      -- nothing was taken, so it is the tighter level that needs fewer calls
      have := Level.looseness_tighter_lt hl
      rw [h.level l.tighter t (by omega)]
      refine Reading.andThen_congr fun e u hu => ?_
      exact h.operators l e u (by omega)

theorem calling_operators (h : r.AgreeBelow n (readers checks)) (l : Level) (e : Expr) (s : Cursor)
    (hs : 16 * s.size < n + 1) :
    (r.calling checks).operators l e s = (readers checks).operators l e s := by
  rw [← calling_readers checks, Readers.calling_operators, Readers.calling_operators]
  refine Cursor.choose_congr (fun op t ht => ?_) fun t ht => rfl
  have := l.tighter.looseness_le
  rw [h.level l.tighter t (by omega)]
  refine Reading.andThen_congr fun x u hu => ?_
  exact h.operators l _ u (by omega)

theorem calling_filters (h : r.AgreeBelow n (readers checks)) (e : Expr) (s : Cursor)
    (hs : 16 * s.size < n + 1) :
    (r.calling checks).filters e s = (readers checks).filters e s := by
  rw [← calling_readers checks, Readers.calling_filters, Readers.calling_filters]
  refine Cursor.choose_congr (fun _ t ht => ?_) fun t ht => rfl
  refine Reading.andThen_congr fun n u hu => ?_
  refine Cursor.choose_congr (fun _ v hv => ?_) fun v hv => h.filters _ v (by omega)
  rw [h.arguments _ v (by omega)]
  refine Reading.andThen_congr fun args w hw => ?_
  exact h.filters _ w (by omega)

theorem calling_selectors (h : r.AgreeBelow n (readers checks)) (e : Expr) (s : Cursor)
    (hs : 16 * s.size < n + 1) :
    (r.calling checks).selectors e s = (readers checks).selectors e s := by
  rw [← calling_readers checks, Readers.calling_selectors, Readers.calling_selectors]
  refine Cursor.choose_congr (fun _ t ht => ?_) fun t ht => ?_
  · refine Reading.andThen_congr fun key u hu => ?_
    exact h.selectors _ u (by omega)
  refine Cursor.choose_congr (fun _ u hu => ?_) fun u hu => ?_
  · have := Level.looseness_le .or
    rw [h.level .or u (by omega)]
    refine Reading.andThen_congr fun i v hv => ?_
    refine Reading.andThen_congr fun _ w hw => ?_
    exact h.selectors _ w (by omega)
  refine Cursor.choose_congr (fun n v hv => ?_) fun v hv => rfl
  rw [h.arguments _ v (by omega)]
  refine Reading.andThen_congr fun args w hw => ?_
  exact h.selectors _ w (by omega)

theorem calling_primary (h : r.AgreeBelow n (readers checks)) (s : Cursor)
    (hs : 16 * s.size < n + 1) :
    (r.calling checks).primary s = (readers checks).primary s := by
  rw [← calling_readers checks]
  dsimp only [Readers.calling]
  refine Cursor.take_congr fun token t ht => ?_
  have := Level.looseness_le .or
  split
  · rfl
  · rfl
  · rfl
  · rw [h.level .or t (by omega)]
  · rw [h.arguments _ t (by omega)]
  · rw [h.pairs t (by omega)]
  · rfl

theorem calling_arguments (h : r.AgreeBelow n (readers checks)) (close : Symbol) (s : Cursor)
    (hs : 16 * s.size + 10 < n + 1) :
    (r.calling checks).arguments close s = (readers checks).arguments close s := by
  rw [← calling_readers checks]
  dsimp only [Readers.calling]
  refine Cursor.choose_congr (fun _ t ht => rfl) fun t ht => ?_
  rw [h.items t (by omega)]

theorem calling_items (h : r.AgreeBelow n (readers checks)) (s : Cursor)
    (hs : 16 * s.size + 9 < n + 1) :
    (r.calling checks).items s = (readers checks).items s := by
  have := Level.looseness_le .or
  rw [← calling_readers checks, Readers.calling_items, Readers.calling_items,
    h.level .or s (by omega)]
  refine Reading.andThen_congr fun e t ht => ?_
  refine Cursor.choose_congr (fun _ u hu => ?_) fun u hu => rfl
  rw [h.items u (by omega)]

theorem calling_pairs (h : r.AgreeBelow n (readers checks)) (s : Cursor)
    (hs : 16 * s.size + 10 < n + 1) :
    (r.calling checks).pairs s = (readers checks).pairs s := by
  rw [← calling_readers checks]
  dsimp only [Readers.calling]
  refine Cursor.choose_congr (fun _ t ht => rfl) fun t ht => ?_
  rw [h.entries t (by omega)]

theorem calling_entries (h : r.AgreeBelow n (readers checks)) (s : Cursor)
    (hs : 16 * s.size + 9 < n + 1) :
    (r.calling checks).entries s = (readers checks).entries s := by
  have := Level.looseness_le .or
  rw [← calling_readers checks, Readers.calling_entries, Readers.calling_entries,
    h.level .or s (by omega)]
  refine Reading.andThen_congr fun key t ht => ?_
  refine Reading.andThen_congr fun _ u hu => ?_
  rw [h.level .or u (by omega)]
  refine Reading.andThen_congr fun e v hv => ?_
  refine Cursor.choose_congr (fun _ w hw => ?_) fun w hw => rfl
  rw [h.entries w (by omega)]

theorem calling (h : r.AgreeBelow n (readers checks)) :
    (r.calling checks).AgreeBelow (n + 1) (readers checks) where
  level := h.calling_level
  operators := h.calling_operators
  filters := h.calling_filters
  selectors := h.calling_selectors
  primary := h.calling_primary
  arguments := h.calling_arguments
  items := h.calling_items
  pairs := h.calling_pairs
  entries := h.calling_entries

end Readers.AgreeBelow

theorem Readers.agreeBelow_nested (checks : Bool) (n : Nat) (r : Readers) :
    (r.nested checks n).AgreeBelow n (readers checks) := by
  induction n with
  | zero => constructor <;> intros <;> omega
  | succ n ih => exact ih.calling

/-- An expression is read by no more than so many nested calls. -/
theorem nested_level (checks : Bool) (r : Readers) (s : Cursor) :
    (r.nested checks (16 * s.size + 9)).level .or s = read checks s := by
  refine (r.agreeBelow_nested checks (16 * s.size + 9)).level .or s ?_
  have := Level.looseness_le .or
  omega

end Expr

namespace Node

/-- The readers agree where so little is left to read that fewer than `n` calls can be nested. -/
structure Readers.AgreeBelow (n : Nat) (r r' : Readers) : Prop where
  nodes : ∀ stop (s : Cursor), 16 * s.size < n → r.nodes stop s = r'.nodes stop s
  tag : ∀ name line (s : Cursor), 16 * s.size + 5 < n → r.tag name line s = r'.tag name line s
  loopTag : ∀ s : Cursor, 16 * s.size + 4 < n → r.loopTag s = r'.loopTag s
  branchTag : ∀ s : Cursor, 16 * s.size + 4 < n → r.branchTag s = r'.branchTag s
  guarded : ∀ s : Cursor, 16 * s.size + 3 < n → r.guarded s = r'.guarded s
  furtherCases : ∀ s : Cursor, 16 * s.size + 2 < n → r.furtherCases s = r'.furtherCases s
  ruledTag : ∀ rule name line (s : Cursor), 16 * s.size + 4 < n →
    r.ruledTag rule name line s = r'.ruledTag rule name line s
  parts : ∀ s : Cursor, 16 * s.size + 3 < n → r.parts s = r'.parts s
  counted : ∀ s : Cursor, 16 * s.size + 2 < n → r.counted s = r'.counted s

/-- The readers themselves down to `n` nested calls, and `r` below. -/
def Readers.nested (env : Environment) (n : Nat) (r : Readers) : Readers :=
  Nat.repeat (·.calling env) n r

variable {env : Environment} {n : Nat} {r : Readers}

namespace Readers.AgreeBelow

theorem calling_nodes (h : r.AgreeBelow n (readers env)) (stop : Stop) (s : Cursor)
    (hs : 16 * s.size < n + 1) :
    (r.calling env).nodes stop s = (readers env).nodes stop s := by
  rw [← calling_readers env, Readers.calling_nodes, Readers.calling_nodes]
  refine Reading.andThen_congr fun token? t ht => ?_
  split
  · rfl
  · refine Cursor.take_congr fun token u hu => ?_
    rw [h.nodes stop u (by omega)]
  · refine Cursor.take_congr fun token u hu => ?_
    refine Reading.andThen_congr fun e v hv => ?_
    refine Reading.andThen_congr fun _ w hw => ?_
    rw [h.nodes stop w (by omega)]
  · refine Cursor.take_congr fun token u hu => ?_
    refine Reading.andThen_congr fun name v hv => ?_
    split
    · rfl
    · refine Cursor.take_congr fun _ w hw => ?_
      rw [h.tag name _ w (by omega)]
      refine Reading.andThen_congr fun n x hx => ?_
      rw [h.nodes stop x (by omega)]
  · rfl

theorem calling_tag (h : r.AgreeBelow n (readers env)) (name : String) (line : Nat) (s : Cursor)
    (hs : 16 * s.size + 5 < n + 1) :
    (r.calling env).tag name line s = (readers env).tag name line s := by
  rw [← calling_readers env]
  dsimp only [Readers.calling]
  rw [h.loopTag s (by omega), h.branchTag s (by omega)]
  split
  · rfl
  split
  · rfl
  split
  · exact h.ruledTag _ name line s (by omega)
  · rfl

theorem calling_loopTag (h : r.AgreeBelow n (readers env)) (s : Cursor)
    (hs : 16 * s.size + 4 < n + 1) :
    (r.calling env).loopTag s = (readers env).loopTag s := by
  rw [← calling_readers env]
  dsimp only [Readers.calling]
  refine Reading.andThen_congr fun target t ht => ?_
  refine Reading.andThen_congr fun _ u hu => ?_
  refine Reading.andThen_congr fun e v hv => ?_
  refine Reading.andThen_congr fun _ w hw => ?_
  rw [h.nodes _ w (by omega)]

theorem calling_branchTag (h : r.AgreeBelow n (readers env)) (s : Cursor)
    (hs : 16 * s.size + 4 < n + 1) :
    (r.calling env).branchTag s = (readers env).branchTag s := by
  rw [← calling_readers env]
  dsimp only [Readers.calling]
  rw [h.guarded s (by omega)]
  refine Reading.andThen_congr fun first t ht => ?_
  rw [h.furtherCases t (by omega)]

theorem calling_guarded (h : r.AgreeBelow n (readers env)) (s : Cursor)
    (hs : 16 * s.size + 3 < n + 1) :
    (r.calling env).guarded s = (readers env).guarded s := by
  rw [← calling_readers env]
  dsimp only [Readers.calling]
  refine Reading.andThen_congr fun e t ht => ?_
  refine Reading.andThen_congr fun _ u hu => ?_
  rw [h.nodes _ u (by omega)]

theorem calling_furtherCases (h : r.AgreeBelow n (readers env)) (s : Cursor)
    (hs : 16 * s.size + 2 < n + 1) :
    (r.calling env).furtherCases s = (readers env).furtherCases s := by
  rw [← calling_readers env, Readers.calling_furtherCases, Readers.calling_furtherCases]
  refine Cursor.takeName_congr fun name t ht => ?_
  split
  · rw [h.guarded t (by omega)]
    refine Reading.andThen_congr fun c u hu => ?_
    rw [h.furtherCases u (by omega)]
  split
  · refine Reading.andThen_congr fun _ u hu => ?_
    rw [h.nodes _ u (by omega)]
  · rfl

theorem calling_ruledTag (h : r.AgreeBelow n (readers env)) (rule : TagRule) (name : String)
    (line : Nat) (s : Cursor) (hs : 16 * s.size + 4 < n + 1) :
    (r.calling env).ruledTag rule name line s = (readers env).ruledTag rule name line s := by
  rw [← calling_readers env]
  dsimp only [Readers.calling]
  cases rule with
  | phrase =>
    refine Reading.andThen_congr fun _ t ht => ?_
    refine Reading.andThen_congr fun domain u hu => ?_
    rw [h.parts u (by omega)]
  | print => rfl
  | raw => rfl
  | wrap =>
    refine Reading.andThen_congr fun _ t ht => ?_
    rw [h.nodes _ t (by omega)]

theorem calling_parts (h : r.AgreeBelow n (readers env)) (s : Cursor)
    (hs : 16 * s.size + 3 < n + 1) :
    (r.calling env).parts s = (readers env).parts s := by
  rw [← calling_readers env]
  dsimp only [Readers.calling]
  refine Reading.andThen_congr fun isBlock t ht => ?_
  split
  · refine Reading.andThen_congr fun _ u hu => ?_
    rw [h.nodes _ u (by omega)]
    refine Reading.andThen_congr fun body v hv => ?_
    rw [h.counted v (by omega)]
  · rfl

theorem calling_counted (h : r.AgreeBelow n (readers env)) (s : Cursor)
    (hs : 16 * s.size + 2 < n + 1) :
    (r.calling env).counted s = (readers env).counted s := by
  rw [← calling_readers env]
  dsimp only [Readers.calling]
  refine Cursor.choose_congr (fun _ t ht => ?_) fun t ht => rfl
  refine Reading.andThen_congr fun count u hu => ?_
  refine Reading.andThen_congr fun _ v hv => ?_
  rw [h.nodes _ v (by omega)]

theorem calling (h : r.AgreeBelow n (readers env)) :
    (r.calling env).AgreeBelow (n + 1) (readers env) where
  nodes := h.calling_nodes
  tag := h.calling_tag
  loopTag := h.calling_loopTag
  branchTag := h.calling_branchTag
  guarded := h.calling_guarded
  furtherCases := h.calling_furtherCases
  ruledTag := h.calling_ruledTag
  parts := h.calling_parts
  counted := h.calling_counted

end Readers.AgreeBelow

theorem Readers.agreeBelow_nested (env : Environment) (n : Nat) (r : Readers) :
    (r.nested env n).AgreeBelow n (readers env) := by
  induction n with
  | zero => constructor <;> intros <;> omega
  | succ n ih => exact ih.calling

/-- Nodes are read by no more than so many nested calls. -/
theorem nested_nodes (env : Environment) (r : Readers) (stop : Stop) (s : Cursor) :
    (r.nested env (16 * s.size + 1)).nodes stop s = nodes env stop s :=
  (r.agreeBelow_nested env (16 * s.size + 1)).nodes stop s (Nat.lt_succ_self _)

end Node

end Polyglot
