import Polyglot.Proofs.CallDepth

/-!
Induction over the readers. A contract says of each reader what its readings have to be like. If it
is kept by readers that refuse everything, and by readers that call others as long as those keep it,
then the readers of expressions and templates keep it: they give what is given by calls nested to
some depth, with nothing but refusals below.
-/
namespace Polyglot

namespace Expr

/-- What the readings of each reader have to be like, given what the reader was called with. -/
structure Contract where
  level : Level → (s : Cursor) → Reading s Expr → Prop
  operators : Level → Expr → (s : Cursor) → Reading s Expr → Prop
  filters : Expr → (s : Cursor) → Reading s Expr → Prop
  selectors : Expr → (s : Cursor) → Reading s Expr → Prop
  primary : (s : Cursor) → Reading s Expr → Prop
  arguments : Symbol → (s : Cursor) → Reading s (List Expr) → Prop
  items : (s : Cursor) → Reading s (List Expr) → Prop
  pairs : (s : Cursor) → Reading s (List (Expr × Expr)) → Prop
  entries : (s : Cursor) → Reading s (List (Expr × Expr)) → Prop

namespace Readers

structure Keep (r : Readers) (c : Contract) : Prop where
  level : ∀ l s, c.level l s (r.level l s)
  operators : ∀ l e s, c.operators l e s (r.operators l e s)
  filters : ∀ e s, c.filters e s (r.filters e s)
  selectors : ∀ e s, c.selectors e s (r.selectors e s)
  primary : ∀ s, c.primary s (r.primary s)
  arguments : ∀ close s, c.arguments close s (r.arguments close s)
  items : ∀ s, c.items s (r.items s)
  pairs : ∀ s, c.pairs s (r.pairs s)
  entries : ∀ s, c.entries s (r.entries s)

/-- Readers that take nothing and fail. -/
def refusing : Readers where
  level _ s := .refuse s .endOfTemplate s.here
  operators _ _ s := .refuse s .endOfTemplate s.here
  filters _ s := .refuse s .endOfTemplate s.here
  selectors _ s := .refuse s .endOfTemplate s.here
  primary s := .refuse s .endOfTemplate s.here
  arguments _ s := .refuse s .endOfTemplate s.here
  items s := .refuse s .endOfTemplate s.here
  pairs s := .refuse s .endOfTemplate s.here
  entries s := .refuse s .endOfTemplate s.here

end Readers

variable {checks : Bool} {c : Contract}

theorem Readers.Keep.nested {r : Readers} (h : r.Keep c)
    (hcalling : ∀ r : Readers, r.Keep c → (r.calling checks).Keep c) (n : Nat) :
    (r.nested checks n).Keep c := by
  induction n with
  | zero => exact h
  | succ n ih => exact hcalling _ ih

/-- Each reading is made by nested calls of some depth, where the contract is kept. -/
theorem keep_readers (hrefusing : Readers.refusing.Keep c)
    (hcalling : ∀ r : Readers, r.Keep c → (r.calling checks).Keep c) :
    (readers checks).Keep c := by
  have hkeep := hrefusing.nested hcalling
  have hagree := fun n => Readers.refusing.agreeBelow_nested checks n
  refine ⟨?level, ?operators, ?filters, ?selectors, ?primary, ?arguments, ?items, ?pairs,
    ?entries⟩
  case level =>
    intro l s
    rw [← (hagree (16 * s.size + l.looseness + 2)).level l s (by omega)]
    exact (hkeep _).level l s
  case operators =>
    intro l e s
    rw [← (hagree (16 * s.size + 1)).operators l e s (by omega)]
    exact (hkeep _).operators l e s
  case filters =>
    intro e s
    rw [← (hagree (16 * s.size + 1)).filters e s (by omega)]
    exact (hkeep _).filters e s
  case selectors =>
    intro e s
    rw [← (hagree (16 * s.size + 1)).selectors e s (by omega)]
    exact (hkeep _).selectors e s
  case primary =>
    intro s
    rw [← (hagree (16 * s.size + 1)).primary s (by omega)]
    exact (hkeep _).primary s
  case arguments =>
    intro close s
    rw [← (hagree (16 * s.size + 11)).arguments close s (by omega)]
    exact (hkeep _).arguments close s
  case items =>
    intro s
    rw [← (hagree (16 * s.size + 10)).items s (by omega)]
    exact (hkeep _).items s
  case pairs =>
    intro s
    rw [← (hagree (16 * s.size + 11)).pairs s (by omega)]
    exact (hkeep _).pairs s
  case entries =>
    intro s
    rw [← (hagree (16 * s.size + 10)).entries s (by omega)]
    exact (hkeep _).entries s

end Expr

namespace Node

/-- What the readings of each reader have to be like, given what the reader was called with. -/
structure Contract where
  nodes : Stop → (s : Cursor) → Reading s (List Node) → Prop
  tag : String → Nat → (s : Cursor) → Reading s Node → Prop
  loopTag : (s : Cursor) → Reading s Node → Prop
  branchTag : (s : Cursor) → Reading s Node → Prop
  guarded : (s : Cursor) → Reading s (Expr × List Node) → Prop
  furtherCases : (s : Cursor) → Reading s (List (Expr × List Node) × Option (List Node)) → Prop
  ruledTag : TagRule → String → Nat → (s : Cursor) → Reading s Node → Prop
  parts : (s : Cursor) → Reading s Parts → Prop
  counted : (s : Cursor) → Reading s (Option (Counted Node)) → Prop

namespace Readers

structure Keep (r : Readers) (c : Contract) : Prop where
  nodes : ∀ stop s, c.nodes stop s (r.nodes stop s)
  tag : ∀ name line s, c.tag name line s (r.tag name line s)
  loopTag : ∀ s, c.loopTag s (r.loopTag s)
  branchTag : ∀ s, c.branchTag s (r.branchTag s)
  guarded : ∀ s, c.guarded s (r.guarded s)
  furtherCases : ∀ s, c.furtherCases s (r.furtherCases s)
  ruledTag : ∀ rule name line s, c.ruledTag rule name line s (r.ruledTag rule name line s)
  parts : ∀ s, c.parts s (r.parts s)
  counted : ∀ s, c.counted s (r.counted s)

/-- Readers that take nothing and fail. -/
def refusing : Readers where
  nodes _ s := .refuse s .endOfTemplate s.here
  tag _ _ s := .refuse s .endOfTemplate s.here
  loopTag s := .refuse s .endOfTemplate s.here
  branchTag s := .refuse s .endOfTemplate s.here
  guarded s := .refuse s .endOfTemplate s.here
  furtherCases s := .refuse s .endOfTemplate s.here
  ruledTag _ _ _ s := .refuse s .endOfTemplate s.here
  parts s := .refuse s .endOfTemplate s.here
  counted s := .refuse s .endOfTemplate s.here

end Readers

variable {env : Environment} {c : Contract}

theorem Readers.Keep.nested {r : Readers} (h : r.Keep c)
    (hcalling : ∀ r : Readers, r.Keep c → (r.calling env).Keep c) (n : Nat) :
    (r.nested env n).Keep c := by
  induction n with
  | zero => exact h
  | succ n ih => exact hcalling _ ih

/-- Each reading is made by nested calls of some depth, where the contract is kept. -/
theorem keep_readers (hrefusing : Readers.refusing.Keep c)
    (hcalling : ∀ r : Readers, r.Keep c → (r.calling env).Keep c) : (readers env).Keep c := by
  have hkeep := hrefusing.nested hcalling
  have hagree := fun n => Readers.refusing.agreeBelow_nested env n
  refine ⟨?nodes, ?tag, ?loopTag, ?branchTag, ?guarded, ?furtherCases, ?ruledTag, ?parts, ?counted⟩
  case nodes =>
    intro stop s
    rw [← (hagree (16 * s.size + 1)).nodes stop s (by omega)]
    exact (hkeep _).nodes stop s
  case tag =>
    intro name line s
    rw [← (hagree (16 * s.size + 6)).tag name line s (by omega)]
    exact (hkeep _).tag name line s
  case loopTag =>
    intro s
    rw [← (hagree (16 * s.size + 5)).loopTag s (by omega)]
    exact (hkeep _).loopTag s
  case branchTag =>
    intro s
    rw [← (hagree (16 * s.size + 5)).branchTag s (by omega)]
    exact (hkeep _).branchTag s
  case guarded =>
    intro s
    rw [← (hagree (16 * s.size + 4)).guarded s (by omega)]
    exact (hkeep _).guarded s
  case furtherCases =>
    intro s
    rw [← (hagree (16 * s.size + 3)).furtherCases s (by omega)]
    exact (hkeep _).furtherCases s
  case ruledTag =>
    intro rule name line s
    rw [← (hagree (16 * s.size + 5)).ruledTag rule name line s (by omega)]
    exact (hkeep _).ruledTag rule name line s
  case parts =>
    intro s
    rw [← (hagree (16 * s.size + 4)).parts s (by omega)]
    exact (hkeep _).parts s
  case counted =>
    intro s
    rw [← (hagree (16 * s.size + 3)).counted s (by omega)]
    exact (hkeep _).counted s

end Node

end Polyglot
