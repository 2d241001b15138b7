import Polyglot.Proofs.DefinedValues
import Polyglot.Proofs.PhraseVariables
import Polyglot.Rendering

/-!
What a phrase means. Its messages, its domain, the size of its count and a text for every variable
are defined apart from the call that the phrase stands for; the evaluation of that call, argument
by argument, succeeds exactly if all of them are defined, asks the translator one thing, and fills
the texts into the answer.
-/
namespace Polyglot

namespace Message

/-- The message of a list of nodes: every print is a placeholder, and the margins are dropped. -/
def text? (nodes : List Node) : Option String :=
  (pieces? nodes).map fun ps => trim (String.join (ps.map (·.shown)))

theorem text?_of_ofNodes {nodes : List Node} {line : Nat} {x : Extracted}
    (h : ofNodes nodes line = .ok x) : ∃ s, text? nodes = some s ∧ x.message = .literal s := by
  obtain ⟨ps, hps, rfl⟩ := eq_ofPieces h
  exact ⟨_, by rw [text?, hps]; rfl, rfl⟩

end Message

namespace Phrase

/-- Whether a variable is first printed without a filter. -/
def isRaw (p : Phrase Node) (n : String) : Bool :=
  (p.occurrences.find? (·.name == n)).any (·.raw)

end Phrase

namespace Evaluator

variable (m : Evaluator) (scopes : Scopes) (p : Phrase Node)

/-- The size of a count, if it is an integer as well. -/
def size? (count : Expr) : Option Nat :=
  (m.number? scopes count).bind fun c =>
    if c.value.natAbs < 9223372036854775808 then some c.value.natAbs else none

/-- The message for one: what the expression of a tag prints, or the message of the nodes. -/
def singular? : Option String :=
  match p.body with
  | .inline e => m.text? scopes e
  | .block nodes => Message.text? nodes

/-- The text that replaces the placeholder of a variable. The name `count` stands for the size of
the count if there is one; all other names for what they are bound to, escaped unless raw. -/
def filler? (n : String) : Option String :=
  if p.count?.isSome ∧ n = "count" then
    (p.count?.bind (m.number? scopes)).map fun c => Decimal.natText c.value.natAbs
  else
    (scopes.lookup n).printed?.map fun s => if p.isRaw n then s else Html.escape s

/-- All placeholders of the messages with the texts that replace them. -/
def fillers : Entries String :=
  Entries.ofList (p.names.filterMap fun n =>
    (m.filler? scopes p n).map fun s => ("%" ++ n ++ "%", s))

/-- What the translator is asked for. -/
def request? : Option Request :=
  match p.plural? with
  | none => do
    let one ← m.singular? scopes p
    let domain ← m.text? scopes p.domain
    return .single one domain
  | some plural => do
    let one ← m.singular? scopes p
    let other ← Message.text? plural
    let domain ← m.text? scopes p.domain
    let n ← p.count?.bind (m.size? scopes)
    return .plural one other domain n

/-- Everything that a phrase needs has a value. The size of the count is needed for a plural body
and for a placeholder of the name `count`. -/
structure Meaningful : Prop where
  singular : (m.singular? scopes p).isSome
  domain : (m.text? scopes p.domain).isSome
  fillers : ∀ n ∈ p.names, (m.filler? scopes p n).isSome
  size : p.plural?.isSome ∨ "count" ∈ p.names →
    ∀ count ∈ p.count?, (m.size? scopes count).isSome

variable {m scopes p}

/-! The values of the expressions that a call is made of. -/

theorem toOption_escape (v : Value) :
    (Builtin.escape.apply v).toOption = v.printed?.map fun s => .text (Html.escape s) := by
  rw [← toOption_printed]
  unfold Builtin.apply
  cases v.printed <;> rfl

theorem size?_eq_some {count : Expr} {n : Nat} :
    m.size? scopes count = some n ↔
      ∃ c, m.number? scopes count = some c ∧ c.value.natAbs = n ∧ n < 9223372036854775808 := by
  rw [size?, Option.bind_eq_some_iff]
  refine exists_congr fun c => and_congr_right fun _ => ?_
  by_cases hlt : c.value.natAbs < 9223372036854775808
  · rw [if_pos hlt, Option.some.injEq]
    constructor
    · rintro rfl
      exact ⟨rfl, hlt⟩
    · exact And.left
  · rw [if_neg hlt]
    simp only [reduceCtorEq, false_iff]
    rintro ⟨rfl, h⟩
    exact hlt h

/-- The absolute value of a count is its size. -/
theorem value?_absolute (hnames : m.env.options.NamesApart) {count : Expr} {w : Value} :
    m.value? scopes (Phrase.absolute count) = some w ↔
      ∃ j : Integer, w = .int j ∧ 0 ≤ j.value ∧
        m.size? scopes count = some j.value.natAbs := by
  have hvalue : m.value? scopes (Phrase.absolute count) =
      (m.number? scopes count).bind fun c => (c.abs?).map .int := by
    rw [Phrase.absolute, value?_builtin hnames.callee_abs, number?, Option.bind_assoc]
    simp only [toOption_abs]
  rw [hvalue, Option.bind_eq_some_iff]
  constructor
  · rintro ⟨c, hc, hw⟩
    obtain ⟨j, hj, rfl⟩ := Option.map_eq_some_iff.1 hw
    rw [Integer.abs?, Integer.ofInt?_eq_some_iff] at hj
    have hfits := j.fits
    exact ⟨j, rfl, by omega, size?_eq_some.2 ⟨c, hc, by omega, by omega⟩⟩
  · rintro ⟨j, rfl, hpos, hsize⟩
    obtain ⟨c, hc, habs, _⟩ := size?_eq_some.1 hsize
    refine ⟨c, hc, Option.map_eq_some_iff.2 ⟨j, ?_, rfl⟩⟩
    rw [Integer.abs?, Integer.ofInt?_eq_some_iff]
    omega

theorem exists_absolute (hnames : m.env.options.NamesApart) {count : Expr} {n : Nat}
    (h : m.size? scopes count = some n) :
    ∃ j : Integer, m.value? scopes (Phrase.absolute count) = some (.int j) ∧
      j.value.natAbs = n := by
  obtain ⟨_, _, _, hn⟩ := size?_eq_some.1 h
  let j : Integer := ⟨n, by omega⟩
  have hj : j.value.natAbs = n := Int.natAbs_natCast n
  refine ⟨j, (value?_absolute hnames).2 ⟨j, rfl, Int.natCast_nonneg n, ?_⟩, hj⟩
  rw [hj, h]

theorem text?_absolute (hnames : m.env.options.NamesApart) (count : Expr) :
    m.text? scopes (Phrase.absolute count) = (m.size? scopes count).map Decimal.natText := by
  have htext : ∀ j : Integer, 0 ≤ j.value → j.text = Decimal.natText j.value.natAbs := by
    intro j hpos
    rw [Integer.text, Decimal.text, if_neg (by omega)]
  apply Option.ext
  intro s
  rw [text?_eq_some, Option.map_eq_some_iff]
  constructor
  · rintro ⟨w, hw, hs⟩
    obtain ⟨j, rfl, hpos, hsize⟩ := (value?_absolute hnames).1 hw
    refine ⟨j.value.natAbs, hsize, ?_⟩
    rw [← htext j hpos]
    exact Option.some.inj hs
  · rintro ⟨n, hsize, rfl⟩
    obtain ⟨j, hj, rfl⟩ := exists_absolute hnames hsize
    refine ⟨.int j, hj, ?_⟩
    obtain ⟨i, hi, hpos, _⟩ := (value?_absolute hnames).1 hj
    cases hi
    rw [← htext j hpos]
    rfl

theorem text?_escape (hnames : m.env.options.NamesApart) (n : String) :
    m.text? scopes ((Targets.ofOptions m.env.options).escape (.name n)) =
      (scopes.lookup n).printed?.map Html.escape := by
  rw [text?, Targets.ofOptions, value?_builtin hnames.callee_escape]
  simp only [value?_name, Option.bind_some, toOption_escape]
  cases (scopes.lookup n).printed? <;> rfl

/-- The value of a placeholder in the call prints as the filler of its variable, where the size of
the count has to be defined. -/
theorem text?_value (hnames : m.env.options.NamesApart) {v : Variable} (hv : v ∈ p.vars) :
    m.text? scopes (Phrase.value p.count? (.ofOptions m.env.options) v) =
      if p.count?.isSome ∧ v.name = "count" then
        (p.count?.bind (m.size? scopes)).map Decimal.natText
      else m.filler? scopes p v.name := by
  have hraw : p.isRaw v.name = v.raw := by
    rw [Phrase.isRaw, Phrase.find?_of_mem_vars hv]
    rfl
  have hname : m.text? scopes (if v.raw then .name v.name
      else (Targets.ofOptions m.env.options).escape (.name v.name)) =
      (scopes.lookup v.name).printed?.map fun s => if v.raw then s else Html.escape s := by
    cases v.raw with
    | false => exact text?_escape hnames v.name
    | true =>
      change (scopes.lookup v.name).printed? = _
      simp
  rw [filler?, hraw]
  cases hcount : p.count? with
  | none => simpa [Phrase.value] using hname
  | some count =>
    by_cases hn : v.name = "count"
    · simpa [Phrase.value, hn] using text?_absolute hnames count
    · simpa [Phrase.value, hn] using hname

theorem filler?_of_text?_value (hnames : m.env.options.NamesApart) {v : Variable}
    (hv : v ∈ p.vars) {s : String}
    (h : m.text? scopes (Phrase.value p.count? (.ofOptions m.env.options) v) = some s) :
    m.filler? scopes p v.name = some s := by
  rw [text?_value hnames hv] at h
  by_cases hcount : p.count?.isSome ∧ v.name = "count"
  · rw [if_pos hcount] at h
    obtain ⟨n, hn, rfl⟩ := Option.map_eq_some_iff.1 h
    obtain ⟨count, hsome, hsize⟩ := Option.bind_eq_some_iff.1 hn
    obtain ⟨c, hc, rfl, _⟩ := size?_eq_some.1 hsize
    rw [filler?, if_pos hcount, hsome, Option.bind_some, hc, Option.map_some]
  · rwa [if_neg hcount] at h

/-- The value of a placeholder has a printed form if its variable has a filler, and the count a
size if it is taken from the count. -/
theorem isSome_text?_value (hnames : m.env.options.NamesApart) {v : Variable}
    (hv : v ∈ p.vars) :
    (m.text? scopes (Phrase.value p.count? (.ofOptions m.env.options) v)).isSome ↔
      (m.filler? scopes p v.name).isSome ∧
        (v.name = "count" → ∀ count ∈ p.count?, (m.size? scopes count).isSome) := by
  constructor
  · intro h
    obtain ⟨s, hs⟩ := Option.isSome_iff_exists.1 h
    refine ⟨by rw [filler?_of_text?_value hnames hv hs]; rfl, fun hname count hcount => ?_⟩
    rw [text?_value hnames hv, hcount, if_pos ⟨rfl, hname⟩] at h
    simpa using h
  · rintro ⟨hfiller, hsize⟩
    rw [text?_value hnames hv]
    by_cases hcount : p.count?.isSome ∧ v.name = "count"
    · obtain ⟨count, hsome⟩ := Option.isSome_iff_exists.1 hcount.1
      rw [if_pos hcount, hsome]
      simpa using hsize hcount.2 count hsome
    · rwa [if_neg hcount]

end Evaluator

end Polyglot
