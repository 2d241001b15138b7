import Polyglot.Proofs.LoweredRendering
import Polyglot.Proofs.PhraseMeaning

/-!
Rendering a phrase by its meaning. The arguments of the call are evaluated from left to right, so
the call succeeds if and only if all of them have values of the right kinds; then the translator is
asked once, and the answer is filled in with the replacements that the last argument gives.
-/
namespace Polyglot

namespace Evaluator

variable {m : Evaluator} {scopes : Scopes} {p : Phrase Node}

/-! The replacements that the last argument of the call gives. -/

/-- The replacements that a list of last arguments gives. -/
def given? (m : Evaluator) (scopes : Scopes) (last : List Expr) : Option (Entries String) :=
  (m.evalItems scopes last).value?.bind fun ws => (replacements ws[0]?).toOption

section Given

variable {targets : Targets} {count : Option Expr} {vs : List Variable}

/-- The value of a variable in a call, or null if it has none. -/
def valueIn (m : Evaluator) (scopes : Scopes) (count : Option Expr) (targets : Targets)
    (v : Variable) : Value :=
  (m.value? scopes (Phrase.value count targets v)).getD .null

theorem given?_eq_some (hne : vs ≠ []) {rs : Entries String} :
    m.given? scopes (Phrase.replacements count targets vs) = some rs ↔
      (∀ v ∈ vs, (m.value? scopes (Phrase.value count targets v)).isSome) ∧
        printedEntries (Entries.ofList
          (vs.map fun v => (v.placeholder, m.valueIn scopes count targets v))) = .ok rs := by
  have hempty : vs.isEmpty = false := by simpa using hne
  have hmap : m.given? scopes (Phrase.replacements count targets vs) =
      (m.evalEntries scopes
        (vs.map fun v => (.text v.placeholder, Phrase.value count targets v))).value?.bind
          fun es => (printedEntries (Entries.ofList es)).toOption := by
    rw [given?, Phrase.replacements, if_neg (by simp [hempty]), value?_evalItems_cons, value?_map,
      value?_evalItems_nil]
    simp only [Option.map_some, Option.bind_assoc, Option.bind_map]
    rfl
  have hok : ∀ es, (printedEntries es).toOption = some rs ↔ printedEntries es = .ok rs := by
    intro es
    cases printedEntries es <;> simp [Except.toOption]
  rw [hmap, Option.bind_eq_some_iff]
  constructor
  · rintro ⟨es, hes, hrs⟩
    obtain ⟨hall, rfl⟩ := (value?_evalEntries m scopes vs _ _ es).1 hes
    exact ⟨hall, (hok _).1 hrs⟩
  · rintro ⟨hall, hrs⟩
    exact ⟨_, (value?_evalEntries m scopes vs _ _ _).2 ⟨hall, rfl⟩, (hok _).2 hrs⟩

theorem text?_eq_some_of_isSome {e : Expr} (h : (m.value? scopes e).isSome) :
    m.text? scopes e = ((m.value? scopes e).getD .null).printed? := by
  obtain ⟨w, hw⟩ := Option.isSome_iff_exists.1 h
  rw [text?, hw]
  rfl

/-- The entries of a call do not clash, because its variables have different names. -/
theorem valueIn_of_placeholder (hvs : (vs.map (·.name)).Nodup) :
    ∀ x ∈ vs.map fun v => (v.placeholder, m.valueIn scopes count targets v),
      ∀ y ∈ vs.map fun v => (v.placeholder, m.valueIn scopes count targets v),
        x.1 = y.1 → x.2 = y.2 := by
  intro x hx y hy hkey
  obtain ⟨v, hv, rfl⟩ := List.mem_map.1 hx
  obtain ⟨w, hw, rfl⟩ := List.mem_map.1 hy
  have hfind := Variable.find?_of_mem hvs hv
  rw [Variable.placeholder_injective hkey, Variable.find?_of_mem hvs hw] at hfind
  rw [Option.some.inj hfind]

/-- A call has replacements if the value of every variable has a printed form. -/
theorem isSome_given? (hvs : (vs.map (·.name)).Nodup) :
    (m.given? scopes (Phrase.replacements count targets vs)).isSome ↔
      ∀ v ∈ vs, (m.text? scopes (Phrase.value count targets v)).isSome := by
  by_cases hne : vs = []
  · rw [hne]
    exact ⟨fun _ v hv => absurd hv List.not_mem_nil, fun _ => rfl⟩
  rw [Option.isSome_iff_exists]
  simp only [given?_eq_some hne, exists_and_left,
    exists_printedEntries_ofList (valueIn_of_placeholder hvs), List.forall_mem_map]
  constructor
  · rintro ⟨hall, hprinted⟩ v hv
    rw [text?_eq_some_of_isSome (hall v hv)]
    exact hprinted v hv
  · intro htext
    have hall : ∀ v ∈ vs, (m.value? scopes (Phrase.value count targets v)).isSome :=
      fun v hv => Option.isSome_of_isSome_bind (htext v hv)
    refine ⟨hall, fun v hv => ?_⟩
    have hv' := htext v hv
    rw [text?_eq_some_of_isSome (hall v hv)] at hv'
    exact hv'

/-- The replacement of a variable is what its value prints as. -/
theorem get?_of_given? (hvs : (vs.map (·.name)).Nodup) {rs : Entries String}
    (h : m.given? scopes (Phrase.replacements count targets vs) = some rs) (key s : String) :
    rs.get? key = some s ↔
      ∃ v ∈ vs, v.placeholder = key ∧ m.text? scopes (Phrase.value count targets v) = some s := by
  by_cases hne : vs = []
  · rw [hne] at h ⊢
    cases h
    simp [Entries.get?]
  obtain ⟨hall, hrs⟩ := (given?_eq_some hne).1 h
  rw [get?_printedEntries_ofList (valueIn_of_placeholder hvs) hrs]
  constructor
  · rintro ⟨x, hx, hkey, hs⟩
    obtain ⟨v, hv, rfl⟩ := List.mem_map.1 hx
    exact ⟨v, hv, hkey, (text?_eq_some_of_isSome (hall v hv)).trans hs⟩
  · rintro ⟨v, hv, hkey, hs⟩
    refine ⟨_, List.mem_map.2 ⟨v, hv, rfl⟩, hkey, ?_⟩
    exact (text?_eq_some_of_isSome (hall v hv)).symm.trans hs

end Given

/-! The call itself. -/

theorem value?_answer (request : Request) (last : Option Value) :
    (m.answer request last).value? =
      (replacements last).toOption.map fun rs =>
        .text (Placeholder.fill rs (m.translator request)) := by
  rw [answer, Run.value?_bind, Option.map_eq_bind]
  simp only [Run.value?_bind, Run.value?_ofFailure]
  rfl

/-- An answer is asked for once, whether its placeholders can be filled in or not. -/
theorem requests_answer (request : Request) (last : Option Value) :
    (m.answer request last).requests = [request] := by
  rw [answer]
  cases replacements last <;> rfl

theorem printed_of_printed? {v : Value} {s : String} (h : v.printed? = some s) :
    printed v = pure s := by
  rw [printed, Value.printed, h]
  rfl

theorem translate_of_printed? {a b : Value} {s domain : String} (ha : a.printed? = some s)
    (hb : b.printed? = some domain) (ws : List Value) :
    m.translate (a :: b :: ws) = m.answer (.single s domain) ws[0]? := by
  have hfirst : printed (argument (a :: b :: ws) 0) = pure s := printed_of_printed? ha
  have hsecond : printed (argument (a :: b :: ws) 1) = pure domain := printed_of_printed? hb
  rw [translate, hfirst, hsecond, pure_bind, pure_bind]
  rfl

theorem translatePlural_of_printed? {a b d c : Value} {s t domain : String} {i : Integer}
    (ha : a.printed? = some s) (hb : b.printed? = some t) (hd : d.printed? = some domain)
    (hc : c.number = .ok i) (ws : List Value) :
    m.translatePlural (.list [a, b] :: d :: c :: ws) =
      m.answer (.plural s t domain i.value.natAbs) ws[0]? := by
  have hdomain : printed (argument (.list [a, b] :: d :: c :: ws) 1) = pure domain :=
    printed_of_printed? hd
  have hcount : Run.ofFailure (argument (.list [a, b] :: d :: c :: ws) 2).number = pure i := by
    change Run.ofFailure c.number = _
    rw [hc]
    rfl
  rw [translatePlural]
  simp only [List.head?_cons, printed_of_printed? ha, printed_of_printed? hb, hdomain, hcount,
    pure_bind]
  rfl

theorem value?_printed (v : Value) : (printed v).value? = v.printed? := by
  rw [printed, Run.value?_ofFailure, toOption_printed]

/-- A translation succeeds if its two texts are printable and there are replacements. -/
theorem value?_translate {a b w : Value} {ws : List Value} :
    (m.translate (a :: b :: ws)).value? = some w ↔
      ∃ s domain, a.printed? = some s ∧ b.printed? = some domain ∧
        (m.answer (.single s domain) ws[0]?).value? = some w := by
  rw [translate]
  simp only [Run.value?_bind, Option.bind_eq_some_iff, value?_printed]
  constructor
  · rintro ⟨s, hs, domain, hdomain, h⟩
    exact ⟨s, domain, hs, hdomain, h⟩
  · rintro ⟨s, domain, hs, hdomain, h⟩
    exact ⟨s, hs, domain, hdomain, h⟩

theorem value?_translatePlural {a b d c w : Value} {ws : List Value} :
    (m.translatePlural (.list [a, b] :: d :: c :: ws)).value? = some w ↔
      ∃ s t domain i, a.printed? = some s ∧ b.printed? = some t ∧ d.printed? = some domain ∧
        c.number = .ok i ∧
        (m.answer (.plural s t domain i.value.natAbs) ws[0]?).value? = some w := by
  have hnumber : ∀ i, c.number.toOption = some i ↔ c.number = .ok i := by
    intro i
    cases c.number <;> simp [Except.toOption]
  rw [translatePlural]
  simp only [List.head?_cons, Run.value?_bind, Option.bind_eq_some_iff, value?_printed,
    Run.value?_ofFailure]
  constructor
  · rintro ⟨s, hs, t, ht, domain, hdomain, i, hi, h⟩
    exact ⟨s, t, domain, i, hs, ht, hdomain, (hnumber i).1 hi, h⟩
  · rintro ⟨s, t, domain, i, hs, ht, hdomain, hi, h⟩
    exact ⟨s, hs, t, ht, domain, hdomain, i, (hnumber i).2 hi, h⟩

theorem text?_answer {request : Request} {last : Option Value} {out : String} :
    (m.answer request last).value?.bind (·.printed?) = some out ↔
      ∃ rs, (replacements last).toOption = some rs ∧
        out = Placeholder.fill rs (m.translator request) := by
  rw [value?_answer]
  cases (replacements last).toOption with
  | none => simp
  | some rs => simp [Value.printed?, Scalar.printed, eq_comm]

theorem text?_call {n : String} {args : List Expr} {out : String} :
    m.text? scopes (.call n args) = some out ↔
      ∃ vs, (m.evalItems scopes args).value? = some vs ∧
        (m.callFunction n vs).value?.bind (·.printed?) = some out := by
  rw [text?, value?_call, Option.bind_assoc, Option.bind_eq_some_iff]

/-- The values of the arguments of a call for a single text. -/
theorem value?_singleArgs {x d : Expr} {last : List Expr} {vs : List Value} :
    (m.evalItems scopes ([x, d] ++ last)).value? = some vs ↔
      ∃ a b ws, m.value? scopes x = some a ∧ m.value? scopes d = some b ∧
        (m.evalItems scopes last).value? = some ws ∧ vs = a :: b :: ws := by
  simp only [List.cons_append, List.nil_append, value?_evalItems_cons_eq_some]
  constructor
  · rintro ⟨a, _, ha, ⟨b, ws, hb, hws, rfl⟩, rfl⟩
    exact ⟨a, b, ws, ha, hb, hws, rfl⟩
  · rintro ⟨a, b, ws, ha, hb, hws, rfl⟩
    exact ⟨a, _, ha, ⟨b, ws, hb, hws, rfl⟩, rfl⟩

theorem value?_forms {x y : Expr} {v : Value} :
    m.value? scopes (.list [x, y]) = some v ↔
      ∃ a b, m.value? scopes x = some a ∧ m.value? scopes y = some b ∧ v = .list [a, b] := by
  simp only [value?_list, Option.map_eq_some_iff, value?_evalItems_cons_eq_some,
    value?_evalItems_nil, Option.some.injEq]
  constructor
  · rintro ⟨_, ⟨a, _, ha, ⟨b, _, hb, rfl, rfl⟩, rfl⟩, rfl⟩
    exact ⟨a, b, ha, hb, rfl⟩
  · rintro ⟨a, b, ha, hb, rfl⟩
    exact ⟨_, ⟨a, _, ha, ⟨b, _, hb, rfl, rfl⟩, rfl⟩, rfl⟩

/-- The values of the arguments of a call for one of two texts. -/
theorem value?_pluralArgs {x y d c : Expr} {last : List Expr} {vs : List Value} :
    (m.evalItems scopes ([.list [x, y], d, c] ++ last)).value? = some vs ↔
      ∃ a b v w ws, m.value? scopes x = some a ∧ m.value? scopes y = some b ∧
        m.value? scopes d = some v ∧ m.value? scopes c = some w ∧
        (m.evalItems scopes last).value? = some ws ∧ vs = .list [a, b] :: v :: w :: ws := by
  simp only [List.cons_append, List.nil_append, value?_evalItems_cons_eq_some, value?_forms]
  constructor
  · rintro ⟨_, _, ⟨a, b, ha, hb, rfl⟩, ⟨v, _, hv, ⟨w, ws, hw, hws, rfl⟩, rfl⟩, rfl⟩
    exact ⟨a, b, v, w, ws, ha, hb, hv, hw, hws, rfl⟩
  · rintro ⟨a, b, v, w, ws, ha, hb, hv, hw, hws, rfl⟩
    exact ⟨_, _, ⟨a, b, ha, hb, rfl⟩, ⟨v, _, hv, ⟨w, ws, hw, hws, rfl⟩, rfl⟩, rfl⟩

theorem text?_of_value? {e : Expr} {v : Value} {s : String} (hv : m.value? scopes e = some v)
    (hs : v.printed? = some s) : m.text? scopes e = some s :=
  (text?_eq_some m scopes).2 ⟨v, hv, hs⟩

/-- A call for a single text that has a value is an answer. -/
theorem callFunction_single {x d : Expr} {last : List Expr} {vs : List Value} {w : Value}
    (hvs : (m.evalItems scopes ([x, d] ++ last)).value? = some vs)
    (hw : (m.callFunction m.env.options.translateFunction vs).value? = some w) :
    ∃ s domain ws, m.text? scopes x = some s ∧ m.text? scopes d = some domain ∧
      (m.evalItems scopes last).value? = some ws ∧
      m.callFunction m.env.options.translateFunction vs = m.answer (.single s domain) ws[0]? := by
  obtain ⟨a, b, ws, ha, hb, hws, rfl⟩ := value?_singleArgs.1 hvs
  rw [callFunction_translate m.env.options.callee_translate] at hw ⊢
  obtain ⟨s, domain, hs, hdomain, _⟩ := value?_translate.1 hw
  refine ⟨s, domain, ws, text?_of_value? ha hs, text?_of_value? hb hdomain, hws, ?_⟩
  exact translate_of_printed? hs hdomain ws

/-- A call for one of two texts that has a value is an answer for the size of the count. -/
theorem callFunction_plural (hnames : m.env.options.NamesApart) {x y d count : Expr}
    {last : List Expr} {vs : List Value} {w : Value}
    (hvs : (m.evalItems scopes
      ([.list [x, y], d, Phrase.absolute count] ++ last)).value? = some vs)
    (hw : (m.callFunction m.env.options.translatePluralFunction vs).value? = some w) :
    ∃ s t domain n ws, m.text? scopes x = some s ∧ m.text? scopes y = some t ∧
      m.text? scopes d = some domain ∧ m.size? scopes count = some n ∧
      (m.evalItems scopes last).value? = some ws ∧
      m.callFunction m.env.options.translatePluralFunction vs =
        m.answer (.plural s t domain n) ws[0]? := by
  obtain ⟨a, b, v, c, ws, ha, hb, hv, hc, hws, rfl⟩ := value?_pluralArgs.1 hvs
  obtain ⟨j, rfl, _, hsize⟩ := (value?_absolute hnames).1 hc
  rw [callFunction_translatePlural hnames.callee_translatePlural] at hw ⊢
  obtain ⟨s, t, domain, i, hs, ht, hdomain, hi, _⟩ := value?_translatePlural.1 hw
  cases hi
  refine ⟨s, t, domain, _, ws, text?_of_value? ha hs, text?_of_value? hb ht,
    text?_of_value? hv hdomain, hsize, hws, ?_⟩
  exact translatePlural_of_printed? hs ht hdomain rfl ws

/-- A call for a single text prints as the answer with its placeholders filled in. -/
theorem text?_single {x d : Expr} {last : List Expr} {out : String} :
    m.text? scopes (.call m.env.options.translateFunction ([x, d] ++ last)) = some out ↔
      ∃ s domain rs, m.text? scopes x = some s ∧ m.text? scopes d = some domain ∧
        m.given? scopes last = some rs ∧
        out = Placeholder.fill rs (m.translator (.single s domain)) := by
  rw [text?_call]
  constructor
  · rintro ⟨vs, hvs, hout⟩
    obtain ⟨w, hw, _⟩ := Option.bind_eq_some_iff.1 hout
    obtain ⟨s, domain, ws, hx, hd, hws, hanswer⟩ := callFunction_single hvs hw
    rw [hanswer] at hout
    obtain ⟨rs, hrs, hfill⟩ := text?_answer.1 hout
    exact ⟨s, domain, rs, hx, hd, by rw [given?, hws, Option.bind_some, hrs], hfill⟩
  · rintro ⟨s, domain, rs, hx, hd, hgiven, hfill⟩
    obtain ⟨a, ha, hs⟩ := (text?_eq_some m scopes).1 hx
    obtain ⟨b, hb, hdomain⟩ := (text?_eq_some m scopes).1 hd
    obtain ⟨ws, hws, hrs⟩ := Option.bind_eq_some_iff.1 hgiven
    refine ⟨_, value?_singleArgs.2 ⟨a, b, ws, ha, hb, hws, rfl⟩, ?_⟩
    rw [callFunction_translate m.env.options.callee_translate, translate_of_printed? hs hdomain]
    exact text?_answer.2 ⟨rs, hrs, hfill⟩

/-- A call for one of two texts asks with the size of the count. -/
theorem text?_plural (hnames : m.env.options.NamesApart) {x y d count : Expr} {last : List Expr}
    {out : String} :
    m.text? scopes (.call m.env.options.translatePluralFunction
        ([.list [x, y], d, Phrase.absolute count] ++ last)) = some out ↔
      ∃ s t domain n rs, m.text? scopes x = some s ∧ m.text? scopes y = some t ∧
        m.text? scopes d = some domain ∧ m.size? scopes count = some n ∧
        m.given? scopes last = some rs ∧
        out = Placeholder.fill rs (m.translator (.plural s t domain n)) := by
  rw [text?_call]
  constructor
  · rintro ⟨vs, hvs, hout⟩
    obtain ⟨w, hw, _⟩ := Option.bind_eq_some_iff.1 hout
    obtain ⟨s, t, domain, n, ws, hx, hy, hd, hsize, hws, hanswer⟩ :=
      callFunction_plural hnames hvs hw
    rw [hanswer] at hout
    obtain ⟨rs, hrs, hfill⟩ := text?_answer.1 hout
    exact ⟨s, t, domain, n, rs, hx, hy, hd, hsize, by rw [given?, hws, Option.bind_some, hrs],
      hfill⟩
  · rintro ⟨s, t, domain, n, rs, hx, hy, hd, hsize, hgiven, hfill⟩
    obtain ⟨a, ha, hs⟩ := (text?_eq_some m scopes).1 hx
    obtain ⟨b, hb, ht⟩ := (text?_eq_some m scopes).1 hy
    obtain ⟨v, hv, hdomain⟩ := (text?_eq_some m scopes).1 hd
    obtain ⟨ws, hws, hrs⟩ := Option.bind_eq_some_iff.1 hgiven
    obtain ⟨j, hj, hn⟩ := exists_absolute hnames hsize
    refine ⟨_, value?_pluralArgs.2 ⟨a, b, v, .int j, ws, ha, hb, hv, hj, hws, rfl⟩, ?_⟩
    rw [callFunction_translatePlural hnames.callee_translatePlural,
      translatePlural_of_printed? hs ht hdomain rfl, hn]
    exact text?_answer.2 ⟨rs, hrs, hfill⟩

/-! The phrase. -/

theorem text?_message {x : Extracted} (h : Message.ofBody p.body p.line = .ok x) :
    m.text? scopes x.message.toExpr = m.singular? scopes p := by
  rw [singular?]
  cases hbody : p.body with
  | inline e =>
    rw [hbody, Message.ofBody] at h
    by_cases he : e.isAtomic = true
    · rw [if_pos he] at h
      cases h
      rfl
    · rw [if_neg he] at h
      cases h
  | block nodes =>
    rw [hbody, Message.ofBody] at h
    obtain ⟨s, hs, hmessage⟩ := Message.text?_of_ofNodes h
    rw [hmessage]
    exact hs.symm

theorem request?_of_single (hplural : p.plural? = none) {request : Request} :
    m.request? scopes p = some request ↔
      ∃ s domain, m.singular? scopes p = some s ∧ m.text? scopes p.domain = some domain ∧
        request = .single s domain := by
  rw [request?, hplural]
  simp only [bind, Option.bind_eq_some_iff]
  constructor
  · rintro ⟨s, hs, domain, hdomain, h⟩
    exact ⟨s, domain, hs, hdomain, (Option.some.inj h).symm⟩
  · rintro ⟨s, domain, hs, hdomain, rfl⟩
    exact ⟨s, hs, domain, hdomain, rfl⟩

theorem request?_of_plural {count : Expr} {plural : List Node} (hcount : p.count? = some count)
    (hplural : p.plural? = some plural) {request : Request} :
    m.request? scopes p = some request ↔
      ∃ s t domain n, m.singular? scopes p = some s ∧ Message.text? plural = some t ∧
        m.text? scopes p.domain = some domain ∧ m.size? scopes count = some n ∧
        request = .plural s t domain n := by
  rw [request?, hplural, hcount]
  simp only [bind, Option.bind_eq_some_iff, Option.some.injEq, exists_eq_left']
  constructor
  · rintro ⟨s, hs, t, ht, domain, hdomain, n, hn, h⟩
    exact ⟨s, t, domain, n, hs, ht, hdomain, hn, (Option.some.inj h).symm⟩
  · rintro ⟨s, t, domain, n, hs, ht, hdomain, hn, rfl⟩
    exact ⟨s, hs, t, ht, domain, hdomain, n, hn, rfl⟩

/-- The replacements that a phrase gives in its call. -/
def givenFor? (m : Evaluator) (scopes : Scopes) (p : Phrase Node) : Option (Entries String) :=
  m.given? scopes (Phrase.replacements p.count? (.ofOptions m.env.options) p.vars)

/-- What the call of a phrase prints as. -/
theorem text?_phrase (hnames : m.env.options.NamesApart) {call : Expr}
    (hcall : p.call (.ofOptions m.env.options) = .ok call) {out : String} :
    m.text? scopes call = some out ↔
      ∃ request rs, m.request? scopes p = some request ∧ m.givenFor? scopes p = some rs ∧
        out = Placeholder.fill rs (m.translator request) := by
  obtain ⟨x, hx, hcases⟩ := Phrase.call_eq hcall
  rcases hcases with ⟨count, plural, y, hcount, hplural, hy, rfl⟩ | ⟨hplural, rfl⟩
  · obtain ⟨t, ht, hmessage⟩ := Message.text?_of_ofNodes hy
    have hother : m.text? scopes y.message.toExpr = Message.text? plural := by
      rw [hmessage, ht]
      rfl
    change m.text? scopes (.call m.env.options.translatePluralFunction _) = _ ↔ _
    rw [text?_plural hnames, text?_message hx, hother]
    simp only [request?_of_plural hcount hplural]
    constructor
    · rintro ⟨s, t, domain, n, rs, hs, ht, hdomain, hn, hrs, hout⟩
      exact ⟨_, rs, ⟨s, t, domain, n, hs, ht, hdomain, hn, rfl⟩, hrs, hout⟩
    · rintro ⟨_, rs, ⟨s, t, domain, n, hs, ht, hdomain, hn, rfl⟩, hrs, hout⟩
      exact ⟨s, t, domain, n, rs, hs, ht, hdomain, hn, hrs, hout⟩
  · change m.text? scopes (.call m.env.options.translateFunction _) = _ ↔ _
    rw [text?_single, text?_message hx]
    simp only [request?_of_single hplural]
    constructor
    · rintro ⟨s, domain, rs, hs, hdomain, hrs, hout⟩
      exact ⟨_, rs, ⟨s, domain, hs, hdomain, rfl⟩, hrs, hout⟩
    · rintro ⟨_, rs, ⟨s, domain, hs, hdomain, rfl⟩, hrs, hout⟩
      exact ⟨s, domain, rs, hs, hdomain, hrs, hout⟩

theorem isSome_givenFor? (hnames : m.env.options.NamesApart) :
    (m.givenFor? scopes p).isSome ↔
      (∀ n ∈ p.names, (m.filler? scopes p n).isSome) ∧
        ("count" ∈ p.names → ∀ count ∈ p.count?, (m.size? scopes count).isSome) := by
  rw [givenFor?, isSome_given? Phrase.nodup_names_vars]
  have hnamed : ∀ n ∈ p.names, ∃ v ∈ p.vars, v.name = n := fun n hn =>
    List.mem_map.1 (Phrase.mem_names_vars.2 hn)
  constructor
  · intro h
    have hvars := fun v hv => (isSome_text?_value hnames hv).1 (h v hv)
    constructor
    · intro n hn
      obtain ⟨v, hv, rfl⟩ := hnamed n hn
      exact (hvars v hv).1
    · intro hn
      obtain ⟨v, hv, hname⟩ := hnamed "count" hn
      exact (hvars v hv).2 hname
  · rintro ⟨hfiller, hsize⟩ v hv
    have hn := Phrase.name_mem_of_mem_vars hv
    exact (isSome_text?_value hnames hv).2 ⟨hfiller _ hn, fun hname => hsize (hname ▸ hn)⟩

theorem get?_fillers (key s : String) :
    (m.fillers scopes p).get? key = some s ↔
      ∃ n ∈ p.names, "%" ++ n ++ "%" = key ∧ m.filler? scopes p n = some s := by
  have hmem : ∀ x, x ∈ p.names.filterMap (fun n =>
      (m.filler? scopes p n).map fun s => ("%" ++ n ++ "%", s)) ↔
      ∃ n ∈ p.names, "%" ++ n ++ "%" = x.1 ∧ m.filler? scopes p n = some x.2 := by
    rintro ⟨key, s⟩
    simp only [List.mem_filterMap, Option.map_eq_some_iff, Prod.mk.injEq]
    constructor
    · rintro ⟨n, hn, t, ht, hkey, rfl⟩
      exact ⟨n, hn, hkey, ht⟩
    · rintro ⟨n, hn, hkey, hs⟩
      exact ⟨n, hn, s, hs, hkey, rfl⟩
  rw [fillers, Entries.get?_ofList, hmem]
  intro x hx y hy hkey
  obtain ⟨n, _, hxkey, hxs⟩ := (hmem x).1 hx
  obtain ⟨k, _, hykey, hys⟩ := (hmem y).1 hy
  have hname : n = k :=
    Variable.placeholder_injective (v := ⟨n, true⟩) (w := ⟨k, true⟩)
      (hxkey.trans (hkey.trans hykey.symm))
  rw [hname, hys] at hxs
  exact (Option.some.inj hxs).symm

/-- The replacements of a call are the fillers of the phrase. -/
theorem get?_givenFor? (hnames : m.env.options.NamesApart) {rs : Entries String}
    (h : m.givenFor? scopes p = some rs) (key : String) :
    rs.get? key = (m.fillers scopes p).get? key := by
  apply Option.ext
  intro s
  rw [get?_fillers, get?_of_given? Phrase.nodup_names_vars h]
  constructor
  · rintro ⟨v, hv, hkey, hs⟩
    exact ⟨v.name, Phrase.name_mem_of_mem_vars hv, hkey, filler?_of_text?_value hnames hv hs⟩
  · rintro ⟨n, hn, hkey, hs⟩
    obtain ⟨v, hv, rfl⟩ := List.mem_map.1 (Phrase.mem_names_vars.2 hn)
    have hall := (isSome_given? Phrase.nodup_names_vars).1 (Option.isSome_of_eq_some h)
    obtain ⟨t, ht⟩ := Option.isSome_iff_exists.1 (hall v hv)
    have hfiller := filler?_of_text?_value hnames hv ht
    rw [hs] at hfiller
    exact ⟨v, hv, hkey, hfiller ▸ ht⟩

/-- Everything that a phrase needs has a value if it can ask and has replacements. -/
theorem meaningful_iff (hnames : m.env.options.NamesApart) {call : Expr}
    (hcall : p.call (.ofOptions m.env.options) = .ok call) :
    m.Meaningful scopes p ↔
      (m.request? scopes p).isSome ∧ (m.givenFor? scopes p).isSome := by
  obtain ⟨x, hx, hcases⟩ := Phrase.call_eq hcall
  rw [isSome_givenFor? hnames, Option.isSome_iff_exists]
  rcases hcases with ⟨count, plural, y, hcount, hplural, hy, rfl⟩ | ⟨hplural, rfl⟩
  · obtain ⟨t, ht, _⟩ := Message.text?_of_ofNodes hy
    simp only [request?_of_plural hcount hplural]
    constructor
    · intro h
      obtain ⟨s, hs⟩ := Option.isSome_iff_exists.1 h.singular
      obtain ⟨domain, hdomain⟩ := Option.isSome_iff_exists.1 h.domain
      obtain ⟨n, hn⟩ := Option.isSome_iff_exists.1
        (h.size (.inl (Option.isSome_of_eq_some hplural)) count hcount)
      exact ⟨⟨_, s, t, domain, n, hs, ht, hdomain, hn, rfl⟩, h.fillers, fun h' => h.size (.inr h')⟩
    · rintro ⟨⟨_, s, _, domain, n, hs, _, hdomain, hn, rfl⟩, hfillers, _⟩
      refine ⟨Option.isSome_of_eq_some hs, Option.isSome_of_eq_some hdomain, hfillers, ?_⟩
      intro _ count' hcount'
      obtain rfl : count = count' := Option.some.inj (hcount.symm.trans hcount')
      exact Option.isSome_of_eq_some hn
  · simp only [request?_of_single hplural]
    constructor
    · intro h
      obtain ⟨s, hs⟩ := Option.isSome_iff_exists.1 h.singular
      obtain ⟨domain, hdomain⟩ := Option.isSome_iff_exists.1 h.domain
      exact ⟨⟨_, s, domain, hs, hdomain, rfl⟩, h.fillers, fun h' => h.size (.inr h')⟩
    · rintro ⟨⟨_, s, domain, hs, hdomain, rfl⟩, hfillers, hsize⟩
      refine ⟨Option.isSome_of_eq_some hs, Option.isSome_of_eq_some hdomain, hfillers, ?_⟩
      rintro (hsome | hcount)
      · simp [hplural] at hsome
      · exact hsize hcount

/-! Rendering. -/

theorem renderNode_of_call {call : Expr} (hcall : p.call (.ofOptions m.env.options) = .ok call) :
    (m.renderNode (.phrase p) scopes).1 = m.evalPrinted scopes call := by
  rw [m.renderNode_phrase hcall]
  rfl

/-- A rendered phrase is the answer to its request with its placeholders filled in. -/
theorem result_renderNode_phrase (hnames : m.env.options.NamesApart) {call : Expr}
    (hcall : p.call (.ofOptions m.env.options) = .ok call) {out : String} :
    (m.renderNode (.phrase p) scopes).1.result = .ok out ↔
      m.Meaningful scopes p ∧ ∃ request, m.request? scopes p = some request ∧
        out = Placeholder.fill (m.fillers scopes p) (m.translator request) := by
  rw [renderNode_of_call hcall, ← Run.value?_eq_some, value?_evalPrinted,
    text?_phrase hnames hcall, meaningful_iff hnames hcall]
  constructor
  · rintro ⟨request, rs, hrequest, hrs, rfl⟩
    refine ⟨⟨Option.isSome_of_eq_some hrequest, Option.isSome_of_eq_some hrs⟩, request, hrequest,
      ?_⟩
    exact Placeholder.fill_congr (get?_givenFor? hnames hrs) _
  · rintro ⟨⟨_, hgiven⟩, request, hrequest, rfl⟩
    obtain ⟨rs, hrs⟩ := Option.isSome_iff_exists.1 hgiven
    refine ⟨request, rs, hrequest, hrs, ?_⟩
    exact (Placeholder.fill_congr (get?_givenFor? hnames hrs) _).symm

theorem requests_evalPrinted (e : Expr) :
    (m.evalPrinted scopes e).requests = (m.eval scopes e).requests := by
  rw [evalPrinted]
  cases h : (m.eval scopes e).result with
  | error err => rw [Run.bind_of_error h]
  | ok v => rw [Run.bind_of_ok h, printed, Run.isSilent_ofFailure, List.append_nil]

/-- The requests of a call whose arguments ask for nothing. -/
theorem requests_call {n : String} {args : List Expr} {vs : List Value}
    (hsilent : (m.evalItems scopes args).IsSilent)
    (hvs : (m.evalItems scopes args).value? = some vs) :
    (m.eval scopes (.call n args)).requests = (m.callFunction n vs).requests := by
  rw [eval, Run.eq_pure_of_isSilent hsilent hvs, pure_bind]

/-- The functions that fill a call in do not translate. -/
theorem fills_asksNothing (hnames : m.env.options.NamesApart) :
    Phrase.Fills m.env.options (Expr.AsksNothing m.env) where
  text _ := trivial
  map _ := trivial
  filling n hn _ := by
    have habs := hnames.abs
    simp only [List.mem_cons, List.not_mem_nil, or_false, not_or] at hn habs
    rcases hn with rfl | rfl
    · exact ⟨hnames.escape, hnames.escapePlural⟩
    · exact ⟨habs.1, habs.2.1⟩

theorem every_asksNothing_message {x : Extracted} (h : Message.ofBody p.body p.line = .ok x) :
    x.message.toExpr.Every (Expr.AsksNothing m.env) := by
  unfold Message.ofBody at h
  split at h
  · next e hbody =>
    split at h
    · next hatomic =>
      cases h
      cases e with
      | literal a => exact trivial
      | name n => exact trivial
      | _ => cases hatomic
    · cases h
  · next nodes hbody =>
    obtain ⟨s, _, hmessage⟩ := Message.text?_of_ofNodes h
    rw [hmessage]
    exact trivial

/-- The call of a phrase asks what its request is, and nothing else. -/
theorem requests_phrase (hnames : m.env.options.NamesApart) {call : Expr}
    (hcall : p.call (.ofOptions m.env.options) = .ok call)
    (hdomain : p.domain.Every (Expr.AsksNothing m.env))
    (hcount : ∀ e ∈ p.count?, e.Every (Expr.AsksNothing m.env)) {out : String}
    (h : m.text? scopes call = some out) :
    ∃ request, m.request? scopes p = some request ∧
      (m.eval scopes call).requests = [request] := by
  obtain ⟨x, hx, hcases⟩ := Phrase.call_eq hcall
  have hfills := fills_asksNothing hnames
  have hlast : ∀ e ∈ Phrase.replacements p.count? (.ofOptions m.env.options) p.vars,
      e.Every (Expr.AsksNothing m.env) :=
    Phrase.every_replacements hfills hcount fun _ _ => trivial
  rcases hcases with ⟨count, plural, y, hcounted, hplural, hy, rfl⟩ | ⟨hplural, rfl⟩
  · obtain ⟨t, ht, hmessage⟩ := Message.text?_of_ofNodes hy
    have hsilent : (m.evalItems scopes ([.list [x.message.toExpr, y.message.toExpr], p.domain,
        Phrase.absolute count] ++
        Phrase.replacements p.count? (.ofOptions m.env.options) p.vars)).IsSilent := by
      refine isSilent_evalItems fun e he => isSilent_eval ?_
      simp only [List.cons_append, List.nil_append, List.mem_cons] at he
      rcases he with rfl | rfl | rfl | he
      · rw [hmessage]
        exact ⟨trivial, every_asksNothing_message hx, trivial, trivial⟩
      · exact hdomain
      · exact Phrase.every_absolute hfills (hcount count hcounted)
      · exact hlast e he
    obtain ⟨vs, hvs, hout⟩ := text?_call.1 h
    obtain ⟨w, hw, _⟩ := Option.bind_eq_some_iff.1 hout
    obtain ⟨s, t', domain, n, ws, hs, ht', hd, hn, _, hanswer⟩ :=
      callFunction_plural hnames hvs hw
    rw [text?_message hx] at hs
    refine ⟨_, (request?_of_plural hcounted hplural).2 ⟨s, t, domain, n, hs, ht, hd, hn, rfl⟩, ?_⟩
    have htt : t' = t := by
      rw [hmessage] at ht'
      exact (Option.some.inj ht').symm
    rw [requests_call hsilent hvs, ← htt]
    exact (congrArg Run.requests hanswer).trans (requests_answer _ _)
  · have hsilent : (m.evalItems scopes ([x.message.toExpr, p.domain] ++
        Phrase.replacements p.count? (.ofOptions m.env.options) p.vars)).IsSilent := by
      refine isSilent_evalItems fun e he => isSilent_eval ?_
      simp only [List.cons_append, List.nil_append, List.mem_cons] at he
      rcases he with rfl | rfl | he
      · exact every_asksNothing_message hx
      · exact hdomain
      · exact hlast e he
    obtain ⟨vs, hvs, hout⟩ := text?_call.1 h
    obtain ⟨w, hw, _⟩ := Option.bind_eq_some_iff.1 hout
    obtain ⟨s, domain, ws, hs, hd, _, hanswer⟩ := callFunction_single hvs hw
    rw [text?_message hx] at hs
    refine ⟨_, (request?_of_single hplural).2 ⟨s, domain, hs, hd, rfl⟩, ?_⟩
    rw [requests_call hsilent hvs]
    exact (congrArg Run.requests hanswer).trans (requests_answer _ _)

/-- The meaning of a phrase. It is rendered if and only if everything that it needs has a value;
then the translator is asked exactly once, and its answer is filled in. -/
theorem renderNode_phrase_meaning (hnames : m.env.options.NamesApart) {call : Expr}
    (hcall : p.call (.ofOptions m.env.options) = .ok call)
    (hdomain : p.domain.Every (Expr.AsksNothing m.env))
    (hcount : ∀ e ∈ p.count?, e.Every (Expr.AsksNothing m.env)) :
    ((∃ out, (m.renderNode (.phrase p) scopes).1.result = .ok out) ↔ m.Meaningful scopes p) ∧
      ∀ out, (m.renderNode (.phrase p) scopes).1.result = .ok out →
        ∃ request, m.request? scopes p = some request ∧
          (m.renderNode (.phrase p) scopes).1.requests = [request] ∧
          out = Placeholder.fill (m.fillers scopes p) (m.translator request) := by
  simp only [result_renderNode_phrase hnames hcall]
  constructor
  · constructor
    · rintro ⟨_, hmeaningful, _⟩
      exact hmeaningful
    · intro hmeaningful
      obtain ⟨hrequest, _⟩ := (meaningful_iff hnames hcall).1 hmeaningful
      obtain ⟨request, hrequest⟩ := Option.isSome_iff_exists.1 hrequest
      exact ⟨_, hmeaningful, request, hrequest, rfl⟩
  · rintro out ⟨hmeaningful, request, hrequest, hout⟩
    refine ⟨request, hrequest, ?_, hout⟩
    obtain ⟨_, hgiven⟩ := (meaningful_iff hnames hcall).1 hmeaningful
    obtain ⟨rs, hrs⟩ := Option.isSome_iff_exists.1 hgiven
    have htext := (text?_phrase hnames hcall).2 ⟨request, rs, hrequest, hrs, rfl⟩
    obtain ⟨request', hrequest', hrequests⟩ := requests_phrase hnames hcall hdomain hcount htext
    rw [renderNode_of_call hcall, requests_evalPrinted, hrequests]
    rw [Option.some.inj (hrequest.symm.trans hrequest')]

/-- A count that is a text, below zero, and shown in both messages. -/
theorem renderNode_phrase_meaning_negativeCount :
    let m : Evaluator := ⟨.standard {}, .echo⟩
    let p : Phrase Node := ⟨.block [.print (.name "count"), .text " item "], .text "shop",
      some ⟨.name "n", some [.print (.name "count"), .text " items"]⟩, none, 1⟩
    let r := (m.renderNode (.phrase p) [[("n", .text "-4")]]).1
    r.result = .ok "<shop#4>4 item|4 items" ∧
      r.requests = [.plural "%count% item" "%count% items" "shop" 4] := by
  intro m p r
  have hnames : m.env.options.NamesApart := Options.DefaultNames.namesApart ⟨rfl, rfl, rfl⟩
  have hcount : ∀ e ∈ p.count?, e.Every (Expr.AsksNothing m.env) := by
    intro e he
    cases he
    exact trivial
  have hresult : r.result = .ok "<shop#4>4 item|4 items" := by
    decide +kernel
  have hrequest : m.request? [[("n", .text "-4")]] p =
      some (.plural "%count% item" "%count% items" "shop" 4) := by
    decide +kernel
  obtain ⟨request, hsome, hrequests, _⟩ :=
    (renderNode_phrase_meaning hnames (p := p) rfl trivial hcount).2 _ hresult
  refine ⟨hresult, hrequests.trans ?_⟩
  rw [Option.some.inj (hsome.symm.trans hrequest)]

end Evaluator

end Polyglot
