import Polyglot.Proofs.CalledFunctions
import Polyglot.Proofs.FilledMessages
import Polyglot.Proofs.ReadNodes
import Polyglot.Proofs.RunRules

/-!
Escaping is sound. With autoescaping, every value gets into the output through the escaping
function: the printed ones because what is printed is filtered, and those in phrases because a
variable is raw only where it is printed without a filter. So a character with a meaning in markup
is in the output only if it stands in a text of the template or a translator puts it there.
-/
namespace Polyglot

/-- The texts that a translator is asked for. -/
def Request.messages : Request → List String
  | single message _ => [message]
  | plural one other _ _ => [one, other]

namespace Node

/-- A print whose outermost filter is not `raw`, or no print. -/
def IsNotRaw : Node → Prop
  | print (.filter _ n _) => n ≠ "raw"
  | _ => True

/-- A phrase with nodes for its body, or no phrase. -/
def IsNotInline : Node → Prop
  | phrase p => ∀ e, p.body ≠ .inline e
  | _ => True

/-- A text without a character, or no text. -/
def LacksText (c : Char) : Node → Prop
  | text s => c ∉ s.toList
  | _ => True

end Node

namespace Environment

variable {options : Options}

/-- The outermost filter of what is printed escapes it, unless it is `raw`. -/
theorem exists_filter_of_isRead (hescaping : options.autoescape = true)
    (hnames : options.DefaultNames) {e : Expr}
    (hread : (Node.print e).IsRead (standard options)) (hraw : (Node.print e).IsNotRaw) :
    ∃ e' n args, e = .filter e' n args ∧ (n = "escape" ∨ n = "e") := by
  obtain ⟨e', _, rfl⟩ := hread
  have hoptions : (standard options).options = options := rfl
  unfold printed at hraw ⊢
  rw [hoptions, hescaping, hnames.escape, Bool.true_and] at hraw ⊢
  by_cases hdecides : (standard options).decidesEscaping e' = true
  · rw [hdecides] at hraw ⊢
    cases e' with
    | filter e'' n args =>
      refine ⟨e'', n, args, rfl, ?_⟩
      have hn : (n = "escape" ∨ n = "e" ∨ n = "raw") ∨ n = "escape" := by
        simpa [decidesEscaping, escapingFilters, hoptions, hnames.escape] using hdecides
      have hne : n ≠ "raw" := hraw
      rcases hn with (h | h | h) | h
      · exact .inl h
      · exact .inr h
      · exact absurd h hne
      · exact .inl h
    | _ => cases hdecides
  · rw [Bool.not_eq_true] at hdecides
    rw [hdecides]
    exact ⟨_, _, _, rfl, .inl rfl⟩

end Environment

namespace Evaluator

variable {c : Char} {options : Options} {translator : Translator} {scopes : Scopes}

theorem callee_escape (hnames : options.DefaultNames) {n : String} (hn : n = "escape" ∨ n = "e") :
    options.callee n = .builtin .escape := by
  rw [Options.callee, hnames.translate, hnames.translatePlural, hnames.escape]
  rcases hn with rfl | rfl <;> decide

theorem returns_escape (hc : c = '<' ∨ c = '>' ∨ c = '"' ∨ c = '\'') (v : Value) :
    (Run.ofFailure (Builtin.escape.apply v)).Returns (Value.Lacks c) := by
  refine Run.returns_ofFailure fun w hw => ?_
  cases hs : v.printed with
  | error f => simp [Builtin.apply, hs, Except.map] at hw
  | ok s =>
    simp only [Builtin.apply, hs, Except.map, Except.ok.injEq] at hw
    subst hw
    exact Value.lacks_text (Html.not_mem_escape hc s)

theorem exists_int_of_abs {v w : Value} (h : Builtin.abs.apply v = .ok w) : ∃ j, w = .int j := by
  unfold Builtin.apply at h
  obtain ⟨i, _, hi⟩ := exists_of_bind_eq_ok h
  revert hi
  cases Integer.abs? i with
  | none => exact fun hi => nomatch hi
  | some j => exact fun hi => ⟨j, (Except.ok.inj hi).symm⟩

theorem returns_abs (hdigit : c.isDigit = false) (hminus : c ≠ '-') (v : Value) :
    (Run.ofFailure (Builtin.abs.apply v)).Returns (Value.Lacks c) := by
  refine Run.returns_ofFailure fun w hw => ?_
  obtain ⟨j, rfl⟩ := exists_int_of_abs hw
  exact Value.lacks_int hdigit hminus j

/-- What an escaping filter gives. -/
theorem returns_filter (hc : c = '<' ∨ c = '>' ∨ c = '"' ∨ c = '\'')
    (hnames : options.DefaultNames) {e : Expr} {n : String} {args : List Expr}
    (hn : n = "escape" ∨ n = "e") :
    ((Evaluator.mk (.standard options) translator).eval scopes (.filter e n args)).Returns
      (Value.Lacks c) := by
  have hfunction : (Environment.standard options).function n = n := by
    rw [Environment.function_standard]
    rcases hn with rfl | rfl <;> rfl
  rw [eval]
  refine Run.returns_bind (Run.returns_true _) fun v _ => ?_
  refine Run.returns_bind (Run.returns_true _) fun vs _ => ?_
  rw [hfunction, callFunction_builtin (callee_escape hnames hn)]
  exact returns_escape hc v

theorem returns_evalPrinted {m : Evaluator} {e : Expr}
    (h : (m.eval scopes e).Returns (Value.Lacks c)) :
    (m.evalPrinted scopes e).Returns fun s => c ∉ s.toList :=
  Run.returns_bind h fun _ hv => Run.returns_ofFailure hv

theorem returns_evalItems_cons {m : Evaluator} {e : Expr} {es : List Expr} {P : Value → Prop}
    {Q : List Value → Prop} (he : (m.eval scopes e).Returns P)
    (hes : (m.evalItems scopes es).Returns Q) :
    (m.evalItems scopes (e :: es)).Returns fun vs => ∃ w ws, vs = w :: ws ∧ P w ∧ Q ws :=
  Run.returns_bind he fun w hw => Run.returns_bind hes fun ws hws =>
    Run.returns_pure ⟨w, ws, rfl, hw, hws⟩

/-- The values in an evaluated map. -/
theorem returns_evalEntries {m : Evaluator} {P : Value → Prop} {es : List (Expr × Expr)}
    (h : ∀ x ∈ es, (m.eval scopes x.2).Returns P) :
    (m.evalEntries scopes es).Returns fun vs => ∀ x ∈ vs, P x.2 := by
  induction es with
  | nil => exact Run.returns_pure fun _ hx => absurd hx List.not_mem_nil
  | cons x es ih =>
    obtain ⟨hx, hes⟩ := List.forall_mem_cons.1 h
    refine Run.returns_bind (Run.returns_true _) fun k _ => ?_
    refine Run.returns_bind (Run.returns_true _) fun name _ => ?_
    refine Run.returns_bind hx fun v hv => ?_
    refine Run.returns_bind (ih hes) fun vs hvs => ?_
    exact Run.returns_pure (List.forall_mem_cons.2 ⟨hv, hvs⟩)

theorem returns_eval_map {m : Evaluator} {P : Value → Prop} {es : List (Expr × Expr)}
    (h : ∀ x ∈ es, (m.eval scopes x.2).Returns P) :
    (m.eval scopes (.map es)).Returns fun v => ∃ ws, v = .map ws ∧ ∀ x ∈ ws, P x.2 :=
  Run.returns_bind (returns_evalEntries h) fun _ hws =>
    Run.returns_pure ⟨_, rfl, fun x hx => hws x (Entries.mem_of_mem_ofList hx)⟩

/-- A translated text with its placeholders filled in. -/
theorem returns_answer {m : Evaluator} {request : Request} {last : Option Value}
    (hrequest : c ∉ (m.translator request).toList) (hlast : LastLacks c last) :
    (m.answer request last).Returns (Value.Lacks c) := by
  have hask : (Run.ask m.translator request).Returns fun s => c ∉ s.toList :=
    Run.returns_ask hrequest
  have hreplacements : (Run.ofFailure (replacements last)).Returns fun rs =>
      ∀ x ∈ rs, c ∉ x.2.toList :=
    Run.returns_ofFailure fun rs hrs => not_mem_of_replacements hrs hlast
  refine Run.returns_bind hask fun translated htranslated => ?_
  refine Run.returns_bind hreplacements fun rs hrs => ?_
  exact Run.returns_pure (Value.lacks_text (Placeholder.not_mem_fill hrs htranslated))

/-- A character with a meaning in markup stands in no number, name or placeholder. -/
theorem facts_of_mark (hc : c = '<' ∨ c = '>' ∨ c = '"' ∨ c = '\'') :
    c.isDigit = false ∧ c ≠ '-' ∧ c ≠ '%' ∧ Scanner.isNameChar c = false := by
  rcases hc with rfl | rfl | rfl | rfl <;> decide

/-- What a placeholder stands for, if its variable is not raw. -/
theorem returns_value (hc : c = '<' ∨ c = '>' ∨ c = '"' ∨ c = '\'')
    (hnames : options.DefaultNames) {count : Option Expr} {v : Variable} (hv : v.raw = false) :
    ((Evaluator.mk (.standard options) translator).eval scopes
      (Phrase.value count (.ofOptions options) v)).Returns (Value.Lacks c) := by
  obtain ⟨hdigit, hminus, _, _⟩ := facts_of_mark hc
  have hname : ((Evaluator.mk (.standard options) translator).eval scopes
      (if v.raw then .name v.name else (Targets.ofOptions options).escape (.name v.name))).Returns
      (Value.Lacks c) := by
    rw [hv, Targets.ofOptions, hnames.escape]
    refine Run.returns_bind (Run.returns_true _) fun vs _ => ?_
    rw [callFunction_builtin (callee_escape hnames (.inl rfl))]
    exact returns_escape hc _
  unfold Phrase.value
  split
  · split
    · refine Run.returns_bind (Run.returns_true _) fun vs _ => ?_
      rw [callFunction_builtin (hnames.namesApart.callee_abs)]
      exact returns_abs hdigit hminus _
    · exact hname
  · exact hname

theorem returns_replacements (hc : c = '<' ∨ c = '>' ∨ c = '"' ∨ c = '\'')
    (hnames : options.DefaultNames) {count : Option Expr} {vs : List Variable}
    (hvs : ∀ v ∈ vs, v.raw = false) :
    ((Evaluator.mk (.standard options) translator).evalItems scopes
      (Phrase.replacements count (.ofOptions options) vs)).Returns fun ws =>
        LastLacks c ws[0]? := by
  unfold Phrase.replacements
  split
  · refine Run.returns_pure fun es h => ?_
    cases h
  · have hvalues : ∀ x ∈ vs.map fun v =>
        (Expr.text v.placeholder, Phrase.value count (.ofOptions options) v),
        ((Evaluator.mk (.standard options) translator).eval scopes x.2).Returns
          (Value.Lacks c) := by
      intro x hx
      obtain ⟨v, hv, rfl⟩ := List.mem_map.1 hx
      exact returns_value hc hnames (hvs v hv)
    have hmap := returns_eval_map hvalues
    refine (returns_evalItems_cons hmap (Run.returns_true _)).mono fun ws hws => ?_
    obtain ⟨w, ws, rfl, ⟨es, rfl, hes⟩, _⟩ := hws
    intro es' h
    cases h
    exact hes

/-- One message is looked up. -/
theorem returns_translate {m : Evaluator} {message : String} {domain : Value} {rest : List Value}
    (hrequest : ∀ d, c ∉ (m.translator (.single message d)).toList) (hlast : LastLacks c rest[0]?) :
    (m.translate (.text message :: domain :: rest)).Returns (Value.Lacks c) := by
  have hmessage : (printed (.text message)).Returns (message = ·) :=
    Run.returns_ofFailure fun s hs => Except.ok.inj hs
  refine Run.returns_bind hmessage fun s hs => ?_
  refine Run.returns_bind (Run.returns_true _) fun d _ => ?_
  rw [← hs]
  exact returns_answer (hrequest d) hlast

/-- One of two messages is looked up. -/
theorem returns_translatePlural {m : Evaluator} {one other : String} {domain n : Value}
    {rest : List Value} (hrequest : ∀ d k, c ∉ (m.translator (.plural one other d k)).toList)
    (hlast : LastLacks c rest[0]?) :
    (m.translatePlural (.list [.text one, .text other] :: domain :: n :: rest)).Returns
      (Value.Lacks c) := by
  have hmessage : ∀ s, (printed (.text s)).Returns (s = ·) :=
    fun s => Run.returns_ofFailure fun t ht => Except.ok.inj ht
  refine Run.returns_bind (hmessage one) fun s hs => ?_
  refine Run.returns_bind (hmessage other) fun t ht => ?_
  refine Run.returns_bind (Run.returns_true _) fun d _ => ?_
  refine Run.returns_bind (Run.returns_true _) fun k _ => ?_
  rw [← hs, ← ht]
  exact returns_answer (hrequest d _) hlast

/-- What a phrase needs of its nodes: they were read, and no text, print or phrase in them lets a
character through. -/
def Escapes (c : Char) (options : Options) (n : Node) : Prop :=
  n.IsRead (.standard options) ∧ n.IsNotRaw ∧ n.IsNotInline ∧ n.LacksText c

/-- The message of nodes, and its variables. -/
theorem message_lacks (hc : c = '<' ∨ c = '>' ∨ c = '"' ∨ c = '\'')
    (hescaping : options.autoescape = true) (hnames : options.DefaultNames) {nodes : List Node}
    {line : Nat} {x : Extracted} (h : Message.ofNodes nodes line = .ok x)
    (hnodes : ∀ n ∈ nodes, n.Every (Escapes c options)) :
    (∃ s, x.message = .literal s ∧ c ∉ s.toList) ∧ ∀ v ∈ x.vars, v.raw = false := by
  obtain ⟨_, _, hpercent, hname⟩ := facts_of_mark hc
  refine ⟨Message.not_mem_literal h ?_ ?_ hpercent, ?_⟩
  · intro s hs
    exact (hnodes _ hs).self.2.2.2
  · intro e n he hn
    have hn' := Environment.isIdentifier_of_variableName? (hnodes _ he).self.1 hn
    exact Scanner.not_mem_of_isIdentifier hn' hname
  · intro v hv
    obtain ⟨e, he, _, hraw⟩ := Message.print_of_mem_vars h hv
    have hself := (hnodes _ he).self
    obtain ⟨e', n, args, rfl, _⟩ :=
      Environment.exists_filter_of_isRead hescaping hnames hself.1 hself.2.1
    exact hraw

/-- What a phrase renders. -/
theorem returns_phrase (hc : c = '<' ∨ c = '>' ∨ c = '"' ∨ c = '\'')
    (hescaping : options.autoescape = true) (hnames : options.DefaultNames)
    (htranslator : ∀ request, (∀ s ∈ Request.messages request, c ∉ s.toList) →
      c ∉ (translator request).toList) {p : Phrase Node}
    (hp : (Node.phrase p).Every (Escapes c options)) :
    ((Evaluator.mk (.standard options) translator).renderNode (.phrase p)).Returns
      fun s => c ∉ s.toList := by
  obtain ⟨⟨_, _, hinline, _⟩, hbodies⟩ := Node.every_phrase.1 hp
  refine Rendering.returns_bind (Rendering.returns_reading fun _ => Run.returns_ofExcept)
    fun call hcall => ?_
  refine Rendering.returns_reading fun scopes => returns_evalPrinted ?_
  obtain ⟨x, hx, hcases⟩ := Phrase.call_cases hcall
  obtain ⟨⟨one, hone, hone'⟩, hvars⟩ : (∃ s, x.message = .literal s ∧ c ∉ s.toList) ∧
      ∀ v ∈ x.vars, v.raw = false := by
    cases hbody : p.body with
    | inline e => exact absurd hbody (hinline e)
    | block nodes =>
      rw [hbody] at hx
      exact message_lacks hc hescaping hnames hx (hbodies nodes (by simp [Phrase.bodies, hbody]))
  rcases hcases with ⟨count, plural, y, hcounted, hy, rfl⟩ | ⟨_, rfl⟩
  · have hplural := hbodies plural (p.plural_mem_bodies (by simp [Phrase.plural?, hcounted]))
    obtain ⟨⟨other, hother, hother'⟩, hvars'⟩ := message_lacks hc hescaping hnames hy hplural
    have hunion : ∀ v ∈ Variable.union x.vars y.vars, v.raw = false := fun v hv =>
      (Variable.mem_union hv).elim (hvars v) (hvars' v)
    rw [hone, hother]
    have hmessages : ((Evaluator.mk (.standard options) translator).eval scopes
        (.list [.text one, .text other])).Returns (.list [.text one, .text other] = ·) :=
      Run.returns_bind (Run.returns_pure rfl) fun _ h => Run.returns_pure (congrArg Value.list h)
    refine Run.returns_bind (returns_evalItems_cons hmessages
      (returns_evalItems_cons (Run.returns_true _) (returns_evalItems_cons (Run.returns_true _)
        (returns_replacements hc hnames hunion)))) fun vs hvs => ?_
    obtain ⟨_, _, rfl, rfl, _, _, rfl, _, _, _, rfl, _, hlast⟩ := hvs
    change ((Evaluator.mk (.standard options) translator).callFunction
      options.translatePluralFunction _).Returns _
    rw [callFunction_translatePlural hnames.namesApart.callee_translatePlural]
    refine returns_translatePlural (fun d k => htranslator _ ?_) hlast
    exact List.forall_mem_cons.2 ⟨hone', List.forall_mem_singleton.2 hother'⟩
  · rw [hone]
    have hmessage : ((Evaluator.mk (.standard options) translator).eval scopes
        (.text one)).Returns (.text one = ·) :=
      Run.returns_pure rfl
    refine Run.returns_bind (returns_evalItems_cons hmessage
      (returns_evalItems_cons (Run.returns_true _) (returns_replacements hc hnames hvars)))
      fun vs hvs => ?_
    obtain ⟨_, _, rfl, rfl, _, _, rfl, _, hlast⟩ := hvs
    change ((Evaluator.mk (.standard options) translator).callFunction
      options.translateFunction _).Returns _
    rw [callFunction_translate options.callee_translate]
    exact returns_translate (fun d => htranslator _ (List.forall_mem_singleton.2 hone')) hlast

end Evaluator

namespace Environment

variable {options : Options}

/-- With autoescaping, no printed value brings a character with a meaning in markup into the output.
If it does not stand in a text of the template outside notes, and the translator does not bring it
into messages without it, the output is without it, whatever the context holds. -/
theorem not_mem_render (hescaping : options.autoescape = true) (hnames : options.DefaultNames)
    {source : String} {ns : List Node} (hparse : (standard options).parse source = .ok ns)
    (hraw : ∀ n ∈ ns, n.Every Node.IsNotRaw) (hinline : ∀ n ∈ ns, n.Every Node.IsNotInline)
    {c : Char} (hc : c = '<' ∨ c = '>' ∨ c = '"' ∨ c = '\'')
    (htext : ∀ n ∈ ns, n.Every (Node.LacksText c)) {translator : Translator}
    (htranslator : ∀ request : Request, (∀ s ∈ request.messages, c ∉ s.toList) →
      c ∉ (translator request).toList) {context : Entries Value} {out : String}
    (hout : ((standard options).render source context translator).result = .ok out) :
    c ∉ out.toList := by
  have hescapes : ∀ n ∈ ns, n.Every (Evaluator.Escapes c options) := fun n hn =>
    (isRead_of_parse hparse n hn).and
      ((hraw n hn).and ((hinline n hn).and (htext n hn)))
  have hnode : ∀ n ∈ ns, ((Evaluator.mk (standard options) translator).renderNode n).Returns
      fun s => c ∉ s.toList := by
    intro n hn
    refine Evaluator.returns_renderNode _ (by simp) (fun s t hs ht => by simp [hs, ht])
      (fun s hs => hs.2.2.2) (fun e he scopes => ?_)
      (fun p hp => Evaluator.returns_phrase hc hescaping hnames htranslator hp) (hescapes n hn)
    obtain ⟨e', m, args, rfl, hm⟩ := exists_filter_of_isRead hescaping hnames he.1 he.2.1
    exact Evaluator.returns_evalPrinted (Evaluator.returns_filter hc hnames hm)
  have hnodes := Evaluator.returns_renderNodes _ (by simp) (fun s t hs ht => by simp [hs, ht]) hnode
  rw [render_of_parse hparse] at hout
  exact hnodes [context] out hout

theorem not_mem_passthrough {c : Char} (request : Request)
    (h : ∀ s ∈ request.messages, c ∉ s.toList) : c ∉ (Translator.passthrough request).toList := by
  cases request with
  | single message domain => exact h message List.mem_cons_self
  | plural one other domain n =>
    obtain ⟨hone, hother⟩ := List.forall_mem_cons.1 h
    simp only [Translator.passthrough]
    split
    · exact hone
    · exact hother other List.mem_cons_self

/-- A value with a tag in it, printed on its own and in a phrase. -/
theorem not_mem_render_tag :
    ((standard {}).render "{{ x }}{% trans from d %}{{ x }}{% endtrans %}" [("x", .text "<b>")]
      Translator.passthrough).result = .ok "&lt;b&gt;&lt;b&gt;" ∧
      '<' ∉ "&lt;b&gt;&lt;b&gt;".toList := by
  have hparse : (standard {}).parse "{{ x }}{% trans from d %}{{ x }}{% endtrans %}" =
      .ok [.print (.filter (.name "x") "escape" []),
        .phrase ⟨.block [.print (.filter (.name "x") "escape" [])], .name "d", none, none, 1⟩] := by
    decide +kernel
  have hout : ((standard {}).render "{{ x }}{% trans from d %}{{ x }}{% endtrans %}"
      [("x", .text "<b>")] Translator.passthrough).result = .ok "&lt;b&gt;&lt;b&gt;" := by
    rw [render_of_parse hparse]
    decide +kernel
  refine ⟨hout, not_mem_render rfl ⟨rfl, rfl, rfl⟩ hparse ?_ ?_ (.inl rfl) ?_
    not_mem_passthrough hout⟩
  · simp [Node.IsNotRaw, Phrase.bodies, Phrase.plural?]
  · simp [Node.IsNotInline, Phrase.bodies, Phrase.plural?]
  · simp [Node.LacksText, Phrase.bodies, Phrase.plural?]

end Environment

end Polyglot
