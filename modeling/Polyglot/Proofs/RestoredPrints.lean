import Mathlib.Data.List.TakeWhile
import Polyglot.Proofs.PhraseRendering
import Polyglot.Proofs.ReadNodes

/-!
Placeholders are put back where they were taken from. A body is a row of characters and holes, which
its message spells with percent signs around the name of each hole. If no character of the body is a
percent sign that the name of a variable follows, then filling in the message finds exactly
the holes: a percent sign of the text never starts a placeholder, and is passed by alone.
-/
namespace Polyglot

/-- One place of a body: a character of a text, or a print of a variable. -/
inductive Mark where
  | char (c : Char)
  | hole (n : String)
  deriving DecidableEq

namespace Mark

def isMargin : Mark → Bool
  | char c => Message.isMargin c
  | hole _ => false

/-- How a message spells the mark. -/
def spelled : Mark → List Char
  | char c => [c]
  | hole n => '%' :: (n.toList ++ ['%'])

/-- The mark with a text in place of the variable. -/
def filled (text : String → String) : Mark → List Char
  | char c => [c]
  | hole n => (text n).toList

/-- The marks without the margins of the text at both ends. -/
def trim (ms : List Mark) : List Mark :=
  ((ms.dropWhile isMargin).reverse.dropWhile isMargin).reverse

/-- A percent sign and the name of a variable, as characters of a text. -/
def lookalike (n : String) : List Mark := ('%' :: n.toList).map char

/-- The holes are those of some variables, and no text looks like the start of one. -/
structure Clear (names : List String) (ms : List Mark) : Prop where
  mem : ∀ n, hole n ∈ ms → n ∈ names
  clear : ∀ n ∈ names, ¬ lookalike n <:+: ms

variable {names : List String} {ms : List Mark} {text : String → String}

theorem Clear.of_isInfix {ms' : List Mark} (h : Clear names ms) (hsub : ms' <:+: ms) :
    Clear names ms' where
  mem n hn := h.mem n (hsub.subset hn)
  clear n hn hlook := h.clear n hn (hlook.trans hsub)

theorem trim_isInfix (ms : List Mark) : trim ms <:+: ms := by
  have hleft := (List.dropWhile_suffix (l := ms) isMargin).isInfix
  have hright := (List.dropWhile_suffix (l := (ms.dropWhile isMargin).reverse) isMargin).isInfix
  rw [← List.reverse_infix, List.reverse_reverse] at hright
  exact hright.trans hleft

/-- Margins are dropped from a spelling by mark, if every hole is spelled with a percent sign
first. -/
theorem dropWhile_flatMap {f : Mark → List Char} (hchar : ∀ c, f (char c) = [c])
    (hhole : ∀ n, ∃ cs, f (hole n) = '%' :: cs) (ms : List Mark) :
    (ms.flatMap f).dropWhile Message.isMargin = (ms.dropWhile isMargin).flatMap f := by
  induction ms with
  | nil => rfl
  | cons mark ms ih =>
    cases mark with
    | char c =>
      rw [List.flatMap_cons, hchar, List.singleton_append]
      by_cases hc : Message.isMargin c = true
      · rw [List.dropWhile_cons_of_pos hc, List.dropWhile_cons_of_pos (by exact hc), ih]
      · rw [List.dropWhile_cons_of_neg hc, List.dropWhile_cons_of_neg (by exact hc),
          List.flatMap_cons, hchar, List.singleton_append]
    | hole n =>
      obtain ⟨cs, hcs⟩ := hhole n
      rw [List.dropWhile_cons_of_neg (p := isMargin) (by simp [isMargin]), List.flatMap_cons, hcs,
        List.cons_append, List.dropWhile_cons_of_neg (by decide)]

/-- Trimming a message is trimming its marks. -/
theorem trim_flatMap_spelled (ms : List Mark) :
    Blank.trim Message.isMargin (ms.flatMap spelled) = (trim ms).flatMap spelled := by
  have hleft := dropWhile_flatMap (f := spelled) (fun _ => rfl) (fun n => ⟨_, rfl⟩) ms
  have hright := dropWhile_flatMap (f := List.reverse ∘ spelled) (fun _ => rfl)
    (fun n => ⟨n.toList.reverse ++ ['%'], by simp [spelled]⟩) (ms.dropWhile isMargin).reverse
  rw [Blank.trim, Blank.dropTrailing, hleft, List.reverse_flatMap, hright, List.reverse_flatMap,
    trim]
  simp [Function.comp_def]

/-- The characters before the next percent sign stand in the text. -/
theorem map_takeWhile_isPrefix (ms : List Mark) :
    ((ms.flatMap spelled).takeWhile (· != '%')).map char <+: ms := by
  induction ms with
  | nil => simp
  | cons mark ms ih =>
    cases mark with
    | char c =>
      rw [List.flatMap_cons, spelled, List.singleton_append]
      by_cases hc : c = '%'
      · simp [hc]
      · rw [List.takeWhile_cons_of_pos (by simpa using hc), List.map_cons]
        exact List.cons_prefix_cons.2 ⟨rfl, ih⟩
    | hole n => simp [spelled]

end Mark

namespace Placeholder

variable {names : List String} {text : String → String} {rs : Entries String} {ms : List Mark}

/-- A percent sign of the text is passed by, because what follows it is not the name of a
variable. -/
theorem fillChars_char_percent
    (hkeys : ∀ key s, rs.get? key = some s → ∃ n ∈ names, "%" ++ n ++ "%" = key)
    (hms : Mark.Clear names (.char '%' :: ms)) :
    fillChars rs ('%' :: ms.flatMap Mark.spelled) =
      '%' :: fillChars rs (ms.flatMap Mark.spelled) := by
  cases hdrop : (ms.flatMap Mark.spelled).dropWhile (· != '%') with
  | nil =>
    have hnone : '%' ∉ ms.flatMap Mark.spelled := by
      intro hmem
      simpa using List.dropWhile_eq_nil_iff.1 hdrop _ hmem
    rw [fillChars_last hdrop, fillChars_of_not_mem hnone]
  | cons d after =>
    rw [fillChars_percent hdrop]
    split
    · next s hs =>
      obtain ⟨n, hn, hkey⟩ := hkeys _ s hs
      have htake : (ms.flatMap Mark.spelled).takeWhile (· != '%') = n.toList := by
        have hchars := congrArg String.toList hkey
        simp only [String.toList_append, String.toList_ofList] at hchars
        exact (List.append_cancel_left (List.append_cancel_right hchars)).symm
      have hstart := Mark.map_takeWhile_isPrefix ms
      rw [htake] at hstart
      have hlook : Mark.lookalike n <+: .char '%' :: ms := List.cons_prefix_cons.2 ⟨rfl, hstart⟩
      exact absurd hlook.isInfix (hms.clear n hn)
    · rfl

/-- A placeholder is replaced as a whole. -/
theorem fillChars_hole {n s : String} (hn : '%' ∉ n.toList)
    (hs : rs.get? ("%" ++ n ++ "%") = some s) (rest : List Char) :
    fillChars rs ((Mark.hole n).spelled ++ rest) = s.toList ++ fillChars rs rest := by
  have hkey : String.ofList ('%' :: n.toList ++ ['%']) = "%" ++ n ++ "%" := by
    apply String.toList_injective
    simp
  have hspelled : (Mark.hole n).spelled ++ rest = '%' :: n.toList ++ '%' :: rest := by
    simp [Mark.spelled]
  rw [hspelled, fillChars_placeholder hn (by rw [hkey, hs])]

/-- Filling in a spelling of clear marks fills every hole and nothing else. -/
theorem fillChars_flatMap_spelled (hnames : ∀ n ∈ names, '%' ∉ n.toList)
    (hkeys : ∀ key s, rs.get? key = some s → ∃ n ∈ names, "%" ++ n ++ "%" = key)
    (htext : ∀ n ∈ names, rs.get? ("%" ++ n ++ "%") = some (text n))
    (hms : Mark.Clear names ms) :
    fillChars rs (ms.flatMap Mark.spelled) = ms.flatMap (Mark.filled text) := by
  induction ms with
  | nil => rw [List.flatMap_nil, List.flatMap_nil, fillChars]
  | cons mark ms ih =>
    have hrest := ih (hms.of_isInfix (List.suffix_cons mark ms).isInfix)
    rw [List.flatMap_cons, List.flatMap_cons]
    cases mark with
    | char c =>
      change fillChars rs (c :: ms.flatMap Mark.spelled) = c :: ms.flatMap (Mark.filled text)
      by_cases hc : c = '%'
      · rw [hc] at hms ⊢
        rw [fillChars_char_percent hkeys hms, hrest]
      · rw [fillChars_of_ne hc, hrest]
    | hole n =>
      have hn := hms.mem n List.mem_cons_self
      rw [fillChars_hole (hnames n hn) (htext n hn), hrest]
      rfl

end Placeholder

namespace Node

/-- The marks of a node in a body. Other nodes than texts and prints of variables have none; a
phrase with one of them has no message. -/
def marks : Node → List Mark
  | text s => s.toList.map .char
  | print e => (Message.variableName? e).toList.map .hole
  | _ => []

theorem print_of_hole_mem_marks {n : Node} {name : String} (h : .hole name ∈ n.marks) :
    ∃ e, n = print e ∧ Message.variableName? e = some name := by
  cases n with
  | text s => simp [marks] at h
  | print e =>
    refine ⟨e, rfl, ?_⟩
    simpa [marks, eq_comm] using h
  | loop target items body => cases h
  | branch cases otherwise => cases h
  | phrase p => cases h

end Node

namespace Message

theorem shown_of_piece? {n : Node} {p : Piece} (h : piece? n = some p) :
    p.shown.toList = n.marks.flatMap Mark.spelled := by
  cases n with
  | text s =>
    cases h
    simp [Piece.shown, Node.marks, List.flatMap_map, Mark.spelled]
  | print e =>
    obtain ⟨name, hname, rfl⟩ := Option.map_eq_some_iff.1 h
    simp [Piece.shown, Node.marks, hname, Mark.spelled, Variable.placeholder]
  | loop target items body => cases h
  | branch cases otherwise => cases h
  | phrase q => cases h

theorem shown_of_pieces? {nodes : List Node} {ps : List Piece} (h : pieces? nodes = some ps) :
    (String.join (ps.map (·.shown))).toList = (nodes.flatMap Node.marks).flatMap Mark.spelled := by
  rw [String.toList_join, List.flatMap_map]
  induction nodes generalizing ps with
  | nil =>
    cases h
    rfl
  | cons n nodes ih =>
    rw [pieces?] at h
    obtain ⟨p, hp, h⟩ := Option.bind_eq_some_iff.1 h
    obtain ⟨qs, hqs, h⟩ := Option.bind_eq_some_iff.1 h
    cases h
    rw [List.flatMap_cons, List.flatMap_cons, List.flatMap_append, ih hqs, shown_of_piece? hp]

/-- The message of a body spells the trimmed marks of the body. -/
theorem toList_of_text? {nodes : List Node} {s : String} (h : text? nodes = some s) :
    s.toList = (Mark.trim (nodes.flatMap Node.marks)).flatMap Mark.spelled := by
  obtain ⟨ps, hps, rfl⟩ := Option.map_eq_some_iff.1 h
  rw [trim, String.toList_ofList, shown_of_pieces? hps, Mark.trim_flatMap_spelled]

end Message

namespace Phrase

/-- The body that is shown for a count of some size. -/
def shownBody (p : Phrase Node) (nodes : List Node) (size? : Option Nat) : List Node :=
  match p.plural? with
  | none => nodes
  | some plural => if size? = some 1 then nodes else plural

variable {p : Phrase Node} {nodes : List Node}

theorem shownBody_mem_bodies (hbody : p.body = .block nodes) (size? : Option Nat) :
    p.shownBody nodes size? ∈ p.bodies := by
  rw [bodies, hbody, shownBody]
  cases p.plural? with
  | none => simp
  | some plural =>
    by_cases h : size? = some 1
    · simp [h]
    · simp [h]

theorem mem_names_of_hole {body : List Node} (hbody : body ∈ p.bodies) {n : String}
    (h : .hole n ∈ body.flatMap Node.marks) : n ∈ p.names := by
  obtain ⟨node, hnode, hmark⟩ := List.mem_flatMap.1 h
  obtain ⟨e, rfl, hn⟩ := Node.print_of_hole_mem_marks hmark
  have hvar : (Node.print e).var? = some ⟨n, !e.isFilter⟩ := by rw [Node.var?, hn, Option.map_some]
  have hmem : (⟨n, !e.isFilter⟩ : Variable) ∈ p.occurrences :=
    List.mem_filterMap.2 ⟨_, List.mem_flatten.2 ⟨body, hbody, hnode⟩, hvar⟩
  exact List.mem_map.2 ⟨_, hmem, rfl⟩

theorem exists_count_of_plural {plural : List Node} (h : p.plural? = some plural) :
    ∃ count, p.count? = some count := by
  obtain ⟨c, hc, _⟩ := Option.bind_eq_some_iff.1 h
  exact ⟨c.count, by rw [count?, hc, Option.map_some]⟩

/-- The names of the variables in a phrase that was read. -/
theorem percent_not_mem_of_mem_names {options : Options}
    (h : (Node.phrase p).Every (Node.IsRead (.standard options))) :
    ∀ n ∈ p.names, '%' ∉ n.toList := by
  intro n hn
  obtain ⟨v, hv, rfl⟩ := List.mem_map.1 hn
  obtain ⟨node, hnode, hvar⟩ := List.mem_filterMap.1 hv
  obtain ⟨body, hbody, hnode⟩ := List.mem_flatten.1 hnode
  have hread := ((Node.every_phrase.1 h).2 body hbody node hnode).self
  cases node with
  | print e =>
    obtain ⟨name, hname, rfl⟩ := Option.map_eq_some_iff.1 hvar
    exact Scanner.not_mem_of_isIdentifier (Environment.isIdentifier_of_variableName? hread hname)
      (by decide)
  | text s => cases hvar
  | loop target items body => cases hvar
  | branch cases otherwise => cases hvar
  | phrase q => cases hvar

end Phrase

namespace Evaluator

variable {m : Evaluator} {scopes : Scopes} {p : Phrase Node} {nodes : List Node}

/-- Without a translation, the answer is the message of the body that is shown. -/
theorem text?_shownBody (hbody : p.body = .block nodes) {request : Request}
    (h : m.request? scopes p = some request) :
    Message.text? (p.shownBody nodes (p.count?.bind (m.size? scopes))) =
      some (Translator.passthrough request) := by
  have hsingular : m.singular? scopes p = Message.text? nodes := by
    rw [singular?, hbody]
  cases hplural : p.plural? with
  | none =>
    obtain ⟨s, domain, hs, _, rfl⟩ := (request?_of_single hplural).1 h
    rw [Phrase.shownBody, hplural, ← hsingular]
    exact hs
  | some plural =>
    obtain ⟨count, hcount⟩ := Phrase.exists_count_of_plural hplural
    obtain ⟨s, t, domain, n, hs, ht, _, hn, rfl⟩ := (request?_of_plural hcount hplural).1 h
    rw [hsingular] at hs
    simp only [Phrase.shownBody, hplural, hcount, Option.bind_some, hn, Option.some.injEq,
      Translator.passthrough]
    by_cases hone : n = 1
    · rw [if_pos hone, if_pos hone, hs]
    · rw [if_neg hone, if_neg hone, ht]

theorem exists_call_of_result {out : String}
    (h : (m.renderNode (.phrase p) scopes).1.result = .ok out) :
    ∃ call, p.call (.ofOptions m.env.options) = .ok call := by
  cases hcall : p.call (.ofOptions m.env.options) with
  | ok call => exact ⟨call, rfl⟩
  | error e =>
    rw [renderNode, hcall] at h
    cases h

/-- Filling in the message of a clear body puts every variable back in its place. -/
theorem toList_of_renderNode (hnames : m.env.options.NamesApart)
    (htranslator : m.translator = Translator.passthrough) (hbody : p.body = .block nodes)
    (hpercent : ∀ n ∈ p.names, '%' ∉ n.toList)
    (hclear : ∀ n ∈ p.names, ¬ Mark.lookalike n <:+:
      (p.shownBody nodes (p.count?.bind (m.size? scopes))).flatMap Node.marks) {out : String}
    (h : (m.renderNode (.phrase p) scopes).1.result = .ok out) :
    ∃ text : String → String, (∀ n ∈ p.names, m.filler? scopes p n = some (text n)) ∧
      out.toList = (Mark.trim ((p.shownBody nodes
        (p.count?.bind (m.size? scopes))).flatMap Node.marks)).flatMap (Mark.filled text) := by
  obtain ⟨call, hcall⟩ := exists_call_of_result h
  obtain ⟨hmeaningful, request, hrequest, rfl⟩ := (result_renderNode_phrase hnames hcall).1 h
  have htext : ∀ n ∈ p.names, m.filler? scopes p n = some ((m.filler? scopes p n).getD "") := by
    intro n hn
    obtain ⟨s, hs⟩ := Option.isSome_iff_exists.1 (hmeaningful.fillers n hn)
    rw [hs]
    rfl
  refine ⟨_, htext, ?_⟩
  have hmessage := Message.toList_of_text? (text?_shownBody hbody hrequest)
  rw [htranslator, Placeholder.fill, String.toList_ofList, hmessage]
  apply Placeholder.fillChars_flatMap_spelled hpercent
  · intro key s hs
    obtain ⟨n, hn, hkey, _⟩ := (get?_fillers key s).1 hs
    exact ⟨n, hn, hkey⟩
  · intro n hn
    exact (get?_fillers _ _).2 ⟨n, hn, rfl, htext n hn⟩
  · have hall : Mark.Clear p.names
        ((p.shownBody nodes (p.count?.bind (m.size? scopes))).flatMap Node.marks) :=
      ⟨fun n hn => Phrase.mem_names_of_hole (Phrase.shownBody_mem_bodies hbody _) hn, hclear⟩
    exact hall.of_isInfix (Mark.trim_isInfix _)

end Evaluator

namespace Environment

/-- Placeholders are put back where they were taken from. Without a translation, a phrase of a
template renders as the texts of the body that is shown, with each print replaced by the text for
its variable, and only the margins of the texts at both ends are gone. -/
theorem toList_of_phrase {options : Options} (hnames : options.DefaultNames) {source : String}
    {ns : List Node} (hparse : (standard options).parse source = .ok ns) :
    ∀ n ∈ ns, n.Every fun n => ∀ p nodes, n = .phrase p → p.body = .block nodes →
      ∀ (scopes : Scopes) (out : String),
        let m : Evaluator := ⟨standard options, Translator.passthrough⟩
        let body := (p.shownBody nodes (p.count?.bind (m.size? scopes))).flatMap Node.marks
        (∀ name ∈ p.names, ¬ Mark.lookalike name <:+: body) →
        (m.renderNode (.phrase p) scopes).1.result = .ok out →
        ∃ text : String → String,
          (∀ name ∈ p.names, m.filler? scopes p name = some (text name)) ∧
            out.toList = (Mark.trim body).flatMap (Mark.filled text) := by
  intro n hn
  refine (isRead_of_parse hparse n hn).every.mono ?_
  rintro _ hread p nodes rfl hbody scopes out m body hclear hout
  exact Evaluator.toList_of_renderNode hnames.namesApart rfl hbody
    (Phrase.percent_not_mem_of_mem_names hread) hclear hout

/-- A print between two percent signs, with a value that looks like its placeholder. -/
theorem toList_of_phrase_percents :
    let nodes : List Node :=
      [.text " %", .print (.filter (.name "a") "escape" []), .text "%"]
    let p : Phrase Node := ⟨.block nodes, .name "d", none, none, 1⟩
    let m : Evaluator := ⟨standard {}, Translator.passthrough⟩
    (standard {}).parse "{% trans from d %} %{{ a }}%{% endtrans %}" = .ok [.phrase p] ∧
      (m.renderNode (.phrase p) [[("a", .text "%a% ")]]).1.result = .ok "%%a% %" ∧
      ∃ text : String → String, text "a" = "%a% " ∧
        "%%a% %".toList = [Mark.char '%', .hole "a", .char '%'].flatMap (Mark.filled text) := by
  intro nodes p m
  have hparse : (standard {}).parse "{% trans from d %} %{{ a }}%{% endtrans %}" =
      .ok [.phrase p] := by
    decide +kernel
  have hout : (m.renderNode (.phrase p) [[("a", .text "%a% ")]]).1.result = .ok "%%a% %" := by
    decide +kernel
  have hclear : ∀ name ∈ p.names, ¬ Mark.lookalike name <:+:
      (p.shownBody nodes (p.count?.bind (m.size? [[("a", .text "%a% ")]]))).flatMap
        Node.marks := by
    decide +kernel
  have hphrase := (toList_of_phrase ⟨rfl, rfl, rfl⟩ hparse _ List.mem_cons_self).self
  obtain ⟨text, htext, hlist⟩ := hphrase p nodes rfl rfl _ _ hclear hout
  refine ⟨hparse, hout, text, ?_, hlist⟩
  exact (Option.some.inj (htext "a" (by decide +kernel))).symm

end Environment

end Polyglot
