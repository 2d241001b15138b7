import Mathlib.Data.List.Nodup
import Polyglot.Proofs.RestoredPrints

/-!
The shape of the call that a phrase stands for. Its first argument is the message, or the messages
for one and for many, its last one maps the placeholder of every printed variable to a value. Each
variable has one entry, in the order in which the variables are printed first, and its first print
also decides whether its value is escaped.
-/
namespace Polyglot

/-- Some words stand in a text one after another, with anything in between. -/
inductive InOrder : List String → List Char → Prop
  | nil (cs : List Char) : InOrder [] cs
  | cons {w : String} {ws : List String} {cs : List Char} (before : List Char)
      (h : InOrder ws cs) : InOrder (w :: ws) (before ++ w.toList ++ cs)

namespace InOrder

variable {w : String} {ws : List String} {cs : List Char}

theorem prepend (h : InOrder ws cs) (before : List Char) : InOrder ws (before ++ cs) := by
  cases h with
  | nil => exact .nil _
  | cons between h =>
    rw [← List.append_assoc, ← List.append_assoc]
    exact .cons _ h

theorem isInfix (h : InOrder ws cs) (hw : w ∈ ws) : w.toList <:+: cs := by
  induction h with
  | nil => exact absurd hw List.not_mem_nil
  | cons before h ih =>
    rcases List.mem_cons.1 hw with rfl | hw
    · exact List.infix_append _ _ _
    · exact (ih hw).trans (List.suffix_append _ _).isInfix

end InOrder

namespace Mark

def hole? : Mark → Option String
  | char _ => none
  | hole n => some n

theorem filterMap_hole?_dropWhile (ms : List Mark) :
    (ms.dropWhile isMargin).filterMap hole? = ms.filterMap hole? := by
  induction ms with
  | nil => rfl
  | cons mark ms ih =>
    cases mark with
    | char c =>
      by_cases hc : isMargin (char c) = true
      · rw [List.dropWhile_cons_of_pos hc, ih]
        rfl
      · rw [List.dropWhile_cons_of_neg hc]
    | hole n => rw [List.dropWhile_cons_of_neg (by simp [isMargin])]

/-- No hole is a margin. -/
theorem filterMap_hole?_trim (ms : List Mark) :
    (trim ms).filterMap hole? = ms.filterMap hole? := by
  rw [trim, List.filterMap_reverse, filterMap_hole?_dropWhile, List.filterMap_reverse,
    List.reverse_reverse, filterMap_hole?_dropWhile]

theorem inOrder_flatMap_spelled (ms : List Mark) :
    InOrder ((ms.filterMap hole?).map fun n => "%" ++ n ++ "%") (ms.flatMap spelled) := by
  induction ms with
  | nil => exact .nil _
  | cons mark ms ih =>
    cases mark with
    | char c => exact ih.prepend [c]
    | hole n => simpa [hole?, spelled] using InOrder.cons (w := "%" ++ n ++ "%") [] ih

end Mark

namespace Message

/-- The names of the variables that some nodes print, in order. -/
def printedNames (nodes : List Node) : List String := (nodes.filterMap (·.var?)).map (·.name)

/-- A text is what some nodes contribute to a message, before its margins are dropped. -/
inductive Untrimmed : List Node → List Char → Prop
  | nil : Untrimmed [] []
  | text {s : String} {nodes : List Node} {cs : List Char} (h : Untrimmed nodes cs) :
      Untrimmed (.text s :: nodes) (s.toList ++ cs)
  | print {e : Expr} {n : String} {nodes : List Node} {cs : List Char}
      (hn : variableName? e = some n) (h : Untrimmed nodes cs) :
      Untrimmed (.print e :: nodes) (("%" ++ n ++ "%").toList ++ cs)

/-- A text is the message of some nodes, which has all their placeholders. -/
structure IsMessage (nodes : List Node) (s : String) : Prop where
  trimmed : ∃ cs, Untrimmed nodes cs ∧ s.toList = Blank.trim isMargin cs
  placeholders : InOrder ((printedNames nodes).map fun n => "%" ++ n ++ "%") s.toList

theorem untrimmed_of_pieces? {nodes : List Node} {ps : List Piece} (h : pieces? nodes = some ps) :
    Untrimmed nodes (String.join (ps.map (·.shown))).toList := by
  rw [String.toList_join]
  induction nodes generalizing ps with
  | nil =>
    cases h
    exact .nil
  | cons n nodes ih =>
    rw [pieces?] at h
    obtain ⟨p, hp, h⟩ := Option.bind_eq_some_iff.1 h
    obtain ⟨qs, hqs, h⟩ := Option.bind_eq_some_iff.1 h
    cases h
    rw [List.map_cons, List.flatMap_cons]
    cases n with
    | text s =>
      cases hp
      exact .text (ih hqs)
    | print e =>
      obtain ⟨name, hname, rfl⟩ := Option.map_eq_some_iff.1 hp
      exact .print hname (ih hqs)
    | loop target items body => cases hp
    | branch cases otherwise => cases hp
    | phrase q => cases hp

theorem Untrimmed.variable_of_print {nodes : List Node} {cs : List Char} (h : Untrimmed nodes cs)
    {e : Expr} (he : .print e ∈ nodes) : ∃ n, variableName? e = some n := by
  induction h with
  | nil => exact absurd he List.not_mem_nil
  | text h ih =>
    rcases List.mem_cons.1 he with heq | he
    · cases heq
    · exact ih he
  | print hn h ih =>
    rcases List.mem_cons.1 he with heq | he
    · cases heq
      exact ⟨_, hn⟩
    · exact ih he

theorem filterMap_hole?_marks (nodes : List Node) :
    (nodes.flatMap Node.marks).filterMap Mark.hole? = printedNames nodes := by
  induction nodes with
  | nil => rfl
  | cons n nodes ih =>
    rw [List.flatMap_cons, List.filterMap_append, ih]
    cases n with
    | text s => simp [Node.marks, printedNames, Node.var?, Mark.hole?, Function.comp_def]
    | print e =>
      cases hn : variableName? e <;>
        simp [Node.marks, printedNames, Node.var?, Mark.hole?, hn]
    | loop target items body => rfl
    | branch cases otherwise => rfl
    | phrase q => rfl

theorem isMessage_of_ofNodes {nodes : List Node} {line : Nat} {x : Extracted}
    (h : ofNodes nodes line = .ok x) : ∃ s, x.message = .literal s ∧ IsMessage nodes s := by
  obtain ⟨ps, hps, rfl⟩ := eq_ofPieces h
  refine ⟨_, rfl, ⟨_, untrimmed_of_pieces? hps, by rw [trim, String.toList_ofList]⟩, ?_⟩
  have htext : text? nodes = some (trim (String.join (ps.map (·.shown)))) := by rw [text?, hps]; rfl
  rw [toList_of_text? htext, ← filterMap_hole?_marks, ← Mark.filterMap_hole?_trim]
  exact Mark.inOrder_flatMap_spelled _

end Message

namespace Variable

/-- The variables of a list are named by its names without repetitions. -/
theorem map_name_union (vs : List Variable) :
    (union [] vs).map (·.name) = (vs.map (·.name)).eraseDups := by
  induction vs using List.reverseRecOn with
  | nil => rfl
  | append_singleton vs v ih =>
    rw [union_append, List.map_append, List.eraseDups_append, ← ih]
    change (add (union [] vs) v).map (·.name) = _
    by_cases hv : v.name ∈ vs.map (·.name)
    · have helem : List.elem v.name (vs.map (·.name)) = true := List.elem_eq_true_of_mem hv
      rw [add_of_mem (mem_names_union.2 (.inr hv))]
      simp only [List.removeAll, List.map_cons, List.map_nil, List.filter_cons, helem]
      simp
    · have helem : List.elem v.name (vs.map (·.name)) = false := by simpa using hv
      have hnew : v.name ∉ (union [] vs).map (·.name) := by simpa [mem_names_union] using hv
      rw [add_of_not_mem hnew, List.map_append]
      simp only [List.removeAll, List.map_cons, List.map_nil, List.filter_cons, helem]
      rfl

end Variable

namespace Node

/-- The expression of a node that prints a given variable. -/
def printOf? (n : String) : Node → Option Expr
  | print e => if Message.variableName? e = some n then some e else none
  | _ => none

theorem printOf?_of_var? {node : Node} {v : Variable} (h : node.var? = some v) (n : String) :
    ∃ e, node.printOf? n = (if v.name = n then some e else none) ∧ v.raw = !e.isFilter := by
  cases node with
  | print e =>
    obtain ⟨m, hm, rfl⟩ := Option.map_eq_some_iff.1 h
    exact ⟨e, by simp [printOf?, hm], rfl⟩
  | text s => cases h
  | loop target items body => cases h
  | branch cases otherwise => cases h
  | phrase q => cases h

theorem printOf?_of_no_var? {node : Node} (h : node.var? = none) (n : String) :
    node.printOf? n = none := by
  cases node with
  | print e => simp [printOf?, Option.map_eq_none_iff.1 h]
  | text s => rfl
  | loop target items body => rfl
  | branch cases otherwise => rfl
  | phrase q => rfl

/-- The first variable of a name is the one that is printed first. -/
theorem findSome?_printOf? {nodes : List Node} {n : String} {v : Variable}
    (h : (nodes.filterMap (·.var?)).find? (·.name == n) = some v) :
    ∃ e, nodes.findSome? (·.printOf? n) = some e ∧ v.raw = !e.isFilter := by
  induction nodes with
  | nil => cases h
  | cons node nodes ih =>
    cases hvar : node.var? with
    | none =>
      rw [List.filterMap_cons_none hvar] at h
      rw [List.findSome?_cons, printOf?_of_no_var? hvar]
      exact ih h
    | some w =>
      obtain ⟨e, he, hraw⟩ := printOf?_of_var? hvar n
      rw [List.filterMap_cons_some hvar] at h
      rw [List.findSome?_cons, he]
      by_cases hw : w.name = n
      · rw [List.find?_cons_of_pos (by simpa using hw)] at h
        cases h
        exact ⟨e, by rw [if_pos hw], hraw⟩
      · rw [List.find?_cons_of_neg (by simpa using hw)] at h
        rw [if_neg hw]
        exact ih h

end Node

/-- An expression is the message of a singular body. -/
def Body.IsMessage : Body Node → Expr → Prop
  | .inline e, m => m = e
  | .block nodes, m => ∃ s, m = .text s ∧ Message.IsMessage nodes s

namespace Phrase

/-- The first print of a variable, in the singular body before the plural one. -/
def firstPrint? (p : Phrase Node) (n : String) : Option Expr :=
  p.bodies.flatten.findSome? (·.printOf? n)

/-- An expression is the value for a variable: the size of the count, the variable, or the variable
escaped. -/
inductive IsValue (p : Phrase Node) (targets : Targets) (n : String) : Expr → Prop
  | count {count : Expr} (hn : n = "count") (hcount : p.count? = some count) :
      IsValue p targets n (.call "abs" [count])
  | raw {e : Expr} (hn : n = "count" → p.count? = none) (he : p.firstPrint? n = some e)
      (hraw : e.isFilter = false) : IsValue p targets n (.name n)
  | escaped {e : Expr} (hn : n = "count" → p.count? = none) (he : p.firstPrint? n = some e)
      (hraw : e.isFilter = true) : IsValue p targets n (targets.escape (.name n))

/-- The entries of the last argument, by the messages that they are filled into. -/
structure Replaces (p : Phrase Node) (targets : Targets) (messages : List Expr)
    (entries : List (Expr × Expr)) : Prop where
  keys : entries.map (·.1) = p.names.eraseDups.map fun n => .text ("%" ++ n ++ "%")
  nodup : (entries.map (·.1)).Nodup
  occurs : ∀ n ∈ p.names, ∃ s, .text s ∈ messages ∧ ("%" ++ n ++ "%").toList <:+: s.toList
  value : ∀ n v, (.text ("%" ++ n ++ "%"), v) ∈ entries → p.IsValue targets n v

/-- The last argument is left out exactly if no variable is printed. -/
inductive IsLast (p : Phrase Node) (targets : Targets) (messages : List Expr) : List Expr → Prop
  | none (h : ∀ body ∈ p.bodies, ∀ e, .print e ∉ body) : IsLast p targets messages []
  | map {entries : List (Expr × Expr)} (h : ∃ body ∈ p.bodies, ∃ e, .print e ∈ body)
      (hentries : p.Replaces targets messages entries) : IsLast p targets messages [.map entries]

/-- The shape of a call, by whether there is a plural body. -/
inductive IsShapedAs (p : Phrase Node) (targets : Targets) : Expr → Prop
  | single {m : Expr} {last : List Expr} (hplural : p.plural? = none) (hm : p.body.IsMessage m)
      (hlast : p.IsLast targets [m] last) :
      IsShapedAs p targets (.call targets.translate ([m, p.domain] ++ last))
  | plural {plural : List Node} {count m : Expr} {s : String} {last : List Expr}
      (hplural : p.plural? = some plural) (hcount : p.count? = some count)
      (hm : p.body.IsMessage m) (hs : Message.IsMessage plural s)
      (hlast : p.IsLast targets [m, .text s] last) :
      IsShapedAs p targets (.call targets.translatePlural
        ([.list [m, .text s], p.domain, .call "abs" [count]] ++ last))

variable {p : Phrase Node} {targets : Targets}

theorem map_name_vars (p : Phrase Node) : p.vars.map (·.name) = p.names.eraseDups :=
  Variable.map_name_union p.occurrences

/-- A name is printed in one of the bodies. -/
theorem mem_names_iff {n : String} :
    n ∈ p.names ↔ ∃ body ∈ p.bodies, n ∈ Message.printedNames body := by
  simp only [names, occurrences, Message.printedNames, List.mem_map, List.mem_filterMap,
    List.mem_flatten]
  constructor
  · rintro ⟨v, ⟨node, ⟨body, hbody, hnode⟩, hv⟩, rfl⟩
    exact ⟨body, hbody, v, ⟨node, hnode, hv⟩, rfl⟩
  · rintro ⟨body, hbody, v, ⟨node, hnode, hv⟩, rfl⟩
    exact ⟨v, ⟨node, ⟨body, hbody, hnode⟩, hv⟩, rfl⟩

theorem isValue_value {v : Variable} (hv : v ∈ p.vars) :
    p.IsValue targets v.name (value p.count? targets v) := by
  obtain ⟨e, he, hraw⟩ := Node.findSome?_printOf? (find?_of_mem_vars hv)
  have hplain : (v.name = "count" → p.count? = none) →
      p.IsValue targets v.name
        (if v.raw then .name v.name else targets.escape (.name v.name)) := by
    intro hn
    cases hfilter : e.isFilter with
    | false =>
      rw [hfilter] at hraw
      rw [if_pos (by simpa using hraw)]
      exact .raw hn he hfilter
    | true =>
      rw [hfilter] at hraw
      rw [if_neg (by simp [hraw])]
      exact .escaped hn he hfilter
  unfold value
  split
  · next count hcount =>
    split
    · next hn => exact .count hn hcount
    · next hn => exact hplain fun h => absurd h hn
  · next hcount => exact hplain fun _ => hcount

theorem replaces_vars {messages : List Expr}
    (h : ∀ body ∈ p.bodies, ∃ s, .text s ∈ messages ∧ Message.IsMessage body s) :
    p.Replaces targets messages
      (p.vars.map fun v => (.text v.placeholder, value p.count? targets v)) where
  keys := by
    rw [← map_name_vars, List.map_map, List.map_map]
    rfl
  nodup := by
    rw [List.map_map]
    refine List.Nodup.map_on (fun v hv w hw heq => ?_) (List.Nodup.of_map _ nodup_names_vars)
    have hname := Variable.placeholder_injective (Scalar.text.inj (Expr.literal.inj heq))
    have hfind := Variable.find?_of_mem nodup_names_vars hv
    rw [hname, Variable.find?_of_mem nodup_names_vars hw] at hfind
    exact (Option.some.inj hfind).symm
  occurs := by
    intro n hn
    obtain ⟨body, hbody, hn⟩ := mem_names_iff.1 hn
    obtain ⟨s, hs, hmessage⟩ := h body hbody
    exact ⟨s, hs, hmessage.placeholders.isInfix (List.mem_map.2 ⟨n, hn, rfl⟩)⟩
  value := by
    intro n x hx
    obtain ⟨v, hv, heq⟩ := List.mem_map.1 hx
    obtain ⟨htext, rfl⟩ := Prod.mk.inj heq
    have hname : v.name = n := by
      have hplaceholder := Scalar.text.inj (Expr.literal.inj htext)
      exact Variable.placeholder_injective (w := ⟨n, v.raw⟩) hplaceholder
    exact hname ▸ isValue_value hv

theorem isLast_replacements {messages : List Expr}
    (h : ∀ body ∈ p.bodies, ∃ s, .text s ∈ messages ∧ Message.IsMessage body s) :
    p.IsLast targets messages (replacements p.count? targets p.vars) := by
  unfold replacements
  split
  · next hempty =>
    have hnames : p.names.eraseDups = [] := by
      rw [← map_name_vars, List.isEmpty_iff.1 hempty]
      rfl
    refine .none fun body hbody e he => ?_
    obtain ⟨s, _, hmessage⟩ := h body hbody
    obtain ⟨cs, hcs, _⟩ := hmessage.trimmed
    obtain ⟨n, hn⟩ := hcs.variable_of_print he
    have hprinted : n ∈ Message.printedNames body := by
      refine List.mem_map.2 ⟨⟨n, !e.isFilter⟩, List.mem_filterMap.2 ⟨_, he, ?_⟩, rfl⟩
      simp [Node.var?, hn]
    have hmem := List.mem_eraseDups.2 (mem_names_iff.2 ⟨body, hbody, hprinted⟩)
    rw [hnames] at hmem
    exact absurd hmem List.not_mem_nil
  · next hempty =>
    refine .map ?_ (replaces_vars h)
    cases hvars : p.vars with
    | nil => simp [hvars] at hempty
    | cons v vs =>
      have hv : v ∈ p.vars := by simp [hvars]
      obtain ⟨body, hbody, hprinted⟩ := mem_names_iff.1 (name_mem_of_mem_vars hv)
      obtain ⟨w, hw, _⟩ := List.mem_map.1 hprinted
      obtain ⟨node, hnode, hvar⟩ := List.mem_filterMap.1 hw
      cases node with
      | print e => exact ⟨body, hbody, e, hnode⟩
      | text s => cases hvar
      | loop target items body => cases hvar
      | branch cases otherwise => cases hvar
      | phrase q => cases hvar

theorem isMessage_of_ofBody {body : Body Node} {line : Nat} {x : Extracted}
    (h : Message.ofBody body line = .ok x) : body.IsMessage x.message.toExpr := by
  cases body with
  | inline e =>
    unfold Message.ofBody at h
    dsimp only at h
    split at h
    · cases h
      rfl
    · cases h
  | block nodes =>
    obtain ⟨s, hs, hmessage⟩ := Message.isMessage_of_ofNodes h
    exact ⟨s, by rw [hs]; rfl, hmessage⟩

/-- The bodies in which nodes stand are those whose messages are texts. -/
theorem exists_message_of_mem_bodies {m : Expr} {others : List Expr} (hm : p.body.IsMessage m)
    (hothers : ∀ plural ∈ p.plural?, ∃ s, .text s ∈ others ∧ Message.IsMessage plural s) :
    ∀ body ∈ p.bodies, ∃ s, .text s ∈ m :: others ∧ Message.IsMessage body s := by
  have hplural : ∀ body ∈ p.plural?.toList, ∃ s, .text s ∈ m :: others ∧
      Message.IsMessage body s := by
    intro body hbody
    obtain ⟨s, hs, hmessage⟩ := hothers body (Option.mem_toList.1 hbody)
    exact ⟨s, List.mem_cons_of_mem _ hs, hmessage⟩
  intro body hbody
  unfold bodies at hbody
  split at hbody
  · exact hplural body hbody
  · next nodes hnodes =>
    rw [hnodes] at hm
    obtain ⟨s, rfl, hmessage⟩ := hm
    rcases List.mem_cons.1 hbody with rfl | hbody
    · exact ⟨s, List.mem_cons_self, hmessage⟩
    · exact hplural body hbody

/-- Whenever a phrase has a call, the call has this shape. -/
theorem isShapedAs_of_call {p : Phrase Node} {targets : Targets} {e : Expr}
    (h : p.call targets = .ok e) : p.IsShapedAs targets e := by
  obtain ⟨x, hx, hcases⟩ := call_eq h
  have hm := isMessage_of_ofBody hx
  rcases hcases with ⟨count, plural, y, hcount, hplural, hy, rfl⟩ | ⟨hnone, rfl⟩
  · obtain ⟨s, hs, hmessage⟩ := Message.isMessage_of_ofNodes hy
    have hothers : ∀ body ∈ p.plural?, ∃ s', .text s' ∈ [Expr.text s] ∧
        Message.IsMessage body s' := by
      intro body hbody
      rw [hplural] at hbody
      cases hbody
      exact ⟨s, List.mem_cons_self, hmessage⟩
    rw [hs]
    exact .plural hplural hcount hm hmessage
      (isLast_replacements (exists_message_of_mem_bodies hm hothers))
  · have hothers : ∀ body ∈ p.plural?, ∃ s, .text s ∈ ([] : List Expr) ∧
        Message.IsMessage body s := by
      intro body hbody
      rw [hnone] at hbody
      cases hbody
    exact .single hnone hm (isLast_replacements (exists_message_of_mem_bodies hm hothers))

/-- The user is printed raw first and escaped later, and the count is mapped to its size. -/
theorem isShapedAs_of_call_plural :
    let p : Phrase Node := {
      body := .block [.print (.name "user"), .text " has one \n"]
      domain := .text "shop"
      counted := some ⟨.name "total", some [.print (.filter (.name "user") "upper" []),
        .text ": ", .print (.checked (.name "cart")), .print (.filter (.name "count") "e" [])]⟩
      notes := none
      line := 1 }
    let targets : Targets := ⟨"one", "many", fun e => .call "html" [e]⟩
    let e : Expr := .call "many" [.list [.text "%user% has one", .text "%user%: %cart%%count%"],
      .text "shop", .call "abs" [.name "total"],
      .map [(.text "%user%", .name "user"), (.text "%cart%", .name "cart"),
        (.text "%count%", .call "abs" [.name "total"])]]
    p.call targets = .ok e ∧ p.IsShapedAs targets e := by
  intro p targets e
  have hcall : p.call targets = .ok e := by rfl
  exact ⟨hcall, isShapedAs_of_call hcall⟩

end Phrase

end Polyglot
