import Polyglot.Proofs.FollowedNodes
import Polyglot.Template

/-!
Templates one after the other. If two templates can be read and neither a tag opens nor a line break
is dropped where they meet, then the template of both can be read, and it renders like the nodes of
the first followed by those of the second. The text in which the first ends and the one with which
the second begins become one node.
-/
namespace Polyglot

namespace Scanner

variable {more : Sequel} {σ : Scanner}

/-- After the last text of all nothing is left. -/
theorem rest_afterText_of_isFinal (hmode : σ.mode = .text) (hfinal : σ.IsFinal) :
    plain σ.rest = σ.rest ∧ σ.afterText.rest = [] := by
  have hplain : plain σ.rest = σ.rest := plain_of_not_within fun d hd => hfinal d (hmode ▸ hd)
  refine ⟨hplain, ?_⟩
  change σ.rest.drop (plain σ.rest).length = []
  rw [hplain, List.drop_length]

/-- After any other text a tag opens. -/
theorem exists_starts_afterText (hmode : σ.mode = .text) (hfinal : ¬ σ.IsFinal) :
    ∃ d ∈ Mode.text.delimiters, d <+: σ.afterText.rest := by
  obtain ⟨d, hd, hwithin⟩ := exists_infix_of_not_isFinal hfinal
  rw [hmode] at hd
  exact exists_starts_drop_plain hd hwithin

theorem not_isFinal_of_starts (hmode : σ.mode = .text) {d : List Char}
    (hd : d ∈ Mode.text.delimiters) (h : d <+: σ.rest) : ¬ σ.IsFinal :=
  fun hfinal => hfinal d (hmode ▸ hd) h.isInfix

/-- Two scanners at the same place, but for the line. -/
theorem eq_with_line {τ : Scanner} (hrest : σ.rest = τ.rest) (hmode : σ.mode = τ.mode)
    (htrims : σ.trims = τ.trims) : σ = { τ with line := σ.line } := by
  obtain ⟨rest, line, mode, trims⟩ := σ
  obtain ⟨rest', line', mode', trims'⟩ := τ
  cases hrest
  cases hmode
  cases htrims
  rfl

theorem fits_nil (trims : Bool) (h : σ.trims = trims) : σ.Fits ⟨[], trims⟩ :=
  ⟨fun _ _ _ he => (nomatch he), fun _ => rfl, h⟩

/-- The text before a tag is the same with more text at the end. -/
theorem afterText_followed (hmode : σ.mode = .text) (hfinal : ¬ σ.IsFinal) (more : Sequel)
    (line : Nat) : plain (σ.followed more line).rest = plain σ.rest ∧
      ∃ line', (σ.followed more line).afterText = σ.afterText.followed more line' := by
  obtain ⟨d, hd, hwithin⟩ := exists_infix_of_not_isFinal hfinal
  rw [hmode] at hd
  have hplain : plain (σ.followed more line).rest = plain σ.rest :=
    plain_append_of_within hd hwithin more.text
  refine ⟨hplain, ?_⟩
  rw [afterText, hplain]
  exact advance_followed (isPrefix_plain σ.rest).length_le more line

/-- The last text goes on in the text that follows. -/
theorem afterText_followed_of_isFinal (hmode : σ.mode = .text) (hfinal : σ.IsFinal)
    (hfits : σ.Fits more) (line : Nat) :
    plain (σ.followed more line).rest = σ.rest ++ plain more.text ∧
      (σ.followed more line).afterText.rest = more.text.drop (plain more.text).length := by
  have hplain : plain (σ.rest ++ more.text) = σ.rest ++ plain more.text :=
    plain_append_of_not_within (fun d hd => hfinal d (hmode ▸ hd)) hfits.apart
  refine ⟨hplain, ?_⟩
  change (σ.rest ++ more.text).drop (plain (σ.rest ++ more.text)).length = _
  rw [hplain, List.length_append, List.drop_length_add_append]

end Scanner

namespace Cursor

theorem result_take {β : Type} {s t : Cursor} {token : Token} (h : s.step = (.ok token, t))
    (k : (token : Token) → (t : Cursor) → t.size < s.size → Reading t β) :
    (s.take k).result = (k token t (size_lt_of_step h)).result := by
  have hnext : s.next.result = .ok token := congrArg Prod.fst h
  obtain rfl : s.next.rest = t := congrArg Prod.snd h
  rw [take, Reading.bind_of_ok hnext]
  rfl

end Cursor

namespace Node

open Cursor Reading Scanner

variable {env : Environment} {more : Sequel} {nb : List Node} {σ : Scanner} {s s' t : Cursor}

theorem result_nodes_of_nil (env : Environment) (hmode : σ.mode = .text) (hrest : σ.rest = [])
    (l : Nat) : (nodes env .atEnd ⟨[], σ, l⟩).result = .ok [] := by
  have hnext : σ.next = (.ok none, σ) := by simp [Scanner.next, hmode, hrest]
  have hpeek : ((Cursor.mk [] σ l).peek 0).result = .ok none := by
    simp [peek, fetch, hnext, Except.map]
  rw [nodes, andThen_of_ok hpeek]
  rfl

theorem result_nodes_of_text (env : Environment) {content : String} {line : Nat}
    (h : s.step = (.ok ⟨.text content, line⟩, t)) :
    (nodes env .atEnd s).result = (nodes env .atEnd t).result.map (text content :: ·) := by
  have hstep := (step_looked s).trans h
  rw [nodes, andThen_of_ok (peek_of_step h)]
  exact result_take hstep fun _ u _ => (nodes env .atEnd u).map (text content :: ·)

/-- Outside tags, the text up to the next tag comes first. An empty text is no node. -/
theorem exists_result_nodes (env : Environment) (hmode : σ.mode = .text) (l : Nat) :
    ∃ l' f, (nodes env .atEnd ⟨[], σ, l⟩).result =
        (nodes env .atEnd ⟨[], σ.afterText, l'⟩).result.map f ∧
      ∀ ns, shown (f ns) = shown (text (String.ofList (plain σ.rest)) :: ns) := by
  by_cases hplain : plain σ.rest = []
  · have hafter : σ.afterText = σ := by simp [afterText, advance, hplain, Blank.lineBreaks]
    refine ⟨l, id, ?_, fun ns => ?_⟩
    · rw [hafter]
      cases (nodes env .atEnd ⟨[], σ, l⟩).result <;> rfl
    · rw [hplain]
      exact (shown_text_nil ns).symm
  · have hstep := (near_fresh σ l).step (next_of_plain hmode hplain)
    exact ⟨σ.line, _, result_nodes_of_text env hstep, fun ns => rfl⟩

/-- What is read from the second cursor renders like what is read from the first, followed by some
nodes. -/
def Joins (env : Environment) (nb : List Node) (s s' : Cursor) : Prop :=
  ∀ ns, (nodes env .atEnd s).result = .ok ns →
    ∃ ms, (nodes env .atEnd s').result = .ok ms ∧ shown ms = shown (ns ++ nb)

theorem Joins.cons (h : Joins env nb s s') {n n' : Node} (hn : n'.meaning = n.meaning) :
    ∀ ns, ((nodes env .atEnd s).map (n :: ·)).result = .ok ns → False ∨
      ∃ ms t', ((nodes env .atEnd s').map (n' :: ·)).Gives ms t' ∧ shown ms = shown (ns ++ nb) := by
  intro ns hns
  cases hr : (nodes env .atEnd s).result with
  | error e => simp [map, hr, Except.map] at hns
  | ok ns₁ =>
    simp only [map, hr, Except.map, Except.ok.injEq] at hns
    subst hns
    obtain ⟨ms₁, hms, hshown⟩ := h ns₁ hr
    exact .inr ⟨n' :: ms₁, _, gives_map (n' :: ·) ⟨hms, rfl⟩, shown_cons_congr hn hshown⟩

/-- What is read after the last text of a template renders like some nodes. -/
def Ends (env : Environment) (more : Sequel) (nb : List Node) : Prop :=
  ∀ σ : Scanner, σ.mode = .text → σ.IsFinal → σ.Fits more → ∀ line l,
    ∃ ms, (nodes env .atEnd ⟨[], σ.followed more line, l⟩).result = .ok ms ∧
      shown ms = shown (text (String.ofList σ.rest) :: nb)

theorem joins_of_isFinal (hends : Ends env more nb) (h : Outside more σ s s')
    (hfinal : σ.IsFinal) : Joins env nb s s' := by
  obtain ⟨l, rfl⟩ := h.fresh
  obtain ⟨l', line, rfl⟩ := h.follows
  intro ns hns
  obtain ⟨hplain, hrest⟩ := rest_afterText_of_isFinal h.mode hfinal
  obtain ⟨l₁, f, hresult, hf⟩ := exists_result_nodes env h.mode l
  rw [hresult, result_nodes_of_nil env (mode_afterText h.mode) hrest] at hns
  cases hns
  obtain ⟨ms, hms, hshown⟩ := hends σ h.mode hfinal h.fits line l'
  have htext : shown (f []) = shown [text (String.ofList σ.rest)] := by rw [hf, hplain]
  exact ⟨ms, hms, hshown.trans (shown_append_congr htext nb).symm⟩

/-- Where a tag opens, what comes after the tag has to be joined. -/
theorem leads_nodes (hrules : ∀ name rule, env.tagRule? name = some rule → rule = .phrase)
    (h : Meets more σ s s') (hfinal : ¬ σ.IsFinal)
    (htext : ∀ token τ, σ.next = (.ok (some token), τ) → ∀ content, token.lexeme ≠ .text content)
    (ih : ∀ t t' τ, t.size < s.size → Outside more τ t t' → Joins env nb t t') :
    Leads σ (fun _ => False) (fun ns _ ms _ => shown ms = shown (ns ++ nb)) (nodes env .atEnd s)
      (nodes env .atEnd s') := by
  rw [nodes, nodes]
  refine leads_peek_andThen h hfinal fun token l t t' ht ht' τ hnext hm => ?_
  have hne := htext token τ hnext
  obtain ⟨x, line⟩ := token
  cases x with
  | text content => exact absurd rfl (hne content)
  | printStart =>
    refine leads_take hm fun _ _ u u' hu hu' υ _ hm => ?_
    refine leads_andThen hm (Expr.readsAlong_read more _ u υ u' hm)
      fun e e' v v' hv hv' φ he hm => ?_
    obtain rfl : e' = e := he
    refine leads_closed_andThen (continues_expect hm .printEnd)
      fun _ _ w w' hw hw' ψ _ houtside => ?_
    exact (ih w w' ψ (by omega) houtside).cons rfl
  | blockStart =>
    refine leads_take hm fun _ _ u u' hu hu' υ _ hm => ?_
    refine leads_andThen hm (continues_tagName hm) fun name name' v v' hv hv' φ hname hm => ?_
    obtain rfl : name' = name := hname
    rw [if_neg (by simp [Stop.includes]), if_neg (by simp [Stop.includes])]
    refine leads_take hm fun _ _ w w' hw hw' ψ _ hm => ?_
    have htag := (readers_keep_following more hrules).tag name' line w l ψ w' hm
    refine leads_closed_andThen htag fun n n' x x' hx hx' χ hn houtside => ?_
    exact (ih x x' χ (by omega) houtside).cons hn
  | _ => exact leads_refuse

/-- Outside tags, what is read from a text with more text at the end is what is read from the text,
and then what comes after its last text. -/
theorem joins (hrules : ∀ name rule, env.tagRule? name = some rule → rule = .phrase)
    (hends : Ends env more nb) (h : Outside more σ s s') : Joins env nb s s' := by
  induction hn : s.size using Nat.strong_induction_on generalizing σ s s' with
  | _ n ih =>
    by_cases hfinal : σ.IsFinal
    · exact joins_of_isFinal hends h hfinal
    obtain ⟨l, rfl⟩ := h.fresh
    obtain ⟨l', line, rfl⟩ := h.follows
    intro ns hns
    -- the text before the next tag is the same on both sides
    obtain ⟨l₁, f, hresult, hf⟩ := exists_result_nodes env h.mode l
    obtain ⟨l₂, f', hresult', hf'⟩ := exists_result_nodes env
      (show (σ.followed more line).mode = .text from h.mode) l'
    obtain ⟨hplain, line', hafter⟩ := afterText_followed h.mode hfinal more line
    obtain ⟨d, hd, hstarts⟩ := exists_starts_afterText h.mode hfinal
    have hmode := mode_afterText h.mode
    have hfits : σ.afterText.Fits more := h.fits.of_suffix (List.drop_suffix _ _) rfl
    have houtside : Outside more σ.afterText ⟨[], σ.afterText, l₁⟩
        ⟨[], σ.afterText.followed more line', l₂⟩ :=
      ⟨hmode, hfits, ⟨l₁, rfl⟩, l₂, line', rfl⟩
    have hle : (Cursor.mk [] σ.afterText l₁).size ≤ n := by
      rw [← hn]
      simp [Cursor.size, afterText, length_advance]
    rw [hresult] at hns
    cases hr : (nodes env .atEnd ⟨[], σ.afterText, l₁⟩).result with
    | error e => rw [hr] at hns; cases hns
    | ok ns₁ =>
      rw [hr] at hns
      cases hns
      have hleads := leads_nodes hrules houtside.meets
        (not_isFinal_of_starts hmode hd hstarts)
        (fun _ _ hnext => lexeme_ne_text_of_starts hmode hd hstarts hnext)
        (fun t t' τ ht ho => ih t.size (by omega) ho rfl)
      obtain ⟨ms, t', hgives, hshown⟩ := (hleads ns₁ hr).resolve_left id |>.2
      refine ⟨f' ms, ?_, ?_⟩
      · rw [hresult', hafter, hgives.result]
        rfl
      · rw [hf', hplain, shown_cons_congr rfl hshown]
        exact shown_append_congr (hf ns₁).symm nb

/-! What comes after the last text. -/

theorem ends_nil (env : Environment) (trims : Bool) : Ends env ⟨[], trims⟩ [] := by
  intro σ hmode hfinal hfits line l
  obtain ⟨hplain, hrest⟩ := afterText_followed_of_isFinal hmode hfinal hfits line
  have hmode' : (σ.followed ⟨[], trims⟩ line).mode = .text := hmode
  have htext : plain (σ.followed ⟨[], trims⟩ line).rest = σ.rest := by
    rw [hplain]
    exact List.append_nil σ.rest
  obtain ⟨l', f, hresult, hf⟩ := exists_result_nodes env hmode' l
  have hafter : (σ.followed ⟨[], trims⟩ line).afterText.rest = [] := by
    rw [hrest]
    exact List.drop_nil
  rw [result_nodes_of_nil env (mode_afterText hmode') hafter] at hresult
  exact ⟨f [], hresult, by rw [hf, htext]⟩

/-- Outside tags, the line does not matter to what is read, but for errors. -/
theorem exists_result_of_line (hrules : ∀ name rule, env.tagRule? name = some rule → rule = .phrase)
    {σ' : Scanner} (hmode : σ.mode = .text)
    (hσ : σ' = { σ with line := σ'.line }) {l : Nat} {ns : List Node}
    (h : (nodes env .atEnd ⟨[], σ, l⟩).result = .ok ns) (l' : Nat) :
    ∃ ms, (nodes env .atEnd ⟨[], σ', l'⟩).result = .ok ms ∧ shown ms = shown ns := by
  have hfollowed : σ' = σ.followed ⟨[], σ.trims⟩ σ'.line := by
    rw [Scanner.followed, List.append_nil]
    exact hσ
  have houtside : Outside ⟨[], σ.trims⟩ σ ⟨[], σ, l⟩ ⟨[], σ', l'⟩ :=
    ⟨hmode, fits_nil _ rfl, ⟨l, rfl⟩, l', σ'.line, by rw [← hfollowed]⟩
  obtain ⟨ms, hms, hshown⟩ := joins hrules (ends_nil env σ.trims) houtside ns h
  rw [List.append_nil] at hshown
  exact ⟨ms, hms, hshown⟩

/-- The last text and the first one of what follows are read as one. -/
theorem ends_of_result (hrules : ∀ name rule, env.tagRule? name = some rule → rule = .phrase)
    {cs : List Char} {trims : Bool} {line l : Nat}
    (h : (nodes env .atEnd ⟨[], ⟨cs, line, .text, trims⟩, l⟩).result = .ok nb) :
    Ends env ⟨cs, trims⟩ nb := by
  intro σ hmode hfinal hfits line' l'
  have htext : (Scanner.mk cs line .text trims).mode = .text := rfl
  obtain ⟨l₁, f, hresult, hf⟩ := exists_result_nodes env htext l
  rw [hresult] at h
  cases hr : (nodes env .atEnd ⟨[], (Scanner.mk cs line .text trims).afterText, l₁⟩).result with
  | error e => rw [hr] at h; cases h
  | ok nb₁ =>
    rw [hr] at h
    cases h
    have hmode' : (σ.followed ⟨cs, trims⟩ line').mode = .text := hmode
    obtain ⟨hplain, hrest⟩ := afterText_followed_of_isFinal hmode hfinal hfits line'
    obtain ⟨l₂, f', hresult', hf'⟩ := exists_result_nodes env hmode' l'
    -- after both texts the two are at the same place, but for the line
    have hrest' : (σ.followed ⟨cs, trims⟩ line').afterText.rest =
        (Scanner.mk cs line .text trims).afterText.rest := hrest
    obtain ⟨ms, hms, hshown⟩ := exists_result_of_line hrules
      (mode_afterText htext) (eq_with_line hrest' hmode hfits.trims) hr l₂
    refine ⟨f' ms, ?_, ?_⟩
    · rw [hresult', hms]
      rfl
    · rw [hf', hplain, String.ofList_append, shown_text_append]
      exact shown_cons_congr rfl ((shown_cons_congr rfl hshown).trans (hf nb₁).symm)

end Node

namespace Environment

open Scanner

/-- Two texts that open no tag where they meet, of which the second does not begin with a line break
if that could be dropped. -/
theorem fits_ofTemplate {a b : String} {trims : Bool}
    (hseam : ¬ (a.toList.getLast? = some '\x7b' ∧
      (b.toList.head? = some '\x7b' ∨ b.toList.head? = some '%')))
    (hbreak : trims = false ∨ ¬ ['\n'] <+: b.toList ∧ ¬ ['\r', '\n'] <+: b.toList) :
    (Scanner.ofTemplate a trims).Fits ⟨b.toList, trims⟩ := by
  refine ⟨fun c e hlast hhead hmem => ?_, fun htrims => ?_, rfl⟩
  · have hc : a.toList.getLast? = some c := by
      obtain ⟨w, hw⟩ := hlast
      have hw' : w ++ [c] = a.toList := hw
      rw [← hw']
      exact List.getLast?_concat
    simp only [Mode.delimiters, List.mem_cons, List.not_mem_nil, or_false] at hmem
    rcases hmem with hmem | hmem
    · cases hmem
      exact hseam ⟨hc, .inr hhead⟩
    · cases hmem
      exact hseam ⟨hc, .inl hhead⟩
  · have htrims' : trims = true := htrims
    obtain ⟨hfeed, hboth⟩ := hbreak.resolve_left (by rw [htrims']; decide)
    unfold breakLength
    split
    · next rest hrest => exact absurd ⟨rest, hrest.symm⟩ hfeed
    · next rest hrest => exact absurd ⟨rest, hrest.symm⟩ hboth
    · rfl

/-- The template of two templates is read, and shows the nodes of the one and then those of the
other. -/
theorem exists_parse_append {options : Options} {a b : String} {na nb : List Node}
    (ha : (standard options).parse a = .ok na) (hb : (standard options).parse b = .ok nb)
    (hseam : ¬ (a.toList.getLast? = some '\x7b' ∧
      (b.toList.head? = some '\x7b' ∨ b.toList.head? = some '%')))
    (hbreak : options.trimBlocks = false ∨
      ¬ ['\n'] <+: b.toList ∧ ¬ ['\r', '\n'] <+: b.toList) :
    ∃ ms, (standard options).parse (a ++ b) = .ok ms ∧ Node.shown ms = Node.shown (na ++ nb) := by
  have hrules : ∀ name rule, (standard options).tagRule? name = some rule → rule = .phrase :=
    fun _ _ hrule => phrase_of_tagRule? options hrule
  have hfits := fits_ofTemplate hseam hbreak
  have houtside : Cursor.Outside ⟨b.toList, options.trimBlocks⟩
      (.ofTemplate a options.trimBlocks) (.ofTemplate a options.trimBlocks)
      (.ofTemplate (a ++ b) options.trimBlocks) := by
    refine ⟨rfl, hfits, ⟨1, rfl⟩, 1, 1, ?_⟩
    simp [Cursor.ofTemplate, ofTemplate, followed, String.toList_append]
  exact Node.joins hrules (Node.ends_of_result hrules hb) houtside na ha

end Environment

end Polyglot
