import Polyglot.Proofs.FollowedReading
import Polyglot.Proofs.ReadNodes
import Polyglot.Proofs.UnlinedRendering

/-!
Reading the nodes of a text that is followed by more text. A list of nodes that ends before a tag is
read alike on both sides, but for the lines that its phrases remember; so is every tag, and a tag
that was read is never in the final stretch of the text.
-/
namespace Polyglot

namespace Node

open Cursor Reading

variable {more : Sequel} {σ : Scanner} {s s' : Cursor}

/-- What is seen of further cases and a fallback. -/
def casesMeaning (r : List (Expr × List Node) × Option (List Node)) :
    List (Expr × List Meaning) × Option (List Meaning) :=
  (r.1.map caseMeaning, r.2.map meanings)

def countedMeaning (c? : Option (Counted Node)) : Option (Counted Meaning) :=
  c?.map (Counted.map meaning)

/-- What is seen of the parts of a phrase; notes are not. -/
def partsMeaning (p : Parts) : Body Meaning × Option (Counted Meaning) :=
  (p.body.map meaning, countedMeaning p.counted)

/-- The parts make a phrase on one line if they do on another. -/
theorem exists_ofParts {p p' : Parts} (h : partsMeaning p' = partsMeaning p) {domain : Expr}
    {line : Nat} {n : Node} (hn : ofParts p domain line = .ok n) (line' : Nat) :
    ∃ n', ofParts p' domain line' = .ok n' ∧ n'.meaning = n.meaning := by
  obtain ⟨hbody, hcounted⟩ := Prod.mk.inj h
  obtain ⟨hcheck, rfl⟩ := exists_of_ofParts hn
  have hcheck' := Message.check_congr hbody line line'
  rw [hcheck] at hcheck'
  refine ⟨phrase ⟨p'.body, domain, p'.counted, p'.notes, line'⟩, ?_, ?_⟩
  · cases hr : Message.check p'.body line' with
    | error e => rw [hr] at hcheck'; cases hcheck'
    | ok u => rw [ofParts_eq, hr]; rfl
  · exact meaning_phrase hbody rfl hcounted

theorem continues_closing (h : Meets more σ s s') (name : String) :
    Continues more true (·.lexeme) σ (closing name s) (closing name s') :=
  leads_andThen h (continues_expect h (.name name)) fun _ _ _ _ _ _ _ _ hm =>
    continues_expect hm .blockEnd

theorem continues_notes (h : Meets more σ s s') :
    Continues more false id σ (notes s) (notes s') := by
  refine leads_choose h (fun _ t t' ht ht' τ hm => ?_) fun _ _ _ _ _ hm => continues_done hm rfl
  refine leads_closed_andThen (continues_expect hm .blockEnd)
    fun _ _ u u' hu hu' υ _ houtside b hb => ?_
  have hraw : Continues more false id υ (u.raw "endtrans") (u'.raw "endtrans") :=
    continues_raw (by decide) (by decide) houtside
  have hcontent : Continues more false id υ (rawSection "endtrans" u) (rawSection "endtrans" u') :=
    continues_map hraw fun _ _ h => congrArg (fun content => [text content]) h
  have hnotes : Continues more false id υ ((rawSection "endtrans" u).map some)
      ((rawSection "endtrans" u').map some) :=
    continues_map hcontent fun _ _ h => congrArg some h
  exact hnotes.lost_or_found hb

/-- What is read of a text alone is read of the text that is followed by more as well, at a line of
its own, where only phrases have a tag with a rule. -/
def following (more : Sequel) (env : Environment) : Contract where
  nodes stop _ x := ReadsAlong more false meanings x ((readers env).nodes stop)
  tag name _ _ x := ∀ line, ReadsAlong more true meaning x ((readers env).tag name line)
  loopTag _ x := ReadsAlong more true meaning x (readers env).loopTag
  branchTag _ x := ReadsAlong more true meaning x (readers env).branchTag
  guarded _ x := ReadsAlong more false caseMeaning x (readers env).guarded
  furtherCases _ x := ReadsAlong more true casesMeaning x (readers env).furtherCases
  ruledTag rule name _ _ x :=
    rule = .phrase → ∀ line, ReadsAlong more true meaning x ((readers env).ruledTag rule name line)
  parts _ x := ReadsAlong more false partsMeaning x (readers env).parts
  counted _ x := ReadsAlong more false countedMeaning x (readers env).counted

section

variable {env : Environment} {r : Readers}

theorem readsAlong_nodes (h : r.Keep (following more env)) (stop : Stop) (s : Cursor) :
    ReadsAlong more false meanings ((r.calling env).nodes stop s) ((readers env).nodes stop) := by
  intro σ s' hs
  rw [← calling_readers env, Readers.calling_nodes, Readers.calling_nodes]
  refine leads_andThen hs (continues_peek hs) fun token? token?' t t' _ _ τ hkey hm => ?_
  rcases token? with _ | ⟨x, line⟩
  · obtain rfl := Option.map_eq_none_iff.1 hkey
    dsimp only
    split
    · exact continues_done hm rfl
    · exact leads_refuse
  obtain ⟨⟨x', line'⟩, rfl, hx⟩ := Option.map_eq_some_iff.1 hkey
  obtain rfl : x' = x := hx
  cases x' with
  | text content =>
    refine leads_take hm fun _ _ u u' _ _ υ _ hm => ?_
    exact continues_map (h.nodes stop u υ u' hm) fun _ _ hns => congrArg (_ :: ·) hns
  | printStart =>
    refine leads_take hm fun _ _ u u' _ _ υ _ hm => ?_
    refine leads_andThen hm (Expr.readsAlong_read more _ u υ u' hm) fun e _ v v' _ _ φ he hm => ?_
    obtain rfl := he
    refine leads_andThen hm (continues_expect hm _) fun _ _ w w' _ _ ψ _ hm => ?_
    exact continues_map (h.nodes stop w ψ w' hm) fun _ _ hns => congrArg (_ :: ·) hns
  | blockStart =>
    refine leads_take hm fun _ _ u u' _ _ υ _ hm => ?_
    refine leads_andThen hm (continues_tagName hm) fun name name' v v' _ _ φ hname hm => ?_
    obtain rfl : name' = name := hname
    split
    · exact continues_done hm rfl
    · refine leads_take hm fun _ _ w w' _ _ ψ _ hm => ?_
      refine leads_andThen hm (h.tag _ line w line' ψ w' hm) fun n n' x x' _ _ χ hn hm => ?_
      exact continues_map (h.nodes stop x χ x' hm) fun _ _ hns => congrArg₂ (· :: ·) hn hns
  | _ => exact leads_refuse

theorem readsAlong_tag
    (hrules : ∀ name rule, env.tagRule? name = some rule → rule = .phrase)
    (h : r.Keep (following more env)) (name : String) (line : Nat) (s : Cursor) (line' : Nat) :
    ReadsAlong more true meaning ((r.calling env).tag name line s)
      ((readers env).tag name line') := by
  intro σ s' hs
  rw [← calling_readers env]
  dsimp only [Readers.calling]
  split
  · exact h.loopTag s σ s' hs
  split
  · exact h.branchTag s σ s' hs
  split
  · next rule hrule => exact h.ruledTag rule name line s (hrules name rule hrule) line' σ s' hs
  · exact leads_refuse

theorem readsAlong_loopTag (h : r.Keep (following more env)) (s : Cursor) :
    ReadsAlong more true meaning ((r.calling env).loopTag s) (readers env).loopTag := by
  intro σ s' hs
  rw [← calling_readers env]
  dsimp only [Readers.calling]
  refine leads_andThen hs (continues_name hs) fun target _ t t' _ _ τ htarget hm => ?_
  obtain rfl := htarget
  refine leads_andThen hm (continues_expect hm _) fun _ _ u u' _ _ υ _ hm => ?_
  refine leads_andThen hm (Expr.readsAlong_read more _ u υ u' hm) fun e _ v v' _ _ φ he hm => ?_
  obtain rfl := he
  refine leads_andThen hm (continues_expect hm _) fun _ _ w w' _ _ ψ _ hm => ?_
  refine leads_andThen hm (h.nodes _ w ψ w' hm) fun body body' x x' _ _ χ hbody hm => ?_
  exact continues_map (continues_closing hm _) fun _ _ _ => meaning_loop _ _ hbody

theorem readsAlong_branchTag (h : r.Keep (following more env)) (s : Cursor) :
    ReadsAlong more true meaning ((r.calling env).branchTag s) (readers env).branchTag := by
  intro σ s' hs
  rw [← calling_readers env]
  dsimp only [Readers.calling]
  refine leads_andThen hs (h.guarded s σ s' hs) fun first first' t t' _ _ τ hfirst hm => ?_
  refine continues_map (h.furtherCases t τ t' hm) fun x x' hx => ?_
  obtain ⟨hcases, hotherwise⟩ := Prod.mk.inj hx
  exact meaning_branch (congrArg₂ (· :: ·) hfirst hcases) hotherwise

theorem readsAlong_guarded (h : r.Keep (following more env)) (s : Cursor) :
    ReadsAlong more false caseMeaning ((r.calling env).guarded s) (readers env).guarded := by
  intro σ s' hs
  rw [← calling_readers env]
  dsimp only [Readers.calling]
  refine leads_andThen hs (Expr.readsAlong_read more _ s σ s' hs) fun e _ t t' _ _ τ he hm => ?_
  obtain rfl := he
  refine leads_andThen hm (continues_expect hm _) fun _ _ u u' _ _ υ _ hm => ?_
  exact continues_map (h.nodes _ u υ u' hm) fun _ _ hns => congrArg (Prod.mk _) hns

theorem readsAlong_furtherCases (h : r.Keep (following more env)) (s : Cursor) :
    ReadsAlong more true casesMeaning ((r.calling env).furtherCases s)
      (readers env).furtherCases := by
  intro σ s' hs
  rw [← calling_readers env, Readers.calling_furtherCases, Readers.calling_furtherCases]
  refine leads_takeName hs fun name t t' _ _ τ hm => ?_
  split
  · refine leads_andThen hm (h.guarded t τ t' hm) fun c c' u u' _ _ υ hc hm => ?_
    refine continues_map (h.furtherCases u υ u' hm) fun x x' hx => ?_
    obtain ⟨hcases, hotherwise⟩ := Prod.mk.inj hx
    exact Prod.ext (congrArg₂ (· :: ·) hc hcases) hotherwise
  split
  · refine leads_andThen hm (continues_expect hm _) fun _ _ u u' _ _ υ _ hm => ?_
    refine leads_andThen hm (h.nodes _ u υ u' hm) fun body body' v v' _ _ φ hbody hm => ?_
    exact continues_map (continues_closing hm _) fun _ _ _ =>
      congrArg (fun body => ([], some body)) hbody
  split
  · exact continues_map (continues_expect hm .blockEnd) fun _ _ _ => rfl
  · exact leads_refuse

/-- The line of the tag is remembered by the phrase, but not seen. -/
theorem readsAlong_phraseTag (h : r.Keep (following more env)) (name : String) (line : Nat)
    (s : Cursor) (line' : Nat) :
    ReadsAlong more true meaning ((r.calling env).ruledTag .phrase name line s)
      ((readers env).ruledTag .phrase name line') := by
  intro σ s' hs
  rw [← calling_readers env]
  dsimp only [Readers.calling]
  refine leads_andThen hs (continues_expect hs _) fun _ _ t t' _ _ τ _ hm => ?_
  refine leads_andThen hm (Expr.readsAlong_read more _ t τ t' hm)
    fun domain domain' u u' _ _ υ hdomain hm => ?_
  obtain rfl : domain' = domain := hdomain
  refine leads_andThen hm (h.parts u υ u' hm) fun p p' v v' _ _ φ hp hm => ?_
  refine leads_closed_andThen (continues_expect hm .blockEnd)
    fun _ _ w w' _ _ ψ _ houtside n hn => .inr ?_
  cases hparts : ofParts p domain' line with
  | error e => rw [hparts] at hn; cases hn
  | ok m =>
    obtain ⟨m', hparts', hmeaning⟩ := exists_ofParts hp hparts line'
    simp only [hparts, hparts'] at hn ⊢
    cases hn
    exact ⟨m', w', gives_done w' m', isFound_of_outside houtside hmeaning⟩

theorem readsAlong_parts (h : r.Keep (following more env)) (s : Cursor) :
    ReadsAlong more false partsMeaning ((r.calling env).parts s) (readers env).parts := by
  intro σ s' hs
  rw [← calling_readers env]
  dsimp only [Readers.calling]
  refine leads_andThen hs (continues_sees hs _) fun isBlock isBlock' t t' _ _ τ hblock hm => ?_
  obtain rfl : isBlock' = isBlock := hblock
  split
  · refine leads_andThen hm (continues_expect hm _) fun _ _ u u' _ _ υ _ hm => ?_
    refine leads_andThen hm (h.nodes _ u υ u' hm) fun body body' v v' _ _ φ hbody hm => ?_
    refine leads_andThen hm (h.counted v φ v' hm) fun c c' w w' _ _ ψ hc hm => ?_
    refine leads_andThen hm (continues_notes hm) fun _ _ x x' _ _ χ _ hm => ?_
    exact continues_map (continues_expect hm _) fun _ _ _ =>
      Prod.ext (congrArg Body.block hbody) hc
  · exact continues_map (Expr.readsAlong_read more _ t τ t' hm) fun e e' he =>
      Prod.ext (congrArg Body.inline he) rfl

theorem readsAlong_counted (h : r.Keep (following more env)) (s : Cursor) :
    ReadsAlong more false countedMeaning ((r.calling env).counted s) (readers env).counted := by
  intro σ s' hs
  rw [← calling_readers env]
  dsimp only [Readers.calling]
  refine leads_choose hs (fun _ t t' _ _ τ hm => ?_) fun _ _ _ _ _ hm => continues_done hm rfl
  refine leads_andThen hm (Expr.readsAlong_read more _ t τ t' hm)
    fun count count' u u' _ _ υ hcount hm => ?_
  obtain rfl : count' = count := hcount
  refine leads_andThen hm (continues_expect hm _) fun _ _ v v' _ _ φ _ hm => ?_
  exact continues_map (h.nodes _ v φ v' hm) fun _ _ hns =>
    congrArg (fun ns => some (Counted.mk count' (some ns))) hns

theorem refusing_keep_following (more : Sequel) (env : Environment) :
    Readers.refusing.Keep (following more env) where
  nodes _ _ _ _ _ := leads_refuse
  tag _ _ _ _ _ _ _ := leads_refuse
  loopTag _ _ _ _ := leads_refuse
  branchTag _ _ _ _ := leads_refuse
  guarded _ _ _ _ := leads_refuse
  furtherCases _ _ _ _ := leads_refuse
  ruledTag _ _ _ _ _ _ _ _ _ := leads_refuse
  parts _ _ _ _ := leads_refuse
  counted _ _ _ _ := leads_refuse

theorem calling_keep_following
    (hrules : ∀ name rule, env.tagRule? name = some rule → rule = .phrase)
    (h : r.Keep (following more env)) : (r.calling env).Keep (following more env) where
  nodes := readsAlong_nodes h
  tag := readsAlong_tag hrules h
  loopTag := readsAlong_loopTag h
  branchTag := readsAlong_branchTag h
  guarded := readsAlong_guarded h
  furtherCases := readsAlong_furtherCases h
  ruledTag rule name line s hrule := by
    subst hrule
    exact readsAlong_phraseTag h name line s
  parts := readsAlong_parts h
  counted := readsAlong_counted h

end

theorem readers_keep_following (more : Sequel) {env : Environment}
    (hrules : ∀ name rule, env.tagRule? name = some rule → rule = .phrase) :
    (readers env).Keep (following more env) :=
  keep_readers (refusing_keep_following more env) fun _ h => calling_keep_following hrules h

end Node

end Polyglot
