import Polyglot.Proofs.MatchedReadings
import Polyglot.Proofs.ReaderInduction
import Polyglot.Template

/-!
Reading with more tags. An environment that has the options of another one and all its tag rules
reads whatever the other one reads, as the same nodes: a tag that was read had a rule, and a stop or
a built-in tag is recognised before any rule is looked for.
-/
namespace Polyglot

namespace Reading

variable {α β γ : Type} {s : Cursor}

theorem matchedBy_map_eq {r r' : Reading s α} (f : α → β) (h : r.MatchedBy r' Eq) :
    (r.map f).MatchedBy (r'.map f) Eq :=
  matchedBy_map (h.mono fun _ _ hab => congrArg f hab)

theorem matchedBy_andThen_eq {r r' : Reading s α} {Q : β → γ → Prop}
    {next : (a : α) → (t : Cursor) → t.size ≤ s.size → Reading t β}
    {next' : (a : α) → (t : Cursor) → t.size ≤ s.size → Reading t γ} (h : r.MatchedBy r' Eq)
    (hnext : ∀ a t ht, (next a t ht).MatchedBy (next' a t ht) Q) :
    (r.andThen next).MatchedBy (r'.andThen next') Q := by
  refine matchedBy_andThen h fun a b t ht hab => ?_
  subst hab
  exact hnext a t ht

end Reading

namespace Environment

/-- The same options, and a rule for every tag that has one, which is the same. -/
structure ExtendedBy (env env' : Environment) : Prop where
  options : env'.options = env.options
  tagRule? : ∀ name rule, env.tagRule? name = some rule → env'.tagRule? name = some rule

theorem ExtendedBy.printed {env env' : Environment} (h : env.ExtendedBy env') (e : Expr) :
    env'.printed e = env.printed e := by
  have hdecides : env'.decidesEscaping e = env.decidesEscaping e := by
    unfold decidesEscaping
    rw [h.options]
  unfold Environment.printed
  rw [hdecides, h.options]

end Environment

namespace Node

/-- What is read in one environment is read in another one as well, as the same. -/
def sharing (env' : Environment) : Contract where
  nodes stop s x := x.MatchedBy ((readers env').nodes stop s) Eq
  tag name line s x := x.MatchedBy ((readers env').tag name line s) Eq
  loopTag s x := x.MatchedBy ((readers env').loopTag s) Eq
  branchTag s x := x.MatchedBy ((readers env').branchTag s) Eq
  guarded s x := x.MatchedBy ((readers env').guarded s) Eq
  furtherCases s x := x.MatchedBy ((readers env').furtherCases s) Eq
  ruledTag rule name line s x := x.MatchedBy ((readers env').ruledTag rule name line s) Eq
  parts s x := x.MatchedBy ((readers env').parts s) Eq
  counted s x := x.MatchedBy ((readers env').counted s) Eq

variable {env env' : Environment} {r : Readers}

theorem shares_nodes (henv : env.ExtendedBy env') (h : r.Keep (sharing env')) (stop : Stop)
    (s : Cursor) :
    ((r.calling env).nodes stop s).MatchedBy ((readers env').nodes stop s) Eq := by
  rw [← calling_readers env', Readers.calling_nodes, Readers.calling_nodes, henv.options]
  refine Reading.matchedBy_andThen_eq (Reading.matchedBy_refl _) fun token? t _ => ?_
  split
  · exact Reading.matchedBy_refl _
  · refine Cursor.matchedBy_take fun token u _ => ?_
    exact Reading.matchedBy_map_eq _ (h.nodes stop u)
  · refine Cursor.matchedBy_take fun token u _ => ?_
    refine Reading.matchedBy_andThen_eq (Reading.matchedBy_refl _) fun e v _ => ?_
    refine Reading.matchedBy_andThen_eq (Reading.matchedBy_refl _) fun _ w _ => ?_
    rw [henv.printed e]
    exact Reading.matchedBy_map_eq _ (h.nodes stop w)
  · refine Cursor.matchedBy_take fun token u _ => ?_
    refine Reading.matchedBy_andThen_eq (Reading.matchedBy_refl _) fun name v _ => ?_
    split
    · exact Reading.matchedBy_refl _
    · refine Cursor.matchedBy_take fun _ w _ => ?_
      refine Reading.matchedBy_andThen_eq (h.tag _ _ w) fun n x _ => ?_
      exact Reading.matchedBy_map_eq _ (h.nodes stop x)
  · exact Reading.matchedBy_refuse

/-- A tag that has a rule has the same rule in the other environment. -/
theorem shares_tag (henv : env.ExtendedBy env') (h : r.Keep (sharing env')) (name : String)
    (line : Nat) (s : Cursor) :
    ((r.calling env).tag name line s).MatchedBy ((readers env').tag name line s) Eq := by
  rw [← calling_readers env']
  dsimp only [Readers.calling]
  split
  · exact h.loopTag s
  split
  · exact h.branchTag s
  cases hrule : env.tagRule? name with
  | none => exact Reading.matchedBy_refuse
  | some rule =>
    rw [henv.tagRule? name rule hrule]
    exact h.ruledTag rule name line s

theorem shares_loopTag (henv : env.ExtendedBy env') (h : r.Keep (sharing env')) (s : Cursor) :
    ((r.calling env).loopTag s).MatchedBy ((readers env').loopTag s) Eq := by
  rw [← calling_readers env']
  dsimp only [Readers.calling]
  rw [henv.options]
  refine Reading.matchedBy_andThen_eq (Reading.matchedBy_refl _) fun target t _ => ?_
  refine Reading.matchedBy_andThen_eq (Reading.matchedBy_refl _) fun _ u _ => ?_
  refine Reading.matchedBy_andThen_eq (Reading.matchedBy_refl _) fun e v _ => ?_
  refine Reading.matchedBy_andThen_eq (Reading.matchedBy_refl _) fun _ w _ => ?_
  refine Reading.matchedBy_andThen_eq (h.nodes _ w) fun body x _ => ?_
  exact Reading.matchedBy_refl _

theorem shares_branchTag (h : r.Keep (sharing env')) (s : Cursor) :
    ((r.calling env).branchTag s).MatchedBy ((readers env').branchTag s) Eq := by
  rw [← calling_readers env']
  dsimp only [Readers.calling]
  refine Reading.matchedBy_andThen_eq (h.guarded s) fun first t _ => ?_
  exact Reading.matchedBy_map_eq _ (h.furtherCases t)

theorem shares_guarded (henv : env.ExtendedBy env') (h : r.Keep (sharing env')) (s : Cursor) :
    ((r.calling env).guarded s).MatchedBy ((readers env').guarded s) Eq := by
  rw [← calling_readers env']
  dsimp only [Readers.calling]
  rw [henv.options]
  refine Reading.matchedBy_andThen_eq (Reading.matchedBy_refl _) fun e t _ => ?_
  refine Reading.matchedBy_andThen_eq (Reading.matchedBy_refl _) fun _ u _ => ?_
  exact Reading.matchedBy_map_eq _ (h.nodes _ u)

theorem shares_furtherCases (h : r.Keep (sharing env')) (s : Cursor) :
    ((r.calling env).furtherCases s).MatchedBy ((readers env').furtherCases s) Eq := by
  rw [← calling_readers env', Readers.calling_furtherCases, Readers.calling_furtherCases]
  refine Cursor.matchedBy_takeName fun name t _ => ?_
  split
  · refine Reading.matchedBy_andThen_eq (h.guarded t) fun c u _ => ?_
    exact Reading.matchedBy_map_eq _ (h.furtherCases u)
  split
  · refine Reading.matchedBy_andThen_eq (Reading.matchedBy_refl _) fun _ u _ => ?_
    refine Reading.matchedBy_andThen_eq (h.nodes _ u) fun body v _ => ?_
    exact Reading.matchedBy_refl _
  · exact Reading.matchedBy_refl _

theorem shares_ruledTag (henv : env.ExtendedBy env') (h : r.Keep (sharing env'))
    (rule : TagRule) (name : String) (line : Nat) (s : Cursor) :
    ((r.calling env).ruledTag rule name line s).MatchedBy
      ((readers env').ruledTag rule name line s) Eq := by
  rw [← calling_readers env']
  dsimp only [Readers.calling]
  rw [henv.options]
  cases rule with
  | phrase =>
    refine Reading.matchedBy_andThen_eq (Reading.matchedBy_refl _) fun _ t _ => ?_
    refine Reading.matchedBy_andThen_eq (Reading.matchedBy_refl _) fun domain u _ => ?_
    refine Reading.matchedBy_andThen_eq (h.parts u) fun p v _ => ?_
    exact Reading.matchedBy_refl _
  | print => exact Reading.matchedBy_refl _
  | raw => exact Reading.matchedBy_refl _
  | wrap =>
    refine Reading.matchedBy_andThen_eq (Reading.matchedBy_refl _) fun _ t _ => ?_
    refine Reading.matchedBy_andThen_eq (h.nodes _ t) fun content u _ => ?_
    exact Reading.matchedBy_refl _

theorem shares_parts (henv : env.ExtendedBy env') (h : r.Keep (sharing env')) (s : Cursor) :
    ((r.calling env).parts s).MatchedBy ((readers env').parts s) Eq := by
  rw [← calling_readers env']
  dsimp only [Readers.calling]
  rw [henv.options]
  refine Reading.matchedBy_andThen_eq (Reading.matchedBy_refl _) fun isBlock t _ => ?_
  split
  · refine Reading.matchedBy_andThen_eq (Reading.matchedBy_refl _) fun _ u _ => ?_
    refine Reading.matchedBy_andThen_eq (h.nodes _ u) fun body v _ => ?_
    refine Reading.matchedBy_andThen_eq (h.counted v) fun c w _ => ?_
    exact Reading.matchedBy_refl _
  · exact Reading.matchedBy_refl _

theorem shares_counted (henv : env.ExtendedBy env') (h : r.Keep (sharing env')) (s : Cursor) :
    ((r.calling env).counted s).MatchedBy ((readers env').counted s) Eq := by
  rw [← calling_readers env']
  dsimp only [Readers.calling]
  rw [henv.options]
  refine Cursor.matchedBy_choose (fun _ t _ => ?_) fun t _ => ?_
  · refine Reading.matchedBy_andThen_eq (Reading.matchedBy_refl _) fun count u _ => ?_
    refine Reading.matchedBy_andThen_eq (Reading.matchedBy_refl _) fun _ v _ => ?_
    exact Reading.matchedBy_map_eq _ (h.nodes _ v)
  · exact Reading.matchedBy_refl _

theorem refusing_keep_sharing (env' : Environment) : Readers.refusing.Keep (sharing env') where
  nodes _ _ := Reading.matchedBy_refuse
  tag _ _ _ := Reading.matchedBy_refuse
  loopTag _ := Reading.matchedBy_refuse
  branchTag _ := Reading.matchedBy_refuse
  guarded _ := Reading.matchedBy_refuse
  furtherCases _ := Reading.matchedBy_refuse
  ruledTag _ _ _ _ := Reading.matchedBy_refuse
  parts _ := Reading.matchedBy_refuse
  counted _ := Reading.matchedBy_refuse

theorem calling_keep_sharing (henv : env.ExtendedBy env') (h : r.Keep (sharing env')) :
    (r.calling env).Keep (sharing env') where
  nodes := shares_nodes henv h
  tag := shares_tag henv h
  loopTag := shares_loopTag henv h
  branchTag := shares_branchTag h
  guarded := shares_guarded henv h
  furtherCases := shares_furtherCases h
  ruledTag := shares_ruledTag henv h
  parts := shares_parts henv h
  counted := shares_counted henv h

theorem readers_keep_sharing (henv : env.ExtendedBy env') : (readers env).Keep (sharing env') :=
  keep_readers (refusing_keep_sharing env') fun _ h => calling_keep_sharing henv h

end Node

namespace Environment

/-- What an environment reads, every extended one reads as well. -/
theorem ExtendedBy.parse {env env' : Environment} (h : env.ExtendedBy env') {source : String}
    {ns : List Node} (hparse : env.parse source = .ok ns) : env'.parse source = .ok ns := by
  obtain ⟨_, hns, rfl⟩ := (Node.readers_keep_sharing h).nodes .atEnd
    (.ofTemplate source env.options.trimBlocks) ns hparse
  rw [Environment.parse, h.options]
  exact hns.result

end Environment

end Polyglot
