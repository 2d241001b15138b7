import Polyglot.Proofs.ErasedChecks
import Polyglot.Proofs.MatchedReadings
import Polyglot.Proofs.ReaderInduction
import Polyglot.Template

/-!
Reading with and without checks, side by side. Where a reader that adds checks succeeds, the one
that adds none reads the same tokens and gives the same tree without the checks, if that holds of
the readers that it calls.
-/
namespace Polyglot

namespace Expr

/-- A guarded expression, and the same one without its checks. -/
def Erases (e e' : Expr) : Prop := e.Guarded ∧ e' = e.erased

def ErasesItems (es es' : List Expr) : Prop := GuardedItems es ∧ es' = erasedItems es

def ErasesEntries (es es' : List (Expr × Expr)) : Prop :=
  GuardedEntries es ∧ es' = erasedEntries es

theorem erases_filtered {e : Expr} {n : String} {args args' : List Expr} (he : e.Guarded)
    (hargs : ErasesItems args args') :
    Erases (filtered true e n args) (filtered false e.erased n args') := by
  obtain ⟨hguarded, rfl⟩ := hargs
  exact ⟨⟨he, hguarded⟩, rfl⟩

theorem erases_ofName (n : String) : Erases (ofName n) (ofName n) := by
  unfold ofName
  split <;> exact ⟨trivial, rfl⟩

/-- What is read with checks is read without them as well. -/
def erasing : Contract where
  level l s x := x.MatchedBy ((readers false).level l s) Erases
  operators l e s x := e.Guarded → x.MatchedBy ((readers false).operators l e.erased s) Erases
  filters e s x := e.Guarded → x.MatchedBy ((readers false).filters e.erased s) Erases
  selectors e s x := e.Guarded → x.MatchedBy ((readers false).selectors e.erased s) Erases
  primary s x := x.MatchedBy ((readers false).primary s) Erases
  arguments close s x := x.MatchedBy ((readers false).arguments close s) ErasesItems
  items s x := x.MatchedBy ((readers false).items s) ErasesItems
  pairs s x := x.MatchedBy ((readers false).pairs s) ErasesEntries
  entries s x := x.MatchedBy ((readers false).entries s) ErasesEntries

variable {r : Readers}

theorem matchedBy_level (h : r.Keep erasing) (l : Level) (s : Cursor) :
    ((r.calling true).level l s).MatchedBy ((readers false).level l s) Erases := by
  rw [← calling_readers false]
  dsimp only [Readers.calling]
  refine Cursor.matchedBy_choose (fun op t _ => ?_) fun t _ => ?_
  · refine Reading.matchedBy_map ((h.level l t).mono ?_)
    rintro e _ ⟨he, rfl⟩
    exact ⟨he, rfl⟩
  · by_cases hl : l = .sign
    · rw [dif_pos hl, dif_pos hl]
      refine Reading.matchedBy_andThen (h.primary t) fun e e' u _ he => ?_
      obtain ⟨he, rfl⟩ := he
      refine Reading.matchedBy_andThen (h.selectors e u he) fun e e' v _ he => ?_
      obtain ⟨he, rfl⟩ := he
      exact h.filters e v he
    · rw [dif_neg hl, dif_neg hl]
      refine Reading.matchedBy_andThen (h.level l.tighter t) fun e e' u _ he => ?_
      obtain ⟨he, rfl⟩ := he
      exact h.operators l e u he

theorem matchedBy_operators (h : r.Keep erasing) (l : Level) {e : Expr} (s : Cursor)
    (he : e.Guarded) :
    ((r.calling true).operators l e s).MatchedBy ((readers false).operators l e.erased s)
      Erases := by
  rw [← calling_readers false, Readers.calling_operators, Readers.calling_operators]
  refine Cursor.matchedBy_choose (fun op t _ => ?_) fun t _ => ?_
  · refine Reading.matchedBy_andThen (h.level l.tighter t) fun x x' u _ hx => ?_
    obtain ⟨hx, rfl⟩ := hx
    exact h.operators l _ u ⟨he, hx⟩
  · exact Reading.matchedBy_done ⟨he, rfl⟩

theorem matchedBy_filters (h : r.Keep erasing) {e : Expr} (s : Cursor) (he : e.Guarded) :
    ((r.calling true).filters e s).MatchedBy ((readers false).filters e.erased s) Erases := by
  rw [← calling_readers false, Readers.calling_filters, Readers.calling_filters]
  refine Cursor.matchedBy_choose (fun _ t _ => ?_) fun t _ => ?_
  · refine Reading.matchedBy_andThen (Reading.matchedBy_refl _) fun n _ u _ hn => ?_
    subst hn
    refine Cursor.matchedBy_choose (fun _ v _ => ?_) fun v _ => ?_
    · refine Reading.matchedBy_andThen (h.arguments _ v) fun args args' w _ ha => ?_
      obtain ⟨hfiltered, herased⟩ := erases_filtered he ha
      rw [herased]
      exact h.filters _ w hfiltered
    · have hnil : ErasesItems [] [] := ⟨trivial, rfl⟩
      obtain ⟨hfiltered, herased⟩ := erases_filtered he hnil
      rw [herased]
      exact h.filters _ v hfiltered
  · exact Reading.matchedBy_done ⟨he, rfl⟩

theorem matchedBy_selectors (h : r.Keep erasing) {e : Expr} (s : Cursor) (he : e.Guarded) :
    ((r.calling true).selectors e s).MatchedBy ((readers false).selectors e.erased s) Erases := by
  rw [← calling_readers false, Readers.calling_selectors, Readers.calling_selectors,
    name?_erased he.isUnchecked]
  refine Cursor.matchedBy_choose (fun _ t _ => ?_) fun t _ => ?_
  · refine Reading.matchedBy_andThen (Reading.matchedBy_refl _) fun key _ u _ hkey => ?_
    subst hkey
    exact h.selectors _ u he
  refine Cursor.matchedBy_choose (fun _ u _ => ?_) fun u _ => ?_
  · refine Reading.matchedBy_andThen (h.level .or u) fun i i' v _ hi => ?_
    obtain ⟨hi, rfl⟩ := hi
    refine Reading.matchedBy_andThen (Reading.matchedBy_refl _) fun _ _ w _ _ => ?_
    exact h.selectors _ w ⟨he, hi⟩
  refine Cursor.matchedBy_choose (fun n v _ => ?_) fun v _ => ?_
  · refine Reading.matchedBy_andThen (h.arguments _ v) fun args args' w _ ha => ?_
    obtain ⟨ha, rfl⟩ := ha
    exact h.selectors _ w ha
  · exact Reading.matchedBy_done ⟨he, rfl⟩

theorem matchedBy_primary (h : r.Keep erasing) (s : Cursor) :
    ((r.calling true).primary s).MatchedBy ((readers false).primary s) Erases := by
  rw [← calling_readers false]
  dsimp only [Readers.calling]
  refine Cursor.matchedBy_take fun token t _ => ?_
  split
  · exact Reading.matchedBy_done ⟨trivial, rfl⟩
  · exact Reading.matchedBy_done ⟨trivial, rfl⟩
  · exact Reading.matchedBy_done (erases_ofName _)
  · refine Reading.matchedBy_andThen (h.level .or t) fun e e' u _ he => ?_
    exact Reading.matchedBy_map ((Reading.matchedBy_refl _).mono fun _ _ _ => he)
  · refine Reading.matchedBy_map ((h.arguments _ t).mono ?_)
    rintro es _ ⟨hes, rfl⟩
    exact ⟨hes, rfl⟩
  · refine Reading.matchedBy_map ((h.pairs t).mono ?_)
    rintro es _ ⟨hes, rfl⟩
    exact ⟨hes, rfl⟩
  · exact Reading.matchedBy_refuse

theorem matchedBy_arguments (h : r.Keep erasing) (close : Symbol) (s : Cursor) :
    ((r.calling true).arguments close s).MatchedBy ((readers false).arguments close s)
      ErasesItems := by
  rw [← calling_readers false]
  dsimp only [Readers.calling]
  refine Cursor.matchedBy_choose (fun _ t _ => ?_) fun t _ => ?_
  · exact Reading.matchedBy_done ⟨trivial, rfl⟩
  · refine Reading.matchedBy_andThen (h.items t) fun es es' u _ hes => ?_
    exact Reading.matchedBy_map ((Reading.matchedBy_refl _).mono fun _ _ _ => hes)

theorem matchedBy_items (h : r.Keep erasing) (s : Cursor) :
    ((r.calling true).items s).MatchedBy ((readers false).items s) ErasesItems := by
  rw [← calling_readers false, Readers.calling_items, Readers.calling_items]
  refine Reading.matchedBy_andThen (h.level .or s) fun e e' t _ he => ?_
  obtain ⟨he, rfl⟩ := he
  refine Cursor.matchedBy_choose (fun _ u _ => ?_) fun u _ => ?_
  · refine Reading.matchedBy_map ((h.items u).mono ?_)
    rintro es _ ⟨hes, rfl⟩
    exact ⟨⟨he, hes⟩, rfl⟩
  · exact Reading.matchedBy_done ⟨⟨he, trivial⟩, rfl⟩

theorem matchedBy_pairs (h : r.Keep erasing) (s : Cursor) :
    ((r.calling true).pairs s).MatchedBy ((readers false).pairs s) ErasesEntries := by
  rw [← calling_readers false]
  dsimp only [Readers.calling]
  refine Cursor.matchedBy_choose (fun _ t _ => ?_) fun t _ => ?_
  · exact Reading.matchedBy_done ⟨trivial, rfl⟩
  · refine Reading.matchedBy_andThen (h.entries t) fun es es' u _ hes => ?_
    exact Reading.matchedBy_map ((Reading.matchedBy_refl _).mono fun _ _ _ => hes)

theorem matchedBy_entries (h : r.Keep erasing) (s : Cursor) :
    ((r.calling true).entries s).MatchedBy ((readers false).entries s) ErasesEntries := by
  rw [← calling_readers false, Readers.calling_entries, Readers.calling_entries]
  refine Reading.matchedBy_andThen (h.level .or s) fun key key' t _ hkey => ?_
  obtain ⟨hkey, rfl⟩ := hkey
  refine Reading.matchedBy_andThen (Reading.matchedBy_refl _) fun _ _ u _ _ => ?_
  refine Reading.matchedBy_andThen (h.level .or u) fun e e' v _ he => ?_
  obtain ⟨he, rfl⟩ := he
  refine Cursor.matchedBy_choose (fun _ w _ => ?_) fun w _ => ?_
  · refine Reading.matchedBy_map ((h.entries w).mono ?_)
    rintro es _ ⟨hes, rfl⟩
    exact ⟨⟨hkey, he, hes⟩, rfl⟩
  · exact Reading.matchedBy_done ⟨⟨hkey, he, trivial⟩, rfl⟩

theorem refusing_keep_erasing : Readers.refusing.Keep erasing where
  level _ _ := Reading.matchedBy_refuse
  operators _ _ _ _ := Reading.matchedBy_refuse
  filters _ _ _ := Reading.matchedBy_refuse
  selectors _ _ _ := Reading.matchedBy_refuse
  primary _ := Reading.matchedBy_refuse
  arguments _ _ := Reading.matchedBy_refuse
  items _ := Reading.matchedBy_refuse
  pairs _ := Reading.matchedBy_refuse
  entries _ := Reading.matchedBy_refuse

theorem calling_keep_erasing (h : r.Keep erasing) : (r.calling true).Keep erasing where
  level := matchedBy_level h
  operators l _ := matchedBy_operators h l
  filters _ := matchedBy_filters h
  selectors _ := matchedBy_selectors h
  primary := matchedBy_primary h
  arguments := matchedBy_arguments h
  items := matchedBy_items h
  pairs := matchedBy_pairs h
  entries := matchedBy_entries h

theorem readers_keep_erasing : (readers true).Keep erasing :=
  keep_readers refusing_keep_erasing fun _ h => calling_keep_erasing h

theorem matchedBy_read (s : Cursor) : (read true s).MatchedBy (read false s) Erases :=
  readers_keep_erasing.level .or s

end Expr

namespace Environment

/-- The environment with checks or without them. -/
def sandboxing (env : Environment) (checks : Bool) : Environment :=
  { env with options := { env.options with sandboxed := checks } }

theorem erases_printed (env : Environment) {e : Expr} (he : e.Guarded) :
    Expr.Erases ((env.sandboxing true).printed e) ((env.sandboxing false).printed e.erased) := by
  have hdecides : (env.sandboxing false).decidesEscaping e.erased =
      (env.sandboxing true).decidesEscaping e := by
    cases e with
    | checked e => exact he.elim
    | _ => rfl
  unfold printed
  rw [hdecides]
  change Expr.Erases (if env.options.autoescape && _ then _ else _)
    (if env.options.autoescape && _ then _ else _)
  by_cases hescape : (env.options.autoescape &&
      !(env.sandboxing true).decidesEscaping e) = true
  · rw [if_pos hescape, if_pos hescape]
    exact Expr.erases_filtered he ⟨trivial, rfl⟩
  · rw [if_neg hescape, if_neg hescape]
    exact ⟨he, rfl⟩

end Environment

namespace Node

/-- A guarded node, and the same one without its checks. -/
def Erases (n n' : Node) : Prop := n.Guarded ∧ n' = n.erased

def ErasesNodes (ns ns' : List Node) : Prop := GuardedNodes ns ∧ ns' = erasedNodes ns

def ErasesCase (c c' : Expr × List Node) : Prop :=
  (c.1.Guarded ∧ GuardedNodes c.2) ∧ c' = (c.1.erased, erasedNodes c.2)

def ErasesCases (r r' : List (Expr × List Node) × Option (List Node)) : Prop :=
  (GuardedCases r.1 ∧ GuardedFallback r.2) ∧ r' = (erasedCases r.1, erasedFallback r.2)

def ErasesCounted (c c' : Option (Counted Node)) : Prop :=
  GuardedCounted c ∧ c' = erasedCounted c

def ErasesNotes (notes notes' : Option (List Node)) : Prop :=
  GuardedFallback notes ∧ notes' = erasedFallback notes

def ErasesParts (p p' : Parts) : Prop :=
  (GuardedBody p.body ∧ GuardedCounted p.counted ∧ GuardedFallback p.notes) ∧
    p' = ⟨erasedBody p.body, erasedCounted p.counted, erasedFallback p.notes⟩

theorem erases_ofParts {p p' : Parts} (hp : ErasesParts p p') {domain : Expr}
    (hdomain : domain.Guarded) {line : Nat} {n : Node} (h : ofParts p domain line = .ok n) :
    ∃ n', ofParts p' domain.erased line = .ok n' ∧ Erases n n' := by
  obtain ⟨⟨hbody, hcounted, hnotes⟩, rfl⟩ := hp
  rw [ofParts_eq] at h ⊢
  cases hcheck : Message.check p.body line with
  | error e => simp [hcheck, Except.map] at h
  | ok u =>
    simp only [hcheck, Except.map, Except.ok.injEq] at h
    subst h
    rw [Message.check_erased hcheck]
    exact ⟨_, rfl, ⟨hbody, hdomain, hcounted, hnotes⟩, rfl⟩

theorem erases_always {content : List Node} (h : GuardedNodes content) :
    Erases (always content) (always (erasedNodes content)) :=
  ⟨⟨⟨trivial, h, trivial⟩, trivial⟩, rfl⟩

theorem matchedBy_rawSection (name : String) (s : Cursor) :
    (rawSection name s).MatchedBy (rawSection name s) ErasesNodes := by
  refine Reading.matchedBy_map ((Reading.matchedBy_refl _).mono ?_)
  rintro content _ rfl
  exact ⟨⟨trivial, trivial⟩, rfl⟩

theorem matchedBy_notes (s : Cursor) : (notes s).MatchedBy (notes s) ErasesNotes := by
  refine Cursor.matchedBy_choose (fun _ t ht => ?_) fun t ht => ?_
  · refine Reading.matchedBy_andThen (Reading.matchedBy_refl _) fun _ _ u hu _ => ?_
    refine Reading.matchedBy_map ((matchedBy_rawSection _ u).mono ?_)
    rintro content _ ⟨hcontent, rfl⟩
    exact ⟨hcontent, rfl⟩
  · exact Reading.matchedBy_done ⟨trivial, rfl⟩

/-- What is read with checks is read without them as well. -/
def erasing (env : Environment) : Contract where
  nodes stop s x :=
    x.MatchedBy ((readers (env.sandboxing false)).nodes stop s) ErasesNodes
  tag name line s x :=
    x.MatchedBy ((readers (env.sandboxing false)).tag name line s) Erases
  loopTag s x := x.MatchedBy ((readers (env.sandboxing false)).loopTag s) Erases
  branchTag s x := x.MatchedBy ((readers (env.sandboxing false)).branchTag s) Erases
  guarded s x := x.MatchedBy ((readers (env.sandboxing false)).guarded s) ErasesCase
  furtherCases s x := x.MatchedBy ((readers (env.sandboxing false)).furtherCases s) ErasesCases
  ruledTag rule name line s x :=
    x.MatchedBy ((readers (env.sandboxing false)).ruledTag rule name line s) Erases
  parts s x := x.MatchedBy ((readers (env.sandboxing false)).parts s) ErasesParts
  counted s x := x.MatchedBy ((readers (env.sandboxing false)).counted s) ErasesCounted

variable {env : Environment} {r : Readers}

theorem matchedBy_nodes (h : r.Keep (erasing env)) (stop : Stop) (s : Cursor) :
    ((r.calling (env.sandboxing true)).nodes stop s).MatchedBy
      ((readers (env.sandboxing false)).nodes stop s) ErasesNodes := by
  rw [← calling_readers (env.sandboxing false), Readers.calling_nodes, Readers.calling_nodes]
  refine Reading.matchedBy_andThen (Reading.matchedBy_refl _) fun token? _ t _ htoken => ?_
  subst htoken
  split
  · split
    · exact Reading.matchedBy_done ⟨trivial, rfl⟩
    · exact Reading.matchedBy_refuse
  · refine Cursor.matchedBy_take fun token u _ => ?_
    refine Reading.matchedBy_map ((h.nodes stop u).mono ?_)
    rintro ns _ ⟨hns, rfl⟩
    exact ⟨⟨trivial, hns⟩, rfl⟩
  · refine Cursor.matchedBy_take fun token u _ => ?_
    refine Reading.matchedBy_andThen (Expr.matchedBy_read u) fun e e' v _ he => ?_
    obtain ⟨he, rfl⟩ := he
    refine Reading.matchedBy_andThen (Reading.matchedBy_refl _) fun _ _ w _ _ => ?_
    refine Reading.matchedBy_map ((h.nodes stop w).mono ?_)
    rintro ns _ ⟨hns, rfl⟩
    obtain ⟨hprinted, herased⟩ := Environment.erases_printed env he
    exact ⟨⟨hprinted, hns⟩, by rw [herased]; rfl⟩
  · refine Cursor.matchedBy_take fun token u _ => ?_
    refine Reading.matchedBy_andThen (Reading.matchedBy_refl _) fun name _ v _ hname => ?_
    subst hname
    split
    · exact Reading.matchedBy_done ⟨trivial, rfl⟩
    · refine Cursor.matchedBy_take fun _ w _ => ?_
      refine Reading.matchedBy_andThen (h.tag _ _ w) fun n n' x _ hn => ?_
      obtain ⟨hn, rfl⟩ := hn
      refine Reading.matchedBy_map ((h.nodes stop x).mono ?_)
      rintro ns _ ⟨hns, rfl⟩
      exact ⟨⟨hn, hns⟩, rfl⟩
  · exact Reading.matchedBy_refuse

/-- A tag has the same rule with checks and without them. -/
theorem matchedBy_tag (h : r.Keep (erasing env)) (name : String) (line : Nat) (s : Cursor) :
    ((r.calling (env.sandboxing true)).tag name line s).MatchedBy
      ((readers (env.sandboxing false)).tag name line s) Erases := by
  have hrule : (env.sandboxing false).tagRule? name = (env.sandboxing true).tagRule? name := rfl
  rw [← calling_readers (env.sandboxing false)]
  dsimp only [Readers.calling]
  rw [hrule]
  split
  · exact h.loopTag s
  split
  · exact h.branchTag s
  split
  · exact h.ruledTag _ name line s
  · exact Reading.matchedBy_refuse

theorem matchedBy_loopTag (h : r.Keep (erasing env)) (s : Cursor) :
    ((r.calling (env.sandboxing true)).loopTag s).MatchedBy
      ((readers (env.sandboxing false)).loopTag s) Erases := by
  rw [← calling_readers (env.sandboxing false)]
  dsimp only [Readers.calling]
  refine Reading.matchedBy_andThen (Reading.matchedBy_refl _) fun target _ t _ htarget => ?_
  subst htarget
  refine Reading.matchedBy_andThen (Reading.matchedBy_refl _) fun _ _ u _ _ => ?_
  refine Reading.matchedBy_andThen (Expr.matchedBy_read u) fun e e' v _ he => ?_
  obtain ⟨he, rfl⟩ := he
  refine Reading.matchedBy_andThen (Reading.matchedBy_refl _) fun _ _ w _ _ => ?_
  refine Reading.matchedBy_andThen (h.nodes _ w) fun body body' x _ hbody => ?_
  obtain ⟨hbody, rfl⟩ := hbody
  refine Reading.matchedBy_map ((Reading.matchedBy_refl _).mono fun _ _ _ => ?_)
  exact ⟨⟨he, hbody⟩, rfl⟩

theorem matchedBy_branchTag (h : r.Keep (erasing env)) (s : Cursor) :
    ((r.calling (env.sandboxing true)).branchTag s).MatchedBy
      ((readers (env.sandboxing false)).branchTag s) Erases := by
  rw [← calling_readers (env.sandboxing false)]
  dsimp only [Readers.calling]
  refine Reading.matchedBy_andThen (h.guarded s) fun first first' t _ hfirst => ?_
  obtain ⟨hfirst, rfl⟩ := hfirst
  refine Reading.matchedBy_map ((h.furtherCases t).mono ?_)
  rintro x _ ⟨⟨hcases, hfallback⟩, rfl⟩
  exact ⟨⟨⟨hfirst.1, hfirst.2, hcases⟩, hfallback⟩, rfl⟩

theorem matchedBy_guarded (h : r.Keep (erasing env)) (s : Cursor) :
    ((r.calling (env.sandboxing true)).guarded s).MatchedBy
      ((readers (env.sandboxing false)).guarded s) ErasesCase := by
  rw [← calling_readers (env.sandboxing false)]
  dsimp only [Readers.calling]
  refine Reading.matchedBy_andThen (Expr.matchedBy_read s) fun e e' t _ he => ?_
  obtain ⟨he, rfl⟩ := he
  refine Reading.matchedBy_andThen (Reading.matchedBy_refl _) fun _ _ u _ _ => ?_
  refine Reading.matchedBy_map ((h.nodes _ u).mono ?_)
  rintro body _ ⟨hbody, rfl⟩
  exact ⟨⟨he, hbody⟩, rfl⟩

theorem matchedBy_furtherCases (h : r.Keep (erasing env)) (s : Cursor) :
    ((r.calling (env.sandboxing true)).furtherCases s).MatchedBy
      ((readers (env.sandboxing false)).furtherCases s) ErasesCases := by
  rw [← calling_readers (env.sandboxing false), Readers.calling_furtherCases,
    Readers.calling_furtherCases]
  refine Cursor.matchedBy_takeName fun name t _ => ?_
  split
  · refine Reading.matchedBy_andThen (h.guarded t) fun c c' u _ hc => ?_
    obtain ⟨hc, rfl⟩ := hc
    refine Reading.matchedBy_map ((h.furtherCases u).mono ?_)
    rintro x _ ⟨⟨hcases, hfallback⟩, rfl⟩
    exact ⟨⟨⟨hc.1, hc.2, hcases⟩, hfallback⟩, rfl⟩
  split
  · refine Reading.matchedBy_andThen (Reading.matchedBy_refl _) fun _ _ u _ _ => ?_
    refine Reading.matchedBy_andThen (h.nodes _ u) fun body body' v _ hbody => ?_
    obtain ⟨hbody, rfl⟩ := hbody
    refine Reading.matchedBy_map ((Reading.matchedBy_refl _).mono fun _ _ _ => ?_)
    exact ⟨⟨trivial, hbody⟩, rfl⟩
  split
  · refine Reading.matchedBy_map ((Reading.matchedBy_refl _).mono fun _ _ _ => ?_)
    exact ⟨⟨trivial, trivial⟩, rfl⟩
  · exact Reading.matchedBy_refuse

theorem matchedBy_ruledTag (h : r.Keep (erasing env)) (rule : TagRule) (name : String) (line : Nat)
    (s : Cursor) :
    ((r.calling (env.sandboxing true)).ruledTag rule name line s).MatchedBy
      ((readers (env.sandboxing false)).ruledTag rule name line s) Erases := by
  rw [← calling_readers (env.sandboxing false)]
  dsimp only [Readers.calling]
  cases rule with
  | phrase =>
    refine Reading.matchedBy_andThen (Reading.matchedBy_refl _) fun _ _ t _ _ => ?_
    refine Reading.matchedBy_andThen (Expr.matchedBy_read t) fun domain domain' u _ hdomain => ?_
    obtain ⟨hdomain, rfl⟩ := hdomain
    refine Reading.matchedBy_andThen (h.parts u) fun p p' v _ hp => ?_
    refine Reading.matchedBy_andThen (Reading.matchedBy_refl _) fun _ _ w _ _ => ?_
    cases hn : ofParts p domain line with
    | error e => exact Reading.matchedBy_fail
    | ok n =>
      obtain ⟨n', hn', hnn'⟩ := erases_ofParts hp hdomain hn
      rw [hn']
      exact Reading.matchedBy_done hnn'
  | print =>
    refine Reading.matchedBy_andThen (Expr.matchedBy_read s) fun e e' t _ he => ?_
    obtain ⟨he, rfl⟩ := he
    exact Reading.matchedBy_map ((Reading.matchedBy_refl _).mono fun _ _ _ => ⟨he, rfl⟩)
  | raw =>
    refine Reading.matchedBy_andThen (Reading.matchedBy_refl _) fun _ _ t _ _ => ?_
    refine Reading.matchedBy_andThen (matchedBy_rawSection _ t)
      fun content content' u _ hcontent => ?_
    obtain ⟨hcontent, rfl⟩ := hcontent
    refine Reading.matchedBy_map ((Reading.matchedBy_refl _).mono fun _ _ _ => ?_)
    exact erases_always hcontent
  | wrap =>
    refine Reading.matchedBy_andThen (Reading.matchedBy_refl _) fun _ _ t _ _ => ?_
    refine Reading.matchedBy_andThen (h.nodes _ t) fun content content' u _ hcontent => ?_
    obtain ⟨hcontent, rfl⟩ := hcontent
    refine Reading.matchedBy_map ((Reading.matchedBy_refl _).mono fun _ _ _ => ?_)
    exact erases_always hcontent

theorem matchedBy_parts (h : r.Keep (erasing env)) (s : Cursor) :
    ((r.calling (env.sandboxing true)).parts s).MatchedBy
      ((readers (env.sandboxing false)).parts s) ErasesParts := by
  rw [← calling_readers (env.sandboxing false)]
  dsimp only [Readers.calling]
  refine Reading.matchedBy_andThen (Reading.matchedBy_refl _) fun isBlock _ t _ hblock => ?_
  subst hblock
  split
  · refine Reading.matchedBy_andThen (Reading.matchedBy_refl _) fun _ _ u _ _ => ?_
    refine Reading.matchedBy_andThen (h.nodes _ u) fun body body' v _ hbody => ?_
    obtain ⟨hbody, rfl⟩ := hbody
    refine Reading.matchedBy_andThen (h.counted v) fun c c' w _ hc => ?_
    obtain ⟨hc, rfl⟩ := hc
    refine Reading.matchedBy_andThen (matchedBy_notes w) fun notes notes' x _ hnotes => ?_
    obtain ⟨hnotes, rfl⟩ := hnotes
    refine Reading.matchedBy_map ((Reading.matchedBy_refl _).mono fun _ _ _ => ?_)
    exact ⟨⟨hbody, hc, hnotes⟩, rfl⟩
  · refine Reading.matchedBy_map ((Expr.matchedBy_read t).mono ?_)
    rintro e _ ⟨he, rfl⟩
    exact ⟨⟨he, trivial, trivial⟩, rfl⟩

theorem matchedBy_counted (h : r.Keep (erasing env)) (s : Cursor) :
    ((r.calling (env.sandboxing true)).counted s).MatchedBy
      ((readers (env.sandboxing false)).counted s) ErasesCounted := by
  rw [← calling_readers (env.sandboxing false)]
  dsimp only [Readers.calling]
  refine Cursor.matchedBy_choose (fun _ t _ => ?_) fun t _ => ?_
  · refine Reading.matchedBy_andThen (Expr.matchedBy_read t) fun count count' u _ hcount => ?_
    obtain ⟨hcount, rfl⟩ := hcount
    refine Reading.matchedBy_andThen (Reading.matchedBy_refl _) fun _ _ v _ _ => ?_
    refine Reading.matchedBy_map ((h.nodes _ v).mono ?_)
    rintro body _ ⟨hbody, rfl⟩
    exact ⟨⟨hcount, hbody⟩, rfl⟩
  · exact Reading.matchedBy_done ⟨trivial, rfl⟩

theorem refusing_keep_erasing (env : Environment) : Readers.refusing.Keep (erasing env) where
  nodes _ _ := Reading.matchedBy_refuse
  tag _ _ _ := Reading.matchedBy_refuse
  loopTag _ := Reading.matchedBy_refuse
  branchTag _ := Reading.matchedBy_refuse
  guarded _ := Reading.matchedBy_refuse
  furtherCases _ := Reading.matchedBy_refuse
  ruledTag _ _ _ _ := Reading.matchedBy_refuse
  parts _ := Reading.matchedBy_refuse
  counted _ := Reading.matchedBy_refuse

theorem calling_keep_erasing (h : r.Keep (erasing env)) :
    (r.calling (env.sandboxing true)).Keep (erasing env) where
  nodes := matchedBy_nodes h
  tag := matchedBy_tag h
  loopTag := matchedBy_loopTag h
  branchTag := matchedBy_branchTag h
  guarded := matchedBy_guarded h
  furtherCases := matchedBy_furtherCases h
  ruledTag := matchedBy_ruledTag h
  parts := matchedBy_parts h
  counted := matchedBy_counted h

theorem readers_keep_erasing (env : Environment) :
    (readers (env.sandboxing true)).Keep (erasing env) :=
  keep_readers (refusing_keep_erasing env) fun _ h => calling_keep_erasing h

end Node

namespace Environment

/-- A template that is read with checks is read without them as well, as the same tree apart from
the checks. -/
theorem parse_sandboxing (env : Environment) {source : String} {ns : List Node}
    (h : (env.sandboxing true).parse source = .ok ns) :
    Node.GuardedNodes ns ∧
      (env.sandboxing false).parse source = .ok (Node.erasedNodes ns) := by
  obtain ⟨ns', hns', hguarded, rfl⟩ := (Node.readers_keep_erasing env).nodes .atEnd
    (.ofTemplate source env.options.trimBlocks) ns h
  exact ⟨hguarded, hns'.result⟩

end Environment

end Polyglot
