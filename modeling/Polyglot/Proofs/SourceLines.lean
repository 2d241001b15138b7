import Polyglot.Proofs.CompiledPhrases
import Polyglot.Proofs.LinedReading
import Polyglot.Proofs.ReadNodes
import Polyglot.Proofs.ReaderInduction

/-!
Every line that a template is said to have trouble at, or to have a phrase at, is one of its lines.
A phrase gets the line of the tag that it stands for, which was read before the parts of the phrase.
-/
namespace Polyglot

variable {last : Nat}

namespace Expr

/-- What is read of a text stays within its lines. -/
def staying (last : Nat) : Contract where
  level _ s x := s.Within last → x.Stays last fun _ => True
  operators _ _ s x := s.Within last → x.Stays last fun _ => True
  filters _ s x := s.Within last → x.Stays last fun _ => True
  selectors _ s x := s.Within last → x.Stays last fun _ => True
  primary s x := s.Within last → x.Stays last fun _ => True
  arguments _ s x := s.Within last → x.Stays last fun _ => True
  items s x := s.Within last → x.Stays last fun _ => True
  pairs s x := s.Within last → x.Stays last fun _ => True
  entries s x := s.Within last → x.Stays last fun _ => True

variable {checks : Bool} {r : Readers}

theorem stays_level (h : r.Keep (staying last)) (l : Level) (s : Cursor)
    (hs : s.Within last) : ((r.calling checks).level l s).Stays last fun _ => True := by
  dsimp only [Readers.calling]
  refine hs.stays_choose (fun op t _ hin => ?_) fun t _ hin => ?_
  · exact Reading.stays_map (h.level l t hin)
  · split
    · refine Reading.stays_andThen (h.primary t hin) fun e u _ _ hin => ?_
      refine Reading.stays_andThen (h.selectors e u hin) fun e v _ _ hin => ?_
      exact h.filters e v hin
    · refine Reading.stays_andThen (h.level l.tighter t hin) fun e u _ _ hin => ?_
      exact h.operators l e u hin

theorem stays_operators (h : r.Keep (staying last)) (l : Level) (e : Expr) (s : Cursor)
    (hs : s.Within last) : ((r.calling checks).operators l e s).Stays last fun _ => True := by
  rw [Readers.calling_operators]
  refine hs.stays_choose (fun op t _ hin => ?_) fun t _ hin => ?_
  · refine Reading.stays_andThen (h.level l.tighter t hin) fun x u _ _ hin => ?_
    exact h.operators l _ u hin
  · exact Reading.stays_done hin trivial

theorem stays_filters (h : r.Keep (staying last)) (e : Expr) (s : Cursor)
    (hs : s.Within last) : ((r.calling checks).filters e s).Stays last fun _ => True := by
  rw [Readers.calling_filters]
  refine hs.stays_choose (fun _ t _ hin => ?_) fun t _ hin => ?_
  · refine Reading.stays_andThen hin.stays_name fun n u _ _ hin => ?_
    refine hin.stays_choose (fun _ v _ hin => ?_) fun v _ hin => ?_
    · refine Reading.stays_andThen (h.arguments _ v hin) fun args w _ _ hin => ?_
      exact h.filters _ w hin
    · exact h.filters _ v hin
  · exact Reading.stays_done hin trivial

theorem stays_selectors (h : r.Keep (staying last)) (e : Expr) (s : Cursor)
    (hs : s.Within last) : ((r.calling checks).selectors e s).Stays last fun _ => True := by
  rw [Readers.calling_selectors]
  refine hs.stays_choose (fun _ t _ hin => ?_) fun t _ hin => ?_
  · refine Reading.stays_andThen hin.stays_name fun key u _ _ hin => ?_
    exact h.selectors _ u hin
  refine hin.stays_choose (fun _ u _ hin => ?_) fun u _ hin => ?_
  · refine Reading.stays_andThen (h.level .or u hin) fun i v _ _ hin => ?_
    refine Reading.stays_andThen (hin.stays_expect _) fun _ w _ _ hin => ?_
    exact h.selectors _ w hin
  refine hin.stays_choose (fun n v _ hin => ?_) fun v _ hin => ?_
  · refine Reading.stays_andThen (h.arguments _ v hin) fun args w _ _ hin => ?_
    exact h.selectors _ w hin
  · exact Reading.stays_done hin trivial

theorem stays_primary (h : r.Keep (staying last)) (s : Cursor)
    (hs : s.Within last) : ((r.calling checks).primary s).Stays last fun _ => True := by
  dsimp only [Readers.calling]
  refine hs.stays_take fun token t _ htoken hin => ?_
  split
  · exact Reading.stays_done hin trivial
  · exact Reading.stays_done hin trivial
  · exact Reading.stays_done hin trivial
  · refine Reading.stays_andThen (h.level .or t hin) fun e u _ _ hin => ?_
    exact Reading.stays_map (hin.stays_expect _)
  · exact Reading.stays_map (h.arguments _ t hin)
  · exact Reading.stays_map (h.pairs t hin)
  · exact Reading.stays_refuse hin htoken

theorem stays_arguments (h : r.Keep (staying last)) (close : Symbol) (s : Cursor)
    (hs : s.Within last) : ((r.calling checks).arguments close s).Stays last fun _ => True := by
  dsimp only [Readers.calling]
  refine hs.stays_choose (fun _ t _ hin => ?_) fun t _ hin => ?_
  · exact Reading.stays_done hin trivial
  · refine Reading.stays_andThen (h.items t hin) fun es u _ _ hin => ?_
    exact Reading.stays_map (hin.stays_expect _)

theorem stays_items (h : r.Keep (staying last)) (s : Cursor)
    (hs : s.Within last) : ((r.calling checks).items s).Stays last fun _ => True := by
  rw [Readers.calling_items]
  refine Reading.stays_andThen (h.level .or s hs) fun e t _ _ hin => ?_
  refine hin.stays_choose (fun _ u _ hin => ?_) fun u _ hin => ?_
  · exact Reading.stays_map (h.items u hin)
  · exact Reading.stays_done hin trivial

theorem stays_pairs (h : r.Keep (staying last)) (s : Cursor)
    (hs : s.Within last) : ((r.calling checks).pairs s).Stays last fun _ => True := by
  dsimp only [Readers.calling]
  refine hs.stays_choose (fun _ t _ hin => ?_) fun t _ hin => ?_
  · exact Reading.stays_done hin trivial
  · refine Reading.stays_andThen (h.entries t hin) fun es u _ _ hin => ?_
    exact Reading.stays_map (hin.stays_expect _)

theorem stays_entries (h : r.Keep (staying last)) (s : Cursor)
    (hs : s.Within last) : ((r.calling checks).entries s).Stays last fun _ => True := by
  rw [Readers.calling_entries]
  refine Reading.stays_andThen (h.level .or s hs) fun key t _ _ hin => ?_
  refine Reading.stays_andThen (hin.stays_expect _) fun _ u _ _ hin => ?_
  refine Reading.stays_andThen (h.level .or u hin) fun e v _ _ hin => ?_
  refine hin.stays_choose (fun _ w _ hin => ?_) fun w _ hin => ?_
  · exact Reading.stays_map (h.entries w hin)
  · exact Reading.stays_done hin trivial

theorem refusing_keep_staying (last : Nat) : Readers.refusing.Keep (staying last) where
  level _ _ hs := Reading.stays_refuse hs hs.here
  operators _ _ _ hs := Reading.stays_refuse hs hs.here
  filters _ _ hs := Reading.stays_refuse hs hs.here
  selectors _ _ hs := Reading.stays_refuse hs hs.here
  primary _ hs := Reading.stays_refuse hs hs.here
  arguments _ _ hs := Reading.stays_refuse hs hs.here
  items _ hs := Reading.stays_refuse hs hs.here
  pairs _ hs := Reading.stays_refuse hs hs.here
  entries _ hs := Reading.stays_refuse hs hs.here

theorem calling_keep_staying (h : r.Keep (staying last)) :
    (r.calling checks).Keep (staying last) where
  level := stays_level h
  operators := stays_operators h
  filters := stays_filters h
  selectors := stays_selectors h
  primary := stays_primary h
  arguments := stays_arguments h
  items := stays_items h
  pairs := stays_pairs h
  entries := stays_entries h

theorem readers_keep_staying (checks : Bool) (last : Nat) : (readers checks).Keep (staying last) :=
  keep_readers (refusing_keep_staying last) fun _ h => calling_keep_staying h

theorem stays_read (checks : Bool) {s : Cursor} (hs : s.Within last) :
    (read checks s).Stays last fun _ => True :=
  (readers_keep_staying checks last).level .or s hs

theorem stays_readAlone (checks : Bool) {s : Cursor} (hs : s.Within last) :
    (readAlone checks s).Stays last fun _ => True := by
  refine Reading.stays_andThen (stays_read checks hs) fun e t _ _ hin => ?_
  refine Reading.stays_andThen (hin.stays_peek 0) fun token? u _ htoken hin => ?_
  cases token? with
  | some token => exact Reading.stays_refuse hin (htoken token rfl)
  | none => exact Reading.stays_done hin trivial

end Expr

namespace Node

/-- A phrase stands at a line of the template, and there are no phrases in its notes. -/
def IsLined (last : Nat) (n : Node) : Prop :=
  ∀ p, n = phrase p →
    IsLine last p.line ∧ ∀ nodes, p.notes = some nodes → ∃ s, nodes = [text s]

def AreLined (last : Nat) (ns : List Node) : Prop := ∀ n ∈ ns, n.Every (IsLined last)

def CountedLined (last : Nat) (counted : Option (Counted Node)) : Prop :=
  ∀ c ∈ counted, ∀ body ∈ c.plural, AreLined last body

def CasesLined (last : Nat) (r : List (Expr × List Node) × Option (List Node)) : Prop :=
  (∀ c ∈ r.1, AreLined last c.2) ∧ ∀ body ∈ r.2, AreLined last body

/-- What becomes of the parts of a phrase whose tag stands at a line of the template. -/
def PartsLined (last : Nat) (p : Parts) : Prop :=
  ∀ domain line n, IsLine last line → ofParts p domain line = .ok n → n.Every (IsLined last)

theorem isLined_text (s : String) : IsLined last (text s) := nofun

theorem isLined_print (e : Expr) : IsLined last (print e) := nofun

theorem isLined_loop (target : String) (items : Expr) (body : List Node) :
    IsLined last (loop target items body) := nofun

theorem isLined_branch (cases : List (Expr × List Node)) (otherwise : Option (List Node)) :
    IsLined last (branch cases otherwise) := nofun

theorem every_always {content : List Node} (h : AreLined last content) :
    (always content).Every (IsLined last) :=
  .branch (isLined_branch _ _) (List.forall_mem_singleton.2 h) fun _ h => nomatch h

theorem pointsInto_of_ofParts {p : Parts} {domain : Expr} {line : Nat} {e : Error}
    (hline : IsLine last line) (h : ofParts p domain line = .error e) : e.PointsInto last := by
  rw [ofParts_eq] at h
  cases hcheck : Message.check p.body line with
  | error e' =>
    rw [hcheck] at h
    cases h
    cases Message.error_of_check hcheck
    exact hline
  | ok u =>
    rw [hcheck] at h
    cases h

theorem partsLined_inline (e : Expr) : PartsLined last ⟨.inline e, none, none⟩ := by
  intro domain line n hline h
  obtain ⟨_, rfl⟩ := exists_of_ofParts h
  refine .phrase ?_ fun _ h => absurd h List.not_mem_nil
  rintro p ⟨⟩
  exact ⟨hline, fun _ h => nomatch h⟩

theorem partsLined_block {body : List Node} {counted : Option (Counted Node)}
    {notes : Option (List Node)} (hbody : AreLined last body) (hcounted : CountedLined last counted)
    (hnotes : ∀ nodes, notes = some nodes → ∃ s, nodes = [text s]) :
    PartsLined last ⟨.block body, counted, notes⟩ := by
  intro domain line n hline h
  obtain ⟨_, rfl⟩ := exists_of_ofParts h
  refine .phrase ?_ (List.forall_mem_cons.2 ⟨hbody, fun nodes hnodes => ?_⟩)
  · rintro p ⟨⟩
    exact ⟨hline, hnotes⟩
  · obtain ⟨c, hc, hplural⟩ := Option.bind_eq_some_iff.1 (Option.mem_toList.1 hnodes)
    exact hcounted c hc nodes hplural

theorem stays_closing {s : Cursor} (hs : s.Within last) (name : String) :
    (closing name s).Stays last fun _ => True :=
  Reading.stays_andThen (hs.stays_expect _) fun _ _ _ _ hin => hin.stays_expect _

theorem stays_rawSection {s : Cursor} (hs : s.Within last) (name : String) :
    (rawSection name s).Stays last fun nodes => ∃ s, nodes = [text s] :=
  Reading.stays_map ((hs.stays_raw name).mono fun content _ => ⟨content, rfl⟩)

theorem stays_notes {s : Cursor} (hs : s.Within last) :
    (notes s).Stays last fun notes => ∀ nodes, notes = some nodes → ∃ s, nodes = [text s] := by
  refine hs.stays_choose (fun _ t _ hin => ?_) fun t _ hin => ?_
  · refine Reading.stays_andThen (hin.stays_expect _) fun _ u _ _ hin => ?_
    refine Reading.stays_map ((stays_rawSection hin _).mono ?_)
    rintro content hcontent nodes ⟨⟩
    exact hcontent
  · exact Reading.stays_done hin fun _ h => nomatch h

/-- What is read of a template stays within its lines, and its phrases stand at some of them. -/
def staying (last : Nat) : Contract where
  nodes _ s x := s.Within last → x.Stays last (AreLined last)
  tag _ line s x := IsLine last line → s.Within last → x.Stays last (Every (IsLined last))
  loopTag s x := s.Within last → x.Stays last (Every (IsLined last))
  branchTag s x := s.Within last → x.Stays last (Every (IsLined last))
  guarded s x := s.Within last → x.Stays last fun c => AreLined last c.2
  furtherCases s x := s.Within last → x.Stays last (CasesLined last)
  ruledTag _ _ line s x := IsLine last line → s.Within last → x.Stays last (Every (IsLined last))
  parts s x := s.Within last → x.Stays last (PartsLined last)
  counted s x := s.Within last → x.Stays last (CountedLined last)

variable {env : Environment} {r : Readers}

theorem stays_nodes (h : r.Keep (staying last)) (stop : Stop) (s : Cursor) (hs : s.Within last) :
    ((r.calling env).nodes stop s).Stays last (AreLined last) := by
  rw [Readers.calling_nodes]
  refine Reading.stays_andThen (hs.stays_peek 0) fun token? t _ htoken hin => ?_
  split
  · split
    · exact Reading.stays_done hin (List.forall_mem_nil _)
    · exact Reading.stays_refuse hin hin.line
  · refine hin.stays_take fun token u _ _ hin => ?_
    refine Reading.stays_map ((h.nodes stop u hin).mono fun ns hns => ?_)
    exact List.forall_mem_cons.2 ⟨.text (isLined_text _), hns⟩
  · refine hin.stays_take fun token u _ _ hin => ?_
    refine Reading.stays_andThen (Expr.stays_read _ hin) fun e v _ _ hin => ?_
    refine Reading.stays_andThen (hin.stays_expect _) fun _ w _ _ hin => ?_
    refine Reading.stays_map ((h.nodes stop w hin).mono fun ns hns => ?_)
    exact List.forall_mem_cons.2 ⟨.print (isLined_print _), hns⟩
  · next line =>
    -- the line that a phrase will have is that of the opening delimiter that is seen here
    have hline : IsLine last line := htoken _ rfl
    refine hin.stays_take fun token u _ _ hin => ?_
    refine Reading.stays_andThen hin.stays_tagName fun name v _ _ hin => ?_
    split
    · exact Reading.stays_done hin (List.forall_mem_nil _)
    · refine hin.stays_take fun _ w _ _ hin => ?_
      refine Reading.stays_andThen (h.tag name line w hline hin) fun n x _ hn hin => ?_
      refine Reading.stays_map ((h.nodes stop x hin).mono fun ns hns => ?_)
      exact List.forall_mem_cons.2 ⟨hn, hns⟩
  · exact Reading.stays_refuse hin (htoken _ rfl)

theorem stays_tag (h : r.Keep (staying last)) (name : String) (line : Nat) (s : Cursor)
    (hline : IsLine last line) (hs : s.Within last) :
    ((r.calling env).tag name line s).Stays last (Every (IsLined last)) := by
  dsimp only [Readers.calling]
  split
  · exact h.loopTag s hs
  split
  · exact h.branchTag s hs
  split
  · exact h.ruledTag _ name line s hline hs
  · exact Reading.stays_refuse hs hline

theorem stays_loopTag (h : r.Keep (staying last)) (s : Cursor) (hs : s.Within last) :
    ((r.calling env).loopTag s).Stays last (Every (IsLined last)) := by
  dsimp only [Readers.calling]
  refine Reading.stays_andThen hs.stays_name fun target t _ _ hin => ?_
  refine Reading.stays_andThen (hin.stays_expect _) fun _ u _ _ hin => ?_
  refine Reading.stays_andThen (Expr.stays_read _ hin) fun e v _ _ hin => ?_
  refine Reading.stays_andThen (hin.stays_expect _) fun _ w _ _ hin => ?_
  refine Reading.stays_andThen (h.nodes _ w hin) fun body x _ hbody hin => ?_
  refine Reading.stays_map ((stays_closing hin _).mono fun _ _ => ?_)
  exact .loop (isLined_loop _ _ _) hbody

theorem stays_branchTag (h : r.Keep (staying last)) (s : Cursor) (hs : s.Within last) :
    ((r.calling env).branchTag s).Stays last (Every (IsLined last)) := by
  dsimp only [Readers.calling]
  refine Reading.stays_andThen (h.guarded s hs) fun first t _ hfirst hin => ?_
  refine Reading.stays_map ((h.furtherCases t hin).mono fun x hx => ?_)
  exact .branch (isLined_branch _ _) (List.forall_mem_cons.2 ⟨hfirst, hx.1⟩) hx.2

theorem stays_guarded (h : r.Keep (staying last)) (s : Cursor) (hs : s.Within last) :
    ((r.calling env).guarded s).Stays last fun c => AreLined last c.2 := by
  dsimp only [Readers.calling]
  refine Reading.stays_andThen (Expr.stays_read _ hs) fun e t _ _ hin => ?_
  refine Reading.stays_andThen (hin.stays_expect _) fun _ u _ _ hin => ?_
  exact Reading.stays_map (h.nodes _ u hin)

theorem stays_furtherCases (h : r.Keep (staying last)) (s : Cursor) (hs : s.Within last) :
    ((r.calling env).furtherCases s).Stays last (CasesLined last) := by
  rw [Readers.calling_furtherCases]
  refine hs.stays_takeName fun name t _ hin => ?_
  split
  · refine Reading.stays_andThen (h.guarded t hin) fun c u _ hc hin => ?_
    refine Reading.stays_map ((h.furtherCases u hin).mono fun x hx => ?_)
    exact ⟨List.forall_mem_cons.2 ⟨hc, hx.1⟩, hx.2⟩
  split
  · refine Reading.stays_andThen (hin.stays_expect _) fun _ u _ _ hin => ?_
    refine Reading.stays_andThen (h.nodes _ u hin) fun body v _ hbody hin => ?_
    refine Reading.stays_map ((stays_closing hin _).mono fun _ _ => ?_)
    refine ⟨fun _ h => absurd h List.not_mem_nil, ?_⟩
    rintro _ ⟨⟩
    exact hbody
  split
  · refine Reading.stays_map ((hin.stays_expect _).mono fun _ _ => ?_)
    exact ⟨fun _ hc => absurd hc List.not_mem_nil, fun _ hb => (Option.not_mem_none _ hb).elim⟩
  · exact Reading.stays_refuse hin hs.here

theorem stays_ruledTag (h : r.Keep (staying last)) (rule : TagRule) (name : String) (line : Nat)
    (s : Cursor) (hline : IsLine last line) (hs : s.Within last) :
    ((r.calling env).ruledTag rule name line s).Stays last (Every (IsLined last)) := by
  dsimp only [Readers.calling]
  cases rule with
  | phrase =>
    refine Reading.stays_andThen (hs.stays_expect _) fun _ t _ _ hin => ?_
    refine Reading.stays_andThen (Expr.stays_read _ hin) fun domain u _ _ hin => ?_
    refine Reading.stays_andThen (h.parts u hin) fun p v _ hp hin => ?_
    refine Reading.stays_andThen (hin.stays_expect _) fun _ w _ _ hin => ?_
    split
    · next n hn => exact Reading.stays_done hin (hp domain line n hline hn)
    · next e he => exact Reading.stays_fail hin (pointsInto_of_ofParts hline he)
  | print =>
    refine Reading.stays_andThen (Expr.stays_read _ hs) fun e t _ _ hin => ?_
    exact Reading.stays_map ((hin.stays_expect _).mono fun _ _ => .print (isLined_print _))
  | raw =>
    refine Reading.stays_andThen (hs.stays_expect _) fun _ t _ _ hin => ?_
    refine Reading.stays_andThen (stays_rawSection hin _) fun content u _ hcontent hin => ?_
    obtain ⟨content, rfl⟩ := hcontent
    exact Reading.stays_map ((stays_closing hin _).mono fun _ _ =>
      every_always (List.forall_mem_singleton.2 (.text (isLined_text _))))
  | wrap =>
    refine Reading.stays_andThen (hs.stays_expect _) fun _ t _ _ hin => ?_
    refine Reading.stays_andThen (h.nodes _ t hin) fun content u _ hcontent hin => ?_
    exact Reading.stays_map ((stays_closing hin _).mono fun _ _ => every_always hcontent)

theorem stays_parts (h : r.Keep (staying last)) (s : Cursor) (hs : s.Within last) :
    ((r.calling env).parts s).Stays last (PartsLined last) := by
  dsimp only [Readers.calling]
  refine Reading.stays_andThen (hs.stays_sees _) fun isBlock t _ _ hin => ?_
  split
  · refine Reading.stays_andThen (hin.stays_expect _) fun _ u _ _ hin => ?_
    refine Reading.stays_andThen (h.nodes _ u hin) fun body v _ hbody hin => ?_
    refine Reading.stays_andThen (h.counted v hin) fun c w _ hc hin => ?_
    refine Reading.stays_andThen (stays_notes hin) fun notes x _ hnotes hin => ?_
    exact Reading.stays_map ((hin.stays_expect _).mono fun _ _ =>
      partsLined_block hbody hc hnotes)
  · exact Reading.stays_map ((Expr.stays_read _ hin).mono fun e _ => partsLined_inline e)

theorem stays_counted (h : r.Keep (staying last)) (s : Cursor) (hs : s.Within last) :
    ((r.calling env).counted s).Stays last (CountedLined last) := by
  dsimp only [Readers.calling]
  refine hs.stays_choose (fun _ t _ hin => ?_) fun t _ hin => ?_
  · refine Reading.stays_andThen (Expr.stays_read _ hin) fun count u _ _ hin => ?_
    refine Reading.stays_andThen (hin.stays_expect _) fun _ v _ _ hin => ?_
    refine Reading.stays_map ((h.nodes _ v hin).mono fun body hbody => ?_)
    rintro _ ⟨⟩ _ ⟨⟩
    exact hbody
  · exact Reading.stays_done hin fun _ hc => (Option.not_mem_none _ hc).elim

theorem refusing_keep_staying (last : Nat) : Readers.refusing.Keep (staying last) where
  nodes _ _ hs := Reading.stays_refuse hs hs.here
  tag _ _ _ _ hs := Reading.stays_refuse hs hs.here
  loopTag _ hs := Reading.stays_refuse hs hs.here
  branchTag _ hs := Reading.stays_refuse hs hs.here
  guarded _ hs := Reading.stays_refuse hs hs.here
  furtherCases _ hs := Reading.stays_refuse hs hs.here
  ruledTag _ _ _ _ _ hs := Reading.stays_refuse hs hs.here
  parts _ hs := Reading.stays_refuse hs hs.here
  counted _ hs := Reading.stays_refuse hs hs.here

theorem calling_keep_staying (h : r.Keep (staying last)) :
    (r.calling env).Keep (staying last) where
  nodes := stays_nodes h
  tag := stays_tag h
  loopTag := stays_loopTag h
  branchTag := stays_branchTag h
  guarded := stays_guarded h
  furtherCases := stays_furtherCases h
  ruledTag := stays_ruledTag h
  parts := stays_parts h
  counted := stays_counted h

theorem readers_keep_staying (env : Environment) (last : Nat) :
    (readers env).Keep (staying last) :=
  keep_readers (refusing_keep_staying last) fun _ h => calling_keep_staying h

end Node

namespace Environment

variable {env : Environment} {source : String} {e : Error}

theorem stays_parse (env : Environment) (source : String) :
    (Node.read env (.ofTemplate source env.options.trimBlocks)).Stays
      (1 + Blank.lineBreaks source.toList) (Node.AreLined (1 + Blank.lineBreaks source.toList)) :=
  (Node.readers_keep_staying env _).nodes .atEnd _ (Cursor.within_start source _ _)

theorem pointsInto_of_compileNodes {ns : List Node} {last : Nat} (hns : Node.AreLined last ns)
    (h : env.compileNodes ns = .error e) : e.PointsInto last := by
  obtain ⟨before, p, after, hphrases, _, hcall⟩ := exists_of_compileNodes_eq_error h
  have hp : p ∈ Node.phrasesOf ns := by
    rw [hphrases]
    exact List.mem_append_right _ List.mem_cons_self
  obtain rfl := Phrase.error_of_call hcall
  have hlined := Node.forall_phrasesOf_iff.2 fun n hn => Node.forall_phrases_of_every (hns n hn)
  exact (hlined p hp).1

theorem pointsInto_of_compile (h : env.compile source = .error e) :
    e.PointsInto (1 + Blank.lineBreaks source.toList) := by
  rcases error_of_bind_eq_error h with hparse | ⟨ns, hparse, hnodes⟩
  · exact (stays_parse env source).of_error hparse
  · exact pointsInto_of_compileNodes ((stays_parse env source).of_ok hparse) hnodes

/-- A template or an expression that cannot be read, or a template that cannot be compiled, is
refused as malformed or untranslatable at one of its lines. A phrase that was read stands at one as
well; its notes hold no further phrase. -/
theorem points_into_source (env : Environment) (source : String) :
    (∀ e, env.parse source = .error e ∨ env.compile source = .error e ∨
        env.parseExpr source = .error e →
      ∃ line, 1 ≤ line ∧ line ≤ 1 + source.toList.count '\n' ∧
        ((∃ fault, e = .malformed fault line) ∨ e = .untranslatable line)) ∧
    ∀ ns, env.parse source = .ok ns → ∀ n ∈ ns, n.Every fun n => ∀ p, n = .phrase p →
      (1 ≤ p.line ∧ p.line ≤ 1 + source.toList.count '\n') ∧
        ∀ nodes, p.notes = some nodes → ∃ s, nodes = [.text s] := by
  refine ⟨fun e h => ?_, fun ns h => (stays_parse env source).of_ok h⟩
  have he : e.PointsInto (1 + source.toList.count '\n') := by
    rcases h with h | h | h
    · exact (stays_parse env source).of_error h
    · exact pointsInto_of_compile h
    · exact (Expr.stays_readAlone _ (Cursor.within_start source _ _)).of_error h
  cases e with
  | malformed fault line => exact ⟨line, he.1, he.2, .inl ⟨fault, rfl⟩⟩
  | untranslatable line => exact ⟨line, he.1, he.2, .inr rfl⟩
  | pluralWithoutCount line => exact he.elim
  | rendering failure => exact he.elim
  | refusedOptions => exact he.elim

/-- The phrase in the second line can be read, but its plural body makes no message. -/
theorem points_into_source_plural :
    let source := "\n{% trans from d %}a{% plural n %}{% trans from d x %}{% endtrans %}"
    (∃ p, (standard {}).parse source = .ok [.text "\n", .phrase p] ∧ 1 ≤ p.line ∧ p.line ≤ 2) ∧
      ∃ e, (standard {}).compile source = .error e ∧
        ∃ line, 1 ≤ line ∧ line ≤ 2 ∧
          ((∃ fault, e = .malformed fault line) ∨ e = .untranslatable line) := by
  have hparse : (standard {}).parse
      "\n{% trans from d %}a{% plural n %}{% trans from d x %}{% endtrans %}" =
      .ok [.text "\n", .phrase ⟨.block [.text "a"], .name "d", some ⟨.name "n", some
        [.phrase ⟨.inline (.name "x"), .name "d", none, none, 2⟩]⟩, none, 2⟩] := by
    decide +kernel
  have hcompile : (standard {}).compile
      "\n{% trans from d %}a{% plural n %}{% trans from d x %}{% endtrans %}" =
      .error (.untranslatable 2) := by
    rw [compile_of_parse hparse]
    decide +kernel
  obtain ⟨herrors, hphrases⟩ := (standard {}).points_into_source
    "\n{% trans from d %}a{% plural n %}{% trans from d x %}{% endtrans %}"
  have hcount : ("\n{% trans from d %}a{% plural n %}{% trans from d x %}{% endtrans %}" :
      String).toList.count '\n' = 1 := by
    decide
  rw [hcount] at herrors hphrases
  have hphrase := hphrases _ hparse _ (List.mem_cons_of_mem _ List.mem_cons_self)
  exact ⟨⟨_, hparse, (hphrase.self _ rfl).1⟩, _, hcompile, herrors _ (.inr (.inl hcompile))⟩

end Environment

end Polyglot
