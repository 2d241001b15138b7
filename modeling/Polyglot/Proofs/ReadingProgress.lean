import Polyglot.Proofs.ForwardReading
import Polyglot.Proofs.ReaderInduction

/-!
What the readers take. Every expression takes a token, and so does every turn of a loop that is not
its last. If every turn that goes on takes a token, the loop ends after no more turns than there are
tokens that could be taken, and gives what the reader that is defined by recursion gives.
-/
namespace Polyglot

namespace Turn

variable {ι β : Type}

/-- A turn that goes on takes a token. How many the last turn takes depends on the loop. -/
def least (last : Nat) : Turn ι β → Nat
  | ended _ => last
  | again _ _ => 1

/-- Takes turns until one of them is the last or fails, or until there were `n` of them. -/
def repeated (turn : ι → (s : Cursor) → Reading s (Turn ι β)) :
    Nat → ι → (s : Cursor) → Option (Reading s β)
  | 0, _, _ => none
  | n + 1, state, s =>
    let r := turn state s
    match r.result with
    | .error e => some ⟨.error e, r.rest, r.size_le⟩
    | .ok (ended result) => some ⟨.ok result, r.rest, r.size_le⟩
    | .ok (again state complete) =>
      (repeated turn n state r.rest).map fun q => (q.after r.size_le).map complete

/-- The loop is made of turns that get on, and ends. -/
structure Ends (raws : Bool) (last : Nat) (turn : ι → (s : Cursor) → Reading s (Turn ι β))
    (loop : ι → (s : Cursor) → Reading s β) : Prop where
  /-- Every turn that does not end the loop or fail takes a token. -/
  progresses : ∀ state s, (turn state s).Progresses raws (least last)
  /-- The turns end after no more of them than there were tokens to take, and come to what the loop
  gives. -/
  repeated : ∀ state s, repeated turn (s.size + 1) state s = some (loop state s)

variable {raws : Bool} {last : Nat} {turn : ι → (s : Cursor) → Reading s (Turn ι β)}
  {loop : ι → (s : Cursor) → Reading s β}

theorem size_lt_of_again {s : Cursor} {x : Reading s (Turn ι β)} {state : ι} {complete : β → β}
    (hx : x.Progresses raws (least last)) (hr : x.result = .ok (again state complete)) :
    x.rest.size < s.size := by
  obtain ⟨ts, hpasses, hleast⟩ := hx
  have htaken : 1 ≤ ts.length := hleast _ hr
  have hsize := hpasses.forward.size_le
  omega

/-- By induction on the turns that are allowed: each of them that goes on leaves less to read. -/
theorem repeated_eq (hunfolds : Unfolds turn loop)
    (hturn : ∀ state s, (turn state s).Progresses raws (least last)) {n : Nat} {state : ι}
    {s : Cursor} (hn : s.size < n) : Turn.repeated turn n state s = some (loop state s) := by
  induction n generalizing state s with
  | zero => exact absurd hn (Nat.not_lt_zero _)
  | succ n ih =>
    rw [Turn.repeated, hunfolds]
    cases hr : (turn state s).result with
    | error e => rw [Reading.andThen_of_error hr]
    | ok x =>
      rw [Reading.andThen_of_ok hr]
      cases x with
      | ended result => rfl
      | again state' complete =>
        have hlt := size_lt_of_again (hturn state s) hr
        have hrest := @ih state' (turn state s).rest (by omega)
        simp only [hrest, Option.map_some]
        rfl

theorem Ends.of_unfolds (hunfolds : Unfolds turn loop)
    (hturn : ∀ state s, (turn state s).Progresses raws (least last)) :
    Ends raws last turn loop :=
  ⟨hturn, fun _ _ => repeated_eq hunfolds hturn (Nat.lt_succ_self _)⟩

end Turn

namespace Expr

/-- An expression is at least one token long, and so is what ends with a closing symbol; what goes
on after an expression may be nothing. -/
def progressing : Contract where
  level _ _ x := x.Progresses false fun _ => 1
  operators _ _ _ x := x.Progresses false fun _ => 0
  filters _ _ x := x.Progresses false fun _ => 0
  selectors _ _ x := x.Progresses false fun _ => 0
  primary _ x := x.Progresses false fun _ => 1
  arguments _ _ x := x.Progresses false fun _ => 1
  items _ x := x.Progresses false fun _ => 1
  pairs _ x := x.Progresses false fun _ => 1
  entries _ x := x.Progresses false fun _ => 1

section

variable {checks : Bool} {r : Readers}

theorem progresses_level (h : r.Keep progressing) (l : Level) (s : Cursor) :
    ((r.calling checks).level l s).Progresses false fun _ => 1 := by
  dsimp only [Readers.calling]
  refine Cursor.progresses_choose (fun op t _ => ?_) fun t _ => ?_
  · exact Reading.progresses_map (h.level l t).weaken
  · split
    · refine Reading.progresses_andThen (h.primary t) fun e u _ => ?_
      refine Reading.progresses_andThen (h.selectors e u) fun e v _ => ?_
      exact h.filters e v
    · refine Reading.progresses_andThen (h.level l.tighter t) fun e u _ => ?_
      exact h.operators l e u

theorem progresses_operators (h : r.Keep progressing) (l : Level) (e : Expr) (s : Cursor) :
    ((r.calling checks).operators l e s).Progresses false fun _ => 0 := by
  rw [Readers.calling_operators]
  refine Cursor.progresses_choose (fun op t _ => ?_) fun t _ => ?_
  · refine Reading.progresses_andThen (h.level l.tighter t) fun x u _ => ?_
    exact h.operators l _ u
  · exact Reading.progresses_done rfl

theorem progresses_filters (h : r.Keep progressing) (e : Expr) (s : Cursor) :
    ((r.calling checks).filters e s).Progresses false fun _ => 0 := by
  rw [Readers.calling_filters]
  refine Cursor.progresses_choose (fun _ t _ => ?_) fun t _ => ?_
  · refine Reading.progresses_andThen t.progresses_name fun n u _ => ?_
    refine Cursor.progresses_choose (fun _ v _ => ?_) fun v _ => ?_
    · refine Reading.progresses_andThen (h.arguments _ v) fun args w _ => ?_
      exact h.filters _ w
    · exact h.filters _ v
  · exact Reading.progresses_done rfl

theorem progresses_selectors (h : r.Keep progressing) (e : Expr) (s : Cursor) :
    ((r.calling checks).selectors e s).Progresses false fun _ => 0 := by
  rw [Readers.calling_selectors]
  refine Cursor.progresses_choose (fun _ t _ => ?_) fun t _ => ?_
  · refine Reading.progresses_andThen t.progresses_name fun key u _ => ?_
    exact h.selectors _ u
  refine Cursor.progresses_choose (fun _ u _ => ?_) fun u _ => ?_
  · refine Reading.progresses_andThen (h.level .or u) fun i v _ => ?_
    refine Reading.progresses_andThen (v.progresses_expect _) fun _ w _ => ?_
    exact h.selectors _ w
  refine Cursor.progresses_choose (fun n v _ => ?_) fun v _ => ?_
  · refine Reading.progresses_andThen (h.arguments _ v) fun args w _ => ?_
    exact h.selectors _ w
  · exact Reading.progresses_done rfl

theorem progresses_primary (h : r.Keep progressing) (s : Cursor) :
    ((r.calling checks).primary s).Progresses false fun _ => 1 := by
  dsimp only [Readers.calling]
  refine Cursor.progresses_take fun token t _ => ?_
  split
  · exact Reading.progresses_done rfl
  · exact Reading.progresses_done rfl
  · exact Reading.progresses_done rfl
  · refine Reading.progresses_andThen (h.level .or t) fun e u _ => ?_
    exact Reading.progresses_map (u.progresses_expect _).weaken
  · exact Reading.progresses_map (h.arguments _ t).weaken
  · exact Reading.progresses_map (h.pairs t).weaken
  · exact Reading.progresses_refuse

theorem progresses_arguments (h : r.Keep progressing) (close : Symbol) (s : Cursor) :
    ((r.calling checks).arguments close s).Progresses false fun _ => 1 := by
  dsimp only [Readers.calling]
  refine Cursor.progresses_choose (fun _ t _ => ?_) fun t _ => ?_
  · exact Reading.progresses_done rfl
  · refine Reading.progresses_andThen (h.items t) fun es u _ => ?_
    exact Reading.progresses_map (u.progresses_expect _).weaken

theorem progresses_items (h : r.Keep progressing) (s : Cursor) :
    ((r.calling checks).items s).Progresses false fun _ => 1 := by
  rw [Readers.calling_items]
  refine Reading.progresses_andThen (h.level .or s) fun e t _ => ?_
  refine Cursor.progresses_choose (fun _ u _ => ?_) fun u _ => ?_
  · exact Reading.progresses_map (h.items u).weaken
  · exact Reading.progresses_done rfl

theorem progresses_pairs (h : r.Keep progressing) (s : Cursor) :
    ((r.calling checks).pairs s).Progresses false fun _ => 1 := by
  dsimp only [Readers.calling]
  refine Cursor.progresses_choose (fun _ t _ => ?_) fun t _ => ?_
  · exact Reading.progresses_done rfl
  · refine Reading.progresses_andThen (h.entries t) fun es u _ => ?_
    exact Reading.progresses_map (u.progresses_expect _).weaken

theorem progresses_entries (h : r.Keep progressing) (s : Cursor) :
    ((r.calling checks).entries s).Progresses false fun _ => 1 := by
  rw [Readers.calling_entries]
  refine Reading.progresses_andThen (h.level .or s) fun key t _ => ?_
  refine Reading.progresses_andThen (t.progresses_expect _) fun _ u _ => ?_
  refine Reading.progresses_andThen (h.level .or u) fun e v _ => ?_
  refine Cursor.progresses_choose (fun _ w _ => ?_) fun w _ => ?_
  · exact Reading.progresses_map (h.entries w).weaken
  · exact Reading.progresses_done rfl

theorem refusing_keep_progressing : Readers.refusing.Keep progressing where
  level _ _ := Reading.progresses_refuse
  operators _ _ _ := Reading.progresses_refuse
  filters _ _ := Reading.progresses_refuse
  selectors _ _ := Reading.progresses_refuse
  primary _ := Reading.progresses_refuse
  arguments _ _ := Reading.progresses_refuse
  items _ := Reading.progresses_refuse
  pairs _ := Reading.progresses_refuse
  entries _ := Reading.progresses_refuse

theorem calling_keep_progressing (h : r.Keep progressing) :
    (r.calling checks).Keep progressing where
  level := progresses_level h
  operators := progresses_operators h
  filters := progresses_filters h
  selectors := progresses_selectors h
  primary := progresses_primary h
  arguments := progresses_arguments h
  items := progresses_items h
  pairs := progresses_pairs h
  entries := progresses_entries h

end

theorem readers_keep_progressing (checks : Bool) : (readers checks).Keep progressing :=
  keep_readers refusing_keep_progressing fun _ h => calling_keep_progressing h

/-- An expression takes at least one token. -/
theorem progresses_read (checks : Bool) (s : Cursor) :
    (read checks s).Progresses false fun _ => 1 :=
  (readers_keep_progressing checks).level .or s

theorem progresses_readAlone (checks : Bool) (s : Cursor) :
    (readAlone checks s).Progresses false fun _ => 1 := by
  refine Reading.progresses_andThen (progresses_read checks s) fun e t _ => ?_
  refine Reading.progresses_andThen (t.progresses_peek 0) fun token? u _ => ?_
  cases token? with
  | some token => exact Reading.progresses_refuse
  | none => exact Reading.progresses_done rfl

/-! One turn of each loop. What it reads before it goes on is a token or more. -/

theorem ends_operators (checks : Bool) (l : Level) :
    Turn.Ends false 0 ((readers checks).operatorTurn l) (operators checks l) := by
  refine .of_unfolds (unfolds_operators checks l) fun e s => ?_
  refine Cursor.progresses_choose (fun op t _ => ?_) fun t _ => Reading.progresses_done rfl
  exact Reading.progresses_map ((readers_keep_progressing checks).level l.tighter t).weaken

theorem ends_filters (checks : Bool) :
    Turn.Ends false 0 ((readers checks).filterTurn checks) (filters checks) := by
  refine .of_unfolds (unfolds_filters checks) fun e s => ?_
  refine Cursor.progresses_choose (fun _ t _ => ?_) fun t _ => Reading.progresses_done rfl
  refine Reading.progresses_andThen t.progresses_name fun n u _ => ?_
  refine Cursor.progresses_choose (fun _ v _ => ?_) fun v _ => Reading.progresses_done rfl
  exact Reading.progresses_map ((readers_keep_progressing checks).arguments _ v).weaken

theorem ends_selectors (checks : Bool) :
    Turn.Ends false 0 (readers checks).selectorTurn (selectors checks) := by
  refine .of_unfolds (unfolds_selectors checks) fun e s => ?_
  refine Cursor.progresses_choose (fun _ t _ => ?_) fun t _ => ?_
  · exact Reading.progresses_map t.progresses_name.weaken
  refine Cursor.progresses_choose (fun _ u _ => ?_) fun u _ => ?_
  · refine Reading.progresses_andThen (progresses_read checks u) fun i v _ => ?_
    exact Reading.progresses_map (v.progresses_expect _).weaken
  refine Cursor.progresses_choose (fun n v _ => ?_) fun v _ => Reading.progresses_done rfl
  exact Reading.progresses_map ((readers_keep_progressing checks).arguments _ v).weaken

/-- Also the last item is at least one token. -/
theorem ends_items (checks : Bool) :
    Turn.Ends false 1 (fun _ => (readers checks).itemTurn) (fun _ => items checks) := by
  refine .of_unfolds (unfolds_items checks) fun _ s => ?_
  refine Reading.progresses_andThen (progresses_read checks s) fun e t _ => ?_
  exact Cursor.progresses_choose (fun _ u _ => Reading.progresses_done rfl)
    fun u _ => Reading.progresses_done rfl

theorem ends_entries (checks : Bool) :
    Turn.Ends false 1 (fun _ => (readers checks).entryTurn) (fun _ => entries checks) := by
  refine .of_unfolds (unfolds_entries checks) fun _ s => ?_
  refine Reading.progresses_andThen (progresses_read checks s) fun key t _ => ?_
  refine Reading.progresses_andThen (t.progresses_expect _) fun _ u _ => ?_
  refine Reading.progresses_andThen (progresses_read checks u) fun e v _ => ?_
  exact Cursor.progresses_choose (fun _ w _ => Reading.progresses_done rfl)
    fun w _ => Reading.progresses_done rfl

end Expr

namespace Node

variable (env : Environment)

theorem progresses_readExpr (s : Cursor) :
    (Expr.read env.options.sandboxed s).Progresses true fun _ => 1 :=
  (Expr.progresses_read _ s).withRaws true

theorem progresses_expectBlockEnd (s : Cursor) : (expectBlockEnd s).Progresses true fun _ => 1 :=
  s.progresses_expect _

theorem progresses_closing (name : String) (s : Cursor) :
    (closing name s).Progresses true fun _ => 1 := by
  refine Reading.progresses_andThen (s.progresses_expect _) fun _ t _ => ?_
  exact (progresses_expectBlockEnd t).weaken

theorem progresses_rawSection (name : String) (s : Cursor) :
    (rawSection name s).Progresses true fun _ => 0 :=
  Reading.progresses_map (s.progresses_raw name)

theorem progresses_notes (s : Cursor) : (notes s).Progresses true fun _ => 0 := by
  refine Cursor.progresses_choose (fun _ t _ => ?_) fun t _ => Reading.progresses_done rfl
  refine Reading.progresses_andThen (progresses_expectBlockEnd t) fun _ u _ => ?_
  exact Reading.progresses_map (progresses_rawSection _ u)

/-- Nodes may be none, and a tag is read from after its name. -/
def progressing : Contract where
  nodes _ _ x := x.Progresses true fun _ => 0
  tag _ _ _ x := x.Progresses true fun _ => 0
  loopTag _ x := x.Progresses true fun _ => 0
  branchTag _ x := x.Progresses true fun _ => 0
  guarded _ x := x.Progresses true fun _ => 0
  furtherCases _ x := x.Progresses true fun _ => 0
  ruledTag _ _ _ _ x := x.Progresses true fun _ => 0
  parts _ x := x.Progresses true fun _ => 0
  counted _ x := x.Progresses true fun _ => 0

section

variable {env} {r : Readers}

theorem progresses_nodes (h : r.Keep progressing) (stop : Stop) (s : Cursor) :
    ((r.calling env).nodes stop s).Progresses true fun _ => 0 := by
  rw [Readers.calling_nodes]
  refine Reading.progresses_andThen (s.progresses_peek 0) fun token? t _ => ?_
  split
  · split
    · exact Reading.progresses_done rfl
    · exact Reading.progresses_refuse
  · refine Cursor.progresses_take fun token u _ => ?_
    exact Reading.progresses_map (h.nodes stop u)
  · refine Cursor.progresses_take fun token u _ => ?_
    refine Reading.progresses_andThen (progresses_readExpr env u) fun e v _ => ?_
    refine Reading.progresses_andThen (v.progresses_expect _) fun _ w _ => ?_
    exact Reading.progresses_map (h.nodes stop w)
  · refine Cursor.progresses_take fun token u _ => ?_
    refine Reading.progresses_andThen u.progresses_tagName fun name v _ => ?_
    split
    · exact Reading.progresses_done rfl
    · refine Cursor.progresses_take fun _ w _ => ?_
      refine Reading.progresses_andThen (h.tag _ _ w) fun n x _ => ?_
      exact Reading.progresses_map (h.nodes stop x)
  · exact Reading.progresses_refuse

theorem progresses_tag (h : r.Keep progressing) (name : String) (line : Nat) (s : Cursor) :
    ((r.calling env).tag name line s).Progresses true fun _ => 0 := by
  dsimp only [Readers.calling]
  split
  · exact h.loopTag s
  split
  · exact h.branchTag s
  split
  · exact h.ruledTag _ name line s
  · exact Reading.progresses_refuse

theorem progresses_loopTag (h : r.Keep progressing) (s : Cursor) :
    ((r.calling env).loopTag s).Progresses true fun _ => 0 := by
  dsimp only [Readers.calling]
  refine Reading.progresses_andThen s.progresses_name fun target t _ => ?_
  refine Reading.progresses_andThen (t.progresses_expect _) fun _ u _ => ?_
  refine Reading.progresses_andThen (progresses_readExpr env u) fun e v _ => ?_
  refine Reading.progresses_andThen (progresses_expectBlockEnd v) fun _ w _ => ?_
  refine Reading.progresses_andThen (h.nodes _ w) fun body x _ => ?_
  exact Reading.progresses_map (progresses_closing _ x).weaken

theorem progresses_branchTag (h : r.Keep progressing) (s : Cursor) :
    ((r.calling env).branchTag s).Progresses true fun _ => 0 := by
  dsimp only [Readers.calling]
  refine Reading.progresses_andThen (h.guarded s) fun first t _ => ?_
  exact Reading.progresses_map (h.furtherCases t)

theorem progresses_guarded (h : r.Keep progressing) (s : Cursor) :
    ((r.calling env).guarded s).Progresses true fun _ => 0 := by
  dsimp only [Readers.calling]
  refine Reading.progresses_andThen (progresses_readExpr env s) fun e t _ => ?_
  refine Reading.progresses_andThen (progresses_expectBlockEnd t) fun _ u _ => ?_
  exact Reading.progresses_map (h.nodes _ u)

theorem progresses_furtherCases (h : r.Keep progressing) (s : Cursor) :
    ((r.calling env).furtherCases s).Progresses true fun _ => 0 := by
  rw [Readers.calling_furtherCases]
  refine Cursor.progresses_takeName fun name t _ => ?_
  split
  · refine Reading.progresses_andThen (h.guarded t) fun c u _ => ?_
    exact Reading.progresses_map (h.furtherCases u)
  split
  · refine Reading.progresses_andThen (progresses_expectBlockEnd t) fun _ u _ => ?_
    refine Reading.progresses_andThen (h.nodes _ u) fun body v _ => ?_
    exact Reading.progresses_map (progresses_closing _ v).weaken
  split
  · exact Reading.progresses_map (progresses_expectBlockEnd t).weaken
  · exact Reading.progresses_refuse

theorem progresses_ruledTag (h : r.Keep progressing) (rule : TagRule) (name : String) (line : Nat)
    (s : Cursor) : ((r.calling env).ruledTag rule name line s).Progresses true fun _ => 0 := by
  dsimp only [Readers.calling]
  cases rule with
  | phrase =>
    refine Reading.progresses_andThen (s.progresses_expect _) fun _ t _ => ?_
    refine Reading.progresses_andThen (progresses_readExpr env t) fun domain u _ => ?_
    refine Reading.progresses_andThen (h.parts u) fun p v _ => ?_
    refine Reading.progresses_andThen (progresses_expectBlockEnd v) fun _ w _ => ?_
    split
    · exact Reading.progresses_done rfl
    · exact Reading.progresses_fail
  | print =>
    refine Reading.progresses_andThen (progresses_readExpr env s) fun e t _ => ?_
    exact Reading.progresses_map (progresses_expectBlockEnd t).weaken
  | raw =>
    refine Reading.progresses_andThen (progresses_expectBlockEnd s) fun _ t _ => ?_
    refine Reading.progresses_andThen (progresses_rawSection _ t) fun content u _ => ?_
    exact Reading.progresses_map (progresses_closing _ u).weaken
  | wrap =>
    refine Reading.progresses_andThen (progresses_expectBlockEnd s) fun _ t _ => ?_
    refine Reading.progresses_andThen (h.nodes _ t) fun content u _ => ?_
    exact Reading.progresses_map (progresses_closing _ u).weaken

theorem progresses_parts (h : r.Keep progressing) (s : Cursor) :
    ((r.calling env).parts s).Progresses true fun _ => 0 := by
  dsimp only [Readers.calling]
  refine Reading.progresses_andThen (s.progresses_sees _) fun isBlock t _ => ?_
  split
  · refine Reading.progresses_andThen (progresses_expectBlockEnd t) fun _ u _ => ?_
    refine Reading.progresses_andThen (h.nodes _ u) fun body v _ => ?_
    refine Reading.progresses_andThen (h.counted v) fun c w _ => ?_
    refine Reading.progresses_andThen (progresses_notes w) fun notes x _ => ?_
    exact Reading.progresses_map (x.progresses_expect _).weaken
  · exact Reading.progresses_map (progresses_readExpr env t).weaken

theorem progresses_counted (h : r.Keep progressing) (s : Cursor) :
    ((r.calling env).counted s).Progresses true fun _ => 0 := by
  dsimp only [Readers.calling]
  refine Cursor.progresses_choose (fun _ t _ => ?_) fun t _ => Reading.progresses_done rfl
  refine Reading.progresses_andThen (progresses_readExpr env t) fun count u _ => ?_
  refine Reading.progresses_andThen (progresses_expectBlockEnd u) fun _ v _ => ?_
  exact Reading.progresses_map (h.nodes _ v)

theorem refusing_keep_progressing : Readers.refusing.Keep progressing where
  nodes _ _ := Reading.progresses_refuse
  tag _ _ _ := Reading.progresses_refuse
  loopTag _ := Reading.progresses_refuse
  branchTag _ := Reading.progresses_refuse
  guarded _ := Reading.progresses_refuse
  furtherCases _ := Reading.progresses_refuse
  ruledTag _ _ _ _ := Reading.progresses_refuse
  parts _ := Reading.progresses_refuse
  counted _ := Reading.progresses_refuse

theorem calling_keep_progressing (h : r.Keep progressing) :
    (r.calling env).Keep progressing where
  nodes := progresses_nodes h
  tag := progresses_tag h
  loopTag := progresses_loopTag h
  branchTag := progresses_branchTag h
  guarded := progresses_guarded h
  furtherCases := progresses_furtherCases h
  ruledTag := progresses_ruledTag h
  parts := progresses_parts h
  counted := progresses_counted h

end

theorem readers_keep_progressing : (readers env).Keep progressing :=
  keep_readers refusing_keep_progressing fun _ h => calling_keep_progressing h

/-- A node begins with a token that is taken before anything else is read. -/
theorem ends_nodes (stop : Stop) :
    Turn.Ends true 0 (fun _ => (readers env).nodeTurn env stop) (fun _ => nodes env stop) := by
  refine .of_unfolds (unfolds_nodes env stop) fun _ s => ?_
  refine Reading.progresses_andThen (s.progresses_peek 0) fun token? t _ => ?_
  split
  · split
    · exact Reading.progresses_done rfl
    · exact Reading.progresses_refuse
  · exact Cursor.progresses_take fun token u _ => Reading.progresses_done rfl
  · refine Cursor.progresses_take fun token u _ => ?_
    refine Reading.progresses_andThen (progresses_readExpr env u) fun e v _ => ?_
    exact Reading.progresses_map (v.progresses_expect _).weaken
  · refine Cursor.progresses_take fun token u _ => ?_
    refine Reading.progresses_andThen u.progresses_tagName fun name v _ => ?_
    split
    · exact Reading.progresses_done rfl
    · refine Cursor.progresses_take fun _ w _ => ?_
      exact Reading.progresses_map ((readers_keep_progressing env).tag name _ w)
  · exact Reading.progresses_refuse

/-- A case begins with the name of its tag, and so does the end of the branch. -/
theorem ends_furtherCases :
    Turn.Ends true 1 (fun _ => (readers env).caseTurn) (fun _ => furtherCases env) := by
  refine .of_unfolds (unfolds_furtherCases env) fun _ s => ?_
  refine Cursor.progresses_takeName fun name t _ => ?_
  split
  · exact Reading.progresses_map ((readers_keep_progressing env).guarded t)
  split
  · refine Reading.progresses_andThen (progresses_expectBlockEnd t) fun _ u _ => ?_
    refine Reading.progresses_andThen ((readers_keep_progressing env).nodes _ u) fun body v _ => ?_
    exact Reading.progresses_map (progresses_closing _ v).weaken
  split
  · exact Reading.progresses_map (progresses_expectBlockEnd t).weaken
  · exact Reading.progresses_refuse

end Node

end Polyglot
