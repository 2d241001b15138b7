import Polyglot.Proofs.AgreeingScopes

/-!
Loops without a stack of scopes. What is rendered under a stack is rendered under the one scope in
which each name has its innermost binding. A turn of a loop is then its body in the context of the
loop with two entries replaced, and the loop is its turns one after another, each by itself.
-/
namespace Polyglot

namespace Scopes

/-- One scope with the innermost binding of every name. -/
def flat : Scopes → Entries Value
  | [] => []
  | scope :: scopes => scope.foldr (fun e outer => outer.insert e.1 e.2) (flat scopes)

theorem get?_foldr_insert (n : String) (scope outer : Entries Value) :
    Entries.get? n (scope.foldr (fun e outer => Entries.insert e.1 e.2 outer) outer) =
      (scope.get? n).or (outer.get? n) := by
  induction scope with
  | nil => rfl
  | cons e scope ih =>
    obtain ⟨name, v⟩ := e
    rw [List.foldr_cons, Entries.get?]
    split
    · next hname => rw [hname, Entries.get?_insert_self, Option.some_or]
    · next hname => rw [Entries.get?_insert_of_ne (Ne.symm hname), ih]

theorem get?_flat (n : String) (scopes : Scopes) :
    scopes.flat.get? n = scopes.findSome? (·.get? n) := by
  induction scopes with
  | nil => rfl
  | cons scope scopes ih =>
    rw [flat, get?_foldr_insert, ih, List.findSome?_cons]
    cases scope.get? n <;> rfl

theorem lookup_flat (n : String) (scopes : Scopes) : lookup n [scopes.flat] = lookup n scopes := by
  rw [lookup_singleton, get?_flat]
  rfl

end Scopes

namespace Evaluator

/-- The context of a turn. The target is bound before `loop`, which replaces a target of that
name. -/
def turnContext (context : Entries Value) (target : String) (item : Value) (turn turns : Nat) :
    Entries Value :=
  (context.insert target item).insert "loop" (.map [
    ("first", .bool (turn == 0)),
    ("index", .int (.wrap (turn + 1))),
    ("index0", .int (.wrap turn)),
    ("last", .bool (turn + 1 == turns))])

theorem ofList_loopEntries (index0 index first last : Value) :
    Entries.ofList [("index0", index0), ("index", index), ("first", first), ("last", last)] =
      [("first", first), ("index", index), ("index0", index0), ("last", last)] := by
  simp (disch := decide) only [Entries.ofList, List.foldl_cons, List.foldl_nil, Entries.insert,
    if_pos, if_neg]

theorem turnContext_eq (context : Entries Value) (target : String) (item : Value)
    (turn turns : Nat) :
    turnContext context target item turn turns =
      (context.insert target item).insert "loop" (loopValue turn turns) := by
  rw [turnContext, loopValue, ofList_loopEntries]

theorem get?_turnContext (n : String) (context : Entries Value) (target : String) (item : Value)
    (turn turns : Nat) :
    (turnContext context target item turn turns).get? n =
      ((loopScope target item turn turns).get? n).or (context.get? n) := by
  have hscope : loopScope target item turn turns =
      (Entries.insert target item []).insert "loop" (loopValue turn turns) := rfl
  rw [turnContext_eq, hscope]
  by_cases hloop : n = "loop"
  · subst hloop
    rw [Entries.get?_insert_self, Entries.get?_insert_self, Option.some_or]
  rw [Entries.get?_insert_of_ne hloop, Entries.get?_insert_of_ne hloop]
  by_cases htarget : n = target
  · subst htarget
    rw [Entries.get?_insert_self, Entries.get?_insert_self, Option.some_or]
  · rw [Entries.get?_insert_of_ne htarget, Entries.get?_insert_of_ne htarget]
    rfl

/-- The scope of a turn on top of a context binds what the context of the turn binds. -/
theorem lookup_loopScope (n : String) (context : Entries Value) (target : String) (item : Value)
    (turn turns : Nat) :
    Scopes.lookup n [loopScope target item turn turns, context] =
      Scopes.lookup n [turnContext context target item turn turns] := by
  rw [Scopes.lookup_singleton, get?_turnContext]
  cases hget : (loopScope target item turn turns).get? n with
  | some v => rw [Scopes.lookup_cons_of_some hget, Option.some_or, Option.getD_some]
  | none => rw [Scopes.lookup_cons_of_none hget, Scopes.lookup_singleton, Option.none_or]

variable (m : Evaluator)

/-- The body of a turn is rendered alike under the scope of the turn and in its context. -/
theorem run_turn (body : List Node) (context : Entries Value) (target : String) (item : Value)
    (turn turns : Nat) :
    (Rendering.within (loopScope target item turn turns) (m.renderNodes body) [context]).1 =
      m.env.renderNodes body (turnContext context target item turn turns) m.translator :=
  m.dependsOn_renderNodes body _ _ fun n _ => lookup_loopScope n context target item turn turns

/-- The turns from any one on, each by itself. -/
theorem run_turns (body : List Node) (context : Entries Value) (target : String) (count turn : Nat)
    (items : List Value) :
    (turns target (m.renderNodes body) count turn items [context]).1 =
      String.join <$> (items.zipIdx turn).mapM fun x =>
        m.env.renderNodes body (turnContext context target x.1 x.2 count) m.translator := by
  induction items generalizing turn with
  | nil => rfl
  | cons item items ih =>
    have hbody : (m.renderNodes body).Restores := restores_renderNodes m body
    have hturn : (Rendering.within (loopScope target item turn count)
        (m.renderNodes body)).Restores := Rendering.restores_within hbody _
    have hturns := restores_turns hbody target count (turn + 1) items
    rw [turns, hturn.run_bind, run_turn, List.zipIdx_cons, List.mapM_cons, map_bind]
    refine bind_congr fun s => ?_
    rw [hturns.run_bind, ih, map_bind, bind_map_left]
    refine bind_congr fun ss => ?_
    rw [map_pure, String.join_cons]
    rfl

/-- A loop over a list asks for what the list asks for, and then does its turns. -/
theorem run_loop {scopes : Scopes} {e : Expr} {items : List Value}
    (h : (m.eval scopes e).result = .ok (.list items)) (target : String) (body : List Node) :
    (m.renderNode (.loop target e body) scopes).1 =
      ⟨(m.eval scopes e).requests ++
          (turns target (m.renderNodes body) items.length 0 items scopes).1.requests,
        (turns target (m.renderNodes body) items.length 0 items scopes).1.result⟩ := by
  have hread : Rendering.reading (fun scopes => m.eval scopes e) scopes =
      (⟨(m.eval scopes e).requests, .ok (.list items)⟩, scopes) := by
    rw [← h]
    rfl
  rw [renderNode, Rendering.bind_of_ok hread]

theorem run_renderNodes_singleton (n : Node) (scopes : Scopes) :
    (m.renderNodes [n] scopes).1 = (m.renderNode n scopes).1 := by
  have hrest : ∀ s, ((m.renderNodes [] >>= fun t => pure (s ++ t)) scopes).1 =
      Pure.pure s := by
    intro s
    rw [(restores_renderNodes m []).run_bind]
    exact congrArg Pure.pure String.append_empty
  rw [renderNodes, (restores_renderNode m n).run_bind]
  exact (bind_congr hrest).trans (bind_pure _)

end Evaluator

namespace Environment

/-- The outputs of the turns of a loop, up to the first turn that fails. -/
def unrolled (env : Environment) (context : Entries Value) (target : String) (body : List Node)
    (items : List Value) (translator : Translator) : Run String :=
  String.join <$> items.zipIdx.mapM fun x =>
    env.renderNodes body (Evaluator.turnContext context target x.1 x.2 items.length) translator

/-- A loop over a list does its turns by themselves, each in its own flat context, once the list has
been computed. Whatever the stack of scopes, it can be flattened first. -/
theorem renderNodes_loop_eq_unrolled (env : Environment) (translator : Translator) :
    (∀ context target e body items,
      ((Evaluator.mk env translator).eval [context] e).result = .ok (.list items) →
        env.renderNodes [.loop target e body] context translator =
          ⟨((Evaluator.mk env translator).eval [context] e).requests ++
              (env.unrolled context target body items translator).requests,
            (env.unrolled context target body items translator).result⟩) ∧
    ∀ nodes (scopes : Scopes),
      ((Evaluator.mk env translator).renderNodes nodes scopes).1 =
          env.renderNodes nodes scopes.flat translator ∧
        ∀ n, scopes.flat.get? n = scopes.findSome? (·.get? n) := by
  constructor
  · intro context target e body items hitems
    rw [renderNodes, Evaluator.run_renderNodes_singleton, Evaluator.run_loop _ hitems,
      Evaluator.run_turns]
    rfl
  · intro nodes scopes
    refine ⟨?_, fun n => Scopes.get?_flat n scopes⟩
    exact (Evaluator.mk env translator).dependsOn_renderNodes nodes scopes [scopes.flat]
      fun n _ => (Scopes.lookup_flat n scopes).symm

/-- The inner loop hides the target and `loop` of the outer one. -/
theorem renderNodes_loop_eq_unrolled_nested :
    let inner : Node := .loop "x" (.name "x")
      [.phrase ⟨.inline (.name "x"), .text "d", none, none, 1⟩,
        .print (.member (.name "loop") "index")]
    let context : Entries Value :=
      [("x", .null), ("xs", .list [.list [.text "a", .text "b"], .list [.text "c"]])]
    ((Evaluator.mk (standard {}) Translator.echo).eval [context] (.name "xs")).result =
        .ok (.list [.list [.text "a", .text "b"], .list [.text "c"]]) ∧
      (standard {}).renderNodes
          [.loop "x" (.name "xs") [inner, .print (.member (.name "loop") "last")]]
          context Translator.echo =
        ⟨[.single "a" "d", .single "b" "d", .single "c" "d"],
          .ok "<d>a1<d>b2false<d>c1true"⟩ := by
  intro inner context
  have hitems : ((Evaluator.mk (standard {}) Translator.echo).eval [context] (.name "xs")).result =
      .ok (.list [.list [.text "a", .text "b"], .list [.text "c"]]) := by
    decide +kernel
  refine ⟨hitems, ?_⟩
  rw [((standard {}).renderNodes_loop_eq_unrolled Translator.echo).1 _ "x" _ _ _ hitems]
  decide +kernel

end Environment

end Polyglot
