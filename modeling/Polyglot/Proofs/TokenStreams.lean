import Polyglot.Proofs.CursorRules

/-!
Looking ahead leaves no trace. A template is a stream of tokens that ends or fails, and a cursor
answers from that stream whatever it was asked before: a call that takes a token gets the next one,
a call that looks gets the one at its distance, and what was looked at is still there. The invariant
is that the tokens ahead of a cursor, followed by those that its scanner still finds, are the rest
of the stream.
-/
namespace Polyglot

/-- The tokens of a template up to its end or to the first error in it. -/
structure TokenStream where
  tokens : List Token
  error? : Option Error
  deriving DecidableEq

namespace TokenStream

/-- The line of the last one of the first `i` tokens, 1 before the first token. -/
def lineAt (st : TokenStream) (i : Nat) : Nat :=
  ((st.tokens.take i).getLast?.map (·.line)).getD 1

/-- What a look at the token after the first `i` finds. -/
def look (st : TokenStream) (i : Nat) : Except Error (Option Token) :=
  match st.tokens[i]?, st.error? with
  | some token, _ => .ok (some token)
  | none, some e => .error e
  | none, none => .ok none

/-- What taking the token after the first `i` gives. -/
def get (st : TokenStream) (i : Nat) : Except Error Token :=
  match st.tokens[i]? with
  | some token => .ok token
  | none => .error (st.error?.getD (.malformed .endOfTemplate (st.lineAt i)))

end TokenStream

namespace Scanner

/-- The tokens from a scanner on. -/
def stream (σ : Scanner) : TokenStream :=
  match h : σ.next with
  | (.ok none, _) => ⟨[], none⟩
  | (.ok (some token), τ) =>
    have := length_next_lt h
    ⟨token :: (stream τ).tokens, (stream τ).error?⟩
  | (.error e, _) => ⟨[], some e⟩
termination_by σ.rest.length

variable {σ τ : Scanner}

theorem stream_of_token {token : Token} (h : σ.next = (.ok (some token), τ)) :
    σ.stream = ⟨token :: τ.stream.tokens, τ.stream.error?⟩ := by
  rw [stream]
  split
  · next hnext => cases hnext.symm.trans h
  · next hnext =>
    cases hnext.symm.trans h
    rfl
  · next hnext => cases hnext.symm.trans h

theorem stream_of_end (h : σ.next = (.ok none, τ)) : σ.stream = ⟨[], none⟩ := by
  rw [stream]
  split
  · rfl
  · next hnext => cases hnext.symm.trans h
  · next hnext => cases hnext.symm.trans h

theorem stream_of_error {e : Error} (h : σ.next = (.error e, τ)) : σ.stream = ⟨[], some e⟩ := by
  rw [stream]
  split
  · next hnext => cases hnext.symm.trans h
  · next hnext => cases hnext.symm.trans h
  · next hnext =>
    cases hnext.symm.trans h
    rfl

end Scanner

namespace Cursor

/-- What a cursor can be asked for, one token at a time. A test for a name is one for its lexeme,
and so is the demand for one. -/
inductive Action where
  | peek (n : Nat)
  | sees (x : Lexeme)
  | next
  | name
  | expect (x : Lexeme)
  deriving DecidableEq

inductive Answer where
  | ahead (token? : Option Token)
  | seen (b : Bool)
  | taken (token : Token)
  | name (n : String)
  deriving DecidableEq

namespace Action

/-- The action takes a token, also if it then refuses it. -/
def takes : Action → Bool
  | peek _ => false
  | sees _ => false
  | next => true
  | name => true
  | expect _ => true

def read (s : Cursor) : Action → Reading s Answer
  | peek n => (s.peek n).map .ahead
  | sees x => (s.sees x).map .seen
  | next => s.next.map .taken
  | name => s.name.map .name
  | expect x => (s.expect x).map .taken

/-- The answer by the stream of tokens alone, after the first `i` were taken. -/
def answer (st : TokenStream) (i : Nat) : Action → Except Error Answer
  | peek n => (st.look (i + n)).map .ahead
  | sees x => (st.look i).map fun token? => .seen (token?.any (·.lexeme == x))
  | next => (st.get i).map .taken
  | name => do
    let token ← st.get i
    match token.lexeme with
    | .name n => .ok (.name n)
    | x => .error (.malformed (.expectedName x) token.line)
  | expect x => do
    let token ← st.get i
    if token.lexeme = x then .ok (.taken token)
    else .error (.malformed (.expectedLexeme token.lexeme x) token.line)

end Action

/-- The answers to some actions in order. An action that fails does not end the list: the next one
goes on from where it has left the cursor. -/
def answers (s : Cursor) : List Action → List (Except Error Answer)
  | [] => []
  | action :: rest => (action.read s).result :: answers (action.read s).rest rest

/-- The tokens that were looked at, and those that the scanner still finds. -/
def stream (s : Cursor) : TokenStream :=
  ⟨s.ahead ++ s.scanner.stream.tokens, s.scanner.stream.error?⟩

variable {s : Cursor} {st : TokenStream} {i : Nat}

/-- Looking at more tokens moves them from the scanner to those ahead. -/
theorem stream_fetch (n : Nat) (s : Cursor) :
    (fetch n s).2.stream = s.stream ∧ (fetch n s).2.line = s.line := by
  induction n generalizing s with
  | zero => exact ⟨rfl, rfl⟩
  | succ n ih =>
    have hagain : ∀ {r : Except Error (Option Token)} {τ : Scanner}, s.scanner.next = (r, τ) →
        (∀ token, r ≠ .ok (some token)) → τ.stream = s.scanner.stream := by
      intro r τ hnext hr
      have hτ := Scanner.next_of_no_token hnext hr
      match r with
      | .ok none => rw [Scanner.stream_of_end hτ, Scanner.stream_of_end hnext]
      | .ok (some token) => exact absurd rfl (hr token)
      | .error e => rw [Scanner.stream_of_error hτ, Scanner.stream_of_error hnext]
    unfold fetch
    split
    · next token τ hnext =>
      obtain ⟨hstream, hline⟩ := ih { s with ahead := s.ahead ++ [token], scanner := τ }
      refine ⟨hstream.trans ?_, hline⟩
      simp [stream, Scanner.stream_of_token hnext]
    · next τ hnext => exact ⟨by simp [stream, hagain hnext (by simp)], rfl⟩
    · next e τ hnext => exact ⟨by simp [stream, hagain hnext (by simp)], rfl⟩

/-- As many looks as are needed find the token at a distance, or what there is in its place. -/
theorem look_fetch {n k : Nat} (s : Cursor) (hk : k = n + 1 - s.ahead.length) :
    (fetch k s).1.map (fun _ => (fetch k s).2.ahead[n]?) = s.stream.look n := by
  induction k generalizing s with
  | zero =>
    have hn : n < s.ahead.length := by omega
    have hahead : (s.ahead ++ s.scanner.stream.tokens)[n]? = some s.ahead[n] := by
      rw [List.getElem?_append_left hn, List.getElem?_eq_getElem hn]
    simp [fetch, stream, TokenStream.look, Except.map, hn, hahead]
  | succ k ih =>
    have hn : s.ahead.length ≤ n := by omega
    unfold fetch
    split
    · next token τ hnext =>
      have hih := ih { s with ahead := s.ahead ++ [token], scanner := τ } (by simp; omega)
      rw [hih]
      simp [stream, Scanner.stream_of_token hnext]
    · next τ hnext =>
      simp [stream, TokenStream.look, Except.map, Scanner.stream_of_end hnext, hn]
    · next e τ hnext =>
      simp [stream, TokenStream.look, Except.map, Scanner.stream_of_error hnext, hn]

theorem result_peek (s : Cursor) (n : Nat) : (s.peek n).result = s.stream.look n :=
  look_fetch s rfl

/-- The next token of the stream is taken and becomes the last one, if there is one. -/
theorem next_of_stream_cons {token : Token} {ts : List Token} (h : s.stream.tokens = token :: ts) :
    s.next.result = .ok token ∧ s.next.rest.stream = ⟨ts, s.stream.error?⟩ ∧
      s.next.rest.line = token.line := by
  obtain ⟨ahead, σ, line⟩ := s
  cases ahead with
  | cons first ahead =>
    obtain ⟨rfl, rfl⟩ := List.cons.inj h
    exact ⟨rfl, rfl, rfl⟩
  | nil =>
    cases hnext : σ.next with
    | mk r τ =>
      match r with
      | .ok none => simp [stream, Scanner.stream_of_end hnext] at h
      | .ok (some first) =>
        simp only [stream, Scanner.stream_of_token hnext, List.nil_append] at h
        obtain ⟨rfl, rfl⟩ := List.cons.inj h
        simp [next, step, hnext, stream, Scanner.stream_of_token hnext]
      | .error e => simp [stream, Scanner.stream_of_error hnext] at h

/-- Where the stream ends or fails, it goes on doing so. -/
theorem next_of_stream_nil (h : s.stream.tokens = []) :
    s.next.result = .error (s.stream.error?.getD (.malformed .endOfTemplate s.line)) ∧
      s.next.rest.stream = s.stream ∧ s.next.rest.line = s.line := by
  obtain ⟨ahead, σ, line⟩ := s
  obtain ⟨rfl, _⟩ := List.append_eq_nil_iff.1 h
  cases hnext : σ.next with
  | mk r τ =>
    match r with
    | .ok none =>
      have hτ := Scanner.stream_of_end (Scanner.next_of_no_token hnext (by simp))
      simp [next, step, hnext, stream, Scanner.stream_of_end hnext, hτ]
    | .ok (some first) => simp [stream, Scanner.stream_of_token hnext] at h
    | .error e =>
      have hτ := Scanner.stream_of_error (Scanner.next_of_no_token hnext (by simp))
      simp [next, step, hnext, stream, Scanner.stream_of_error hnext, hτ]

/-- A name is the next token, taken whether it is a name or not. -/
theorem name_eq (s : Cursor) : s.name.rest = s.next.rest ∧ s.name.result = (do
    let token ← s.next.result
    match token.lexeme with
    | .name n => .ok n
    | x => .error (.malformed (.expectedName x) token.line)) := by
  cases hr : s.next.result with
  | error e =>
    rw [name, takeName, take, Reading.bind_of_error hr]
    exact ⟨rfl, rfl⟩
  | ok token =>
    rw [name, takeName, take, Reading.bind_of_ok hr]
    obtain ⟨x, line⟩ := token
    cases x <;> exact ⟨rfl, rfl⟩

/-- An expected lexeme is the next token, taken whether it is that lexeme or not. -/
theorem expect_eq (s : Cursor) (x : Lexeme) :
    (s.expect x).rest = s.next.rest ∧ (s.expect x).result = (do
      let token ← s.next.result
      if token.lexeme = x then .ok token
      else .error (.malformed (.expectedLexeme token.lexeme x) token.line)) := by
  cases hr : s.next.result with
  | error e =>
    rw [expect, Reading.andThen_of_error hr]
    exact ⟨rfl, rfl⟩
  | ok token =>
    rw [expect, Reading.andThen_of_ok hr]
    change _ ∧ _ = if token.lexeme = x then _ else _
    split <;> exact ⟨rfl, rfl⟩

/-- The cursor stands behind the first `i` tokens of a stream. -/
structure StandsAt (s : Cursor) (st : TokenStream) (i : Nat) : Prop where
  stream : s.stream = ⟨st.tokens.drop i, st.error?⟩
  line : s.line = st.lineAt i

namespace StandsAt

variable (h : s.StandsAt st i)
include h

theorem result_peek (n : Nat) : (s.peek n).result = st.look (i + n) := by
  rw [Cursor.result_peek, h.stream, TokenStream.look, TokenStream.look, List.getElem?_drop]

theorem rest_peek (n : Nat) : (s.peek n).rest.StandsAt st i := by
  obtain ⟨hstream, hline⟩ := stream_fetch (n + 1 - s.ahead.length) s
  exact ⟨hstream.trans h.stream, hline.trans h.line⟩

theorem next : s.next.result = st.get i ∧ s.next.rest.StandsAt st (i + 1) := by
  have htokens : s.stream.tokens = st.tokens.drop i := congrArg TokenStream.tokens h.stream
  have herror : s.stream.error? = st.error? := by rw [h.stream]
  cases htoken : st.tokens[i]? with
  | none =>
    have hi : st.tokens.length ≤ i := List.getElem?_eq_none_iff.1 htoken
    obtain ⟨hresult, hstream, hline⟩ :=
      next_of_stream_nil (htokens.trans (List.drop_of_length_le hi))
    have hlast : st.lineAt (i + 1) = st.lineAt i := by
      rw [TokenStream.lineAt, TokenStream.lineAt, List.take_of_length_le hi,
        List.take_of_length_le (Nat.le_succ_of_le hi)]
    refine ⟨?_, ?_, hline.trans (h.line.trans hlast.symm)⟩
    · rw [hresult, herror, h.line, TokenStream.get, htoken]
    · rw [hstream, h.stream, List.drop_of_length_le hi,
        List.drop_of_length_le (Nat.le_succ_of_le hi)]
  | some token =>
    obtain ⟨hi, rfl⟩ := List.getElem?_eq_some_iff.1 htoken
    obtain ⟨hresult, hstream, hline⟩ :=
      next_of_stream_cons (htokens.trans (List.drop_eq_getElem_cons hi))
    have hlast : st.lineAt (i + 1) = st.tokens[i].line := by
      rw [TokenStream.lineAt, List.take_succ_eq_append_getElem hi, List.getLast?_concat]
      rfl
    exact ⟨by rw [hresult, TokenStream.get, htoken], by rw [hstream, herror],
      hline.trans hlast.symm⟩

/-- Each action gives what the stream has for it, and moves on by the token that it takes. -/
theorem read (action : Action) : (action.read s).result = action.answer st i ∧
    (action.read s).rest.StandsAt st (if action.takes then i + 1 else i) := by
  obtain ⟨hresult, hrest⟩ := h.next
  cases action with
  | peek n =>
    exact ⟨by rw [Action.read, Reading.map, h.result_peek, Action.answer], h.rest_peek n⟩
  | sees x =>
    refine ⟨?_, h.rest_peek 0⟩
    have hpeek := h.result_peek 0
    simp only [Action.read, Action.answer, Reading.map, sees, hpeek, Nat.add_zero]
    cases st.look i <;> rfl
  | next => exact ⟨by rw [Action.read, Reading.map, hresult, Action.answer], hrest⟩
  | name =>
    obtain ⟨hname, hresult'⟩ := s.name_eq
    refine ⟨?_, by rwa [← hname] at hrest⟩
    simp only [Action.read, Action.answer, Reading.map, hresult', hresult]
    cases st.get i with
    | error e => rfl
    | ok token =>
      obtain ⟨y, line⟩ := token
      cases y <;> rfl
  | expect x =>
    obtain ⟨hexpect, hresult'⟩ := s.expect_eq x
    refine ⟨?_, by rwa [← hexpect] at hrest⟩
    simp only [Action.read, Action.answer, Reading.map, hresult', hresult]
    cases st.get i with
    | error e => rfl
    | ok token =>
      change (if token.lexeme = x then _ else _ : Except Error Token).map _ =
        if token.lexeme = x then _ else _
      split <;> rfl

/-- Each of some actions is answered by the number of tokens that were taken before it. -/
theorem getElem?_answers (actions : List Action) (j : Nat) : (s.answers actions)[j]? =
    actions[j]?.map (·.answer st (i + (actions.take j).countP Action.takes)) := by
  induction actions generalizing s i j with
  | nil => rfl
  | cons action actions ih =>
    obtain ⟨hresult, hrest⟩ := h.read action
    cases j with
    | zero => simp [answers, hresult]
    | succ j =>
      have hcount : (if action.takes then i + 1 else i) + (actions.take j).countP Action.takes =
          i + ((action :: actions).take (j + 1)).countP Action.takes := by
        rw [List.take_succ_cons, List.countP_cons]
        split <;> omega
      rw [answers, List.getElem?_cons_succ, List.getElem?_cons_succ, ih hrest, hcount]

theorem answers_congr {s' : Cursor} (h' : s'.StandsAt st i) (actions : List Action) :
    s.answers actions = s'.answers actions :=
  List.ext_getElem? fun j =>
    (h.getElem?_answers actions j).trans (h'.getElem?_answers actions j).symm

/-- All other answers are the same without an action that takes nothing. -/
theorem eraseIdx_answers {look : Action} (hlook : look.takes = false)
    (before after : List Action) :
    (s.answers (before ++ look :: after)).eraseIdx before.length = s.answers (before ++ after) := by
  induction before generalizing s i with
  | nil =>
    obtain ⟨_, hrest⟩ := h.read look
    rw [hlook] at hrest
    exact hrest.answers_congr h after
  | cons action before ih =>
    obtain ⟨_, hrest⟩ := h.read action
    exact congrArg ((action.read s).result :: ·) (ih hrest)

end StandsAt

/-- A new cursor stands at the beginning of what its scanner finds. -/
theorem standsAt_start (σ : Scanner) : (Cursor.mk [] σ 1).StandsAt σ.stream 0 := ⟨rfl, rfl⟩

/-- The cursor answers from a stream of tokens. Whatever it is asked, the answer depends only on how
many tokens were taken before, and so an action that takes nothing leaves all others as they are. -/
structure AnswersFrom (s : Cursor) (st : TokenStream) : Prop where
  byCount : ∀ (actions : List Action) (j : Nat), (s.answers actions)[j]? =
    actions[j]?.map (·.answer st ((actions.take j).countP Action.takes))
  unseen : ∀ (before : List Action) (look : Action) (after : List Action), look.takes = false →
    (s.answers (before ++ look :: after)).eraseIdx before.length = s.answers (before ++ after)

theorem StandsAt.answersFrom (h : s.StandsAt st 0) : s.AnswersFrom st where
  byCount actions j := by
    rw [h.getElem?_answers, Nat.zero_add]
  unseen before _ after hlook := h.eraseIdx_answers hlook before after

/-- Looking ahead is invisible: over a template and over an expression that stands alone, a cursor
answers from the tokens that the scanner finds by itself. -/
theorem answersFrom_stream (source : String) (trims : Bool) :
    (ofTemplate source trims).AnswersFrom (Scanner.ofTemplate source trims).stream ∧
    (ofExpression source).AnswersFrom (Scanner.ofExpression source).stream :=
  ⟨(standsAt_start _).answersFrom, (standsAt_start _).answersFrom⟩

/-- A look beyond the error fails; what stands before it is still taken, and then the error comes
back as often as it is asked for. -/
example : (ofExpression "a 'b").answers [.peek 1, .name, .sees .blockEnd, .next] =
    [.error (.malformed .unterminatedString 1), .ok (.name "a"),
      .error (.malformed .unterminatedString 1), .error (.malformed .unterminatedString 1)] := by
  cbv

end Cursor

end Polyglot
