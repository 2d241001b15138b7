import Polyglot.Cursor

/-!
Loops of readers, turn by turn. A turn ends its loop or says how to go on, and a loop is the
repetition of its turns: a reader that is defined by recursion gives what its first turn gives, and
goes on as that says.
-/
namespace Polyglot

namespace Reading

variable {α β γ : Type} {s : Cursor}

theorem ok_or_error (x : Except Error α) : (∃ a, x = .ok a) ∨ ∃ e, x = .error e := by
  cases x with
  | ok a => exact .inl ⟨a, rfl⟩
  | error e => exact .inr ⟨e, rfl⟩

theorem map_id (r : Reading s α) : r.map id = r := by
  obtain ⟨result, rest, hle⟩ := r
  cases result <;> rfl

theorem after_andThen {t : Cursor} (h : t.size ≤ s.size) (r : Reading t α)
    (k : α → (u : Cursor) → Reading u β) :
    (r.after h).andThen (fun a u _ => k a u) = (r.andThen fun a u _ => k a u).after h := by
  cases hr : r.result with
  | error e =>
    have hafter : (r.after h).result = .error e := hr
    rw [andThen_of_error hr, andThen_of_error hafter]
    rfl
  | ok a =>
    have hafter : (r.after h).result = .ok a := hr
    rw [andThen_of_ok hr, andThen_of_ok hafter]
    rfl

/-! How a reading goes on with `k`, by the parts of the reading. -/

@[simp]
theorem done_andThen (a : α) (k : α → (u : Cursor) → Reading u β) :
    (done s a).andThen (fun a u _ => k a u) = k a s :=
  andThen_of_ok rfl _

@[simp]
theorem refuse_andThen (fault : Fault) (line : Nat) (k : α → (u : Cursor) → Reading u β) :
    (refuse s fault line).andThen (fun a u _ => k a u) = refuse s fault line :=
  andThen_of_error rfl _

@[simp]
theorem map_andThen (r : Reading s α) (f : α → β) (k : β → (u : Cursor) → Reading u γ) :
    (r.map f).andThen (fun b u _ => k b u) = r.andThen fun a u _ => k (f a) u := by
  cases hr : r.result with
  | error e =>
    have hmap : (r.map f).result = .error e := by rw [map, hr]; rfl
    rw [andThen_of_error hr, andThen_of_error hmap]
    rfl
  | ok a =>
    have hmap : (r.map f).result = .ok (f a) := by rw [map, hr]; rfl
    rw [andThen_of_ok hr, andThen_of_ok hmap]
    rfl

@[simp]
theorem andThen_done (r : Reading s α) (f : α → β) :
    (r.andThen fun a u _ => done u (f a)) = r.map f := by
  cases hr : r.result with
  | error e =>
    rw [andThen_of_error hr, map, hr]
    rfl
  | ok a =>
    rw [andThen_of_ok hr, map, hr]
    rfl

@[simp]
theorem bind_andThen (r : Reading s α) (next : (a : α) → r.result = .ok a → Reading r.rest β)
    (k : β → (u : Cursor) → Reading u γ) :
    (r.bind next).andThen (fun b u _ => k b u) =
      r.bind fun a h => (next a h).andThen fun b u _ => k b u := by
  obtain ⟨a, hr⟩ | ⟨e, hr⟩ := ok_or_error r.result
  · rw [bind_of_ok hr, bind_of_ok hr, after_andThen]
  · rw [bind_of_error hr, bind_of_error hr]
    exact andThen_of_error rfl _

@[simp]
theorem andThen_assoc (r : Reading s α)
    (next : (a : α) → (t : Cursor) → t.size ≤ s.size → Reading t β)
    (k : β → (u : Cursor) → Reading u γ) :
    (r.andThen next).andThen (fun b u _ => k b u) =
      r.andThen fun a t h => (next a t h).andThen fun b u _ => k b u :=
  bind_andThen r _ k

@[simp]
theorem take_andThen (next : (token : Token) → (t : Cursor) → t.size < s.size → Reading t α)
    (k : α → (u : Cursor) → Reading u β) :
    (s.take next).andThen (fun a u _ => k a u) =
      s.take fun token t h => (next token t h).andThen fun a u _ => k a u :=
  bind_andThen s.next _ k

@[simp]
theorem ite_andThen {c : Prop} [Decidable c] (yes no : Reading s α)
    (k : α → (u : Cursor) → Reading u β) :
    (if c then yes else no).andThen (fun a u _ => k a u) =
      if c then yes.andThen fun a u _ => k a u else no.andThen fun a u _ => k a u := by
  split <;> rfl

@[simp]
theorem choose_andThen {wanted : Lexeme → Option γ}
    (yes : (c : γ) → (t : Cursor) → t.size < s.size → Reading t α)
    (no : (t : Cursor) → t.size ≤ s.size → Reading t α) (k : α → (u : Cursor) → Reading u β) :
    (s.choose wanted yes no).andThen (fun a u _ => k a u) =
      s.choose wanted (fun c t h => (yes c t h).andThen fun a u _ => k a u)
        fun t h => (no t h).andThen fun a u _ => k a u := by
  simp only [Cursor.choose, andThen_assoc]
  congr 1
  funext token? t h
  cases token?.bind fun token => wanted token.lexeme with
  | none => rfl
  | some c => exact take_andThen _ k

@[simp]
theorem takeName_andThen (next : (n : String) → (t : Cursor) → t.size < s.size → Reading t α)
    (k : α → (u : Cursor) → Reading u β) :
    (s.takeName next).andThen (fun a u _ => k a u) =
      s.takeName fun n t h => (next n t h).andThen fun a u _ => k a u := by
  simp only [Cursor.takeName, take_andThen]
  congr 1
  funext token t h
  cases token.lexeme <;> rfl

end Reading

/-- What a turn of a loop comes to: the loop is over, or it goes on from another state and completes
what the rest of it gives. -/
inductive Turn (ι β : Type) where
  | ended (result : β)
  | again (state : ι) (complete : β → β)

namespace Turn

variable {ι β : Type}

/-- The rest of a loop after a turn. -/
def goesOn (loop : ι → (s : Cursor) → Reading s β) : Turn ι β → (s : Cursor) → Reading s β
  | ended result, s => .done s result
  | again state complete, s => (loop state s).map complete

/-- The loop takes a turn and goes on as it says. -/
def Unfolds (turn : ι → (s : Cursor) → Reading s (Turn ι β))
    (loop : ι → (s : Cursor) → Reading s β) : Prop :=
  ∀ state s, loop state s = (turn state s).andThen fun x t _ => x.goesOn loop t

end Turn

end Polyglot
