import Polyglot.Error
import Polyglot.Translator

/-!
A run asks a translator for texts and ends in a result or an error. The requests are kept in the
order in which they were made, those before an error among them.
-/
namespace Polyglot

structure Run (α : Type) where
  requests : List Request
  result : Except Error α

namespace Run

variable {α β : Type}

def pure (a : α) : Run α := ⟨[], .ok a⟩

def bind (r : Run α) (next : α → Run β) : Run β :=
  match r.result with
  | .ok a => ⟨r.requests ++ (next a).requests, (next a).result⟩
  | .error e => ⟨r.requests, .error e⟩

instance : Monad Run where
  pure := pure
  bind := bind

/-- A result that was found without a request. -/
def ofExcept (result : Except Error α) : Run α := ⟨[], result⟩

def fail (failure : Failure) : Run α := ⟨[], .error (.rendering failure)⟩

def ofFailure (result : Except Failure α) : Run α := ⟨[], result.mapError .rendering⟩

/-- One request, answered by a translator. -/
def ask (translator : Translator) (request : Request) : Run String :=
  ⟨[request], .ok (translator request)⟩

theorem bind_of_ok {r : Run α} {a : α} (h : r.result = .ok a) (next : α → Run β) :
    r >>= next = ⟨r.requests ++ (next a).requests, (next a).result⟩ := by
  change r.bind next = _
  rw [bind, h]

theorem bind_of_error {r : Run α} {e : Error} (h : r.result = .error e) (next : α → Run β) :
    r >>= next = ⟨r.requests, .error e⟩ := by
  change r.bind next = _
  rw [bind, h]

theorem map_id (r : Run α) : id <$> r = r := by
  obtain ⟨requests, result⟩ := r
  cases result <;> simp [Functor.map, bind, pure]

theorem bind_assoc {γ : Type} (r : Run α) (f : α → Run β) (g : β → Run γ) :
    r >>= f >>= g = r >>= fun a => f a >>= g := by
  obtain ⟨requests, result⟩ := r
  cases result with
  | error e => rfl
  | ok a =>
    simp only [Bind.bind, bind]
    cases (f a).result <;> simp

instance : LawfulMonad Run :=
  .mk' Run map_id (fun a f => by simp [Bind.bind, Pure.pure, bind, pure]) bind_assoc

end Run

end Polyglot
