import Conform.Context
import Conform.Error

/-!
# Programs that consult the host

Converters, callables and factories belong to the host program, which may answer differently each
time and may keep state. A cast is therefore a `Program`: it ends with a result, or puts a request
to the host and goes on with the reply. A failure that no host function made is marked where it
arises. `Program.run` carries a program out with a host that answers in some monad. The laws of a
monad hold: `pure_bind`, `bind_pure` and `bind_assoc`.
-/

namespace Conform

/-- What a cast asks of the host. -/
inductive Request
  | convert (c : Converter) (v : Value)
  | call (c : Callable) (args : List Value) (kwargs : List (String × Value))
  | produce (f : Factory)

/-- What the host replies. -/
abbrev Request.Reply : Request → Type
  | convert .. => Except CastError Value
  | call .. => Except HostFailure Value
  | produce _ => Value

/-- A computation that may put requests to the host. Each request, and each mark of a failure, says
    how many unions are open around it, the innermost of which would try its next alternative. -/
inductive Program (α : Type)
  | done (result : Except CastError α)
  | ask (unions : Nat) (request : Request) (resume : request.Reply → Program α)
  | raise (unions : Nat) (e : CastError) (next : Program α)

namespace Program

variable {α β : Type}

/-- Goes on with the result of a program; a failure ends the whole. -/
def bind : Program α → (α → Program β) → Program β
  | done (.ok a), f => f a
  | done (.error e), _ => done (.error e)
  | ask unions request resume, f => ask unions request fun reply => (resume reply).bind f
  | raise unions e next, f => raise unions e (next.bind f)

instance : Monad Program where
  pure a := done (.ok a)
  bind := bind

/-- Fails. -/
def throw (e : CastError) : Program α :=
  raise 0 e (done (.error e))

/-- The result of a computation without requests. -/
def ofExcept : Except CastError α → Program α
  | .ok a => done (.ok a)
  | .error e => throw e

/-- Goes on with another program if this one fails because the value does not fit. -/
def orElse : Program α → (Unit → Program α) → Program α
  | done (.error (.coercion _)), other => other ()
  | done result, _ => done result
  | ask unions request resume, other => ask unions request fun reply => (resume reply).orElse other
  | raise unions e next, other => raise unions e (next.orElse other)

/-- The same program as an alternative of a union: one more union is open around all of it. -/
def inUnion : Program α → Program α
  | done result => done result
  | ask unions request resume => ask (unions + 1) request fun reply => (resume reply).inUnion
  | raise unions e next => raise (unions + 1) e next.inUnion

/-- Converts a value. -/
def convert (c : Converter) (v : Value) : Program Value :=
  ask 0 (.convert c v) fun reply => done reply

/-- Calls a callable. -/
def call (c : Callable) (args : List Value) (kwargs : List (String × Value)) : Program Value :=
  ask 0 (.call c args kwargs) fun reply => done (reply.mapError .ofHost)

/-- The value that stands in for an absent field. -/
def produce : Default → Program Value
  | .value v => done (.ok v)
  | .factory f => ask 0 (.produce f) fun v => done (.ok v)

/-- Carries out a program with the answers of a host. Marks of failures do nothing. -/
def run {m : Type → Type} [Monad m] (answer : (request : Request) → m request.Reply) :
    Program α → m (Except CastError α)
  | done result => pure result
  | ask _ request resume => do
    let reply ← answer request
    (resume reply).run answer
  | raise _ _ next => next.run answer

/-- A value is handed on as it is. -/
theorem pure_bind (a : α) (f : α → Program β) : (pure a : Program α) >>= f = f a := rfl

/-- To go on by giving the result changes nothing. -/
theorem bind_pure (p : Program α) : p >>= pure = p := by
  show p.bind _ = p
  induction p with
  | done result => cases result <;> rfl
  -- the replies are functions, so that they are compared one by one
  | ask unions request resume ih => simp only [bind]; congr; funext reply; exact ih reply
  | raise unions e next ih => simp only [bind, ih]

/-- Only the order of three programs matters, not how they are bracketed. -/
theorem bind_assoc {γ : Type} (p : Program α) (f : α → Program β) (g : β → Program γ) :
    p >>= f >>= g = p >>= fun a => f a >>= g := by
  show (p.bind f).bind g = p.bind fun a => (f a).bind g
  induction p with
  | done result => cases result <;> rfl
  | ask unions request resume ih => simp only [bind]; congr; funext reply; exact ih reply
  | raise unions e next ih => simp only [bind, ih]

end Program

end Conform
