/-!
# Coroutines over a shared state

A coroutine of a single-threaded event loop runs without interruption from one `await` to the next.
There it hands an operation to the loop and is resumed with its result or with an exception, such as
its cancellation. `attempt` turns what a coroutine raises into a value, and the control flow is
built on it.
-/

namespace Coop

/-- What coroutines of one program can wait for, raise and start. -/
structure Sig where
  Op : Type
  Res : Op → Type
  Exc : Type
  Label : Type
  cancelled : Exc

/-- A coroutine that ends with an `α` or an exception. -/
inductive Coro (σ : Type) (S : Sig) (α : Type) : Type where
  | ret (r : Except S.Exc α)
  | sync (f : σ → σ) (k : σ → Coro σ S α)
  | spawn (l : S.Label) (k : Coro σ S α)
  | await (op : S.Op) (k : Except S.Exc (S.Res op) → Coro σ S α)

namespace Coro

variable {σ : Type} {S : Sig} {α β : Type}

def bind : Coro σ S α → (α → Coro σ S β) → Coro σ S β
  | ret (.ok a), f => f a
  | ret (.error e), _ => ret (.error e)
  | sync g k, f => sync g fun s => (k s).bind f
  | spawn l k, f => spawn l (k.bind f)
  | await op k, f => await op fun r => (k r).bind f

instance : Monad (Coro σ S) where
  pure a := ret (.ok a)
  bind := bind

/-- Raise `e`. -/
def throw (e : S.Exc) : Coro σ S α := ret (.error e)

def get : Coro σ S σ := sync id fun s => ret (.ok s)

def modify (f : σ → σ) : Coro σ S Unit := sync f fun _ => ret (.ok ())

def fork (l : S.Label) : Coro σ S Unit := spawn l (ret (.ok ()))

/-- Wait for `op`. -/
def perform (op : S.Op) : Coro σ S (S.Res op) := await op ret

def attempt : Coro σ S α → Coro σ S (Except S.Exc α)
  | ret r => ret (.ok r)
  | sync g k => sync g fun s => (k s).attempt
  | spawn l k => spawn l k.attempt
  | await op k => await op fun r => (k r).attempt

/-- `try: p` with the handler `h` for what `p` raises. -/
def tryExcept (p : Coro σ S α) (h : S.Exc → Coro σ S α) : Coro σ S α :=
  p.attempt.bind fun
    | .ok a => ret (.ok a)
    | .error e => h e

/-- `try: p finally: q`: what `q` raises replaces what `p` ended with. -/
def tryFinally (p : Coro σ S α) (q : Coro σ S Unit) : Coro σ S α :=
  p.attempt.bind fun r => q.bind fun _ => ret r

/-- `for a in as: f a`. -/
def forEach (f : α → Coro σ S Unit) : List α → Coro σ S Unit
  | [] => ret (.ok ())
  | a :: as => (f a).bind fun _ => forEach f as

@[simp] theorem pure_eq (a : α) : (pure a : Coro σ S α) = ret (.ok a) := rfl

@[simp] theorem bind_eq (p : Coro σ S α) (f : α → Coro σ S β) : p >>= f = p.bind f := rfl

end Coro

end Coop
