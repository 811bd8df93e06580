/-!
# Programs over an interface

Software that drives a device is described as a finite tree: it is done, or it
asks its interface for one operation and continues with the answer. Nothing is
said here about what an operation does; a `Service` decides that when the
program is run. Since every access is a node of the tree, statements about
single accesses and about interleavings of two programs can be made directly.
-/
namespace AdvancedInterrupts

/-- A set of operations, each with the type of its answers. -/
structure Interface where
  Op : Type
  Answer : Op → Type

/-- A finite computation that asks for operations of `I` and returns an `α`. -/
inductive Program (I : Interface) (α : Type) where
  | done (value : α)
  | ask (op : I.Op) (next : I.Answer op → Program I α)

/-- What every operation of `I` answers on a state `σ`, and the state after it. -/
abbrev Service (I : Interface) (σ : Type) : Type :=
  (op : I.Op) → σ → I.Answer op × σ

namespace Program

variable {I J : Interface} {α β γ σ : Type}

/-- The first program followed by the one that its result selects. -/
def bind : Program I α → (α → Program I β) → Program I β
  | done a, k => k a
  | ask op next, k => ask op fun answer => (next answer).bind k

instance : Monad (Program I) where
  pure := done
  bind := bind

@[simp] theorem pure_eq (a : α) : (pure a : Program I α) = done a := rfl

@[simp] theorem done_bind (a : α) (k : α → Program I β) : (done a >>= k) = k a := rfl

@[simp] theorem ask_bind (op : I.Op) (next : I.Answer op → Program I α)
    (k : α → Program I β) : (ask op next >>= k) = ask op fun answer => next answer >>= k := rfl

theorem bind_done (p : Program I α) : (p >>= fun a => done a) = p := by
  induction p with
  | done a => rfl
  | ask op next ih => simp [ih]

theorem bind_assoc (p : Program I α) (f : α → Program I β) (g : β → Program I γ) :
    (p >>= f >>= g) = p >>= fun a => f a >>= g := by
  induction p with
  | done a => rfl
  | ask op next ih => simp [ih]

instance : LawfulMonad (Program I) :=
  LawfulMonad.mk' (Program I) bind_done (fun _ _ => rfl) bind_assoc

/-- The program that asks for one operation and returns its answer. -/
def perform (op : I.Op) : Program I (I.Answer op) := ask op done

@[simp] theorem perform_bind (op : I.Op) (k : I.Answer op → Program I β) :
    (perform op >>= k) = ask op k := rfl

/-- Runs a program over a service from a given state. -/
def run (service : Service I σ) : Program I α → σ → α × σ
  | done a, s => (a, s)
  | ask op next, s =>
    let answered := service op s
    (next answered.1).run service answered.2

@[simp] theorem run_done (service : Service I σ) (a : α) (s : σ) :
    (done a : Program I α).run service s = (a, s) := rfl

@[simp] theorem run_ask (service : Service I σ) (op : I.Op)
    (next : I.Answer op → Program I α) (s : σ) :
    (ask op next).run service s = (next (service op s).1).run service (service op s).2 := rfl

theorem run_bind (service : Service I σ) (p : Program I α) (k : α → Program I β) (s : σ) :
    (p >>= k).run service s = (k (p.run service s).1).run service (p.run service s).2 := by
  induction p generalizing s with
  | done a => rfl
  | ask op next ih => simp [ih]

/-- Replaces every operation by a program over another interface. -/
def expand (f : (op : I.Op) → Program J (I.Answer op)) : Program I α → Program J α
  | done a => done a
  | ask op next => (f op).bind fun answer => (next answer).expand f

theorem run_expand (f : (op : I.Op) → Program J (I.Answer op)) (service : Service J σ)
    (p : Program I α) (s : σ) :
    (p.expand f).run service s = p.run (fun op => (f op).run service) s := by
  induction p generalizing s with
  | done a => rfl
  | ask op next ih =>
    simp only [expand, run_ask, ← ih]
    exact run_bind service (f op) _ s

end Program

end AdvancedInterrupts
