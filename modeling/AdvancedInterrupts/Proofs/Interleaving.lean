import AdvancedInterrupts.Proofs.MachineRun

/-!
# Interleaved programs

Two programs that share a service take turns in any order, one operation at a
time. A program ignores a change of the state when it goes on as it would have
without the change, which may then as well be made later. If each of two
programs ignores whatever the operations of the other do to the state, every
order of turns comes to the same as one program after the other, and neither
can tell that the other is there.
-/
namespace AdvancedInterrupts.Program

variable {I : Interface} {α β σ : Type} {service : Service I σ} {p : Program I α}
  {q : Program I β}

theorem Asks.mono {ok ok' : I.Op → Prop} (h : p.Asks ok) (hok : ∀ op, ok op → ok' op) :
    p.Asks ok' := by
  induction p with
  | done a => trivial
  | ask op next ih => exact ⟨hok op h.1, fun answer => ih answer (h.2 answer)⟩

theorem Asks.bind {ok : I.Op → Prop} {k : α → Program I β} (hp : p.Asks ok)
    (hk : ∀ a, (k a).Asks ok) : (p >>= k).Asks ok := by
  induction p with
  | done a => exact hk a
  | ask op next ih => exact ⟨hp.1, fun answer => ih answer (hp.2 answer)⟩

theorem Asks.forM {ι : Type} {ok : I.Op → Prop} {f : ι → Program I PUnit} {xs : List ι}
    (h : ∀ x ∈ xs, (f x).Asks ok) : (xs.forM f).Asks ok := by
  induction xs with
  | nil => trivial
  | cons x rest ih =>
    exact (h x List.mem_cons_self).bind fun _ => ih fun y hy => h y (List.mem_cons_of_mem x hy)

section InTurn

variable {ι : Type} {Answer : ι → Type} (program : (x : ι) → Program I (Answer x))

/-- Serves some requests one after the other, each with a program of its own. -/
def inTurn : List ι → Program I (List (Sigma Answer))
  | [] => done []
  | x :: rest => do
    let answer ← program x
    let answers ← inTurn rest
    pure (⟨x, answer⟩ :: answers)

variable {program}

theorem run_inTurn_cons (service : Service I σ) (x : ι) (rest : List ι) (s : σ) :
    ((inTurn program (x :: rest)).run service s).2 =
      ((inTurn program rest).run service ((program x).run service s).2).2 := by
  rw [inTurn, run_bind, run_bind]
  rfl

theorem Asks.inTurn {ok : I.Op → Prop} {requests : List ι}
    (h : ∀ x ∈ requests, (program x).Asks ok) : (inTurn program requests).Asks ok := by
  induction requests with
  | nil => trivial
  | cons x rest ih =>
    have hrest := ih fun y hy => h y (List.mem_cons_of_mem x hy)
    exact (h x List.mem_cons_self).bind fun answer => hrest.bind fun answers => trivial

end InTurn

/-- What two programs on one service answer and the state that they leave, for any order in which
they take turns. -/
inductive Interleaves (service : Service I σ) :
    Program I α → Program I β → σ → α × β → σ → Prop where
  /-- Both are done. -/
  | done (a : α) (b : β) (s : σ) : Interleaves service (done a) (done b) s (a, b) s
  /-- The first program asks for its next operation. -/
  | left {op : I.Op} {next : I.Answer op → Program I α} {q : Program I β} {s after : σ}
      {answers : α × β}
      (h : Interleaves service (next (service op s).1) q (service op s).2 answers after) :
      Interleaves service (ask op next) q s answers after
  /-- The second program asks for its next operation. -/
  | right {op : I.Op} {p : Program I α} {next : I.Answer op → Program I β} {s after : σ}
      {answers : α × β}
      (h : Interleaves service p (next (service op s).1) (service op s).2 answers after) :
      Interleaves service p (ask op next) s answers after

theorem Interleaves.swap {s after : σ} {answers : α × β}
    (h : Interleaves service p q s answers after) :
    Interleaves service q p s answers.swap after := by
  induction h with
  | done a b s => exact .done b a s
  | left _ ih => exact .right ih
  | right _ ih => exact .left ih

/-- One program after the other is one of the orders. -/
theorem interleaves_inOrder (service : Service I σ) (p : Program I α) (q : Program I β) (s : σ) :
    Interleaves service p q s ((p.run service s).1, (q.run service (p.run service s).2).1)
      (q.run service (p.run service s).2).2 := by
  induction p generalizing s with
  | done a =>
    induction q generalizing s with
    | done b => exact .done a b s
    | ask op next ih => exact .right (ih _ _)
  | ask op next ih => exact .left (ih _ _)

/-- A program goes on as it would have without a change of the state, and the change may as well be
made after each of its operations. -/
def Ignores (service : Service I σ) (change : σ → σ) : Program I α → Prop
  | done _ => True
  | ask op next =>
    (∀ s, next (service op (change s)).1 = next (service op s).1 ∧
      (service op (change s)).2 = change (service op s).2) ∧
    ∀ answer, (next answer).Ignores service change

/-- An ignored change makes no difference to the answer, and is found as it was made. -/
theorem Ignores.run_change {change : σ → σ} (h : p.Ignores service change) (s : σ) :
    p.run service (change s) = ((p.run service s).1, change (p.run service s).2) := by
  induction p generalizing s with
  | done a => rfl
  | ask op next ih =>
    obtain ⟨hnext, hafter⟩ := h.1 s
    rw [run_ask, hnext, hafter]
    exact ih _ (h.2 _) _

/-- Operations that answer and act as if a change had not been made make a program that ignores
it. -/
theorem Asks.ignores {change : σ → σ}
    (h : p.Asks fun op => ∀ s, service op (change s) =
      ((service op s).1, change (service op s).2)) : p.Ignores service change := by
  induction p with
  | done a => trivial
  | ask op next ih =>
    refine ⟨fun s => ?_, fun answer => ih answer (h.2 answer)⟩
    rw [h.1 s]
    exact ⟨rfl, rfl⟩

/-- Each of two programs ignores what the operations of the other do to the state. -/
structure Independent (service : Service I σ) (p : Program I α) (q : Program I β) : Prop where
  left : p.Asks fun op => q.Ignores service fun s => (service op s).2
  right : q.Asks fun op => p.Ignores service fun s => (service op s).2

theorem Independent.symm (h : Independent service p q) : Independent service q p :=
  ⟨h.right, h.left⟩

/-- After a program has run, another one that ignores its operations takes its first step as it
would have before. -/
theorem next_run {op : I.Op} {next : I.Answer op → Program I β}
    (h : p.Asks fun op' => (ask op next).Ignores service fun s => (service op' s).2) (s : σ) :
    next (service op (p.run service s).2).1 = next (service op s).1 := by
  induction p generalizing s with
  | done a => rfl
  | ask op' next' ih =>
    rw [run_ask, ih _ (h.2 _)]
    exact (h.1.1 s).1

/-- Whatever the order of turns, independent programs come to the same as one after the other. -/
theorem Independent.run_of_interleaves (h : Independent service p q) {s after : σ}
    {answers : α × β} (hrun : Interleaves service p q s answers after) :
    (p.run service s).1 = answers.1 ∧
      q.run service (p.run service s).2 = (answers.2, after) := by
  induction hrun with
  | done a b s => exact ⟨rfl, rfl⟩
  | left _ ih => exact ih ⟨h.left.2 _, h.right.mono fun _ hop => hop.2 _⟩
  | @right op p next s _ _ _ ih =>
    -- The operation of the second program is moved behind the whole first program.
    obtain ⟨hleft, hright⟩ := ih ⟨h.left.mono fun _ hop => hop.2 _, h.right.2 _⟩
    rw [h.right.1.run_change s] at hleft hright
    refine ⟨hleft, ?_⟩
    rw [run_ask, next_run h.left s]
    exact hright

theorem Independent.interleaves_iff (h : Independent service p q) {s after : σ}
    {answers : α × β} :
    Interleaves service p q s answers after ↔
      answers = ((p.run service s).1, (q.run service (p.run service s).2).1) ∧
        after = (q.run service (p.run service s).2).2 := by
  constructor
  · intro hrun
    obtain ⟨hleft, hright⟩ := h.run_of_interleaves hrun
    rw [hright]
    exact ⟨Prod.ext hleft.symm rfl, rfl⟩
  · rintro ⟨rfl, rfl⟩
    exact interleaves_inOrder service p q s

/-- The second of two independent programs answers as it would have done first. -/
theorem Independent.run_second (h : Independent service p q) (s : σ) :
    (q.run service (p.run service s).2).1 = (q.run service s).1 :=
  (h.symm.run_of_interleaves (interleaves_inOrder service p q s).swap).1.symm

end AdvancedInterrupts.Program
