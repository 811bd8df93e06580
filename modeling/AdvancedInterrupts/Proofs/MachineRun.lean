import AdvancedInterrupts.Software.Machine
import Mathlib.Data.Nat.Find

/-!
# Runs of the machine

A run is nothing but a number of steps, so runs can be cut and joined anywhere.
A step works on the frame on top only: whatever lies below it is still there
after the step. So a routine can be followed from outside, by what it calls and
by when nothing that it called is left. Programs that call no routine always run
to their end.
-/
namespace AdvancedInterrupts

namespace Program

variable {I : Interface} {α β : Type}

/-- Every operation that a program can ask for is as `ok` says, whatever the answers are. -/
def Asks (ok : I.Op → Prop) : Program I α → Prop
  | done _ => True
  | ask op next => ok op ∧ ∀ answer, (next answer).Asks ok

theorem map_ask (f : α → β) (op : I.Op) (next : I.Answer op → Program I α) :
    f <$> ask op next = ask op fun answer => f <$> next answer := rfl

theorem Asks.map {ok : I.Op → Prop} {p : Program I α} (h : p.Asks ok) (f : α → β) :
    (f <$> p).Asks ok := by
  induction p with
  | done a => trivial
  | ask op next ih => exact ⟨h.1, fun answer => ih answer (h.2 answer)⟩

theorem asks_trivial (p : Program I α) : p.Asks fun _ => True := by
  induction p with
  | done a => trivial
  | ask op next ih => exact ⟨trivial, ih⟩

end Program

/-- A request other than the call of a routine. -/
def Request.CallFree {ι κ : Type} {E : Interface} : Request ι κ E → Prop
  | call _ => False
  | _ => True

/-- The registration of a handler asks for that, or reports that the table has no slot. -/
theorem Software.asks_setHandler {ι κ : Type} {E : Interface} {ok : Request ι κ E → Prop}
    (identity : Nat) (handler : κ) (hinstall : ok (.install identity handler))
    (hreport : ∀ notice, ok (.report notice)) :
    (Software.setHandler identity handler : Program (software ι κ E) Unit).Asks ok := by
  unfold Software.setHandler
  split
  · exact ⟨hinstall, fun _ => trivial⟩
  · exact ⟨hreport _, fun _ => trivial⟩

namespace Machine

variable {ι κ σ : Type} {E : Interface} [DecidableEq ι] (p : Platform ι κ E σ)
  {m : Machine ι κ E σ}

theorem step_of_stack_nil (h : m.stack = []) : step p m = m := by
  obtain ⟨w, hs, t, stack⟩ := m
  subst h
  rfl

@[simp] theorem run_zero (m : Machine ι κ E σ) : run p 0 m = m := rfl

theorem run_of_stack_nil (h : m.stack = []) (n : Nat) : run p n m = m := by
  cases n with
  | zero => rfl
  | succ n => simp [run, h]

theorem run_succ (n : Nat) (m : Machine ι κ E σ) : run p (n + 1) m = run p n (step p m) := by
  by_cases h : m.stack = []
  · rw [step_of_stack_nil p h, run_of_stack_nil p h, run_of_stack_nil p h]
  · rw [run, if_neg]
    simpa using h

theorem run_add (a b : Nat) (m : Machine ι κ E σ) : run p (a + b) m = run p b (run p a m) := by
  induction a generalizing m with
  | zero =>
    rw [Nat.zero_add]
    rfl
  | succ a ih =>
    rw [show a + 1 + b = a + b + 1 by omega, run_succ, run_succ, ih]

theorem run_succ_last (n : Nat) (m : Machine ι κ E σ) : run p (n + 1) m = step p (run p n m) := by
  rw [run_add, run_succ]
  rfl

/-- The flag of a hart that has one tells whether its trap is dropped. -/
theorem refusal_trap (t : List (ι × Nat)) (c : ι) (hart : Nat) :
    refusal t (.trap c hart : Routine ι κ) =
      if trapHarts ≤ hart then some (.trapHartOutOfRange hart)
      else if (c, hart) ∈ t then some (.trapNested hart)
      else none := by
  simp only [refusal, Routine.enter, TrapEntry.enter]
  by_cases hrange : trapHarts ≤ hart
  · simp [hrange]
  · by_cases hin : (c, hart) ∈ t <;> simp [hrange, hin, flagService, trapState]

theorem entered_trap (t : List (ι × Nat)) (c : ι) (hart : Nat) :
    entered t (.trap c hart : Routine ι κ) =
      if trapHarts ≤ hart then t else t.insert (c, hart) := by
  simp only [entered, Routine.enter, TrapEntry.enter]
  by_cases hrange : trapHarts ≤ hart
  · simp [hrange]
  · by_cases hin : (c, hart) ∈ t <;> simp [hrange, hin, flagService, trapState]

/-- A trap on a hart that is in none is accepted. -/
theorem refusal_trap_eq_none {t : List (ι × Nat)} {c : ι} {hart : Nat} (hrange : hart < trapHarts)
    (hnormal : (c, hart) ∉ t) : refusal t (.trap c hart : Routine ι κ) = none := by
  rw [refusal_trap, if_neg (Nat.not_le.mpr hrange), if_neg hnormal]

theorem entered_trap_eq_cons {t : List (ι × Nat)} {c : ι} {hart : Nat} (hrange : hart < trapHarts)
    (hnormal : (c, hart) ∉ t) : entered t (.trap c hart : Routine ι κ) = (c, hart) :: t := by
  rw [entered_trap, if_neg (Nat.not_le.mpr hrange), List.insert_of_not_mem hnormal]

/-- A call that is refused leaves the flags as they are. -/
theorem entered_of_refused {t : List (ι × Nat)} {r : Routine ι κ} {notice : Notice}
    (h : refusal t r = some notice) : entered t r = t := by
  cases r with
  | trap c hart =>
    rw [refusal_trap] at h
    rw [entered_trap]
    by_cases hrange : trapHarts ≤ hart
    · rw [if_pos hrange]
    · by_cases hin : (c, hart) ∈ t
      · rw [if_neg hrange, List.insert_of_mem hin]
      · simp [hrange, hin] at h
  | _ => rfl

theorem start_of_refused {t : List (ι × Nat)} {r : Routine ι κ} {notice : Notice}
    (h : refusal t r = some notice) (w : σ) (hs : HandlerTable κ) (stack : List (Frame ι κ E)) :
    start p r w hs t stack = ⟨p.report notice w, hs, t, stack⟩ := by
  rw [start, h, entered_of_refused h]

theorem start_of_accepted {t : List (ι × Nat)} {r : Routine ι κ} (h : refusal t r = none) (w : σ)
    (hs : HandlerTable κ) (stack : List (Frame ι κ E)) :
    start p r w hs t stack =
      ⟨noteStart p w r, hs, entered t r, ⟨some r, r.program p⟩ :: stack⟩ := by
  rw [start, h]

/-- A trap that is accepted sets the flag of its hart. -/
theorem start_trap {t : List (ι × Nat)} {c : ι} {hart : Nat} (hrange : hart < trapHarts)
    (hnormal : (c, hart) ∉ t) (w : σ) (hs : HandlerTable κ) (below : List (Frame ι κ E)) :
    start p (.trap c hart) w hs t below =
      ⟨w, hs, (c, hart) :: t, ⟨some (.trap c hart), (Routine.trap c hart).program p⟩ :: below⟩ := by
  rw [start_of_accepted p (refusal_trap_eq_none hrange hnormal),
    entered_trap_eq_cons hrange hnormal]
  rfl

section OneStep

variable {below : List (Frame ι κ E)}

theorem step_again {r : Routine ι κ} (h : m.stack = ⟨some r, .done .again⟩ :: below) :
    step p m = { m with stack := ⟨some r, r.program p⟩ :: below } := by
  obtain ⟨w, hs, t, stack⟩ := m
  subst h
  rfl

theorem step_finished {r : Routine ι κ} (h : m.stack = ⟨some r, .done .finished⟩ :: below) :
    step p m = { m with stack := below } := by
  obtain ⟨w, hs, t, stack⟩ := m
  subst h
  cases r <;> rfl

/-- A trap that is done clears the flag of its hart. -/
theorem step_released {c : ι} {hart : Nat}
    (h : m.stack = ⟨some (.trap c hart), .done .released⟩ :: below) :
    step p m = { m with inTrap := m.inTrap.erase (c, hart), stack := below } := by
  obtain ⟨w, hs, t, stack⟩ := m
  subst h
  rfl

/-- A routine that does not start once more is gone after its last step. -/
theorem stack_step_done {r : Routine ι κ} {outcome : Outcome} (hlast : outcome ≠ .again)
    (h : m.stack = ⟨some r, .done outcome⟩ :: below) : (step p m).stack = below := by
  obtain ⟨w, hs, t, stack⟩ := m
  subst h
  cases outcome with
  | again => exact absurd rfl hlast
  | finished => rfl
  | released => rfl

theorem step_dispatch {r : Option (Routine ι κ)} {s : Nat}
    {next : Unit → Program (software ι κ E) Outcome}
    (h : m.stack = ⟨r, .ask (Request.call (.dispatch s)) next⟩ :: below) :
    step p m = { m with
      stack := ⟨some (.dispatch s), (Routine.dispatch s).program p⟩ :: ⟨r, next ()⟩ :: below } := by
  obtain ⟨w, hs, t, stack⟩ := m
  subst h
  rfl

end OneStep

/-- A request is answered at once, or it is a call that is accepted. -/
theorem stack_step_ask {r : Option (Routine ι κ)} {request : Request ι κ E}
    {next : request.Answer → Program (software ι κ E) Outcome} {below : List (Frame ι κ E)}
    (h : m.stack = ⟨r, .ask request next⟩ :: below) :
    (∃ answer, (step p m).stack = ⟨r, next answer⟩ :: below) ∨
      ∃ called answer, request = .call called ∧
        (step p m).stack = ⟨some called, called.program p⟩ :: ⟨r, next answer⟩ :: below := by
  obtain ⟨w, hs, t, stack⟩ := m
  subst h
  cases request with
  | call called =>
    rw [step_call, start]
    cases refusal t called with
    | some notice => exact Or.inl ⟨(), rfl⟩
    | none => exact Or.inr ⟨called, (), rfl, rfl⟩
  | device op => exact Or.inl ⟨_, rfl⟩
  | csr op => exact Or.inl ⟨_, rfl⟩
  | report notice => exact Or.inl ⟨_, rfl⟩
  | lookup identity => exact Or.inl ⟨_, rfl⟩
  | install identity handler => exact Or.inl ⟨_, rfl⟩
  | remove identity => exact Or.inl ⟨_, rfl⟩
  | trapState controller hart => exact Or.inl ⟨_, rfl⟩

/-- A frame asks for such requests only, also when its routine starts once more. -/
def Allows (ok : Request ι κ E → Prop) (f : Frame ι κ E) : Prop :=
  f.rest.Asks ok ∧ ∀ r, f.routine = some r → (r.program p).Asks ok

/-- What lies below the frame on top is still there after a step, and the frames above it ask for
what the frame on top could ask for. -/
theorem exists_stack_step_allows {ok : Request ι κ E → Prop}
    (hok : ∀ r, ok (.call r) → (r.program p).Asks ok) {f : Frame ι κ E}
    {below : List (Frame ι κ E)} (h : m.stack = f :: below) (hf : Allows p ok f) :
    ∃ above, (step p m).stack = above ++ below ∧ ∀ g ∈ above, Allows p ok g := by
  obtain ⟨routine, rest⟩ := f
  obtain ⟨hrest, hagain⟩ := hf
  cases rest with
  | done outcome =>
    obtain ⟨w, hs, t, stack⟩ := m
    subst h
    rw [step_done]
    cases routine with
    | none => exact ⟨[], rfl, by simp⟩
    | some r =>
      cases outcome with
      | finished | released => exact ⟨[], rfl, by simp⟩
      | again => exact ⟨[⟨some r, r.program p⟩], rfl, by simpa [Allows] using hagain⟩
  | ask request next =>
    obtain ⟨hrequest, hnext⟩ := hrest
    have hone (answer) : Allows p ok (⟨routine, next answer⟩ : Frame ι κ E) :=
      ⟨hnext answer, hagain⟩
    rcases stack_step_ask p h with ⟨answer, hstack⟩ | ⟨called, answer, rfl, hstack⟩
    · exact ⟨[⟨routine, next answer⟩], hstack, by simpa using hone answer⟩
    · have hcalled : Allows p ok (⟨some called, called.program p⟩ : Frame ι κ E) := by
        simpa [Allows] using hok called hrequest
      refine ⟨[⟨some called, called.program p⟩, ⟨routine, next answer⟩], hstack, ?_⟩
      simpa using ⟨hcalled, hone answer⟩

/-- What lies below the frame on top is still there after a step. -/
theorem exists_stack_step {f : Frame ι κ E} {below : List (Frame ι κ E)}
    (h : m.stack = f :: below) : ∃ above, (step p m).stack = above ++ below := by
  have hany : ∀ r : Routine ι κ, (r.program p).Asks fun _ => True :=
    fun r => (r.program p).asks_trivial
  obtain ⟨above, hstack, -⟩ := exists_stack_step_allows p (fun r _ => hany r) h
    ⟨f.rest.asks_trivial, fun r _ => hany r⟩
  exact ⟨above, hstack⟩

omit [DecidableEq ι] in
/-- A dispatch looks a handler up, and then calls it or reports that there is none. -/
theorem asks_dispatch {ok : Request ι κ E → Prop} {s : Nat} (hlookup : ok (.lookup s))
    (hreport : ok (.report (.unhandled s))) (hcall : ∀ h, ok (.call (.handler h s))) :
    ((Routine.dispatch s).program p).Asks ok := by
  have hdispatch : (Software.dispatch s : Program (software ι κ E) Unit).Asks ok := by
    refine ⟨hlookup, fun found => ?_⟩
    cases found with
    | none => exact ⟨hreport, fun _ => trivial⟩
    | some h => exact ⟨hcall h, fun _ => trivial⟩
  exact hdispatch.map _

/-- A routine whose program calls nothing returns. -/
theorem exists_run_of_callFree {q : Program (software ι κ E) Unit} (hq : q.Asks Request.CallFree)
    (r : Routine ι κ) {below : List (Frame ι κ E)} {m : Machine ι κ E σ}
    (hm : m.stack = ⟨some r, (fun _ => .finished) <$> q⟩ :: below) :
    ∃ n, (run p n m).stack = below := by
  induction q generalizing m with
  | done u =>
    refine ⟨1, ?_⟩
    obtain ⟨w, hs, t, stack⟩ := m
    subst hm
    rfl
  | ask request next ih =>
    obtain ⟨hfree, hnext⟩ := hq
    have hstep : ∃ answer, (step p m).stack =
        ⟨some r, (fun _ => .finished) <$> next answer⟩ :: below := by
      rcases stack_step_ask p hm with hanswer | ⟨called, answer, rfl, -⟩
      · exact hanswer
      · exact absurd hfree id
    obtain ⟨answer, hanswer⟩ := hstep
    obtain ⟨n, hn⟩ := ih answer (hnext answer) hanswer
    exact ⟨n + 1, by rw [run_succ, hn]⟩

/-- A dispatch looks the handler of its identity up and starts it, or reports that there is none. -/
theorem run_dispatch (s : Nat) {below : List (Frame ι κ E)} {m : Machine ι κ E σ}
    (hm : m.stack = ⟨some (.dispatch s), (Routine.dispatch s).program p⟩ :: below) :
    run p 2 m = match m.handlers.get s with
      | some h => { m with
          world := p.started h s m.world
          stack := ⟨some (.handler h s), (Routine.handler h s).program p⟩ ::
            ⟨some (.dispatch s), .done .finished⟩ :: below }
      | none => { m with
          world := p.report (.unhandled s) m.world
          stack := ⟨some (.dispatch s), .done .finished⟩ :: below } := by
  obtain ⟨w, hs, t, stack⟩ := m
  subst hm
  cases hh : hs.get s <;>
    simp only [run_succ, Routine.program, Software.dispatch, Software.handler?,
      Program.ask_bind, Program.done_bind, Program.map_ask, step_lookup, hh] <;>
    rfl

/-- If no handler calls anything, the dispatch of any identity returns. -/
theorem exists_run_dispatch (hfree : ∀ h s, (p.behaviour h s).Asks Request.CallFree)
    (s : Nat) {below : List (Frame ι κ E)} {m : Machine ι κ E σ}
    (hm : m.stack = ⟨some (.dispatch s), (Routine.dispatch s).program p⟩ :: below) :
    ∃ n, (run p n m).stack = below := by
  have htwo := run_dispatch p s hm
  cases hh : m.handlers.get s with
  | none =>
    rw [hh] at htwo
    refine ⟨3, ?_⟩
    rw [run_succ_last, htwo, step_finished p rfl]
  | some h =>
    rw [hh] at htwo
    have hcalled : (run p 2 m).stack = ⟨some (.handler h s), (fun _ => .finished) <$>
        p.behaviour h s⟩ :: ⟨some (.dispatch s), .done .finished⟩ :: below := by
      rw [htwo]
      rfl
    obtain ⟨n, hn⟩ := exists_run_of_callFree p (hfree h s) _ hcalled
    refine ⟨2 + n + 1, ?_⟩
    rw [run_succ_last, run_add, step_finished p hn]

/-- Something that the routine at the bottom of the stack called has not returned yet. -/
def Busy (m : Machine ι κ E σ) : Prop := 2 ≤ m.stack.length

instance (m : Machine ι κ E σ) : Decidable m.Busy := inferInstanceAs (Decidable (2 ≤ _))

/-- The identity that the routine at the bottom of the stack is about to dispatch. -/
def dispatching? (m : Machine ι κ E σ) : Option Nat :=
  match m.stack with
  | [⟨_, .ask (Request.call (.dispatch identity)) _⟩] => some identity
  | _ => none

/-- The identities that the routine at the bottom of the stack dispatches during a number of
steps, in this order. What is dispatched by a routine that it called is left out. -/
def dispatched : Nat → Machine ι κ E σ → List Nat
  | 0, _ => []
  | n + 1, m => m.dispatching?.toList ++ dispatched n (step p m)

theorem dispatched_add (a b : Nat) (m : Machine ι κ E σ) :
    dispatched p (a + b) m = dispatched p a m ++ dispatched p b (run p a m) := by
  induction a generalizing m with
  | zero =>
    rw [Nat.zero_add]
    rfl
  | succ a ih =>
    rw [show a + 1 + b = a + b + 1 by omega, dispatched, dispatched, ih, run_succ,
      List.append_assoc]

/-- Whatever is dispatched returns. -/
def Returns (m : Machine ι κ E σ) : Prop :=
  ∀ n, (run p n m).dispatching?.isSome → ∃ k, n < k ∧ ¬ (run p k m).Busy

omit [DecidableEq ι] in
theorem dispatching?_of_busy (h : m.Busy) : m.dispatching? = none := by
  unfold Busy at h
  unfold dispatching?
  split
  next hm => simp [hm] at h
  next => rfl

omit [DecidableEq ι] in
theorem exists_stack_of_dispatching? {s : Nat} (h : m.dispatching? = some s) :
    ∃ r next, m.stack = [⟨r, .ask (Request.call (.dispatch s)) next⟩] := by
  unfold dispatching? at h
  split at h
  next r _ next hm =>
    cases h
    exact ⟨r, next, hm⟩
  next => cases h

/-- If no handler calls anything, then whatever is dispatched returns. -/
theorem returns_of_callFree (hfree : ∀ h s, (p.behaviour h s).Asks Request.CallFree)
    (m : Machine ι κ E σ) : Returns p m := by
  intro n hn
  obtain ⟨s, hs⟩ := Option.isSome_iff_exists.mp hn
  obtain ⟨r, next, hstack⟩ := exists_stack_of_dispatching? hs
  have hcalled : (run p (n + 1) m).stack =
      [⟨some (.dispatch s), (Routine.dispatch s).program p⟩, ⟨r, next ()⟩] := by
    rw [run_succ_last, step_dispatch p hstack]
  obtain ⟨k, hk⟩ := exists_run_dispatch p hfree s hcalled
  refine ⟨n + 1 + k, by omega, ?_⟩
  rw [run_add]
  simp [Busy, hk]

theorem Returns.run {m : Machine ι κ E σ} (h : Returns p m) (a : Nat) :
    Returns p (Machine.run p a m) := by
  intro n hn
  rw [← run_add] at hn
  obtain ⟨k, hk, hb⟩ := h (a + n) hn
  refine ⟨k - a, by omega, ?_⟩
  rwa [← run_add, show a + (k - a) = k by omega]

/-- After a dispatch that returns there is a first moment at which nothing called is left. -/
theorem Returns.exists_first {m : Machine ι κ E σ} (h : Returns p m) {a : Nat}
    (ha : (Machine.run p a m).dispatching?.isSome) :
    ∃ b, ¬ (Machine.run p b (Machine.run p (a + 1) m)).Busy ∧
      ∀ j < b, (Machine.run p j (Machine.run p (a + 1) m)).Busy := by
  have hreturn : ∃ b, ¬ (Machine.run p b (Machine.run p (a + 1) m)).Busy := by
    obtain ⟨k, hk, hnot⟩ := h a ha
    refine ⟨k - (a + 1), ?_⟩
    rwa [← run_add, show a + 1 + (k - (a + 1)) = k by omega]
  exact ⟨Nat.find hreturn, Nat.find_spec hreturn,
    fun j hj => Decidable.not_not.mp (Nat.find_min hreturn hj)⟩

/-- Nothing that runs above the lowest frame changes what is seen of the world. -/
def KeepsView {τ : Type} (view : σ → τ) (m : Machine ι κ E σ) : Prop :=
  ∀ n, (run p n m).Busy → view (run p (n + 1) m).world = view (run p n m).world

theorem KeepsView.run {τ : Type} {view : σ → τ} (h : KeepsView p view m) (a : Nat) :
    KeepsView p view (Machine.run p a m) := by
  intro n hn
  rw [← run_add] at hn
  rw [← run_add, ← run_add]
  exact h (a + n) hn

theorem KeepsView.run_busy {τ : Type} {view : σ → τ} (h : KeepsView p view m) {n : Nat}
    (hbusy : ∀ j < n, (Machine.run p j m).Busy) :
    view (Machine.run p n m).world = view m.world := by
  induction n with
  | zero => rfl
  | succ n ih => rw [h n (hbusy n (by omega)), ih fun j hj => hbusy j (by omega)]

/-- A part of a program that uses devices only runs to its end, and then the rest goes on. -/
theorem exists_run_onDevices {α : Type} {r : Option (Routine ι κ)} {below : List (Frame ι κ E)}
    (q : Program E α) (k : α → Program (software ι κ E) Outcome)
    (hm : m.stack = ⟨r, Request.onDevices q >>= k⟩ :: below) :
    ∃ n, run p n m = { m with
        world := (q.run p.device m.world).2
        stack := ⟨r, k (q.run p.device m.world).1⟩ :: below } ∧
      dispatched p n m = [] := by
  induction q generalizing m with
  | done a =>
    refine ⟨0, ?_, rfl⟩
    obtain ⟨w, hs, t, stack⟩ := m
    subst hm
    rfl
  | ask op next ih =>
    obtain ⟨w, hs, t, stack⟩ := m
    subst hm
    let answered := p.device op w
    obtain ⟨n, hn, hlist⟩ := ih answered.1
      (m := ⟨answered.2, hs, t, ⟨r, Request.onDevices (next answered.1) >>= k⟩ :: below⟩) rfl
    refine ⟨n + 1, by rw [run_succ]; exact hn, ?_⟩
    rw [dispatched]
    exact hlist

end Machine

end AdvancedInterrupts
