import AdvancedInterrupts.Proofs.MachineRun
import Mathlib.Data.List.Nodup

/-!
# Nested trap entries

The harts that are inside a trap entry are kept in a list of flags, while the
calls that put them there are frames on the stack. Every step of the machine
moves the two together: an accepted trap adds one of each, its return takes both
away, and nothing else touches either. This needs that the program of a trap can
only end with the release of its flag, whatever it reads and calls. So at every
moment the flags are the trap frames of the stack, in front of the flags that
were set from the beginning. As the stack comes back to the same frames when a
call returns, the flags do too.
-/
namespace AdvancedInterrupts

namespace Program

variable {I : Interface} {α β : Type}

/-- Every result of the program is as `ok` says, whatever the answers are. -/
def Ends (ok : α → Prop) : Program I α → Prop
  | done a => ok a
  | ask _ next => ∀ answer, (next answer).Ends ok

theorem ends_bind {ok : β → Prop} (p : Program I α) {k : α → Program I β}
    (hk : ∀ a, (k a).Ends ok) : (p >>= k).Ends ok := by
  induction p with
  | done a => exact hk a
  | ask op next ih => exact ih

end Program

section Entries

variable {ι κ σ : Type} {E : Interface}

/-- The trap entry that a routine is, with its hart. -/
def Routine.entry? : Routine ι κ → Option (ι × Nat)
  | .trap controller hart => some (controller, hart)
  | _ => none

namespace Machine

/-- The trap entries that have a frame on the stack, the latest one first. -/
def openEntries (stack : List (Frame ι κ E)) : List (ι × Nat) :=
  stack.filterMap fun f => f.routine.bind Routine.entry?

@[simp] theorem openEntries_nil : openEntries ([] : List (Frame ι κ E)) = [] := rfl

@[simp] theorem openEntries_cons (r : Option (Routine ι κ))
    (rest : Program (software ι κ E) Outcome) (stack : List (Frame ι κ E)) :
    openEntries (⟨r, rest⟩ :: stack) = (r.bind Routine.entry?).toList ++ openEntries stack := by
  cases h : r.bind Routine.entry? <;> simp [openEntries, h]

end Machine

end Entries

namespace Machine

variable {ι κ σ : Type} {E : Interface} [DecidableEq ι]

/-- How many frames of a trap entry for a hart are on the stack. -/
def nesting (m : Machine ι κ E σ) (controller : ι) (hart : Nat) : Nat :=
  (openEntries m.stack).count (controller, hart)

theorem refusal_eq_none_iff {t : List (ι × Nat)} {r : Routine ι κ} :
    refusal t r = none ↔ ∀ e ∈ r.entry?, e ∉ t ∧ e.2 < trapHarts := by
  cases r with
  | trap c h =>
    simp only [refusal_trap, Routine.entry?, Option.mem_def, Option.some.injEq, forall_eq']
    split
    next hrange => simp only [reduceCtorEq, false_iff]; omega
    next hrange =>
      split
      next hin => simp [hin]
      next hout => simp only [true_iff]; exact ⟨hout, by omega⟩
  | _ => simp [refusal, Routine.enter, Routine.entry?]

theorem entered_of_accepted {t : List (ι × Nat)} {r : Routine ι κ} (h : refusal t r = none) :
    entered t r = r.entry?.toList ++ t := by
  cases r with
  | trap c hart =>
    obtain ⟨hnew, hrange⟩ := refusal_eq_none_iff.mp h (c, hart) rfl
    exact entered_trap_eq_cons hrange hnew
  | _ => rfl

theorem trapState_eq_inTrap_iff (t : List (ι × Nat)) (c : ι) (h : Nat) :
    trapState t c h = .inTrap ↔ (c, h) ∈ t := by
  unfold trapState
  split
  next hin => simp [hin]
  next hout => simp [hout]

variable (p : Platform ι κ E σ) {m : Machine ι κ E σ}

/-- What a step can make of the flags and of the open entries. -/
inductive EntryMove (flags entries : List (ι × Nat)) :
    List (ι × Nat) → List (ι × Nat) → Prop where
  | kept : EntryMove flags entries flags entries
  | accepted (e : ι × Nat) (hnew : e ∉ flags) (hrange : e.2 < trapHarts) :
      EntryMove flags entries (e :: flags) (e :: entries)
  | returned (e : ι × Nat) (rest : List (ι × Nat)) (hlast : entries = e :: rest) :
      EntryMove flags entries (flags.erase e) rest

/-- What is left of a trap can only end with the release of its flag. -/
def Releases (f : Frame ι κ E) : Prop :=
  (f.routine.bind Routine.entry?).isSome → f.rest.Ends (· = .released)

omit [DecidableEq ι] in
theorem releases_program (r : Routine ι κ) :
    Releases (⟨some r, r.program p⟩ : Frame ι κ E) := by
  intro hentry
  cases r with
  | trap c hart => exact Program.ends_bind _ fun _ => rfl
  | _ => simp [Routine.entry?] at hentry

theorem entryMove_start (called : Routine ι κ) (w : σ) (hs : HandlerTable κ) (t : List (ι × Nat))
    (stack : List (Frame ι κ E)) :
    EntryMove t (openEntries stack) (start p called w hs t stack).inTrap
      (openEntries (start p called w hs t stack).stack) := by
  cases hr : refusal t called with
  | some notice =>
    rw [start_of_refused p hr]
    exact .kept
  | none =>
    have hentry := refusal_eq_none_iff.mp hr
    rw [start_of_accepted p hr, entered_of_accepted hr, openEntries_cons, Option.bind_some]
    cases he : called.entry? with
    | none => exact .kept
    | some e =>
      obtain ⟨hnew, hrange⟩ := hentry e he
      exact .accepted e hnew hrange

theorem entryMove_finish {outcome : Outcome} {routine : Option (Routine ι κ)}
    (hreleases : Releases (⟨routine, .done outcome⟩ : Frame ι κ E)) (w : σ) (hs : HandlerTable κ)
    (t : List (ι × Nat)) (stack : List (Frame ι κ E)) :
    EntryMove t (openEntries (⟨routine, .done outcome⟩ :: stack))
      (finish p outcome routine w hs t stack).inTrap
      (openEntries (finish p outcome routine w hs t stack).stack) := by
  cases routine with
  | none => exact .kept
  | some r =>
    cases r with
    | trap c hart =>
      obtain rfl : outcome = .released := hreleases rfl
      exact .returned (c, hart) _ rfl
    | _ => cases outcome <;> exact .kept

/-- Every step makes one of these moves. -/
theorem entryMove_step {m : Machine ι κ E σ} (hreleases : ∀ f ∈ m.stack, Releases f) :
    EntryMove m.inTrap (openEntries m.stack) (step p m).inTrap (openEntries (step p m).stack) := by
  obtain ⟨w, hs, t, stack⟩ := m
  match stack with
  | [] => exact .kept
  | ⟨routine, .done outcome⟩ :: below =>
    exact entryMove_finish p (hreleases _ List.mem_cons_self) w hs t below
  | ⟨routine, .ask request next⟩ :: below =>
    cases request with
    | call called =>
      have hstart := entryMove_start p called w hs t (⟨routine, next ()⟩ :: below)
      rw [openEntries_cons] at hstart
      rw [step_call, openEntries_cons]
      exact hstart
    | _ =>
      simp only [step, openEntries_cons]
      exact .kept

theorem releases_step {m : Machine ι κ E σ} (h : ∀ f ∈ m.stack, Releases f) :
    ∀ f ∈ (step p m).stack, Releases f := by
  obtain ⟨w, hs, t, stack⟩ := m
  match stack with
  | [] => exact h
  | ⟨none, .done outcome⟩ :: below => exact (List.forall_mem_cons.mp h).2
  | ⟨some r, .done outcome⟩ :: below =>
    have hbelow := (List.forall_mem_cons.mp h).2
    cases outcome with
    | again => exact List.forall_mem_cons.mpr ⟨releases_program p r, hbelow⟩
    | finished | released => exact hbelow
  | ⟨routine, .ask request next⟩ :: below =>
    obtain ⟨hfirst, hbelow⟩ := List.forall_mem_cons.mp h
    have hnext (answer) : Releases (⟨routine, next answer⟩ : Frame ι κ E) :=
      fun hentry => hfirst hentry answer
    rcases stack_step_ask p (m := ⟨w, hs, t, ⟨routine, .ask request next⟩ :: below⟩) rfl with
      ⟨answer, hstack⟩ | ⟨called, answer, -, hstack⟩
    · rw [hstack]
      exact List.forall_mem_cons.mpr ⟨hnext answer, hbelow⟩
    · rw [hstack]
      exact List.forall_mem_cons.mpr ⟨releases_program p called,
        List.forall_mem_cons.mpr ⟨hnext answer, hbelow⟩⟩

/-- The flags are the open entries in front of the initial flags, and no entry is open twice, or
open although its flag was set from the beginning. -/
structure FlagsMatch (initial : List (ι × Nat)) (m : Machine ι κ E σ) : Prop where
  flags : m.inTrap = openEntries m.stack ++ initial
  nodup : (openEntries m.stack).Nodup
  fresh : ∀ e ∈ openEntries m.stack, e ∉ initial
  range : ∀ e ∈ openEntries m.stack, e.2 < trapHarts
  releases : ∀ f ∈ m.stack, Releases f

namespace FlagsMatch

variable {p} {initial : List (ι × Nat)}

theorem step (h : FlagsMatch initial m) : FlagsMatch initial (Machine.step p m) := by
  obtain ⟨hflags, hnodup, hfresh, hrange, hreleases⟩ := h
  have hmove := entryMove_step p hreleases
  generalize hentries : openEntries m.stack = entries at hmove hflags hnodup hfresh hrange
  generalize hflags' : (Machine.step p m).inTrap = flags' at hmove
  generalize hentries' : openEntries (Machine.step p m).stack = entries' at hmove
  suffices hall : flags' = entries' ++ initial ∧ entries'.Nodup ∧ (∀ e ∈ entries', e ∉ initial) ∧
      ∀ e ∈ entries', e.2 < trapHarts by
    subst hflags' hentries'
    exact ⟨hall.1, hall.2.1, hall.2.2.1, hall.2.2.2, releases_step p hreleases⟩
  cases hmove with
  | kept => exact ⟨hflags, hnodup, hfresh, hrange⟩
  | accepted e hnew hbound =>
    rw [hflags, List.mem_append, not_or] at hnew
    refine ⟨by rw [hflags, List.cons_append], List.nodup_cons.mpr ⟨hnew.1, hnodup⟩, ?_, ?_⟩
    · exact List.forall_mem_cons.mpr ⟨hnew.2, hfresh⟩
    · exact List.forall_mem_cons.mpr ⟨hbound, hrange⟩
  | returned e rest hlast =>
    subst hlast
    refine ⟨?_, hnodup.of_cons, fun e' he' => hfresh e' (List.mem_cons_of_mem e he'),
      fun e' he' => hrange e' (List.mem_cons_of_mem e he')⟩
    rw [hflags, List.cons_append, List.erase_cons_head]

theorem run (h : FlagsMatch initial m) (n : Nat) : FlagsMatch initial (Machine.run p n m) := by
  induction n with
  | zero => exact h
  | succ n ih =>
    rw [run_succ_last]
    exact ih.step

omit [DecidableEq ι] in
theorem load (program : Program (software ι κ E) Unit) (w : σ) (hs : HandlerTable κ) :
    FlagsMatch initial (Machine.load program ⟨w, hs, initial, []⟩) :=
  ⟨rfl, List.nodup_nil, by simp [Machine.load], by simp [Machine.load],
    by simp [Machine.load, Releases]⟩

theorem nesting_le_one (h : FlagsMatch initial m) (c : ι) (hart : Nat) :
    nesting m c hart ≤ 1 :=
  List.nodup_iff_count_le_one.mp h.nodup (c, hart)

theorem nesting_eq_one_iff (h : FlagsMatch initial m) {c : ι} {hart : Nat}
    (hnormal : (c, hart) ∉ initial) :
    nesting m c hart = 1 ↔ trapState m.inTrap c hart = .inTrap := by
  have hle := h.nesting_le_one c hart
  have hpos : 0 < nesting m c hart ↔ (c, hart) ∈ openEntries m.stack := List.count_pos_iff
  rw [trapState_eq_inTrap_iff, h.flags, List.mem_append, ← hpos]
  constructor
  · intro hone
    exact Or.inl (by omega)
  · rintro (hopen | hinitial)
    · omega
    · exact absurd hinitial hnormal

theorem nesting_eq_zero (h : FlagsMatch initial m) {c : ι} {hart : Nat}
    (hclosed : trapHarts ≤ hart ∨ (c, hart) ∈ initial) : nesting m c hart = 0 := by
  apply List.count_eq_zero_of_not_mem
  intro hopen
  rcases hclosed with hrange | hinitial
  · have hlt : hart < trapHarts := h.range _ hopen
    omega
  · exact h.fresh _ hopen hinitial

omit [DecidableEq ι] in
/-- The flags only depend on the frames, not on what is left of their programs. -/
theorem inTrap_eq_of_stack {m' : Machine ι κ E σ} (h : FlagsMatch initial m)
    (h' : FlagsMatch initial m') {r : Option (Routine ι κ)}
    {rest rest' : Program (software ι κ E) Outcome} {below : List (Frame ι κ E)}
    (hm : m.stack = ⟨r, rest⟩ :: below) (hm' : m'.stack = ⟨r, rest'⟩ :: below) :
    m'.inTrap = m.inTrap := by
  rw [h.flags, h'.flags, hm, hm', openEntries_cons, openEntries_cons]

end FlagsMatch

section TrapCall

variable {c : ι} {hart : Nat} {r : Option (Routine ι κ)}
  {next : Unit → Program (software ι κ E) Outcome} {below : List (Frame ι κ E)}

/-- A trap that is refused is reported, and its caller goes on at once. -/
theorem step_trap_refused (hm : m.stack = ⟨r, .ask (Request.call (.trap c hart)) next⟩ :: below)
    (h : trapState m.inTrap c hart = .inTrap ∨ trapHarts ≤ hart) :
    Machine.step p m = { m with
      world := p.report
        (if trapHarts ≤ hart then .trapHartOutOfRange hart else .trapNested hart) m.world
      stack := ⟨r, next ()⟩ :: below } := by
  obtain ⟨w, hs, t, stack⟩ := m
  subst hm
  rw [trapState_eq_inTrap_iff] at h
  have hrefused : refusal t (.trap c hart : Routine ι κ) =
      some (if trapHarts ≤ hart then .trapHartOutOfRange hart else .trapNested hart) := by
    rw [refusal_trap]
    by_cases hrange : trapHarts ≤ hart
    · simp [hrange]
    · have hin : (c, hart) ∈ t := h.resolve_right hrange
      simp [hrange, hin]
  rw [step_call, start_of_refused p hrefused]

/-- A trap on a hart that is in none gets a frame and sets its flag. -/
theorem step_trap_accepted (hm : m.stack = ⟨r, .ask (Request.call (.trap c hart)) next⟩ :: below)
    (h : trapState m.inTrap c hart ≠ .inTrap) (hrange : hart < trapHarts) :
    Machine.step p m = { m with
      inTrap := (c, hart) :: m.inTrap
      stack := ⟨some (.trap c hart), (Routine.trap c hart).program p⟩ :: ⟨r, next ()⟩ :: below } := by
  obtain ⟨w, hs, t, stack⟩ := m
  subst hm
  rw [Ne, trapState_eq_inTrap_iff] at h
  rw [step_call, start_trap p hrange h]

end TrapCall

/-- Whatever software runs, and however handlers call trap entries again: a hart that was in no trap
at the start is in one exactly while one frame of that trap entry for it is on the stack, and there
is never a second one. A trap on a hart that is in one already, or that is out of range, does
nothing but report that, and the flags are back as they were when a call returns. -/
theorem flags_match_frames (program : Program (software ι κ E) Unit) (w : σ) (hs : HandlerTable κ)
    (initial : List (ι × Nat)) :
    let at_ := fun n => run p n (load program ⟨w, hs, initial, []⟩)
    (∀ n c hart, nesting (at_ n) c hart ≤ 1 ∧
      (hart < trapHarts → (c, hart) ∉ initial →
        (trapState (at_ n).inTrap c hart = .inTrap ↔ nesting (at_ n) c hart = 1)) ∧
      (trapHarts ≤ hart ∨ (c, hart) ∈ initial → nesting (at_ n) c hart = 0)) ∧
    (∀ n c hart r next below,
      (at_ n).stack = ⟨r, .ask (Request.call (.trap c hart)) next⟩ :: below →
      (trapState (at_ n).inTrap c hart = .inTrap ∨ trapHarts ≤ hart →
        at_ (n + 1) = { at_ n with
          world := p.report
            (if trapHarts ≤ hart then .trapHartOutOfRange hart else .trapNested hart) (at_ n).world
          stack := ⟨r, next ()⟩ :: below }) ∧
      (trapState (at_ n).inTrap c hart ≠ .inTrap → hart < trapHarts →
        at_ (n + 1) = { at_ n with
          inTrap := (c, hart) :: (at_ n).inTrap
          stack := ⟨some (.trap c hart), (Routine.trap c hart).program p⟩ :: ⟨r, next ()⟩ ::
            below })) ∧
    (∀ n k r called next below, (at_ n).stack = ⟨r, .ask (Request.call called) next⟩ :: below →
      (at_ (n + k)).stack = ⟨r, next ()⟩ :: below → (at_ (n + k)).inTrap = (at_ n).inTrap) := by
  intro at_
  have hmatch : ∀ n, FlagsMatch initial (at_ n) := fun n => (FlagsMatch.load program w hs).run n
  refine ⟨fun n c hart => ?_, fun n c hart r next below hm => ?_, ?_⟩
  · refine ⟨(hmatch n).nesting_le_one c hart, fun _ hnormal => ?_, (hmatch n).nesting_eq_zero⟩
    exact ((hmatch n).nesting_eq_one_iff hnormal).symm
  · have hstep : at_ (n + 1) = Machine.step p (at_ n) := run_succ_last p n _
    rw [hstep]
    exact ⟨step_trap_refused p hm, step_trap_accepted p hm⟩
  · intro n k r called next below hcall hreturn
    exact (hmatch n).inTrap_eq_of_stack (hmatch (n + k)) hcall hreturn

/-- Every trap is taken for the timer, and the handler enters the trap again, on hart 0 and then
on hart 1. Reports are kept. -/
def samplePlatform : Platform Unit Unit ⟨Empty, fun _ => Unit⟩ (List Notice) where
  controller _ := ⟨.done (), fun _ => .done (), fun _ _ => .done (), fun _ => .done .spurious, .scause⟩
  behaviour _ _ := do
    Request.run (.trap () 0)
    Request.run (.trap () 1)
  device op _ := op.elim
  csr
    | .scause, w => (0x8000000000000005#64, w)
    | .stopi, w => (0, w)
    | .clearSoftPending, w => ((), w)
    | .setExternalEnabled _, w => ((), w)
  report notice w := w ++ [notice]
  started _ _ w := w

/-- The machine about to enter the trap of hart 0, with hart 7 in a trap all along. -/
def sampleNesting : Machine Unit Unit ⟨Empty, fun _ => Unit⟩ (List Notice) :=
  load (Request.run (.trap () 0)) ⟨[], .fill _ (some ()), [((), 7)], []⟩

set_option maxRecDepth 8192 in
theorem flags_match_frames_sampleNesting :
    (nesting (run samplePlatform 7 sampleNesting) () 0 = 1 ∧
      nesting (run samplePlatform 7 sampleNesting) () 1 = 1 ∧
      nesting (run samplePlatform 7 sampleNesting) () 7 = 0) ∧
    (run samplePlatform 6 sampleNesting).inTrap = (run samplePlatform 5 sampleNesting).inTrap ∧
    (run samplePlatform 6 sampleNesting).world = [.trapNested 0] ∧
    (run samplePlatform 19 sampleNesting).inTrap = [((), 7)] := by
  obtain ⟨hframes, hcalls, hreturns⟩ := flags_match_frames samplePlatform
    (Request.run (.trap () 0)) [] (.fill _ (some ())) [((), 7)]
  have hboth : trapState (run samplePlatform 7 sampleNesting).inTrap () 0 = .inTrap ∧
      trapState (run samplePlatform 7 sampleNesting).inTrap () 1 = .inTrap := by decide +kernel
  have hnested : trapState (run samplePlatform 5 sampleNesting).inTrap () 0 = .inTrap := by
    decide +kernel
  have hworld : (run samplePlatform 5 sampleNesting).world = [] := by decide +kernel
  have hrefused := (hcalls 5 () 0 _ _ _ rfl).1 (Or.inl hnested)
  refine ⟨⟨?_, ?_, ?_⟩, ?_, ?_, ?_⟩
  · exact ((hframes 7 () 0).2.1 (by decide) (by decide)).mp hboth.1
  · exact ((hframes 7 () 1).2.1 (by decide) (by decide)).mp hboth.2
  · exact (hframes 7 () 7).2.2 (Or.inr (by decide))
  · have hflags := congrArg Machine.inTrap hrefused
    exact hflags
  · have hreport := congrArg Machine.world hrefused
    change _ = samplePlatform.report (.trapNested 0) (run samplePlatform 5 sampleNesting).world
      at hreport
    rw [hworld] at hreport
    exact hreport
  · exact hreturns 0 19 _ _ _ _ rfl rfl

end Machine

end AdvancedInterrupts
