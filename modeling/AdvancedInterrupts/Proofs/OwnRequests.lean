import AdvancedInterrupts.Proofs.MachineRun
import Mathlib.Data.Nat.Find
import Mathlib.Tactic.ByContra

/-!
# The own requests of a routine

A routine shares the stack with what it calls, so in a run its requests are mixed
with those of the routines above it. Its own requests are the ones that are made
while its frame is on top. When its program asks for the same operations whatever
the answers are, every run makes these requests in their order: a part of them
while the routine is there, all of them once it has returned, and none while
something that it called is running.
-/
namespace AdvancedInterrupts

namespace Program

variable {I : Interface} {α β : Type}

/-- The program asks for these operations in this order, whatever the answers are. -/
inductive Issues : Program I α → List I.Op → Prop where
  | done (a : α) : (done a).Issues []
  | ask (op : I.Op) {next : I.Answer op → Program I α} {later : List I.Op}
      (hnext : ∀ answer, (next answer).Issues later) : (ask op next).Issues (op :: later)

theorem issues_perform (op : I.Op) : (perform op).Issues [op] :=
  .ask op fun answer => .done answer

theorem Issues.bind {p : Program I α} {k : α → Program I β} {ops ops' : List I.Op}
    (hp : p.Issues ops) (hk : ∀ a, (k a).Issues ops') : (p >>= k).Issues (ops ++ ops') := by
  induction hp with
  | done a => exact hk a
  | ask op hnext ih => exact .ask op ih

end Program

namespace Machine

variable {ι κ σ : Type} {E : Interface} [DecidableEq ι]

/-- The request of the frame on top, if there are so many frames below it. -/
def requestAt? (height : Nat) (m : Machine ι κ E σ) : Option (Request ι κ E) :=
  match m.stack with
  | ⟨_, .ask request _⟩ :: below => if below.length = height then some request else none
  | _ => none

omit [DecidableEq ι] in
theorem requestAt?_of_lt {height : Nat} {m : Machine ι κ E σ}
    (h : height + 1 < m.stack.length) : m.requestAt? height = none := by
  unfold requestAt?
  split
  next heq =>
    rw [heq, List.length_cons] at h
    exact if_neg (by omega)
  next => rfl

variable (p : Platform ι κ E σ) {m : Machine ι κ E σ} {r : Routine ι κ}
  {below : List (Frame ι κ E)} {made left asked : List (Request ι κ E)}

/-- The requests made during a number of steps while so many frames were below the one on top. -/
def issued (height : Nat) : Nat → Machine ι κ E σ → List (Request ι κ E)
  | 0, _ => []
  | n + 1, m => (m.requestAt? height).toList ++ issued height n (step p m)

theorem issued_add (height a b : Nat) (m : Machine ι κ E σ) :
    issued p height (a + b) m = issued p height a m ++ issued p height b (run p a m) := by
  induction a generalizing m with
  | zero =>
    rw [Nat.zero_add]
    rfl
  | succ a ih =>
    rw [show a + 1 + b = a + b + 1 by omega, issued, issued, ih, run_succ, List.append_assoc]

theorem issued_succ_last (height n : Nat) (m : Machine ι κ E σ) :
    issued p height (n + 1) m =
      issued p height n m ++ ((run p n m).requestAt? height).toList := by
  rw [issued_add, issued, issued, List.append_nil]

/-- More than so many frames are on the stack, before each of a number of steps. -/
def StaysAbove (height n : Nat) (m : Machine ι κ E σ) : Prop :=
  ∀ k < n, height < (run p k m).stack.length

instance (height n : Nat) (m : Machine ι κ E σ) : Decidable (StaysAbove p height n m) :=
  inferInstanceAs (Decidable (∀ k < n, _))

/-- The routine that has been started above some frames makes these requests, all of them, and
waits for each call that is one of them. -/
structure Makes (below : List (Frame ι κ E)) (asked : List (Request ι κ E))
    (m : Machine ι κ E σ) : Prop where
  /-- It makes no other requests, and makes them in this order. -/
  in_order : ∀ n, StaysAbove p below.length n m → issued p below.length n m <+: asked
  /-- All of them are made when it returns, and then the frames below are left. -/
  complete : ∀ n, StaysAbove p below.length n m → (run p n m).stack.length ≤ below.length →
    (run p n m).stack = below ∧ issued p below.length n m = asked
  /-- Whatever runs above it was called by the last request that it has made. -/
  waits : ∀ n, StaysAbove p below.length n m → below.length + 1 < (run p n m).stack.length →
    ∃ called, (issued p below.length n m).getLast? = some (.call called)
  /-- It returns, if all that it calls does. -/
  returns : (∀ n, ∃ k ≥ n, (run p k m).stack.length ≤ below.length + 1) →
    ∃ n, StaysAbove p below.length n m ∧ (run p n m).stack = below

/-- A routine that has made some of its requests and is left with others. What is above it has been
called by the last of those made. -/
def Midway (r : Routine ι κ) (below : List (Frame ι κ E)) (made left : List (Request ι κ E))
    (m : Machine ι κ E σ) : Prop :=
  ∃ (above : List (Frame ι κ E)) (rest : Program (software ι κ E) Unit) (outcome : Outcome),
    m.stack = above ++ ⟨some r, (fun _ => outcome) <$> rest⟩ :: below ∧ rest.Issues left ∧
      outcome ≠ .again ∧ (above ≠ [] → ∃ called, made.getLast? = some (.call called))

namespace Midway

variable {p}

omit [DecidableEq ι] in
theorem height_lt (h : Midway r below made left m) : below.length < m.stack.length := by
  obtain ⟨above, rest, outcome, hstack, -⟩ := h
  rw [hstack, List.length_append, List.length_cons]
  omega

omit [DecidableEq ι] in
theorem waits (h : Midway r below made left m) (hbusy : below.length + 1 < m.stack.length) :
    ∃ called, made.getLast? = some (.call called) := by
  obtain ⟨above, rest, outcome, hstack, -, -, hcalled⟩ := h
  apply hcalled
  rintro rfl
  simp [hstack] at hbusy

/-- After a step the routine has returned, with nothing left to ask for, or it has made one more
request, or else something that it called has made the step. -/
theorem step (h : Midway r below made left m) :
    ((Machine.step p m).stack = below ∧ left = [] ∧ m.requestAt? below.length = none) ∨
      ∃ left', left = (m.requestAt? below.length).toList ++ left' ∧
        Midway r below (made ++ (m.requestAt? below.length).toList) left' (Machine.step p m) ∧
        (m.requestAt? below.length = none → below.length + 1 < m.stack.length) := by
  obtain ⟨above, rest, outcome, hstack, hissues, hlast, hcalled⟩ := h
  cases above with
  | nil =>
    rw [List.nil_append] at hstack
    cases rest with
    | done u =>
      left
      have hnone : m.requestAt? below.length = none := by
        rw [requestAt?, hstack]
        rfl
      cases hissues
      exact ⟨stack_step_done p hlast hstack, rfl, hnone⟩
    | ask request next =>
      right
      obtain _ | @⟨_, _, later, hnext⟩ := hissues
      rw [Program.map_ask] at hstack
      have hsome : m.requestAt? below.length = some request := by simp [requestAt?, hstack]
      rw [hsome]
      refine ⟨later, rfl, ?_, fun hnone => by simp at hnone⟩
      rcases stack_step_ask p hstack with ⟨answer, hnow⟩ | ⟨called, answer, rfl, hnow⟩
      · exact ⟨[], next answer, outcome, hnow, hnext answer, hlast, fun habove => absurd rfl habove⟩
      · exact ⟨[⟨some called, called.program p⟩], next answer, outcome, hnow, hnext answer, hlast,
          fun _ => ⟨called, by simp⟩⟩
  | cons f above =>
    right
    have hcons : m.stack = f :: (above ++ ⟨some r, (fun _ => outcome) <$> rest⟩ :: below) :=
      hstack
    have hbusy : below.length + 1 < m.stack.length := by
      rw [hcons, List.length_cons, List.length_append, List.length_cons]
      omega
    obtain ⟨new, hnew⟩ := exists_stack_step p hcons
    rw [requestAt?_of_lt hbusy]
    refine ⟨left, rfl, ⟨new ++ above, rest, outcome, ?_, hissues, hlast, fun _ => ?_⟩,
      fun _ => hbusy⟩
    · rw [hnew, List.append_assoc]
    · simpa using hcalled (List.cons_ne_nil f above)

/-- The requests of a run, up to its return. -/
theorem run (h : Midway r below made left m) {n : Nat} (hstay : StaysAbove p below.length n m) :
    ((Machine.run p n m).stack = below ∧ issued p below.length n m = left) ∨
      ∃ left', left = issued p below.length n m ++ left' ∧
        Midway r below (made ++ issued p below.length n m) left' (Machine.run p n m) := by
  induction n with
  | zero => exact Or.inr ⟨left, rfl, by simpa [issued] using h⟩
  | succ n ih =>
    have hbefore : below.length < (Machine.run p n m).stack.length := hstay n (by omega)
    rw [run_succ_last, issued_succ_last]
    rcases ih fun k hk => hstay k (by omega) with ⟨hreturned, -⟩ | ⟨left', hleft, hmid⟩
    · rw [hreturned] at hbefore
      omega
    · rcases hmid.step (p := p) with ⟨hstack, hnil, hnone⟩ | ⟨left'', hleft', hnext, -⟩
      · left
        refine ⟨hstack, ?_⟩
        rw [hleft, hnil, hnone]
        rfl
      · right
        refine ⟨left'', ?_, ?_⟩
        · rw [hleft, hleft', List.append_assoc]
        · rwa [List.append_assoc] at hnext

/-- A routine that never returned would make more and more requests. -/
theorem exists_le_issued (h : Midway r below made left m)
    (hcalls : ∀ n, ∃ k ≥ n, (Machine.run p k m).stack.length ≤ below.length + 1)
    (hnever : ∀ n, below.length < (Machine.run p n m).stack.length) (j : Nat) :
    ∃ n, j ≤ (issued p below.length n m).length := by
  induction j with
  | zero => exact ⟨0, Nat.zero_le _⟩
  | succ j ih =>
    obtain ⟨n, hn⟩ := ih
    obtain ⟨k, hk, htop⟩ := hcalls n
    refine ⟨k + 1, ?_⟩
    obtain ⟨a, rfl⟩ := Nat.exists_eq_add_of_le hk
    have hmore : j ≤ (issued p below.length (n + a) m).length := by
      rw [issued_add, List.length_append]
      omega
    rw [issued_succ_last, List.length_append]
    rcases h.run (p := p) (n := n + a) fun k _ => hnever k with ⟨hreturned, -⟩ | ⟨_, -, hmid⟩
    · have hnow := hnever (n + a)
      rw [hreturned] at hnow
      omega
    · rcases hmid.step (p := p) with ⟨hreturned, -, -⟩ | ⟨_, -, -, hrequest⟩
      · have hnext := hnever (n + a + 1)
        rw [run_succ_last, hreturned] at hnext
        omega
      · cases hr : (Machine.run p (n + a) m).requestAt? below.length with
        | none =>
          have hbusy := hrequest hr
          omega
        | some request =>
          rw [Option.toList_some, List.length_singleton]
          omega

theorem makes (h : Midway r below [] asked m) : Makes p below asked m where
  in_order n hstay := by
    rcases h.run hstay with ⟨-, hall⟩ | ⟨later, hasked, -⟩
    · exact ⟨[], by rw [List.append_nil, hall]⟩
    · exact ⟨later, hasked.symm⟩
  complete n hstay hreturned := by
    rcases h.run hstay with hdone | ⟨_, -, hmid⟩
    · exact hdone
    · have habove := hmid.height_lt
      omega
  waits n hstay hbusy := by
    rcases h.run hstay with ⟨hreturned, -⟩ | ⟨_, -, hmid⟩
    · rw [hreturned] at hbusy
      omega
    · exact hmid.waits hbusy
  returns hcalls := by
    have hreturns : ∃ n, (Machine.run p n m).stack.length ≤ below.length := by
      by_contra hnever
      have hnever' : ∀ n, below.length < (Machine.run p n m).stack.length :=
        fun n => Nat.lt_of_not_le fun hle => hnever ⟨n, hle⟩
      obtain ⟨n, hn⟩ := h.exists_le_issued hcalls hnever' (asked.length + 1)
      rcases h.run (n := n) fun k _ => hnever' k with ⟨-, hall⟩ | ⟨_, hasked, -⟩
      · rw [hall] at hn
        omega
      · rw [hasked, List.length_append] at hn
        omega
    have hstay : StaysAbove p below.length (Nat.find hreturns) m :=
      fun k hk => Nat.lt_of_not_le (Nat.find_min hreturns hk)
    refine ⟨Nat.find hreturns, hstay, ?_⟩
    rcases h.run hstay with ⟨hdone, -⟩ | ⟨_, -, hmid⟩
    · exact hdone
    · have habove := hmid.height_lt
      have hreturned := Nat.find_spec hreturns
      omega

end Midway

/-- A routine that makes one request first, and goes on by the answer. -/
theorem Makes.of_step_ask {request : Request ι κ E}
    {next : request.Answer → Program (software ι κ E) Outcome}
    (hm : m.stack = ⟨some r, .ask request next⟩ :: below)
    (h : Makes p below asked (step p m)) : Makes p below (request :: asked) m := by
  have hlater {n : Nat} (hstay : StaysAbove p below.length (n + 1) m) :
      StaysAbove p below.length n (step p m) := by
    intro k hk
    rw [← run_succ]
    exact hstay (k + 1) (by omega)
  have hissued (n : Nat) : issued p below.length (n + 1) m =
      request :: issued p below.length n (step p m) := by
    have hfirst : m.requestAt? below.length = some request := by simp [requestAt?, hm]
    rw [issued, hfirst]
    rfl
  have hheight : m.stack.length = below.length + 1 := by rw [hm, List.length_cons]
  refine ⟨fun n hstay => ?_, fun n hstay hreturned => ?_, fun n hstay hbusy => ?_,
    fun hcalls => ?_⟩
  · cases n with
    | zero => exact List.nil_prefix
    | succ n =>
      rw [hissued]
      exact List.cons_prefix_cons.mpr ⟨rfl, h.in_order n (hlater hstay)⟩
  · cases n with
    | zero =>
      rw [run_zero] at hreturned
      omega
    | succ n =>
      rw [run_succ] at hreturned
      obtain ⟨hstack, hall⟩ := h.complete n (hlater hstay) hreturned
      exact ⟨by rw [run_succ, hstack], by rw [hissued, hall]⟩
  · cases n with
    | zero =>
      rw [run_zero] at hbusy
      omega
    | succ n =>
      rw [run_succ] at hbusy
      obtain ⟨called, hlast⟩ := h.waits n (hlater hstay) hbusy
      exact ⟨called, by rw [hissued, List.getLast?_cons, hlast]; rfl⟩
  · obtain ⟨n, hstay, hstack⟩ := h.returns fun n => by
      obtain ⟨k, hk, htop⟩ := hcalls (n + 1)
      obtain ⟨a, rfl⟩ := Nat.exists_eq_add_of_le' (show 1 ≤ k by omega)
      exact ⟨a, by omega, by rwa [run_succ] at htop⟩
    refine ⟨n + 1, fun k hk => ?_, by rw [run_succ, hstack]⟩
    cases k with
    | zero =>
      rw [run_zero]
      omega
    | succ k =>
      rw [run_succ]
      exact hstay k (by omega)

/-- A routine that reads a control register first, and goes on by what it has read. -/
theorem Makes.of_step_csr {op : TrapCsr} {next : op.Answer → Program (software ι κ E) Outcome}
    (hm : m.stack = ⟨some r, .ask (Request.csr op) next⟩ :: below)
    (h : Makes p below asked (step p m)) : Makes p below (.csr op :: asked) m :=
  .of_step_ask p hm h

end Machine

end AdvancedInterrupts
