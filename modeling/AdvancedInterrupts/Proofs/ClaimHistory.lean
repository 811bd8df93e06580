import AdvancedInterrupts.Proofs.UrgencyOrder
import Mathlib.Data.Nat.Init

/-!
# Histories of claims

A history is any sequence of accesses to one emulated domain, in the order in
which the domain takes them, whoever issues them. A pending bit is followed
through it: a single access sets it only by naming an active source, and clears
it only by reporting the source, by naming it, or by making it inactive. Over a
history it follows that an interrupt is claimed once for each time it was raised
and is never lost.
-/
namespace AdvancedInterrupts.EmulatedDomain

variable {d : EmulatedDomain}

/-- An access reads the claim register of a delivery structure and is answered with an identity. -/
def Claims (i identity : Nat) (d : EmulatedDomain) (access : EmulatedAccess) : Prop :=
  d.action? access = some (.read (.idc i .claim)) ∧
    ∃ word, d.answer? access = some word ∧ (Claim.ofWord word).identity = identity

/-- An access names a source, by number or by its bit in a word, to give its pending bit a value. -/
def Names (value : Bool) (s : Nat) (d : EmulatedDomain) (access : EmulatedAccess) : Prop :=
  ∃ x q, d.action? access = some x ∧ x.flagRequest? = some q ∧ q.flag = .pending ∧
    q.value = value ∧ q.names s = true

/-- An access makes a source inactive through its configuration register. -/
def Deactivates (s : Nat) (d : EmulatedDomain) (access : EmulatedAccess) : Prop :=
  ∃ word, d.action? access = some (.write (.sourceConfig s) word) ∧
    SourceMode.ofWord word = .ok .inactive

/-- An access withdraws a source: it claims, clears or deactivates it. -/
def Withdraws (s : Nat) (d : EmulatedDomain) (access : EmulatedAccess) : Prop :=
  (∃ i, Claims i s d access) ∨ Names false s d access ∨ Deactivates s d access

theorem claims_of_top {access : EmulatedAccess} {i : Nat} {c : Claim} (hi : i < d.idcCount)
    (hx : d.action? access = some (.read (.idc i .claim))) (ht : d.top i = some c) :
    Claims i c.identity d access := by
  refine ⟨hx, _, d.answer?_of_action? hx, ?_⟩
  simp only [readRegister, if_pos hi, readIdc, ofWord_topWord, ht, Option.getD_some]

/-- A claim of an identity other than zero reports the top interrupt, and withdraws it. -/
theorem top_of_claims {access : EmulatedAccess} {i s : Nat} (h : Claims i s d access)
    (hs : s ≠ 0) : ∃ c, d.top i = some c ∧ c.identity = s ∧ d.after access = d.afterClaim i := by
  obtain ⟨hx, word, hw, hid⟩ := h
  rw [d.answer?_of_action? hx, Option.some.injEq] at hw
  subst hw
  simp only [readRegister] at hid
  split at hid
  next hi =>
    simp only [readIdc, ofWord_topWord] at hid
    cases ht : d.top i with
    | none =>
      rw [ht] at hid
      exact absurd (show s = 0 from hid.symm) hs
    | some c =>
      rw [ht] at hid
      refine ⟨c, rfl, hid, ?_⟩
      rw [after_eq, hx, Option.map_some, Option.getD_some, perform_claim d hi]
  next =>
    have hzero : (Claim.ofWord 0).identity = 0 := by decide
    exact absurd (hid.symm.trans hzero) hs

/-- All that an access can do to a pending bit: nothing, what a write that names the source asks
for, or to clear it by a claim or by making the source inactive. -/
theorem pending_after (access : EmulatedAccess) (s : Nat) :
    ((d.after access).source s).pending = (d.source s).pending ∨
      (∃ value, ((d.after access).source s).pending = value ∧ Names value s d access ∧
        d.acceptsFlag s value = true) ∨
      ((d.after access).source s).pending = false ∧
        ((∃ i, Claims i s d access) ∨ Deactivates s d access) := by
  rw [after_eq]
  cases hx : d.action? access with
  | none => exact Or.inl rfl
  | some x =>
    rw [Option.map_some, Option.getD_some]
    have heffect := d.sourceEffect x s
    generalize (d.perform x).source s = after at heffect ⊢
    cases heffect with
    | kept => exact Or.inl rfl
    | flag q hq hn ha =>
      have hflag := Source.flag_withFlag .pending q.flag q.value (d.source s)
      split at hflag
      next hf => exact Or.inr (Or.inl ⟨q.value, hflag, ⟨x, q, hx, hq, hf.symm, rfl, hn⟩, ha⟩)
      next => exact Or.inl hflag
    | mode word m hw hm hs =>
      have hflag := Source.flag_withMode .pending m (d.source s)
      cases ha : m.isActive with
      | true =>
        rw [ha, Bool.true_and] at hflag
        exact Or.inl hflag
      | false =>
        have hinactive : m = .inactive := by
          cases m <;> first | rfl | cases ha
        rw [ha, Bool.false_and] at hflag
        subst hinactive
        exact Or.inr (Or.inr ⟨hflag, Or.inr ⟨word, hw ▸ hx, hm⟩⟩)
    | target word hw hs => exact Or.inl rfl
    | claimed i c hr hi ht hc =>
      exact Or.inr (Or.inr ⟨rfl, Or.inl ⟨i, hc ▸ claims_of_top hi (hr ▸ hx) ht⟩⟩)

theorem names_of_raised {access : EmulatedAccess} {s : Nat} (h : (d.source s).pending = false)
    (h' : ((d.after access).source s).pending = true) :
    Names true s d access ∧ (d.source s).mode.isActive = true := by
  rcases d.pending_after access s with hkept | ⟨value, hvalue, hnames, haccepts⟩ | ⟨hclear, -⟩
  · rw [hkept, h] at h'
    cases h'
  · rw [h'] at hvalue
    subst hvalue
    exact ⟨hnames, isActive_of_acceptsFlag haccepts⟩
  · rw [hclear] at h'
    cases h'

theorem withdraws_of_cleared {access : EmulatedAccess} {s : Nat} (h : (d.source s).pending = true)
    (h' : ((d.after access).source s).pending = false) : Withdraws s d access := by
  rcases d.pending_after access s with hkept | ⟨value, hvalue, hnames, -⟩ | ⟨-, hclaim | hoff⟩
  · rw [hkept, h] at h'
    cases h'
  · rw [h'] at hvalue
    subst hvalue
    exact Or.inr (Or.inl hnames)
  · exact Or.inl hclaim
  · exact Or.inr (Or.inr hoff)

/-- The domain that the access at a position of a history meets. -/
def before (d : EmulatedDomain) (history : List EmulatedAccess) (n : Nat) : EmulatedDomain :=
  d.afterAll (history.take n)

/-- The access at a position of a history is of some kind, in the domain that it meets. -/
def At (d : EmulatedDomain) (history : List EmulatedAccess) (n : Nat)
    (kind : EmulatedDomain → EmulatedAccess → Prop) : Prop :=
  ∃ access, history[n]? = some access ∧ kind (d.before history n) access

section History

variable {history : List EmulatedAccess} {n : Nat} {access : EmulatedAccess}

theorem before_succ (h : history[n]? = some access) :
    d.before history (n + 1) = (d.before history n).after access := by
  simp only [before, afterAll, List.take_add_one, h, Option.toList_some, List.foldl_append,
    List.foldl_cons, List.foldl_nil]

theorem before_succ_of_none (h : history[n]? = none) :
    d.before history (n + 1) = d.before history n := by
  simp only [before, List.take_add_one, h, Option.toList_none, List.append_nil]

/-- A pending bit that is clear and later set was set by one access in between. -/
theorem exists_raised {m n s : Nat} (hmn : m ≤ n)
    (hm : ((d.before history m).source s).pending = false)
    (hn : ((d.before history n).source s).pending = true) :
    ∃ k, m ≤ k ∧ k < n ∧ ((d.before history k).source s).pending = false ∧
      ((d.before history (k + 1)).source s).pending = true := by
  induction n, hmn using Nat.le_induction with
  | base =>
    rw [hm] at hn
    cases hn
  | succ n hmn ih =>
    cases hk : ((d.before history n).source s).pending with
    | false => exact ⟨n, hmn, Nat.lt_succ_self n, hk, hn⟩
    | true =>
      obtain ⟨k, hle, hlt, hbefore, hafter⟩ := ih hk
      exact ⟨k, hle, Nat.lt_succ_of_lt hlt, hbefore, hafter⟩

/-- A pending bit stays set as long as no access withdraws its source. -/
theorem pending_of_not_withdraws {m n s : Nat} (hmn : m ≤ n)
    (hm : ((d.before history m).source s).pending = true)
    (hkeep : ∀ k, m ≤ k → k < n → ¬ d.At history k (Withdraws s)) :
    ((d.before history n).source s).pending = true := by
  induction n, hmn using Nat.le_induction with
  | base => exact hm
  | succ n hmn ih =>
    have hn := ih fun k hle hlt => hkeep k hle (Nat.lt_succ_of_lt hlt)
    cases hget : history[n]? with
    | none => rw [before_succ_of_none hget, hn]
    | some access =>
      rw [before_succ hget]
      cases hafter : (((d.before history n).after access).source s).pending with
      | true => rfl
      | false =>
        have hw : Withdraws s (d.before history n) access := withdraws_of_cleared hn hafter
        exact absurd ⟨access, hget, hw⟩ (hkeep n hmn (Nat.lt_succ_self n))

end History

/-- In every history of a domain, an identity is reported only while its source is pending, enabled,
active and routed to the delivery structure of the claim; between two reports of an identity
another access made the source pending again; and a source that is pending stays so until it is
reported, cleared or made inactive. -/
theorem claims_exactly_once (hd : d.Reachable) (history : List EmulatedAccess) :
    (∀ n i s, s ≠ 0 → d.At history n (Claims i s) →
      ((d.before history n).source s).pending = true ∧
      ((d.before history n).source s).enabled = true ∧
      ((d.before history n).source s).mode.isActive = true ∧
      Target.hart ((d.before history n).source s).target = i) ∧
    (∀ m n i j s, s ≠ 0 → m < n → d.At history m (Claims i s) → d.At history n (Claims j s) →
      ∃ k, m < k ∧ k < n ∧ d.At history k (Names true s) ∧
        ((d.before history k).source s).mode.isActive = true ∧
        ((d.before history k).source s).pending = false ∧
        ((d.before history (k + 1)).source s).pending = true) ∧
    (∀ m n s, m ≤ n → ((d.before history m).source s).pending = true →
      (∀ k, m ≤ k → k < n → ¬ d.At history k (Withdraws s)) →
      ((d.before history n).source s).pending = true) := by
  have hreach : ∀ n, (d.before history n).Consistent := fun n => (hd.afterAll _).consistent
  have hclaimable : ∀ n i s, s ≠ 0 → d.At history n (Claims i s) →
      (d.before history n).Claimable i s := by
    rintro n i s hs ⟨access, -, hclaim⟩
    obtain ⟨c, htop, rfl, -⟩ := top_of_claims hclaim hs
    exact (foremost_of_top (hreach n) htop).2.1
  have hactive : ∀ n s, ((d.before history n).source s).pending = true →
      ((d.before history n).source s).mode.isActive = true := by
    intro n s hp
    have hne := ((hreach n).of_flag (f := .pending) hp).2
    simpa [SourceMode.isActive] using hne
  refine ⟨fun n i s hs hclaim => ?_, fun m n i j s hs hmn hfirst hsecond => ?_, ?_⟩
  · obtain ⟨-, hp, he, hr, -⟩ := hclaimable n i s hs hclaim
    exact ⟨hp, he, hactive n s hp, hr⟩
  · obtain ⟨access, hget, hclaim⟩ := hfirst
    obtain ⟨c, htop, rfl, hafter⟩ := top_of_claims hclaim hs
    have hclear : ((d.before history (m + 1)).source c.identity).pending = false := by
      rw [before_succ hget, hafter, source_afterClaim htop, if_pos rfl]
      rfl
    have hset := (hclaimable n j _ hs hsecond).2.1
    obtain ⟨k, hmk, hkn, hlow, hhigh⟩ := exists_raised hmn hclear hset
    cases hk : history[k]? with
    | none =>
      rw [before_succ_of_none hk, hlow] at hhigh
      cases hhigh
    | some raising =>
      have hraised := hhigh
      rw [before_succ hk] at hraised
      obtain ⟨hnames, hon⟩ := names_of_raised hlow hraised
      exact ⟨k, hmk, hkn, ⟨raising, hk, hnames⟩, hon, hlow, hhigh⟩
  · exact fun m n s hmn hm hkeep => pending_of_not_withdraws hmn hm hkeep

/-- After the sample accesses, source 3 is claimed by a driver, raised again, and claimed by the
guest, while source 5 waits. -/
def sampleHistory : List EmulatedAccess :=
  sampleAccesses ++ [.windowRead (Register.idc 0 .claim).offset, .inject 3,
    .guestRead (0xd000000 + (Register.idc 0 .claim).offset) .dword]

theorem claims_exactly_once_sampleHistory :
    sample.Reachable ∧ sample.At sampleHistory 7 (Claims 0 3) ∧
      sample.At sampleHistory 9 (Claims 0 3) ∧
      Target.hart ((sample.before sampleHistory 9).source 3).target = 0 ∧
      (∃ k, 7 < k ∧ k < 9 ∧ sample.At sampleHistory k (Names true 3)) ∧
      ((sample.before sampleHistory 8).source 5).pending = true ∧
      ((sample.before sampleHistory 9).source 5).pending = true := by
  obtain ⟨hreport, htwice, hkept⟩ := claims_exactly_once sample_reachable sampleHistory
  have hfirst : sample.At sampleHistory 7 (Claims 0 3) :=
    ⟨_, rfl, by decide, _, rfl, by decide⟩
  have hsecond : sample.At sampleHistory 9 (Claims 0 3) :=
    ⟨_, rfl, by decide, _, rfl, by decide⟩
  obtain ⟨k, hlow, hhigh, hnames, -⟩ := htwice 7 9 0 0 3 (by decide) (by decide) hfirst hsecond
  have hwaits : ((sample.before sampleHistory 8).source 5).pending = true := by decide
  refine ⟨sample_reachable, hfirst, hsecond, (hreport 9 0 3 (by decide) hsecond).2.2.2,
    ⟨k, hlow, hhigh, hnames⟩, hwaits, hkept 8 9 5 (by decide) hwaits fun k hle hlt => ?_⟩
  obtain rfl : k = 8 := by omega
  rintro ⟨access, hget, hw⟩
  cases hget
  rcases hw with ⟨i, hread, -⟩ | ⟨x, q, hx, hq, -, hvalue, -⟩ | ⟨word, hwrite, -⟩
  · cases hread
  · cases hx
    cases hq
    cases hvalue
  · cases hwrite

end AdvancedInterrupts.EmulatedDomain
