import AdvancedInterrupts.Proofs.DomainReset
import AdvancedInterrupts.Proofs.IdcIndependence
import AdvancedInterrupts.Proofs.ProbeTransparency
import AdvancedInterrupts.Proofs.SourceRefinement

/-!
# Routes of direct delivery

Once a domain was reset for direct delivery, every source is routed to one of
its delivery structures with a priority. Handles that know no delivery structure
which the domain lacks can only route sources there again, so this holds as long
as nobody writes the domain configuration.
-/
namespace AdvancedInterrupts

namespace Target

/-- The word holds one of the first `n` delivery structures and a priority, and nothing else. -/
def Routes (n : Nat) (w : Word) : Prop :=
  ∃ i p, i < n ∧ 1 ≤ p ∧ p ≤ maxPriority ∧ w = word i p

variable {n : Nat} {w : Word}

namespace Routes

/-- A target word can name every delivery structure of an emulated domain. -/
theorem le_max {i : Nat} (hi : i < n) (hn : n ≤ maxEmulatedIdcs) : i ≤ hartField.max :=
  Nat.le_trans (Nat.le_of_lt (Nat.lt_of_lt_of_le hi hn)) (by decide)

theorem hart_lt (h : Routes n w) (hn : n ≤ maxEmulatedIdcs) : Target.hart w < n := by
  obtain ⟨i, p, hi, -, hp, rfl⟩ := h
  rwa [hart_word (le_max hi hn) hp]

theorem priority_range (h : Routes n w) (hn : n ≤ maxEmulatedIdcs) :
    1 ≤ Target.priority w ∧ Target.priority w ≤ maxPriority := by
  obtain ⟨i, p, hi, hone, hp, rfl⟩ := h
  rw [priority_word (le_max hi hn) hp]
  exact ⟨hone, hp⟩

theorem getLsbD_between (h : Routes n w) {bit : Nat} (hlow : 8 ≤ bit) (hhigh : bit < 18) :
    w.getLsbD bit = false := by
  obtain ⟨i, p, -, -, hp, rfl⟩ := h
  have hpow : 2 ^ 8 ≤ 2 ^ bit := Nat.pow_le_pow_right (by decide) hlow
  have hlt : p < 2 ^ bit := by
    rw [maxPriority] at hp
    omega
  rw [getLsbD_word, Nat.testBit_lt_two_pow hlt, decide_eq_false (show ¬ 18 ≤ bit by omega),
    Bool.false_and, Bool.or_false, Bool.and_false]

end Routes

end Target

namespace Program

variable {I : Interface} {α β σ : Type} {service : Service I σ} {P : σ → Prop}

/-- A run from a state with a property ends in a state with this property. -/
def Preserves (service : Service I σ) (P : σ → Prop) (p : Program I α) : Prop :=
  ∀ s, P s → P (p.run service s).2

theorem Preserves.bind {p : Program I α} {k : α → Program I β} (hp : p.Preserves service P)
    (hk : ∀ a, (k a).Preserves service P) : (p >>= k).Preserves service P := by
  intro s hs
  rw [run_bind]
  exact hk _ _ (hp s hs)

theorem Asks.preserves {ok : I.Op → Prop} {p : Program I α} (h : p.Asks ok)
    (hok : ∀ op s, ok op → P s → P (service op s).2) : p.Preserves service P := by
  intro s hs
  induction p generalizing s with
  | done a => exact hs
  | ask op next ih => exact ih _ (h.2 _) _ (hok op s h.1 hs)

end Program

namespace EmulatedDomain

open Program

/-- A domain with `n` delivery structures that is in use for direct delivery: every source is routed
to one of them. -/
structure Routed (n : Nat) (d : EmulatedDomain) : Prop where
  reachable : d.Reachable
  fits : d.address + d.size ≤ addressSpace
  idcCount : d.idcCount = n
  direct : d.config.delivery = .direct
  target (s : Nat) (hs : d.hasSource s = true) : Target.Routes n (d.source s).target

variable {d e : EmulatedDomain} {a : Aplic} {n i : Nat}

theorem Routed.le_maxEmulatedIdcs (h : d.Routed n) : n ≤ maxEmulatedIdcs :=
  h.idcCount ▸ d.idcCount_range.2

/-- A change that keeps the shape and the delivery mode only has to keep the routes. -/
theorem Routed.of_change (h : d.Routed n) (hreachable : e.Reachable) (hshape : e.shape = d.shape)
    (hdirect : e.config.delivery = .direct)
    (htarget : ∀ s, d.hasSource s = true → Target.Routes n (e.source s).target) : e.Routed n where
  reachable := hreachable
  fits := fits_of_shape hshape h.fits
  idcCount := (idcCount_of_shape hshape).trans h.idcCount
  direct := hdirect
  target s hs := htarget s (by rwa [hasSource_of_shape hshape] at hs)

/-- A reset routes every source that the handle knows, and leaves the others where they are. -/
theorem routed_of_resets (hreachable : e.Reachable) (hfits : d.address + d.size ≤ addressSpace)
    (ha : a.delivery = .direct) (h : a.Resets d e)
    (htarget : ∀ s, d.hasSource s = true → s < a.sources ∨
      Target.Routes d.idcCount (d.source s).target) : e.Routed d.idcCount where
  reachable := hreachable
  fits := fits_of_shape h.shape hfits
  idcCount := idcCount_of_shape h.shape
  direct := by rw [h.config, ha]
  target s hs := by
    rw [hasSource_of_shape h.shape] at hs
    have hcount := d.idcCount_range
    rw [h.target, ha]
    split
    next => exact ⟨0, 1, by omega, by decide, by decide, by decide⟩
    next hhidden =>
      rcases htarget s hs with hknown | hroutes
      · rw [hasSource_iff] at hs
        exact absurd ⟨rfl, hs.1, by omega⟩ hhidden
      · exact hroutes

theorem preserves_reset (ha : a.delivery = .direct) :
    a.reset.Preserves service (Routed n) := by
  intro d h
  obtain rfl := h.idcCount
  exact routed_of_resets (h.reachable.run a.reset) h.fits ha
    (resets_run h.reachable.consistent h.fits) fun s hs => Or.inr (h.target s hs)

/-- An update by a handle that knows no delivery structure which the domain lacks. -/
theorem routes_of_effect? (ha : a.delivery = .direct) (hidcs : a.idcs ≤ n) {u : SourceUpdate}
    {f : Source → Source} (hf : u.effect? a = some f) {x : Source} (hn : n ≤ maxEmulatedIdcs)
    (hx : Target.Routes n x.target) : Target.Routes n (f x).target := by
  have hroute {hart j : Nat} (hj : a.route? hart = some j) : j < n :=
    Nat.lt_of_lt_of_le (Aplic.lt_of_route? hj) hidcs
  cases u with
  | config word =>
    simp only [SourceUpdate.effect?, Option.ite_none_left_eq_some] at hf
    obtain ⟨m, -, rfl⟩ := Option.map_eq_some_iff.mp hf.2
    rwa [Source.switchedTo_eq_withMode, Source.target_withMode]
  | mode m =>
    cases hf
    rwa [Source.switchedTo_eq_withMode, Source.target_withMode]
  | flag g value =>
    cases hf
    dsimp only
    split
    · exact hx
    · rwa [Source.target_withFlag]
  | target hart p =>
    simp only [SourceUpdate.effect?, Option.ite_none_right_eq_some] at hf
    obtain ⟨j, hj, rfl⟩ := Option.map_eq_some_iff.mp hf.2
    exact ⟨j, max p 1, hroute hj, Nat.le_max_right p 1, Nat.max_le.mpr ⟨hf.1.2, by decide⟩, rfl⟩
  | priority p =>
    simp only [SourceUpdate.effect?, Option.ite_none_right_eq_some] at hf
    obtain ⟨⟨-, hone, hp⟩, hf⟩ := hf
    cases hf
    exact ⟨_, p, hx.hart_lt hn, hone, hp, rfl⟩
  | hart hart =>
    obtain ⟨j, hj, rfl⟩ := Option.map_eq_some_iff.mp hf
    have hp := hx.priority_range hn
    rw [ha]
    exact ⟨j, _, hroute hj, Nat.le_max_right _ 1, Nat.max_le.mpr ⟨hp.2, by decide⟩, rfl⟩
  | msiTarget hart guest identity => simp [SourceUpdate.effect?, ha] at hf

theorem preserves_update (ha : a.delivery = .direct) (hidcs : a.idcs ≤ n) (s : Nat)
    (u : SourceUpdate) : (u.program a s).Preserves service (Routed n) := by
  intro d h
  have hrun := Aplic.run_update (s := s) h.fits (ha.trans h.direct.symm) h.reachable.consistent u
  have hafter : ((u.program a s).run service d).2 = a.afterUpdate d s u := congrArg Prod.snd hrun
  have hreachable := h.reachable.run (u.program a s)
  rw [hafter] at hreachable ⊢
  refine h.of_change hreachable (Aplic.shape_afterUpdate u)
    (by rw [Aplic.config_afterUpdate, h.direct]) fun j hj => ?_
  rw [Aplic.afterUpdate]
  cases hf : u.effect? a with
  | none => exact h.target j hj
  | some f =>
    simp only [Aplic.change]
    split
    · rw [source_modifySource]
      split
      · exact routes_of_effect? ha hidcs hf h.le_maxEmulatedIdcs (h.target j hj)
      · exact h.target j hj
    · exact h.target j hj

/-- Whoever uses a delivery structure does not route sources. -/
theorem preserves_atIdc {α : Type} {p : Program window α} (hi : i < maxEmulatedIdcs)
    (hp : p.Asks (AtIdc i)) : p.Preserves service (Routed n) := by
  refine hp.preserves fun access d haccess h => ?_
  obtain ⟨c, -, hc⟩ := haccess.exists_change hi d
  have hreachable : (service access d).2.Reachable := h.reachable.run (.ask access .done)
  rw [hc] at hreachable ⊢
  cases c with
  | registers j f => exact h.of_change hreachable rfl h.direct h.target
  | claimed j =>
    refine h.of_change hreachable rfl h.direct fun s hs => ?_
    rw [DeliveryChange.apply, source_modifySource]
    split
    · rw [Source.target_withFlag]
      exact h.target s hs
    · exact h.target s hs

/-- A program that uses the delivery structure of a hart, if it has one. -/
theorem preserves_idc {α : Type} {k : Option Idc → Program window α} (hidcs : a.idcs ≤ n)
    (hart : Nat) (hnone : ∀ d, ((k none).run service d).2 = d)
    (hsome : ∀ i, (k (some ⟨i⟩)).Asks (AtIdc i)) :
    (a.idc hart >>= k).Preserves service (Routed n) := by
  intro d h
  rw [run_bind, (a.finds_idc hart).run]
  cases hindex : a.idcIndex? hart with
  | none =>
    rw [Option.map_none, hnone]
    exact h
  | some i =>
    have hi : i < maxEmulatedIdcs :=
      Nat.lt_of_lt_of_le (Aplic.lt_of_idcIndex? hindex) (Nat.le_trans hidcs h.le_maxEmulatedIdcs)
    exact preserves_atIdc hi (hsome i) d h

theorem preserves_of_unchanged {α : Type} {p : Program window α}
    (hp : ∀ d : EmulatedDomain, d.Routed n → (p.run service d).2 = d) :
    p.Preserves service (Routed n) := by
  intro d h
  rwa [hp d h]

theorem preserves_query (s : Nat) (q : SourceQuery) :
    (q.program a s).Preserves service (Routed n) :=
  preserves_of_unchanged fun _ h =>
    congrArg Prod.snd (Aplic.run_query h.reachable.consistent h.fits q)

theorem preserves_read {r : Register} (hr : r.Published) (hidc : ∀ i x, r ≠ .idc i x) :
    r.read.Preserves service (Routed n) := by
  refine preserves_of_unchanged fun d h => ?_
  rw [run_read h.fits (.of_published hr hidc)]
  exact d.perform_read fun i _ => hidc i .claim

theorem preserves_inputLevel (s : Nat) : (a.inputLevel s).Preserves service (Routed n) := by
  rw [Aplic.inputLevel, Aplic.readBit]
  split
  next hs =>
    have hword := word_lt_bitWords (a.lt_sourceSlots_of_hasSource hs)
    exact (preserves_read (r := .clearPending (s / 32)) hword fun _ _ => by simp).bind
      fun _ _ h => h
  next => exact fun _ h => h

theorem preserves_configure (ha : a.delivery = .direct) (hidcs : a.idcs ≤ n) (s : Nat)
    (w : Wiring) : (a.configure s w).Preserves service (Routed n) := by
  have hroute : (a.route s w).Preserves service (Routed n) := by
    rw [Aplic.route, ha]
    exact preserves_update ha hidcs s (.target w.hart w.priority)
  exact (preserves_update ha hidcs s (.mode w.mode)).bind fun _ => hroute.bind fun _ =>
    preserves_update ha hidcs s (.flag .enabled true)

/-- No operation of a handle for direct delivery takes a source from where it is routed to anything
but another delivery structure of the domain, unless it writes the domain configuration. -/
theorem preserves_program (ha : a.delivery = .direct) (hidcs : a.idcs ≤ n) {op : AplicOperation}
    (hop : ∀ word, op ≠ .setDomainConfig word) :
    (op.program a).Preserves service (Routed n) := by
  have hconfig : Register.domainConfig.read.Preserves service (Routed n) :=
    preserves_read trivial fun _ _ => by simp
  cases op with
  | reset => exact preserves_reset ha
  | setUpHart h =>
    exact preserves_idc hidcs h (fun _ => rfl) fun i =>
      (asks_atIdc i .reset).bind fun _ => ⟨.report _, fun _ => trivial⟩
  | setDomainConfig word => exact absurd rfl (hop word)
  | domainConfig => exact hconfig
  | isForwarding => exact hconfig.bind fun _ _ h => h
  | setSourceConfig s word => exact preserves_update ha hidcs s (.config word)
  | sourceConfig s => exact preserves_query s .config
  | setMode s m => exact preserves_update ha hidcs s (.mode m)
  | mode s => exact preserves_query s .mode
  | enable s => exact preserves_update ha hidcs s (.flag .enabled true)
  | disable s => exact preserves_update ha hidcs s (.flag .enabled false)
  | isEnabled s => exact preserves_query s .enabled
  | setPending s => exact preserves_update ha hidcs s (.flag .pending true)
  | clearPending s => exact preserves_update ha hidcs s (.flag .pending false)
  | isPending s => exact preserves_query s .pending
  | inputLevel s => exact preserves_inputLevel s
  | target s => exact preserves_query s .target
  | setTarget s h p => exact preserves_update ha hidcs s (.target h p)
  | setPriority s p => exact preserves_update ha hidcs s (.priority p)
  | priority s => exact preserves_query s .priority
  | setHart s h => exact preserves_update ha hidcs s (.hart h)
  | hart s => exact preserves_query s .hart
  | setMsiTarget s h guest identity =>
    exact preserves_update ha hidcs s (.msiTarget h guest identity)
  | probe =>
    exact preserves_of_unchanged fun _ h =>
      congrArg Prod.snd (leads_probe h.reachable.consistent h.fits a).run
  | configure s w => exact preserves_configure ha hidcs s w
  | claim h =>
    exact preserves_idc hidcs h (fun _ => rfl) fun i => asks_atIdc i .claim
  | idcIndex h => exact preserves_of_unchanged fun _ _ => congrArg Prod.snd (a.finds_idcIndex h).run
  | idc h op =>
    exact preserves_idc hidcs h (fun _ => rfl) fun i => (asks_atIdc i op).bind fun _ => trivial

end EmulatedDomain

/-- A use of a domain: a source is raised, or a handle is asked for an operation. -/
inductive DomainUse where
  | inject (source : Nat)
  | operation (a : Aplic) (op : AplicOperation)

namespace DomainUse

/-- The domain after a use. -/
def apply (d : EmulatedDomain) : DomainUse → EmulatedDomain
  | inject s => d.inject s
  | operation a op => ((op.program a).run EmulatedDomain.service d).2

/-- A use for direct delivery over `n` delivery structures: the handle delivers directly, knows
no further structure, and does not write the domain configuration itself. -/
def Direct (n : Nat) : DomainUse → Prop
  | inject _ => True
  | operation a op =>
    a.delivery = .direct ∧ a.idcs ≤ n ∧ ∀ word, op ≠ .setDomainConfig word

end DomainUse

namespace EmulatedDomain

variable {d : EmulatedDomain} {n : Nat}

theorem Routed.inject (h : d.Routed n) (s : Nat) : (d.inject s).Routed n := by
  refine h.of_change (h.reachable.step (.inject s)) (d.shape_setFlag .pending true s)
    (by rw [EmulatedDomain.inject, config_setFlag, h.direct]) fun j hj => ?_
  rw [EmulatedDomain.inject, source_setFlag]
  split
  · rw [Source.target_withFlag]
    exact h.target j hj
  · exact h.target j hj

theorem Routed.apply (h : d.Routed n) {use : DomainUse} (huse : use.Direct n) :
    (use.apply d).Routed n := by
  cases use with
  | inject s => exact h.inject s
  | operation a op => exact preserves_program huse.1 huse.2.1 huse.2.2 d h

/-- However a domain is used for direct delivery, its sources stay routed. -/
theorem Routed.uses (h : d.Routed n) {uses : List DomainUse} (huses : ∀ use ∈ uses, use.Direct n) :
    (uses.foldl DomainUse.apply d).Routed n := by
  induction uses generalizing d with
  | nil => exact h
  | cons use rest ih =>
    exact ih (h.apply (huses use List.mem_cons_self)) fun later hlater =>
      huses later (List.mem_cons_of_mem use hlater)

/-- A reset by a handle that knows all sources routes all of them. -/
theorem routed_reset (hd : d.Reachable) (hfits : d.address + d.size ≤ addressSpace) {a : Aplic}
    (ha : a.delivery = .direct) (hsources : d.sourceCount ≤ a.sources) :
    (a.reset.run service d).2.Routed d.idcCount :=
  routed_of_resets (hd.run a.reset) hfits ha (resets_run hd.consistent hfits) fun s hs =>
    Or.inl (Nat.lt_of_lt_of_le ((d.hasSource_iff s).mp hs).2 hsources)

end EmulatedDomain

end AdvancedInterrupts
