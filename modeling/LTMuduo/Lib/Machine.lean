import Mathlib.Logic.Relation
import Mathlib.Data.List.Basic

/-!
# Guarded step machines

A machine is a predicate on initial states and a partial step function: `step s a` is the state after action `a`, or `none` when `a` is not enabled in `s`. The step function is executable, so a concrete run is replayed by evaluation, and the same function is what the induction rules below range over.

A claim about the runs of a program is a claim about `ReachableVia`: the states reached by runs all of whose steps meet a guard. `Reachable` is the case of no guard at all.
-/

/-- A predicate on initial states and a partial step function. -/
structure Machine (σ α : Type*) where
  init : σ → Prop
  step : σ → α → Option σ

namespace Machine

variable {σ α τ β : Type*} (m : Machine σ α)

/-- Replays a list of actions. -/
def run (s : σ) : List α → Option σ
  | [] => some s
  | a :: as => (m.step s a).bind fun s' => run s' as

@[simp] theorem run_nil (s : σ) : m.run s [] = some s := rfl

theorem run_cons (s : σ) (a : α) (as : List α) :
    m.run s (a :: as) = (m.step s a).bind fun s' => m.run s' as := rfl

theorem run_append (s : σ) (as bs : List α) :
    m.run s (as ++ bs) = (m.run s as).bind fun s' => m.run s' bs := by
  induction as generalizing s with
  | nil => rfl
  | cons a as ih =>
    rw [List.cons_append, run_cons, run_cons]
    cases m.step s a with
    | none => rfl
    | some s' => exact ih s'

variable {m} in
theorem run_concat {s s' s'' : σ} {as : List α} {a : α} (hrun : m.run s as = some s')
    (hstep : m.step s' a = some s'') : m.run s (as ++ [a]) = some s'' := by
  rw [run_append, hrun, Option.bind_some, run_cons, hstep]
  rfl

/-- The states reached by runs all of whose steps meet the guard. -/
inductive ReachableVia (guard : σ → α → Prop) : σ → Prop
  | init {s : σ} (hinit : m.init s) : ReachableVia guard s
  | step {s s' : σ} {a : α} (hreach : ReachableVia guard s) (hguard : guard s a)
      (hstep : m.step s a = some s') : ReachableVia guard s'

/-- The states reached by any run. -/
abbrev Reachable : σ → Prop := m.ReachableVia fun _ _ => True

variable {m}

theorem ReachableVia.reachable {guard : σ → α → Prop} {s : σ} (h : m.ReachableVia guard s) :
    m.Reachable s := by
  induction h with
  | init hinit => exact .init hinit
  | step _ _ hstep ih => exact .step ih trivial hstep

/-- The invariant rule. A step may use that the state it leaves is reachable and that the step meets the guard. -/
theorem ReachableVia.invariant {guard : σ → α → Prop} {P : σ → Prop}
    (hinit : ∀ s, m.init s → P s)
    (hstep : ∀ s a s', m.ReachableVia guard s → guard s a → m.step s a = some s' → P s → P s')
    {s : σ} (h : m.ReachableVia guard s) : P s := by
  induction h with
  | init h₀ => exact hinit _ h₀
  | step hreach hguard hs ih => exact hstep _ _ _ hreach hguard hs ih

/-- The machine whose steps have to meet a guard; its runs are replayed by evaluation. -/
def restrict (m : Machine σ α) (guard : σ → α → Prop) [∀ s a, Decidable (guard s a)] :
    Machine σ α where
  init := m.init
  step s a := if guard s a then m.step s a else none

theorem restrict_step (guard : σ → α → Prop) [∀ s a, Decidable (guard s a)] (s : σ) (a : α) :
    (m.restrict guard).step s a = if guard s a then m.step s a else none := rfl

theorem run_of_restrict {guard : σ → α → Prop} [∀ s a, Decidable (guard s a)] {s s' : σ}
    {as : List α} (h : (m.restrict guard).run s as = some s') : m.run s as = some s' := by
  induction as generalizing s with
  | nil => exact h
  | cons a as ih =>
    rw [run_cons] at h ⊢
    obtain ⟨t, hstep, hrest⟩ := Option.bind_eq_some_iff.mp h
    obtain ⟨_, hstep⟩ := Option.ite_none_right_eq_some.mp hstep
    rw [hstep]
    exact ih hrest

theorem Reachable.run {s s' : σ} {as : List α} (h : m.Reachable s)
    (hrun : m.run s as = some s') : m.Reachable s' := by
  induction as generalizing s with
  | nil =>
    cases hrun
    exact h
  | cons a as ih =>
    rw [run_cons] at hrun
    obtain ⟨t, hstep, hrest⟩ := Option.bind_eq_some_iff.mp hrun
    exact ih (.step h trivial hstep) hrest

theorem ReachableVia.run {guard : σ → α → Prop} [∀ s a, Decidable (guard s a)] {s s' : σ}
    {as : List α} (h : m.ReachableVia guard s) (hrun : (m.restrict guard).run s as = some s') :
    m.ReachableVia guard s' := by
  induction as generalizing s with
  | nil =>
    cases hrun
    exact h
  | cons a as ih =>
    rw [run_cons] at hrun
    obtain ⟨t, hstep, hrest⟩ := Option.bind_eq_some_iff.mp hrun
    obtain ⟨hguard, hstep⟩ := Option.ite_none_right_eq_some.mp hstep
    exact ih (.step h hguard hstep) hrest

theorem ReachableVia.of_restrict {guard : σ → α → Prop} [∀ s a, Decidable (guard s a)] {s : σ}
    (h : (m.restrict guard).Reachable s) : m.ReachableVia guard s := by
  induction h with
  | init hinit => exact .init hinit
  | step _ _ hstep ih =>
    obtain ⟨hguard, hs⟩ := Option.ite_none_right_eq_some.mp hstep
    exact .step ih hguard hs

/-- The run lemma for a property that starts to hold somewhere in the middle, or that only some of the actions preserve. -/
theorem run_preserves {P : σ → Prop} {s s' : σ} {as : List α}
    (hstep : ∀ s a s', a ∈ as → P s → m.step s a = some s' → P s') (hs : P s)
    (hrun : m.run s as = some s') : P s' := by
  induction as generalizing s with
  | nil =>
    cases hrun
    exact hs
  | cons a as ih =>
    rw [run_cons] at hrun
    obtain ⟨t, ht, hrest⟩ := Option.bind_eq_some_iff.mp hrun
    have hthere := hstep _ _ _ List.mem_cons_self hs ht
    exact ih (fun s b s' hb => hstep s b s' (List.mem_cons_of_mem _ hb)) hthere hrest

/-- The rule for a condition that is exact: a property holds at the end of a run if and only if all its steps meet the guard, when it is kept by the steps that meet the guard, lost by those that do not, and never comes back. -/
theorem run_restrict_iff {guard : σ → α → Prop} [∀ s a, Decidable (guard s a)] {P I : σ → Prop}
    (hinv : ∀ s a s', I s → m.step s a = some s' → I s')
    (hgood : ∀ s a s', I s → P s → guard s a → m.step s a = some s' → P s')
    (hbad : ∀ s a s', I s → ¬ guard s a → m.step s a = some s' → ¬ P s')
    (hback : ∀ s a s', I s → m.step s a = some s' → P s' → P s)
    {s s' : σ} {as : List α} (hs : I s) (hP : P s) (hrun : m.run s as = some s') :
    P s' ↔ (m.restrict guard).run s as = some s' := by
  induction as generalizing s with
  | nil =>
    cases hrun
    exact iff_of_true hP rfl
  | cons a as ih =>
    rw [run_cons] at hrun
    obtain ⟨t, hstep, hrest⟩ := Option.bind_eq_some_iff.mp hrun
    have ht : I t := hinv s a t hs hstep
    rw [run_cons, restrict_step]
    by_cases hguard : guard s a
    · rw [if_pos hguard, hstep]
      exact ih ht (hgood s a t hs hP hguard hstep) hrest
    · rw [if_neg hguard]
      refine iff_of_false ?_ (by simp)
      have hlost : I s' ∧ ¬ P s' := by
        refine run_preserves (P := fun u => I u ∧ ¬ P u) ?_ ⟨ht, hbad s a t hs hguard hstep⟩ hrest
        intro u b u' _ hu hstep
        exact ⟨hinv u b u' hu.1 hstep, fun h => hu.2 (hback u b u' hu.1 hstep h)⟩
      exact hlost.2

/-- Every step of a run has the property. -/
def EveryStep (Q : σ → α → σ → Prop) (s : σ) : List α → Prop
  | [] => True
  | a :: as => ∀ t, m.step s a = some t → Q s a t ∧ EveryStep Q t as

theorem everyStep_cons_of_some {Q : σ → α → σ → Prop} {s t : σ} {a : α} {as : List α}
    (h : m.step s a = some t) : m.EveryStep Q s (a :: as) ↔ Q s a t ∧ m.EveryStep Q t as := by
  constructor
  · exact fun hall => hall t h
  · intro hall u hu
    rw [h] at hu
    cases hu
    exact hall

instance decidableEveryStep {Q : σ → α → σ → Prop} [∀ s a s', Decidable (Q s a s')] :
    (s : σ) → (as : List α) → Decidable (m.EveryStep Q s as)
  | _, [] => .isTrue trivial
  | s, a :: as =>
    match h : m.step s a with
    | none => .isTrue fun _ ht => nomatch h.symm.trans ht
    | some t =>
      have := decidableEveryStep (Q := Q) t as
      decidable_of_iff _ (everyStep_cons_of_some h).symm

theorem EveryStep.step {Q : σ → α → σ → Prop} {s t t' : σ} {a : α} {pre post : List α}
    (h : m.EveryStep Q s (pre ++ a :: post)) (hpre : m.run s pre = some t)
    (hstep : m.step t a = some t') : Q t a t' := by
  induction pre generalizing s with
  | nil =>
    cases hpre
    exact (h t' hstep).1
  | cons b pre ih =>
    rw [run_cons] at hpre
    obtain ⟨u, hu, hrest⟩ := Option.bind_eq_some_iff.mp hpre
    exact ih (h u hu).2 hrest

theorem everyStep_of_invariant {Q : σ → α → σ → Prop} {I : σ → Prop} {s : σ} {as : List α}
    (hstep : ∀ s a s', I s → m.step s a = some s' → Q s a s' ∧ I s') (hs : I s) :
    m.EveryStep Q s as := by
  induction as generalizing s with
  | nil => trivial
  | cons a as ih =>
    intro t ht
    obtain ⟨hQ, hI⟩ := hstep s a t hs ht
    exact ⟨hQ, ih hI⟩

theorem EveryStep.imp {Q Q' : σ → α → σ → Prop} {I : σ → Prop} {s : σ} {as : List α}
    (hstep : ∀ s a s', a ∈ as → I s → m.step s a = some s' → Q s a s' → Q' s a s' ∧ I s')
    (hs : I s) (h : m.EveryStep Q s as) : m.EveryStep Q' s as := by
  induction as generalizing s with
  | nil => trivial
  | cons a as ih =>
    intro t ht
    obtain ⟨hQ, hrest⟩ := h t ht
    obtain ⟨hQ', hI⟩ := hstep s a t List.mem_cons_self hs ht hQ
    exact ⟨hQ', ih (fun s b s' hb => hstep s b s' (List.mem_cons_of_mem _ hb)) hI hrest⟩

/-- The rule for an exact condition on the steps. While it is met, the invariant that makes it exact holds. -/
theorem everyStep_iff_restrict {guard : σ → α → Prop} [∀ s a, Decidable (guard s a)]
    {Q : σ → α → σ → Prop} {I : σ → Prop}
    (hexact : ∀ s a s', I s → m.step s a = some s' → (Q s a s' ↔ guard s a))
    (hkeep : ∀ s a s', I s → guard s a → m.step s a = some s' → I s')
    {s s' : σ} {as : List α} (hs : I s) (hrun : m.run s as = some s') :
    m.EveryStep Q s as ↔ (m.restrict guard).run s as = some s' := by
  induction as generalizing s with
  | nil => exact iff_of_true trivial hrun
  | cons a as ih =>
    rw [run_cons] at hrun
    obtain ⟨t, hstep, hrest⟩ := Option.bind_eq_some_iff.mp hrun
    rw [run_cons, restrict_step]
    by_cases hguard : guard s a
    · rw [if_pos hguard, hstep, Option.bind_some, ← ih (hkeep s a t hs hguard hstep) hrest]
      constructor
      · exact fun h => (h t hstep).2
      · intro h u hu
        rw [hstep] at hu
        cases hu
        exact ⟨(hexact s a t hs hstep).mpr hguard, h⟩
    · rw [if_neg hguard]
      refine iff_of_false ?_ (by simp)
      exact fun h => hguard ((hexact s a t hs hstep).mp (h t hstep).1)

/-- The rule for a condition that is enough. -/
theorem everyStep_of_restrict {guard : σ → α → Prop} [∀ s a, Decidable (guard s a)]
    {Q : σ → α → σ → Prop} {I : σ → Prop}
    (hstep : ∀ s a s', I s → guard s a → m.step s a = some s' → Q s a s' ∧ I s')
    {s s' : σ} {as : List α} (hs : I s) (hrun : (m.restrict guard).run s as = some s') :
    m.EveryStep Q s as := by
  induction as generalizing s with
  | nil => trivial
  | cons a as ih =>
    rw [run_cons, restrict_step] at hrun
    obtain ⟨t, ht, hrest⟩ := Option.bind_eq_some_iff.mp hrun
    obtain ⟨hguard, ht⟩ := Option.ite_none_right_eq_some.mp ht
    intro u hu
    rw [ht] at hu
    cases hu
    obtain ⟨hQ, hI⟩ := hstep s a t hs hguard ht
    exact ⟨hQ, ih hI hrest⟩

/-- The rule for a condition that is necessary: a step that does not meet it loses something that stays lost for as long as the steps have the property, and nothing is lost at the end. -/
theorem restrict_of_everyStep {guard : σ → α → Prop} [∀ s a, Decidable (guard s a)]
    {Q : σ → α → σ → Prop} {I L : σ → Prop}
    (hinv : ∀ s a s', I s → m.step s a = some s' → I s')
    (hbad : ∀ s a s', I s → ¬ guard s a → m.step s a = some s' → L s')
    (hlost : ∀ s a s', I s → L s → Q s a s' → m.step s a = some s' → L s')
    {s s' : σ} {as : List α} (hs : I s) (hend : ¬ L s') (hrun : m.run s as = some s')
    (hall : m.EveryStep Q s as) : (m.restrict guard).run s as = some s' := by
  have hfinal {u : σ} {bs : List α} (hu : I u) (hL : L u) (hrun : m.run u bs = some s')
      (hall : m.EveryStep Q u bs) : L s' := by
    induction bs generalizing u with
    | nil =>
      cases hrun
      exact hL
    | cons b bs ih =>
      rw [run_cons] at hrun
      obtain ⟨v, hv, hrest⟩ := Option.bind_eq_some_iff.mp hrun
      obtain ⟨hQ, hall⟩ := hall v hv
      exact ih (hinv u b v hu hv) (hlost u b v hu hL hQ hv) hrest hall
  induction as generalizing s with
  | nil => exact hrun
  | cons a as ih =>
    rw [run_cons] at hrun
    obtain ⟨t, ht, hrest⟩ := Option.bind_eq_some_iff.mp hrun
    obtain ⟨_, hall⟩ := hall t ht
    rw [run_cons, restrict_step]
    by_cases hguard : guard s a
    · rw [if_pos hguard, ht]
      exact ih (hinv s a t hs ht) hrest hall
    · exact absurd (hfinal (hinv s a t hs ht) (hbad s a t hs hguard ht) hrest hall) hend

/-- What the steps of a run contribute, in order. -/
def collect (f : σ → α → List β) (s : σ) : List α → List β
  | [] => []
  | a :: as => f s a ++ (m.step s a).elim [] fun s' => collect f s' as

@[simp] theorem collect_nil (f : σ → α → List β) (s : σ) : m.collect f s [] = [] := rfl

theorem collect_cons (f : σ → α → List β) {s s' : σ} {a : α} (hstep : m.step s a = some s')
    (as : List α) : m.collect f s (a :: as) = f s a ++ m.collect f s' as := by
  rw [collect, hstep]
  rfl

theorem collect_actions (f : α → List β) {s s' : σ} {as : List α} (hrun : m.run s as = some s') :
    m.collect (fun _ a => f a) s as = as.flatMap f := by
  induction as generalizing s with
  | nil => rfl
  | cons a as ih =>
    rw [run_cons] at hrun
    obtain ⟨t, ht, hrest⟩ := Option.bind_eq_some_iff.mp hrun
    rw [collect_cons _ ht, ih hrest, List.flatMap_cons]

/-- The accounting rule: what each step adds to a ledger is what the run has collected. -/
theorem run_collect (ledger : σ → List β) {P : σ → Prop} {f : σ → α → List β}
    (hstep : ∀ s a s', P s → m.step s a = some s' → P s' ∧ ledger s' = ledger s ++ f s a)
    {s s' : σ} {as : List α} (hs : P s) (hrun : m.run s as = some s') :
    ledger s' = ledger s ++ m.collect f s as := by
  induction as generalizing s with
  | nil =>
    cases hrun
    rw [collect_nil, List.append_nil]
  | cons a as ih =>
    rw [run_cons] at hrun
    obtain ⟨t, ht, hrest⟩ := Option.bind_eq_some_iff.mp hrun
    obtain ⟨hP, hledger⟩ := hstep s a t hs ht
    rw [collect_cons f ht, ih hP hrest, hledger, List.append_assoc]

/-- The account of a ledger agrees after every part of a run exactly when every step agrees with it. -/
theorem everyStep_collect_iff (ledger : σ → List β) {f : σ → α → List β} {s : σ} {as : List α} :
    (∀ pre t, pre <+: as → m.run s pre = some t → ledger t = ledger s ++ m.collect f s pre) ↔
      m.EveryStep (fun t a t' => ledger t' = ledger t ++ f t a) s as := by
  induction as generalizing s with
  | nil =>
    refine iff_of_true ?_ trivial
    intro pre t hpre hrun
    rw [List.prefix_nil.mp hpre] at hrun ⊢
    cases hrun
    rw [collect_nil, List.append_nil]
  | cons a as ih =>
    constructor
    · intro hall t ht
      have hone := hall [a] t (by simp) (by rw [run_cons, ht]; rfl)
      rw [collect_cons f ht, collect_nil, List.append_nil] at hone
      refine ⟨hone, ih.mp ?_⟩
      intro pre u hpre hrun
      have hlong := hall (a :: pre) u (List.cons_prefix_cons.mpr ⟨rfl, hpre⟩)
        (by rw [run_cons, ht]; exact hrun)
      rw [hlong, collect_cons f ht, ← List.append_assoc, hone]
    · intro hall pre u hpre hrun
      cases pre with
      | nil =>
        cases hrun
        rw [collect_nil, List.append_nil]
      | cons b pre =>
        obtain ⟨rfl, htail⟩ := List.cons_prefix_cons.mp hpre
        rw [run_cons] at hrun
        obtain ⟨t, ht, hrest⟩ := Option.bind_eq_some_iff.mp hrun
        obtain ⟨hone, hall⟩ := hall t ht
        rw [ih.mpr hall pre u htail hrest, hone, collect_cons f ht, List.append_assoc]

theorem collect_append (f : σ → α → List β) {s s' : σ} {as : List α} (hrun : m.run s as = some s')
    (bs : List α) : m.collect f s (as ++ bs) = m.collect f s as ++ m.collect f s' bs := by
  induction as generalizing s with
  | nil =>
    cases hrun
    rfl
  | cons a as ih =>
    rw [run_cons] at hrun
    obtain ⟨t, ht, hrest⟩ := Option.bind_eq_some_iff.mp hrun
    rw [List.cons_append, collect_cons f ht, collect_cons f ht, ih hrest, List.append_assoc]

/-- The rule for a potential: what a run collects, its steps have paid for. -/
theorem EveryStep.collect_length_le {Q : σ → α → σ → Prop} {I : σ → Prop} (potential : σ → Nat)
    {f : σ → α → List β}
    (hstep : ∀ s a s', I s → Q s a s' → m.step s a = some s' →
      I s' ∧ potential s + (f s a).length ≤ potential s')
    {s s' : σ} {as : List α} (hs : I s) (hall : m.EveryStep Q s as)
    (hrun : m.run s as = some s') :
    I s' ∧ potential s + (m.collect f s as).length ≤ potential s' := by
  induction as generalizing s with
  | nil =>
    cases hrun
    exact ⟨hs, Nat.le_refl _⟩
  | cons a as ih =>
    rw [run_cons] at hrun
    obtain ⟨t, ht, hrest⟩ := Option.bind_eq_some_iff.mp hrun
    obtain ⟨hQ, hall⟩ := hall t ht
    obtain ⟨hI, hpays⟩ := hstep s a t hs hQ ht
    obtain ⟨hI', hrestPays⟩ := ih hI hall hrest
    rw [collect_cons f ht, List.length_append]
    exact ⟨hI', by omega⟩

/-- The invariant rule for what depends on the actions so far. -/
theorem run_induction {P : List α → σ → Prop} {s s' : σ} {as : List α} (hnil : P [] s)
    (hsnoc : ∀ as t a t', m.run s as = some t → P as t → m.step t a = some t' → P (as ++ [a]) t')
    (hrun : m.run s as = some s') : P as s' := by
  have hfrom {bs pre : List α} {t : σ} (hpre : m.run s pre = some t) (hP : P pre t)
      (hrest : m.run t bs = some s') : P (pre ++ bs) s' := by
    induction bs generalizing pre t with
    | nil =>
      cases hrest
      rwa [List.append_nil]
    | cons b bs ih =>
      rw [run_cons] at hrest
      obtain ⟨u, hu, hrest⟩ := Option.bind_eq_some_iff.mp hrest
      rw [← List.singleton_append, ← List.append_assoc]
      exact ih (run_concat hpre hu) (hsnoc pre t b u hpre hP hu) hrest
  exact hfrom rfl hnil hrun

/-- A property that is false at the start of a run and true at its end becomes true at one of its steps. -/
theorem run_crossing (P : σ → Prop) {s s' : σ} {as : List α} (hs : ¬ P s) (hs' : P s')
    (hrun : m.run s as = some s') :
    ∃ pre a post t t', as = pre ++ a :: post ∧ m.run s pre = some t ∧ m.step t a = some t' ∧
      ¬ P t ∧ P t' := by
  induction as generalizing s with
  | nil =>
    cases hrun
    exact absurd hs' hs
  | cons a as ih =>
    rw [run_cons] at hrun
    obtain ⟨t, ht, hrest⟩ := Option.bind_eq_some_iff.mp hrun
    by_cases hP : P t
    · exact ⟨[], a, as, s, t, rfl, rfl, ht, hs, hP⟩
    · obtain ⟨pre, b, post, u, u', rfl, hpre, hu, hbefore, hafter⟩ := ih hP hrest
      refine ⟨a :: pre, b, post, u, u', rfl, ?_, hu, hbefore, hafter⟩
      rw [run_cons, ht]
      exact hpre

/-- A functional refinement: every concrete step is a run of the abstract machine between the images of its end points. -/
structure Refinement (concrete : Machine σ α) (abstract : Machine τ β) where
  abs : σ → τ
  acts : σ → α → List β
  init : ∀ s, concrete.init s → abstract.init (abs s)
  step : ∀ s a s', concrete.Reachable s → concrete.step s a = some s' →
    abstract.run (abs s) (acts s a) = some (abs s')

/-- What holds in every reachable state of the abstract machine holds of the images of the concrete ones. -/
theorem Refinement.reachable {concrete : Machine σ α} {abstract : Machine τ β}
    (r : Refinement concrete abstract) {s : σ} (h : concrete.Reachable s) :
    abstract.Reachable (r.abs s) := by
  induction h with
  | init hinit => exact .init (r.init _ hinit)
  | step hreach _ hstep ih => exact Reachable.run ih (r.step _ _ _ hreach hstep)

/-- Where every concrete action is one abstract action, the runs correspond action by action. -/
theorem Refinement.run_map {concrete : Machine σ α} {abstract : Machine τ β} {f : α → β}
    (r : Refinement concrete abstract) (hacts : ∀ s a, r.acts s a = [f a])
    {s s' : σ} {as : List α} (h : concrete.Reachable s) (hrun : concrete.run s as = some s') :
    abstract.run (r.abs s) (as.map f) = some (r.abs s') := by
  induction as generalizing s with
  | nil =>
    cases hrun
    rfl
  | cons a as ih =>
    rw [run_cons] at hrun
    obtain ⟨t, hstep, hrest⟩ := Option.bind_eq_some_iff.mp hrun
    have hhead := r.step s a t h hstep
    rw [hacts] at hhead
    rw [List.map_cons, ← List.singleton_append, run_append, hhead]
    exact ih (.step h trivial hstep) hrest

end Machine
