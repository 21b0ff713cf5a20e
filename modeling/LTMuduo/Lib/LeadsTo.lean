import LTMuduo.Lib.Machine
import Mathlib.Order.WellFounded

/-!
# What a machine comes to

A trace is a run that goes on for ever; the machine may stand still in it. `LeadsTo P Q` says that whenever `P` holds, `Q` holds then or later. It is proved from fairness: of actions that are enabled again and again, or from some time on, one is taken. The rules ask for facts about single steps, so a proof of progress is a rank and a case analysis.
-/

namespace Machine

variable {σ α : Type*}

/-- A run without end. Where `act` is `none` nothing happens. -/
structure Trace (m : Machine σ α) where
  state : Nat → σ
  act : Nat → Option α
  init : m.init (state 0)
  next : ∀ n, (act n).elim (some (state n)) (m.step (state n)) = some (state (n + 1))

/-- One of the actions can be taken. -/
def Enabled (m : Machine σ α) (A : α → Prop) (s : σ) : Prop := ∃ a s', A a ∧ m.step s a = some s'

namespace Trace

variable {m : Machine σ α} (r : m.Trace) {A : α → Prop} {P Q R : σ → Prop}

theorem next_cases (n : Nat) : r.act n = none ∧ r.state (n + 1) = r.state n ∨
    ∃ a, r.act n = some a ∧ m.step (r.state n) a = some (r.state (n + 1)) := by
  have hnext := r.next n
  cases hact : r.act n with
  | none =>
    rw [hact] at hnext
    exact Or.inl ⟨rfl, (Option.some.inj hnext).symm⟩
  | some a =>
    rw [hact] at hnext
    exact Or.inr ⟨a, rfl, hnext⟩

theorem step_of_act {n : Nat} {a : α} (h : r.act n = some a) :
    m.step (r.state n) a = some (r.state (n + 1)) := by
  have hnext := r.next n
  rwa [h] at hnext

theorem reachable (n : Nat) : m.Reachable (r.state n) := by
  induction n with
  | zero => exact .init r.init
  | succ n ih =>
    rcases r.next_cases n with ⟨_, hsame⟩ | ⟨a, _, hstep⟩
    · rwa [hsame]
    · exact .step ih trivial hstep

theorem invariant {I : σ → Prop} (hstep : ∀ s a s', I s → m.step s a = some s' → I s') {n : Nat}
    (hn : I (r.state n)) : ∀ k, n ≤ k → I (r.state k) := by
  intro k hk
  induction k, hk using Nat.le_induction with
  | base => exact hn
  | succ k _ ih =>
    rcases r.next_cases k with ⟨_, hsame⟩ | ⟨a, _, hs⟩
    · rwa [hsame]
    · exact hstep _ a _ ih hs

/-- Whenever `P` holds, `Q` holds then or later. -/
def LeadsTo (P Q : σ → Prop) : Prop := ∀ n, P (r.state n) → ∃ k, n ≤ k ∧ Q (r.state k)

/-- One of the actions is taken at time `n`. -/
def Takes (A : α → Prop) (n : Nat) : Prop := ∃ a, r.act n = some a ∧ A a

/-- The actions are not enabled for ever without one of them being taken. -/
def WeakFair (A : α → Prop) : Prop :=
  ∀ n, (∀ k, n ≤ k → m.Enabled A (r.state k)) → ∃ k, n ≤ k ∧ r.Takes A k

/-- The actions are not enabled again and again without one of them being taken. -/
def StrongFair (A : α → Prop) : Prop :=
  ∀ n, (∀ i, n ≤ i → ∃ k, i ≤ k ∧ m.Enabled A (r.state k)) → ∃ k, n ≤ k ∧ r.Takes A k

/-- One of the actions is taken again and again. -/
def Recurs (A : α → Prop) : Prop := ∀ n, ∃ k, n ≤ k ∧ r.Takes A k

variable {r}

/-- As long as none of the actions is taken, the steps of the others keep what they keep. -/
theorem keeps_while_not_taken {I : σ → Prop}
    (hstep : ∀ s a s', I s → ¬ A a → m.step s a = some s' → I s') {n : Nat} (hn : I (r.state n))
    (hnot : ∀ k, n ≤ k → ¬ r.Takes A k) : ∀ k, n ≤ k → I (r.state k) := by
  intro k hk
  induction k, hk using Nat.le_induction with
  | base => exact hn
  | succ k hk ih =>
    rcases r.next_cases k with ⟨_, hsame⟩ | ⟨a, ha, hs⟩
    · rwa [hsame]
    · exact hstep _ a _ ih (fun hA => hnot k hk ⟨a, ha, hA⟩) hs

theorem StrongFair.weakFair (h : r.StrongFair A) : r.WeakFair A :=
  fun n hen => h n fun i hi => ⟨i, Nat.le_refl i, hen i hi⟩

/-! ### The calculus -/

theorem LeadsTo.of_imp (h : ∀ s, P s → Q s) : r.LeadsTo P Q :=
  fun n hP => ⟨n, Nat.le_refl n, h _ hP⟩

theorem LeadsTo.trans (hPQ : r.LeadsTo P Q) (hQR : r.LeadsTo Q R) : r.LeadsTo P R := by
  intro n hP
  obtain ⟨k, hk, hQ⟩ := hPQ n hP
  obtain ⟨l, hl, hR⟩ := hQR k hQ
  exact ⟨l, Nat.le_trans hk hl, hR⟩

theorem LeadsTo.or {P' : σ → Prop} (h : r.LeadsTo P Q) (h' : r.LeadsTo P' Q) :
    r.LeadsTo (fun s => P s ∨ P' s) Q := by
  intro n hn
  rcases hn with hP | hP'
  · exact h n hP
  · exact h' n hP'

theorem LeadsTo.exists {ι : Type*} {P : ι → σ → Prop} (h : ∀ i, r.LeadsTo (P i) Q) :
    r.LeadsTo (fun s => ∃ i, P i s) Q := by
  intro n hn
  obtain ⟨i, hP⟩ := hn
  exact h i n hP

/-! ### The rules of fairness -/

/-- What every step keeps or trades for `Q` is kept up to the first `Q`. -/
theorem keeps_until {B : σ → σ → Prop} (hrefl : ∀ s, B s s)
    (htrans : ∀ s t u, B s t → B t u → B s u)
    (hstep : ∀ s a s', m.Reachable s → P s → m.step s a = some s' → Q s' ∨ P s' ∧ B s s') {n : Nat}
    (hP : P (r.state n)) (hnever : ∀ k, n ≤ k → ¬ Q (r.state k)) :
    ∀ k, n ≤ k → P (r.state k) ∧ B (r.state n) (r.state k) := by
  intro k hk
  induction k, hk using Nat.le_induction with
  | base => exact ⟨hP, hrefl _⟩
  | succ k hk ih =>
    obtain ⟨hPk, hB⟩ := ih
    rcases r.next_cases k with ⟨_, hsame⟩ | ⟨a, _, hs⟩
    · rw [hsame]
      exact ⟨hPk, hB⟩
    · rcases hstep _ a _ (r.reachable k) hPk hs with hQ | ⟨hP', hB'⟩
      · exact absurd hQ (hnever (k + 1) (Nat.le_succ_of_le hk))
      · exact ⟨hP', htrans _ _ _ hB hB'⟩

/-- Progress by one action that stays enabled. -/
theorem leadsTo_of_weakFair (hfair : r.WeakFair A)
    (hstep : ∀ s a s', m.Reachable s → P s → m.step s a = some s' → Q s' ∨ P s')
    (hact : ∀ s a s', m.Reachable s → P s → A a → m.step s a = some s' → Q s')
    (henabled : ∀ s, m.Reachable s → P s → m.Enabled A s) : r.LeadsTo P Q := by
  intro n hP
  by_contra hnone
  have hnever : ∀ k, n ≤ k → ¬ Q (r.state k) := fun k hk hQ => hnone ⟨k, hk, hQ⟩
  have hstays : ∀ k, n ≤ k → P (r.state k) := by
    intro k hk
    refine (keeps_until (B := fun _ _ => True) (fun _ => trivial) (fun _ _ _ _ _ => trivial) ?_ hP
      hnever k hk).1
    exact fun s a s' hreach hs h => (hstep s a s' hreach hs h).imp_right (⟨·, trivial⟩)
  obtain ⟨k, hk, a, ha, hA⟩ := hfair n fun k hk => henabled _ (r.reachable k) (hstays k hk)
  have hdone := hact _ a _ (r.reachable k) (hstays k hk) hA (r.step_of_act ha)
  exact hnever (k + 1) (Nat.le_succ_of_le hk) hdone

/-- Progress by a rank: no step raises it, the actions lower it, and one of them is taken as long as `P` holds. -/
theorem leadsTo_of_taken {β : Type*} [Preorder β] [WellFoundedLT β] (rank : σ → β)
    (htaken : ∀ n, (∀ k, n ≤ k → P (r.state k)) → ∃ k, n ≤ k ∧ r.Takes A k)
    (hstep : ∀ s a s', m.Reachable s → P s → m.step s a = some s' →
      Q s' ∨ P s' ∧ rank s' ≤ rank s ∧ (A a → rank s' < rank s)) : r.LeadsTo P Q := by
  have hdescent : ∀ (b : β) (n : Nat), rank (r.state n) = b → P (r.state n) →
      (∀ k, n ≤ k → ¬ Q (r.state k)) → False := by
    intro b
    -- induction on the rank at the time `n`
    induction b using WellFoundedLT.induction with
    | ind b ih =>
      intro n hrank hP hnever
      have hstays : ∀ k, n ≤ k → P (r.state k) ∧ rank (r.state k) ≤ rank (r.state n) := by
        refine keeps_until (B := fun s t => rank t ≤ rank s) (fun s => le_refl (rank s))
          (fun _ _ _ hst htu => le_trans htu hst) ?_ hP hnever
        intro s a s' hreach hs h
        exact (hstep s a s' hreach hs h).imp_right fun h => ⟨h.1, h.2.1⟩
      obtain ⟨k, hk, a, ha, hA⟩ := htaken n fun k hk => (hstays k hk).1
      obtain ⟨hPk, hle⟩ := hstays k hk
      have hlater : ∀ l, k + 1 ≤ l → ¬ Q (r.state l) := fun l hl => hnever l (by omega)
      rcases hstep _ a _ (r.reachable k) hPk (r.step_of_act ha) with hQ | ⟨hP', _, hless⟩
      · exact hlater (k + 1) (Nat.le_refl _) hQ
      · have hb : rank (r.state (k + 1)) < b := hrank ▸ lt_of_lt_of_le (hless hA) hle
        exact ih _ hb (k + 1) rfl hP' hlater
  intro n hP
  by_contra hnone
  exact hdescent _ n rfl hP fun k hk hQ => hnone ⟨k, hk, hQ⟩

/-- The actions are enabled again as long as none of them is taken. -/
theorem leadsTo_of_strongFair {β : Type*} [Preorder β] [WellFoundedLT β] (rank : σ → β)
    (hfair : r.StrongFair A)
    (hstep : ∀ s a s', m.Reachable s → P s → m.step s a = some s' →
      Q s' ∨ P s' ∧ rank s' ≤ rank s ∧ (A a → rank s' < rank s))
    (henabled : ∀ n, (∀ k, n ≤ k → P (r.state k) ∧ ¬ r.Takes A k) →
      ∃ k, n ≤ k ∧ m.Enabled A (r.state k)) : r.LeadsTo P Q := by
  refine leadsTo_of_taken rank ?_ hstep
  intro n hP
  by_contra hnone
  refine hnone (hfair n fun i hi => henabled i fun k hk => ?_)
  have hnk := Nat.le_trans hi hk
  exact ⟨hP k hnk, fun htaken => hnone ⟨k, hnk, htaken⟩⟩

/-- One of the actions is taken again and again. -/
theorem leadsTo_of_recurs {β : Type*} [Preorder β] [WellFoundedLT β] (rank : σ → β)
    (hrec : r.Recurs A)
    (hstep : ∀ s a s', m.Reachable s → P s → m.step s a = some s' →
      Q s' ∨ P s' ∧ rank s' ≤ rank s ∧ (A a → rank s' < rank s)) : r.LeadsTo P Q :=
  leadsTo_of_taken rank (fun n _ => hrec n) hstep

/-- Up to the next of the actions, the steps of the others keep what they keep. -/
theorem Recurs.next {A : α → Prop} (h : r.Recurs A) {I : σ → Prop}
    (hstep : ∀ s a s', I s → ¬ A a → m.step s a = some s' → I s') {n : Nat} (hn : I (r.state n)) :
    ∃ k, n ≤ k ∧ I (r.state k) ∧ r.Takes A k := by
  obtain ⟨k, hk, htakes⟩ := h n
  obtain ⟨d, rfl⟩ := Nat.exists_eq_add_of_le hk
  -- induction on how far the action is
  induction d generalizing n with
  | zero => exact ⟨n, hk, hn, htakes⟩
  | succ d ih =>
    by_cases hnow : r.Takes A n
    · exact ⟨n, Nat.le_refl n, hn, hnow⟩
    · have hnext : I (r.state (n + 1)) := by
        rcases r.next_cases n with ⟨_, hsame⟩ | ⟨a, ha, hs⟩
        · rwa [hsame]
        · exact hstep _ a _ hn (fun hA => hnow ⟨a, ha, hA⟩) hs
      have hlater : r.Takes A (n + 1 + d) := by
        rw [Nat.add_assoc, Nat.add_comm 1 d]
        exact htakes
      obtain ⟨j, hj, hthere⟩ := ih hnext (Nat.le_add_right _ _) hlater
      exact ⟨j, Nat.le_of_succ_le hj, hthere⟩

/-! ### A finished run as a trace -/

theorem run_take {s s' : σ} {as : List α} (hrun : m.run s as = some s') (n : Nat) :
    ∃ t, m.run s (as.take n) = some t ∧ (as[n]?).elim (some t) (m.step t) = m.run s (as.take (n + 1)) := by
  have hsplit : (m.run s (as.take n)).bind (fun t => m.run t (as.drop n)) = some s' := by
    rw [← run_append, List.take_append_drop, hrun]
  obtain ⟨t, ht, _⟩ := Option.bind_eq_some_iff.mp hsplit
  refine ⟨t, ht, ?_⟩
  rw [List.take_add_one, run_append, ht, Option.bind_some]
  cases as[n]? with
  | none => rfl
  | some a =>
    change m.step t a = (m.step t a).bind some
    exact (Option.bind_fun_some _).symm

/-- A run that ends, and nothing happens afterwards. -/
def ofRun {s s' : σ} {as : List α} (hinit : m.init s) (hrun : m.run s as = some s') : m.Trace where
  state n := (m.run s (as.take n)).getD s
  act n := as[n]?
  init := hinit
  next := by
    intro n
    obtain ⟨t, ht, hnext⟩ := run_take hrun n
    obtain ⟨u, hu, _⟩ := run_take hrun (n + 1)
    rw [ht, hu, Option.getD_some, Option.getD_some, hnext, hu]

variable {s s' : σ} {as : List α} {hinit : m.init s} {hrun : m.run s as = some s'}

theorem ofRun_state {n : Nat} (hn : as.length ≤ n) : (ofRun hinit hrun).state n = s' := by
  change (m.run s (as.take n)).getD s = s'
  rw [List.take_of_length_le hn, hrun, Option.getD_some]

theorem ofRun_strongFair (hend : ¬ m.Enabled A s') : (ofRun hinit hrun).StrongFair A := by
  intro n hagain
  obtain ⟨k, hk, hen⟩ := hagain (max n as.length) (Nat.le_max_left _ _)
  rw [ofRun_state (Nat.le_trans (Nat.le_max_right _ _) hk)] at hen
  exact absurd hen hend

/-! ### A run and a cycle as a trace -/

/-- The first `n` rounds of the cycle `bs` after `as`. -/
def rounds (as bs : List α) (n : Nat) : List α := as ++ (List.replicate n bs).flatten

theorem rounds_succ (as bs : List α) (n : Nat) : rounds as bs (n + 1) = rounds as bs n ++ bs := by
  rw [rounds, rounds, List.replicate_succ', List.flatten_concat, List.append_assoc]

theorem length_rounds (as bs : List α) (n : Nat) :
    (rounds as bs n).length = as.length + n * bs.length := by
  induction n with
  | zero => simp [rounds]
  | succ n ih =>
    rw [rounds_succ, List.length_append, ih, Nat.succ_mul]
    omega

theorem rounds_prefix (as bs : List α) {n k : Nat} (h : n ≤ k) :
    rounds as bs n <+: rounds as bs k := by
  induction k, h using Nat.le_induction with
  | base => exact List.prefix_rfl
  | succ k _ ih =>
    rw [rounds_succ]
    exact ih.trans (List.prefix_append _ _)

theorem le_length_rounds (as : List α) {bs : List α} (hbs : bs ≠ []) (n : Nat) :
    n ≤ (rounds as bs n).length := by
  have hpos := List.length_pos_iff.mpr hbs
  rw [length_rounds]
  exact Nat.le_trans (Nat.le_mul_of_pos_right n hpos) (Nat.le_add_left _ _)

variable {t : σ} {bs : List α}

theorem run_rounds (hrun : m.run s as = some t) (hcycle : m.run t bs = some t) (n : Nat) :
    m.run s (rounds as bs n) = some t := by
  induction n with
  | zero =>
    rw [rounds, List.replicate_zero, List.flatten_nil, List.append_nil]
    exact hrun
  | succ n ih => rw [rounds_succ, run_append, ih, Option.bind_some, hcycle]

/-- A run to a state from which the machine goes round in a cycle. -/
def ofLasso (hinit : m.init s) (hrun : m.run s as = some t) (hcycle : m.run t bs = some t)
    (hbs : bs ≠ []) : m.Trace where
  state n := (m.run s ((rounds as bs n).take n)).getD s
  act n := (rounds as bs (n + 1))[n]?
  init := hinit
  next := by
    intro n
    have hword := run_rounds hrun hcycle (n + 1)
    obtain ⟨u, hu, hnext⟩ := run_take hword n
    obtain ⟨v, hv, _⟩ := run_take hword (n + 1)
    have htake : (rounds as bs (n + 1)).take n = (rounds as bs n).take n := by
      rw [rounds_succ, List.take_append_of_le_length (le_length_rounds as hbs n)]
    rw [htake] at hu
    rw [hu, Option.getD_some, hnext, hv, Option.getD_some]

theorem ofLasso_again {hinit : m.init s} {hrun : m.run s as = some t} {hcycle : m.run t bs = some t}
    {hbs : bs ≠ []} (i : Nat) : ∃ k, i ≤ k ∧ (ofLasso hinit hrun hcycle hbs).state k = t := by
  have hlength := le_length_rounds as hbs i
  obtain ⟨rest, hrest⟩ := rounds_prefix as bs hlength
  refine ⟨(rounds as bs i).length, hlength, ?_⟩
  change (m.run s ((rounds as bs (rounds as bs i).length).take (rounds as bs i).length)).getD s = t
  rw [← hrest, List.take_left, run_rounds hrun hcycle, Option.getD_some]

theorem ofLasso_recurs {hinit : m.init s} {hrun : m.run s as = some t}
    {hcycle : m.run t bs = some t} {hbs : bs ≠ []} {b : α} (hb : b ∈ bs) (hA : A b) :
    (ofLasso hinit hrun hcycle hbs).Recurs A := by
  intro n
  obtain ⟨i, hi, hget⟩ := List.getElem_of_mem hb
  have hlength := le_length_rounds as hbs n
  refine ⟨(rounds as bs n).length + i, by omega, b, ?_, hA⟩
  have hround : (rounds as bs (n + 1))[(rounds as bs n).length + i]? = some b := by
    rw [rounds_succ, List.getElem?_append_right (Nat.le_add_right _ _), Nat.add_sub_cancel_left,
      List.getElem?_eq_getElem hi, hget]
  obtain ⟨rest, hrest⟩ := rounds_prefix as bs (n := n + 1)
    (k := (rounds as bs n).length + i + 1) (by omega)
  obtain ⟨hlt, _⟩ := List.getElem?_eq_some_iff.mp hround
  change (rounds as bs ((rounds as bs n).length + i + 1))[_]? = some b
  rw [← hrest, List.getElem?_append_left hlt, hround]

end Trace

end Machine
