import Mathlib.Data.List.Rotate
import Mathlib.Data.List.Nodup

/-!
# Round robin

A cursor that walks around a list. Started inside of the list it never leaves it, one round of picks is a rotation of the list, and no element of a list without repetitions is ever picked twice more than another.
-/

namespace RoundRobin

variable {α : Type*} (xs : List α)

/-- The index behind `i`, and from the last one back to the front. -/
def advance (i : Nat) : Nat := if xs.length ≤ i + 1 then 0 else i + 1

/-- `m` picks from cursor `i`, with the cursor behind them; `none` if the cursor is outside of the list. -/
def picks : Nat → Nat → Option (List α × Nat)
  | i, 0 => some ([], i)
  | i, m + 1 =>
    xs[i]?.bind fun x => (picks (advance xs i) m).map fun (ys, j) => (x :: ys, j)

/-- `ys` is read off around the list, from index `i`. -/
def Around (i : Nat) (ys : List α) : Prop := ∀ j < ys.length, ys[j]? = xs[(i + j) % xs.length]?

variable {xs} {i m : Nat} {ys : List α} {a b : α}

theorem advance_eq (hi : i < xs.length) : advance xs i = (i + 1) % xs.length := by
  unfold advance
  split
  · rw [show i + 1 = xs.length by omega, Nat.mod_self]
  · rw [Nat.mod_eq_of_lt (by omega)]

theorem advance_lt (hi : i < xs.length) : advance xs i < xs.length := by
  rw [advance_eq hi]
  exact Nat.mod_lt _ (Nat.zero_lt_of_lt hi)

theorem Around.cons {x : α} (hi : i < xs.length) (hx : xs[i]? = some x)
    (h : Around xs (advance xs i) ys) : Around xs i (x :: ys) := by
  intro j hj
  cases j with
  | zero => rw [Nat.add_zero, Nat.mod_eq_of_lt hi, hx, List.getElem?_cons_zero]
  | succ j =>
    rw [List.getElem?_cons_succ, h j (Nat.lt_of_succ_lt_succ hj), advance_eq hi,
      Nat.mod_add_mod, Nat.add_assoc, Nat.add_comm 1]

theorem picks_around (hi : i < xs.length) (m : Nat) :
    ∃ ys, picks xs i m = some (ys, (i + m) % xs.length) ∧ ys.length = m ∧ Around xs i ys := by
  induction m generalizing i with
  | zero =>
    refine ⟨[], ?_, rfl, fun j hj => absurd hj (Nat.not_lt_zero j)⟩
    rw [Nat.add_zero, Nat.mod_eq_of_lt hi]
    rfl
  | succ m ih =>
    obtain ⟨ys, hpicks, hlength, haround⟩ := ih (advance_lt hi)
    have hx := List.getElem?_eq_getElem hi
    refine ⟨xs[i] :: ys, ?_, congrArg Nat.succ hlength, haround.cons hi hx⟩
    rw [picks, hx, Option.bind_some, hpicks, Option.map_some, advance_eq hi, Nat.mod_add_mod,
      Nat.add_assoc, Nat.add_comm 1]

theorem Around.eq_rotate (h : Around xs i ys) (hlength : ys.length = xs.length) :
    ys = xs.rotate i := by
  apply List.ext_getElem?
  intro j
  by_cases hj : j < ys.length
  · rw [h j hj, List.getElem?_rotate (hlength ▸ hj), Nat.add_comm]
  · rw [List.getElem?_eq_none (Nat.le_of_not_lt hj), List.getElem?_eq_none]
    rw [List.length_rotate, ← hlength]
    exact Nat.le_of_not_lt hj

theorem Around.take (h : Around xs i ys) (m : Nat) : Around xs i (ys.take m) := by
  intro j hj
  rw [List.length_take] at hj
  rw [List.getElem?_take_of_lt (by omega)]
  exact h j (by omega)

theorem Around.drop (h : Around xs i ys) : Around xs i (ys.drop xs.length) := by
  intro j hj
  rw [List.length_drop] at hj
  rw [List.getElem?_drop, h _ (by omega), Nat.add_left_comm, Nat.add_mod_left]

theorem Around.sublist (h : Around xs i ys) (hlength : ys.length ≤ xs.length) :
    ys.Sublist (xs.rotate i) := by
  have htake : ys = (xs.rotate i).take ys.length := by
    apply List.ext_getElem?
    intro j
    by_cases hj : j < ys.length
    · rw [List.getElem?_take_of_lt hj, h j hj, List.getElem?_rotate (Nat.lt_of_lt_of_le hj hlength),
        Nat.add_comm]
    · rw [List.getElem?_eq_none (Nat.le_of_not_lt hj), List.getElem?_eq_none]
      exact Nat.le_trans (List.length_take_le _ _) (Nat.le_of_not_lt hj)
  rw [htake]
  exact List.take_sublist _ _

variable [BEq α] [LawfulBEq α]

/-- The picks are balanced. -/
theorem Around.count_le (hnodup : xs.Nodup) (ha : a ∈ xs) (hb : b ∈ xs) (h : Around xs i ys) :
    ys.count a ≤ ys.count b + 1 := by
  induction hlength : ys.length using Nat.strong_induction_on generalizing ys with
  | _ k ih =>
    have hrotated : (xs.rotate i).Nodup := List.nodup_rotate.mpr hnodup
    by_cases hround : ys.length ≤ xs.length
    · have hcount := List.nodup_iff_count_le_one.mp (hrotated.sublist (h.sublist hround)) a
      omega
    · have hpos : 0 < xs.length := List.length_pos_of_mem ha
      have hwhole : ys.take xs.length = xs.rotate i := by
        apply (h.take _).eq_rotate
        rw [List.length_take]
        omega
      have hrest := ih (ys.drop xs.length).length (by rw [List.length_drop]; omega) h.drop rfl
      have hsplit (c : α) (hc : c ∈ xs) : ys.count c = (ys.drop xs.length).count c + 1 := by
        have hone := List.count_eq_one_of_mem hrotated (List.mem_rotate.mpr hc)
        calc ys.count c = (ys.take xs.length ++ ys.drop xs.length).count c := by
              rw [List.take_append_drop]
          _ = (ys.drop xs.length).count c + 1 := by
              rw [List.count_append, hwhole, hone, Nat.add_comm]
      rw [hsplit a ha, hsplit b hb]
      exact Nat.succ_le_succ hrest

end RoundRobin
