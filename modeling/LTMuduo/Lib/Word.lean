import Mathlib.Algebra.Group.Nat.Defs

/-!
# Unsigned words

Addition and subtraction of unsigned integers of `w` bits, on the naturals below `2 ^ w`. One lemma for each side of the wrap.
-/

namespace Word

def add (w x y : Nat) : Nat := (x + y) % 2 ^ w

def sub (w x y : Nat) : Nat := (x + 2 ^ w - y) % 2 ^ w

variable {w x y : Nat}

theorem add_lt (w x y : Nat) : add w x y < 2 ^ w := Nat.mod_lt _ (Nat.two_pow_pos w)

theorem add_of_lt (h : x + y < 2 ^ w) : add w x y = x + y := Nat.mod_eq_of_lt h

theorem add_of_le (hx : x < 2 ^ w) (hy : y < 2 ^ w) (h : 2 ^ w ≤ x + y) :
    add w x y = x + y - 2 ^ w := by
  rw [add, Nat.mod_eq_sub_mod h, Nat.mod_eq_of_lt (by omega)]

theorem sub_of_le (h : y ≤ x) (hx : x < 2 ^ w) : sub w x y = x - y := by
  rw [sub, show x + 2 ^ w - y = x - y + 2 ^ w by omega, Nat.add_mod_right,
    Nat.mod_eq_of_lt (by omega)]

theorem sub_of_lt (h : x < y) (hy : y < 2 ^ w) : sub w x y = x + 2 ^ w - y :=
  Nat.mod_eq_of_lt (by omega)

end Word
