import Mathlib.Data.List.Basic

/-!
# Blocks of memory

A block is a list of cells. Reads and writes of a range check their bounds and return `none` outside of them, so that a program whose accesses are all in bounds is one that never returns `none`. `copyBlock` is the forward element-by-element copy within one block, with the precondition the C++ standard puts on it: the destination must not start inside the source range.

`segment` is what a range holds. The lemmas say what each operation does to the segments of a block.
-/

namespace Block

variable {α : Type*}

/-- The cells from `lo` up to but not including `hi`. -/
def segment (xs : List α) (lo hi : Nat) : List α := (xs.drop lo).take (hi - lo)

/-- The block with `data` written from cell `i` on. -/
def overwrite (xs : List α) (i : Nat) (data : List α) : List α :=
  xs.take i ++ data ++ xs.drop (i + data.length)

/-- Reads `n` cells from cell `i` on. -/
def readBlock (xs : List α) (i n : Nat) : Option (List α) :=
  if i + n ≤ xs.length then some (segment xs i (i + n)) else none

/-- Writes `data` from cell `i` on. -/
def writeBlock (xs : List α) (i : Nat) (data : List α) : Option (List α) :=
  if i + data.length ≤ xs.length then some (overwrite xs i data) else none

/-- The copy loop: `n` times, the cell at `src` goes to `dst` and both advance. -/
def copyForward (xs : List α) (src dst : Nat) : Nat → Option (List α)
  | 0 => some xs
  | n + 1 =>
    match xs[src]? with
    | none => none
    | some x => if dst < xs.length then copyForward (xs.set dst x) (src + 1) (dst + 1) n else none

/-- Copies the cells `[first, last)` to `dest` and up, front to back. -/
def copyBlock (xs : List α) (first last dest : Nat) : Option (List α) :=
  if first ≤ dest ∧ dest < last then none else copyForward xs first dest (last - first)

/-- Cuts the block to `n` cells, or fills it up to `n` cells. -/
def resize (xs : List α) (n : Nat) (fill : α) : List α :=
  xs.take n ++ List.replicate (n - xs.length) fill

/-! ### Segments -/

@[simp] theorem length_segment {xs : List α} {lo hi : Nat} (hbound : hi ≤ xs.length) :
    (segment xs lo hi).length = hi - lo := by
  simp only [segment, List.length_take, List.length_drop]
  omega

@[simp] theorem segment_self (xs : List α) (i : Nat) : segment xs i i = [] := by
  simp [segment]

theorem segment_append {xs : List α} {lo mid hi : Nat} (hlo : lo ≤ mid) (hhi : mid ≤ hi) :
    segment xs lo mid ++ segment xs mid hi = segment xs lo hi := by
  have hsplit : hi - lo = (mid - lo) + (hi - mid) := by omega
  rw [segment, segment, segment, hsplit, List.take_add, List.drop_drop,
    show lo + (mid - lo) = mid by omega]

theorem take_segment {xs : List α} {lo hi n : Nat} (hn : n ≤ hi - lo) :
    (segment xs lo hi).take n = segment xs lo (lo + n) := by
  rw [segment, segment, List.take_take, Nat.min_eq_left hn, Nat.add_sub_cancel_left]

theorem drop_segment (xs : List α) (lo hi n : Nat) :
    (segment xs lo hi).drop n = segment xs (lo + n) hi := by
  rw [segment, segment, List.drop_take, List.drop_drop, Nat.sub_sub]

theorem segment_congr {xs ys : List α} {lo hi : Nat} (h : xs.take hi = ys.take hi) :
    segment xs lo hi = segment ys lo hi := by
  rw [segment, segment, ← List.drop_take, ← List.drop_take, h]

/-! ### Writing -/

theorem length_overwrite {xs : List α} {i : Nat} {data : List α}
    (hbound : i + data.length ≤ xs.length) : (overwrite xs i data).length = xs.length := by
  simp only [overwrite, List.length_append, List.length_take, List.length_drop]
  omega

theorem take_overwrite {xs : List α} {i : Nat} {data : List α} (hi : i ≤ xs.length) :
    (overwrite xs i data).take i = xs.take i := by
  rw [overwrite, List.append_assoc, List.take_append_of_le_length (by simp [hi]), List.take_take,
    Nat.min_self]

theorem segment_overwrite_before {xs : List α} {i lo hi : Nat} {data : List α}
    (hi' : hi ≤ i) (hbound : i ≤ xs.length) :
    segment (overwrite xs i data) lo hi = segment xs lo hi := by
  apply segment_congr
  have htake := congrArg (List.take hi) (@take_overwrite _ xs i data hbound)
  simpa only [List.take_take, Nat.min_eq_left hi'] using htake

theorem segment_overwrite_self {xs : List α} {i : Nat} {data : List α} (hi : i ≤ xs.length) :
    segment (overwrite xs i data) i (i + data.length) = data := by
  have hlen : (xs.take i).length = i := by simp [hi]
  rw [segment, overwrite, List.append_assoc, Nat.add_sub_cancel_left, List.drop_append,
    List.drop_eq_nil_of_le (Nat.le_of_eq hlen), hlen, Nat.sub_self, List.drop_zero, List.nil_append,
    List.take_left']
  rfl

theorem segment_overwrite_extend {xs : List α} {lo i : Nat} {data : List α}
    (hlo : lo ≤ i) (hi : i ≤ xs.length) :
    segment (overwrite xs i data) lo (i + data.length) = segment xs lo i ++ data := by
  rw [← segment_append hlo (Nat.le_add_right i _), segment_overwrite_before (Nat.le_refl i) hi,
    segment_overwrite_self hi]

theorem overwrite_overwrite {xs : List α} {i : Nat} (x : α) (data : List α) (hi : i < xs.length) :
    overwrite (xs.set i x) (i + 1) data = overwrite xs i (x :: data) := by
  have htake : (xs.set i x).take (i + 1) = xs.take i ++ [x] := by
    have hlen : (xs.take i).length = i := List.length_take_of_le (Nat.le_of_lt hi)
    rw [List.take_set, List.take_succ_eq_append_getElem hi,
      List.set_append_right _ _ (Nat.le_of_eq hlen), hlen, Nat.sub_self, List.set_cons_zero]
  have hdrop : (xs.set i x).drop (i + 1 + data.length) = xs.drop (i + (data.length + 1)) := by
    rw [List.drop_set_of_lt (by omega), show i + 1 + data.length = i + (data.length + 1) by omega]
  rw [overwrite, overwrite, htake, hdrop]
  simp

/-! ### Copying within a block -/

/-- A forward copy towards lower cells delivers what the source range held before the copy, although the two ranges may overlap: a cell is overwritten only after it has been read. -/
theorem copyForward_eq {xs : List α} {src dst n : Nat} (hdir : dst ≤ src)
    (hbound : src + n ≤ xs.length) :
    copyForward xs src dst n = some (overwrite xs dst (segment xs src (src + n))) := by
  induction n generalizing xs src dst with
  | zero => simp [copyForward, overwrite]
  | succ n ih =>
    have hsrc : src < xs.length := by omega
    have hdst : dst < xs.length := by omega
    have hhead : segment xs src (src + (n + 1)) = xs[src] :: segment xs (src + 1) (src + 1 + n) := by
      rw [segment, segment, Nat.add_sub_cancel_left, Nat.add_sub_cancel_left,
        List.drop_eq_getElem_cons hsrc, List.take_succ_cons]
    have htail : segment (xs.set dst xs[src]) (src + 1) (src + 1 + n)
        = segment xs (src + 1) (src + 1 + n) := by
      rw [segment, segment, List.drop_set_of_lt (by omega)]
    rw [copyForward, List.getElem?_eq_getElem hsrc]
    simp only [hdst, if_true]
    rw [ih (by omega) (by rw [List.length_set]; omega), htail, overwrite_overwrite _ _ hdst, hhead]

theorem copyBlock_eq {xs : List α} {first last dest : Nat} (hdir : dest < first)
    (hrange : first ≤ last) (hbound : last ≤ xs.length) :
    copyBlock xs first last dest = some (overwrite xs dest (segment xs first last)) := by
  have hsum : first + (last - first) = last := by omega
  rw [copyBlock, if_neg (by omega), copyForward_eq (Nat.le_of_lt hdir) (by omega), hsum]

/-! ### Resizing -/

theorem length_resize (xs : List α) (n : Nat) (fill : α) : (resize xs n fill).length = n := by
  simp only [resize, List.length_append, List.length_take, List.length_replicate]
  omega

theorem segment_resize {xs : List α} {lo hi n : Nat} (fill : α) (hn : hi ≤ n)
    (hbound : hi ≤ xs.length) : segment (resize xs n fill) lo hi = segment xs lo hi := by
  apply segment_congr
  have hlen : hi ≤ (xs.take n).length := by
    rw [List.length_take]
    omega
  rw [resize, List.take_append_of_le_length hlen, List.take_take, Nat.min_eq_left hn]

/-! ### Accesses in bounds -/

theorem readBlock_eq {xs : List α} {i n : Nat} (hbound : i + n ≤ xs.length) :
    readBlock xs i n = some (segment xs i (i + n)) := if_pos hbound

theorem writeBlock_eq {xs : List α} {i : Nat} {data : List α}
    (hbound : i + data.length ≤ xs.length) : writeBlock xs i data = some (overwrite xs i data) :=
  if_pos hbound

/-! ### Accesses keep the size -/

theorem length_of_readBlock {xs ys : List α} {i n : Nat} (h : readBlock xs i n = some ys) :
    ys.length = n := by
  obtain ⟨hbound, hset⟩ := Option.ite_none_right_eq_some.mp h
  cases hset
  rw [length_segment hbound, Nat.add_sub_cancel_left]

theorem writeBlock_bound {xs ys : List α} {i : Nat} {data : List α}
    (h : writeBlock xs i data = some ys) : i + data.length ≤ xs.length :=
  (Option.ite_none_right_eq_some.mp h).1

theorem length_of_writeBlock {xs ys : List α} {i : Nat} {data : List α}
    (h : writeBlock xs i data = some ys) : ys.length = xs.length := by
  obtain ⟨hbound, hset⟩ := Option.ite_none_right_eq_some.mp h
  cases hset
  exact length_overwrite hbound

theorem length_of_copyForward {xs ys : List α} {src dst n : Nat}
    (h : copyForward xs src dst n = some ys) : ys.length = xs.length := by
  induction n generalizing xs src dst with
  | zero =>
    cases h
    rfl
  | succ n ih =>
    unfold copyForward at h
    split at h
    · cases h
    · obtain ⟨_, hrest⟩ := Option.ite_none_right_eq_some.mp h
      exact (ih hrest).trans List.length_set

theorem length_of_copyBlock {xs ys : List α} {first last dest : Nat}
    (h : copyBlock xs first last dest = some ys) : ys.length = xs.length := by
  obtain ⟨_, hcopy⟩ := Option.ite_none_left_eq_some.mp h
  exact length_of_copyForward hcopy

end Block
