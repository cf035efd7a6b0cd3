import TorDaemon.Library.NetworkOrder
import TorDaemon.Library.Subsequences

/-! Which lines of two slices changed (`consdiff.c`): a longest common subsequence in linear
space, by dividing the first slice in half and the second one where the halves fit best. -/
namespace TorDaemon.ConsDiff
open Library.NetworkOrder Library.Subsequences

/-- The contents of a `cdline_t`. -/
abbrev Line := Bytes

def linesEq (a b : Line) : Bool := a.length == b.length && a == b

/-- A `smartlist_slice_t`, within its list. -/
structure Slice where
  list : List Line
  offset : ℕ
  len : ℕ
  within : offset + len ≤ list.length

/-- A `bitarray_t`. -/
abbrev Bits := ℕ → Bool

def bitarraySet (bits : Bits) (i : ℕ) : Bits := Function.update bits i true

section Slices
variable (s : Slice)

/-- `smartlist_get(slice->list, slice->offset + i)`. -/
def Slice.get (i : ℕ) (h : i < s.len) : Line :=
  s.list.get ⟨s.offset + i, lt_of_lt_of_le (Nat.add_lt_add_left h s.offset) s.within⟩

def Slice.lines : List Line := (s.list.drop s.offset).take s.len

/-- `smartlist_slice(list, offset, offset + n)`. -/
def Slice.first (n : ℕ) (h : n ≤ s.len) : Slice :=
  ⟨s.list, s.offset, n, (Nat.add_le_add_left h s.offset).trans s.within⟩

/-- `smartlist_slice(list, offset + n, offset + len)`. -/
def Slice.rest (n : ℕ) (h : n ≤ s.len) : Slice :=
  ⟨s.list, s.offset + n, s.len - n, by have := s.within; omega⟩

end Slices

/-! ### Lengths of common subsequences -/

inductive Direction
  | forward
  | backward

/-- The lines of a slice as `lcs_lengths` navigates them. -/
def Slice.visited (s : Slice) : Direction → List Line
  | .forward => s.lines
  | .backward => s.lines.reverse

/-- The inner loop of `lcs_lengths`: the rest of a row, after `left` and below the last row. -/
def lcsRow (line1 : Line) : ℕ → List Line → List ℕ → List ℕ
  | left, line2 :: lines, diagonal :: up :: prev =>
    let len := if linesEq line1 line2 then diagonal + 1 else max left up
    len :: lcsRow line1 len lines (up :: prev)
  | _, _, _ => []

def lcsLengths (slice1 slice2 : Slice) (direction : Direction) : List ℕ :=
  (slice1.visited direction).foldl
    (fun prev line1 => prev.headD 0 :: lcsRow line1 (prev.headD 0) (slice2.visited direction) prev)
    (List.replicate (slice2.len + 1) 0)

/-- One round of the loop of `optimal_column_to_split`: the column and the sum kept so far. -/
def keepColumn (sum : ℕ → ℤ) (best : ℕ × ℤ) (i : ℕ) : ℕ × ℤ :=
  if sum i > best.2 then (i, sum i) else best

def optimalColumnToSplit (top bot slice2 : Slice) : ℕ :=
  let lensTop := lcsLengths top slice2 .forward
  let lensBot := lcsLengths bot slice2 .backward
  let sum (i : ℕ) : ℤ := lensTop.getD i 0 + lensBot.getD (slice2.len - i) 0
  ((List.range (slice2.len + 1)).foldl (keepColumn sum) (0, -1)).1

theorem foldl_keepColumn_lt {sum : ℕ → ℤ} {n : ℕ} {is : List ℕ} {best : ℕ × ℤ}
    (his : ∀ i ∈ is, i < n) (hbest : best.1 < n) : (is.foldl (keepColumn sum) best).1 < n := by
  induction is generalizing best with
  | nil => exact hbest
  | cons i is ih =>
    rw [List.forall_mem_cons] at his
    apply ih his.2
    unfold keepColumn
    split
    · exact his.1
    · exact hbest

theorem optimalColumnToSplit_le (top bot slice2 : Slice) :
    optimalColumnToSplit top bot slice2 ≤ slice2.len := by
  apply Nat.le_of_lt_succ
  apply foldl_keepColumn_lt
  · exact fun i hi => List.mem_range.mp hi
  · exact Nat.succ_pos _

/-! ### Trimming -/

/-- The first loop of `trim_slices`. -/
def trimFront (slice1 slice2 : Slice) : Slice × Slice :=
  if h : 0 < slice1.len ∧ 0 < slice2.len then
    if linesEq (slice1.get 0 h.1) (slice2.get 0 h.2) then
      trimFront (slice1.rest 1 h.1) (slice2.rest 1 h.2)
    else (slice1, slice2)
  else (slice1, slice2)
termination_by slice1.len
decreasing_by exact Nat.sub_lt h.1 Nat.one_pos

/-- The second loop of `trim_slices`. -/
def trimBack (slice1 slice2 : Slice) : Slice × Slice :=
  if h : 0 < slice1.len ∧ 0 < slice2.len then
    if linesEq (slice1.get (slice1.len - 1) (Nat.sub_lt h.1 Nat.one_pos))
        (slice2.get (slice2.len - 1) (Nat.sub_lt h.2 Nat.one_pos)) then
      trimBack (slice1.first (slice1.len - 1) (Nat.sub_le _ _))
        (slice2.first (slice2.len - 1) (Nat.sub_le _ _))
    else (slice1, slice2)
  else (slice1, slice2)
termination_by slice1.len
decreasing_by exact Nat.sub_lt h.1 Nat.one_pos

def trimSlices (slice1 slice2 : Slice) : Slice × Slice :=
  trimBack (trimFront slice1 slice2).1 (trimFront slice1 slice2).2

theorem trimFront_len_le (slice1 slice2 : Slice) :
    (trimFront slice1 slice2).1.len ≤ slice1.len := by
  induction slice1, slice2 using trimFront.induct with
  | case1 slice1 slice2 h heq ih =>
    rw [trimFront, dif_pos h, if_pos heq]
    exact ih.trans (Nat.sub_le _ _)
  | case2 slice1 slice2 h hne => rw [trimFront, dif_pos h, if_neg hne]
  | case3 slice1 slice2 h => rw [trimFront, dif_neg h]

theorem trimBack_len_le (slice1 slice2 : Slice) : (trimBack slice1 slice2).1.len ≤ slice1.len := by
  induction slice1, slice2 using trimBack.induct with
  | case1 slice1 slice2 h heq ih =>
    rw [trimBack, dif_pos h, if_pos heq]
    exact ih.trans (Nat.sub_le _ _)
  | case2 slice1 slice2 h hne => rw [trimBack, dif_pos h, if_neg hne]
  | case3 slice1 slice2 h => rw [trimBack, dif_neg h]

theorem trimSlices_len_le (slice1 slice2 : Slice) : (trimSlices slice1 slice2).1.len ≤ slice1.len :=
  (trimBack_len_le _ _).trans (trimFront_len_le _ _)

/-! ### Marking -/

def smartlistSliceStringPos (slice : Slice) (string : Line) : Option ℕ :=
  (slice.lines.findIdx? fun el => linesEq el string).map fun i => slice.offset + i

/-- The loop of `set_changed`. -/
def setAllBut (slice : Slice) (toskip : Option ℕ) (changed : Bits) : Bits :=
  (List.range' slice.offset slice.len).foldl
    (fun changed i => if some i = toskip then changed else bitarraySet changed i) changed

/-- `set_changed`, on a first slice of at most one line. -/
def setChanged (changed1 changed2 : Bits) (slice1 slice2 : Slice) : Bits × Bits :=
  if h : slice1.len = 1 then
    let toskip := smartlistSliceStringPos slice2 (slice1.get 0 (h ▸ Nat.one_pos))
    (if toskip = none then bitarraySet changed1 slice1.offset else changed1,
      setAllBut slice2 toskip changed2)
  else (changed1, setAllBut slice2 none changed2)

/-- `calc_changes`. The slices that it is called with again have a shorter first one. -/
def calcChanges (slice1 slice2 : Slice) (changed1 changed2 : Bits) : Bits × Bits :=
  let s1 := (trimSlices slice1 slice2).1
  let s2 := (trimSlices slice1 slice2).2
  if hone : s1.len ≤ 1 then setChanged changed1 changed2 s1 s2
  else if s2.len ≤ 1 then (setChanged changed2 changed1 s2 s1).swap
  else
    let mid := s1.len / 2
    let top := s1.first mid (Nat.div_le_self _ _)
    let bot := s1.rest mid (Nat.div_le_self _ _)
    let mid2 := optimalColumnToSplit top bot s2
    let left := s2.first mid2 (optimalColumnToSplit_le top bot s2)
    let right := s2.rest mid2 (optimalColumnToSplit_le top bot s2)
    let changed := calcChanges top left changed1 changed2
    calcChanges bot right changed.1 changed.2
termination_by slice1.len
decreasing_by
  · have hle := trimSlices_len_le slice1 slice2
    have hlong : ¬ (trimSlices slice1 slice2).1.len ≤ 1 := hone
    change (trimSlices slice1 slice2).1.len / 2 < slice1.len
    omega
  · have hle := trimSlices_len_le slice1 slice2
    have hlong : ¬ (trimSlices slice1 slice2).1.len ≤ 1 := hone
    change (trimSlices slice1 slice2).1.len - (trimSlices slice1 slice2).1.len / 2 < slice1.len
    omega

/-! What `calc_changes` leaves unmarked is a longest common subsequence of its slices. -/

/-! ### Slices and their lines -/

section Slices
variable {s : Slice} {i n : ℕ}

theorem linesEq_iff {a b : Line} : linesEq a b = true ↔ a = b := by
  simp only [linesEq, Bool.and_eq_true, beq_iff_eq]
  exact ⟨fun h => h.2, fun h => ⟨congrArg List.length h, h⟩⟩

@[simp] theorem Slice.lines_length (s : Slice) : s.lines.length = s.len := by
  have := s.within
  simp only [Slice.lines, List.length_take, List.length_drop]
  omega

@[simp] theorem Slice.first_lines (h : n ≤ s.len) : (s.first n h).lines = s.lines.take n := by
  simp only [Slice.lines, Slice.first, List.take_take, Nat.min_eq_left h]

@[simp] theorem Slice.rest_lines (h : n ≤ s.len) : (s.rest n h).lines = s.lines.drop n := by
  simp only [Slice.lines, Slice.rest, List.drop_take, List.drop_drop]

theorem Slice.getElem?_lines (h : i < s.len) : s.lines[i]? = some (s.get i h) := by
  have hi := s.within
  rw [Slice.lines, List.getElem?_take_of_lt h, List.getElem?_drop, Slice.get,
    List.getElem?_eq_getElem (by omega)]
  rfl

theorem Slice.lines_cons (h : 0 < s.len) : s.lines = s.get 0 h :: s.lines.drop 1 := by
  have hget := Slice.getElem?_lines h
  obtain ⟨hi, hget⟩ := List.getElem?_eq_some_iff.mp hget
  rw [← hget, ← List.drop_eq_getElem_cons hi, List.drop_zero]

theorem Slice.lines_concat (h : 0 < s.len) :
    s.lines = s.lines.take (s.len - 1) ++ [s.get (s.len - 1) (Nat.sub_lt h Nat.one_pos)] := by
  have hget := Slice.getElem?_lines (s := s) (Nat.sub_lt h Nat.one_pos)
  obtain ⟨hi, hget⟩ := List.getElem?_eq_some_iff.mp hget
  rw [← hget, ← List.take_succ_eq_append_getElem hi, Nat.sub_add_cancel h,
    List.take_of_length_le s.lines_length.le]

end Slices

/-! ### The lengths -/

section Lengths
variable {a done lines : List Line} {line1 : Line}

/-- The lengths of longest common subsequences with longer and longer prefixes. -/
noncomputable def prefixLengths (a : List Line) : List Line → List Line → List ℕ
  | done, [] => [lcs a done]
  | done, line :: lines => lcs a done :: prefixLengths a (done ++ [line]) lines

theorem prefixLengths_eq_cons :
    prefixLengths a done lines = lcs a done :: (prefixLengths a done lines).tail := by
  cases lines <;> rfl

theorem getD_prefixLengths {i : ℕ} (h : i ≤ lines.length) :
    (prefixLengths a done lines).getD i 0 = lcs a (done ++ lines.take i) := by
  induction lines generalizing done i with
  | nil =>
    obtain rfl := Nat.le_zero.mp h
    simp [prefixLengths]
  | cons line lines ih =>
    cases i with
    | zero => simp [prefixLengths]
    | succ i =>
      rw [prefixLengths, List.getD_cons_succ, ih (Nat.le_of_succ_le_succ h), List.take_succ_cons,
        List.append_assoc, List.singleton_append]

theorem lcsRow_eq : lcs (a ++ [line1]) done ::
        lcsRow line1 (lcs (a ++ [line1]) done) lines (prefixLengths a done lines) =
      prefixLengths (a ++ [line1]) done lines := by
  induction lines generalizing done with
  | nil => rfl
  | cons line lines ih =>
    rw [prefixLengths, prefixLengths, prefixLengths_eq_cons, lcsRow, ← prefixLengths_eq_cons]
    congr 1
    rw [← ih]
    have hlen : (if linesEq line1 line then lcs a done + 1
        else max (lcs (a ++ [line1]) done) (lcs a (done ++ [line]))) =
          lcs (a ++ [line1]) (done ++ [line]) := by
      split
      case isTrue heq => rw [linesEq_iff.mp heq, lcs_concat_concat]
      case isFalse hne => rw [lcs_concat_concat_of_ne fun heq => hne (linesEq_iff.mpr heq)]
    rw [hlen]

theorem foldl_lcsRow {xs : List Line} :
    xs.foldl (fun prev line1 => prev.headD 0 :: lcsRow line1 (prev.headD 0) lines prev)
        (prefixLengths a [] lines) = prefixLengths (a ++ xs) [] lines := by
  induction xs generalizing a with
  | nil => rw [List.append_nil, List.foldl_nil]
  | cons x xs ih =>
    have hhead : (prefixLengths a [] lines).headD 0 = lcs (a ++ [x]) [] := by
      rw [prefixLengths_eq_cons, List.headD_cons, lcs_nil_right, lcs_nil_right]
    rw [List.foldl_cons, hhead, lcsRow_eq, ih, List.append_assoc, List.singleton_append]

theorem prefixLengths_nil (done : List Line) :
    prefixLengths [] done lines = List.replicate (lines.length + 1) 0 := by
  induction lines generalizing done with
  | nil => rw [prefixLengths, lcs_nil_left]; rfl
  | cons line lines ih => rw [prefixLengths, lcs_nil_left, ih]; rfl

theorem lcsLengths_eq (slice1 slice2 : Slice) (direction : Direction) :
    lcsLengths slice1 slice2 direction =
      prefixLengths (slice1.visited direction) [] (slice2.visited direction) := by
  have hlen : (slice2.visited direction).length = slice2.len := by
    cases direction <;> simp [Slice.visited]
  rw [lcsLengths, ← hlen, ← prefixLengths_nil [], foldl_lcsRow, List.nil_append]

end Lengths

/-! ### The column -/

theorem foldl_keepColumn_spec (sum : ℕ → ℤ) (is : List ℕ) (best : ℕ × ℤ) :
    best.2 ≤ (is.foldl (keepColumn sum) best).2 ∧
      (∀ i ∈ is, sum i ≤ (is.foldl (keepColumn sum) best).2) ∧
      (is.foldl (keepColumn sum) best = best ∨
        (is.foldl (keepColumn sum) best).2 = sum (is.foldl (keepColumn sum) best).1) := by
  induction is generalizing best with
  | nil => exact ⟨le_rfl, fun i hi => absurd hi List.not_mem_nil, .inl rfl⟩
  | cons i is ih =>
    obtain ⟨hbest, hall, hkept⟩ := ih (keepColumn sum best i)
    have hstep : best.2 ≤ (keepColumn sum best i).2 ∧ sum i ≤ (keepColumn sum best i).2 ∧
        (keepColumn sum best i = best ∨
          (keepColumn sum best i).2 = sum (keepColumn sum best i).1) := by
      unfold keepColumn
      split
      case isTrue hgt => exact ⟨hgt.le, le_rfl, .inr rfl⟩
      case isFalse hle => exact ⟨le_rfl, not_lt.mp hle, .inl rfl⟩
    rw [List.foldl_cons]
    refine ⟨hstep.1.trans hbest, ?_, ?_⟩
    · intro j hj
      cases List.mem_cons.mp hj with
      | inl heq => exact heq ▸ hstep.2.1.trans hbest
      | inr hmem => exact hall j hmem
    · cases hkept with
      | inl heq =>
        rw [heq]
        exact hstep.2.2
      | inr hsum => exact .inr hsum

theorem optimalColumnToSplit_optimal (top bot slice2 : Slice) {i : ℕ} (hi : i ≤ slice2.len) :
    lcs top.lines (slice2.lines.take i) + lcs bot.lines (slice2.lines.drop i) ≤
      lcs top.lines (slice2.lines.take (optimalColumnToSplit top bot slice2)) +
        lcs bot.lines (slice2.lines.drop (optimalColumnToSplit top bot slice2)) := by
  have hsum : ∀ j ≤ slice2.len,
      ((lcsLengths top slice2 .forward).getD j 0 : ℤ) +
          (lcsLengths bot slice2 .backward).getD (slice2.len - j) 0 =
        (lcs top.lines (slice2.lines.take j) + lcs bot.lines (slice2.lines.drop j) : ℕ) := by
    intro j hj
    have hlen := slice2.lines_length
    rw [lcsLengths_eq, lcsLengths_eq, Slice.visited, Slice.visited, Slice.visited, Slice.visited,
      getD_prefixLengths (by omega), getD_prefixLengths (by simp), List.nil_append,
      List.nil_append, List.take_reverse, lcs_reverse, hlen, Nat.sub_sub_self hj, Int.natCast_add]
  obtain ⟨-, hall, hkept⟩ := foldl_keepColumn_spec
    (fun j => ((lcsLengths top slice2 .forward).getD j 0 : ℤ) +
      (lcsLengths bot slice2 .backward).getD (slice2.len - j) 0)
    (List.range (slice2.len + 1)) (0, -1)
  have hi' := hall i (List.mem_range.mpr (Nat.lt_succ_of_le hi))
  have hbest := hkept.resolve_left fun heq => by
    rw [heq, hsum i hi] at hi'
    omega
  rw [hbest, hsum i hi] at hi'
  have hcolumn := hsum _ (optimalColumnToSplit_le top bot slice2)
  rw [optimalColumnToSplit] at hcolumn
  rw [hcolumn] at hi'
  exact Int.ofNat_le.mp hi'

/-! ### What stays unmarked -/

/-- The lines from `offset` on whose bits are clear. -/
def keptFrom (bits : Bits) : ℕ → List Line → List Line
  | _, [] => []
  | offset, line :: lines =>
    if bits offset then keptFrom bits (offset + 1) lines
    else line :: keptFrom bits (offset + 1) lines

def kept (bits : Bits) (s : Slice) : List Line := keptFrom bits s.offset s.lines

/-- No line of the slice is marked. -/
def Clear (bits : Bits) (s : Slice) : Prop :=
  ∀ i, s.offset ≤ i → i < s.offset + s.len → bits i = false

section Kept
variable {bits bits' : Bits} {offset : ℕ} {a b lines : List Line}

theorem keptFrom_append :
    keptFrom bits offset (a ++ b) = keptFrom bits offset a ++ keptFrom bits (offset + a.length) b := by
  induction a generalizing offset with
  | nil => rfl
  | cons line a ih =>
    have hnext : offset + (line :: a).length = offset + 1 + a.length := by
      rw [List.length_cons]
      omega
    rw [List.cons_append, keptFrom, keptFrom, ih, hnext]
    split <;> rfl

theorem keptFrom_congr (h : ∀ i, offset ≤ i → i < offset + lines.length → bits i = bits' i) :
    keptFrom bits offset lines = keptFrom bits' offset lines := by
  induction lines generalizing offset with
  | nil => rfl
  | cons line lines ih =>
    rw [List.length_cons] at h
    rw [keptFrom, keptFrom, h offset le_rfl (by omega), ih]
    intro i hi hlt
    exact h i (by omega) (by omega)

theorem keptFrom_clear (h : ∀ i, offset ≤ i → i < offset + lines.length → bits i = false) :
    keptFrom bits offset lines = lines := by
  induction lines generalizing offset with
  | nil => rfl
  | cons line lines ih =>
    rw [List.length_cons] at h
    rw [keptFrom, h offset le_rfl (by omega), ih]
    · rfl
    · intro i hi hlt
      exact h i (by omega) (by omega)

theorem keptFrom_sublist : List.Sublist (keptFrom bits offset lines) lines := by
  induction lines generalizing offset with
  | nil => exact List.Sublist.refl []
  | cons line lines ih =>
    rw [keptFrom]
    split
    · exact ih.cons line
    · exact ih.cons_cons line

theorem keptFrom_marked (h : ∀ i, offset ≤ i → i < offset + lines.length → bits i = true) :
    keptFrom bits offset lines = [] := by
  induction lines generalizing offset with
  | nil => rfl
  | cons line lines ih =>
    rw [List.length_cons] at h
    rw [keptFrom, h offset le_rfl (by omega), if_pos rfl]
    apply ih
    intro i hi hlt
    exact h i (by omega) (by omega)

end Kept

/-- A call has marked lines of the slices only, and what it left unmarked is the same in both, and
a longest common subsequence of them. -/
structure Marked (s1 s2 : Slice) (before after : Bits × Bits) : Prop where
  outside1 : ∀ i, (i < s1.offset ∨ s1.offset + s1.len ≤ i) → after.1 i = before.1 i
  outside2 : ∀ i, (i < s2.offset ∨ s2.offset + s2.len ≤ i) → after.2 i = before.2 i
  common : kept after.1 s1 = kept after.2 s2
  longest : (kept after.1 s1).length = lcs s1.lines s2.lines

section Marked
variable {s1 s2 t1 t2 : Slice} {before after : Bits × Bits}

theorem Marked.swap (h : Marked s1 s2 before after) : Marked s2 s1 before.swap after.swap where
  outside1 := h.outside2
  outside2 := h.outside1
  common := h.common.symm
  longest := by
    rw [lcs_comm]
    exact h.common ▸ h.longest

/-- Slices without a common prefix and suffix of theirs. -/
structure Trimmed (s1 s2 t1 t2 : Slice) (front back : List Line) : Prop where
  lines1 : s1.lines = front ++ t1.lines ++ back
  lines2 : s2.lines = front ++ t2.lines ++ back
  offset1 : t1.offset = s1.offset + front.length
  offset2 : t2.offset = s2.offset + front.length

theorem Trimmed.len (h : Trimmed s1 s2 t1 t2 front back) :
    s1.len = front.length + t1.len + back.length ∧
      s2.len = front.length + t2.len + back.length := by
  have h1 := congrArg List.length h.lines1
  have h2 := congrArg List.length h.lines2
  simp only [Slice.lines_length, List.length_append] at h1 h2
  exact ⟨h1, h2⟩

theorem trimFront_trimmed (s1 s2 : Slice) :
    ∃ front, Trimmed s1 s2 (trimFront s1 s2).1 (trimFront s1 s2).2 front [] := by
  induction s1, s2 using trimFront.induct with
  | case1 s1 s2 h heq ih =>
    obtain ⟨front, ht⟩ := ih
    rw [trimFront, dif_pos h, if_pos heq]
    refine ⟨s1.get 0 h.1 :: front, ?_⟩
    constructor
    · rw [Slice.lines_cons h.1, ← Slice.rest_lines h.1, ht.lines1]
      rfl
    · rw [Slice.lines_cons h.2, ← Slice.rest_lines h.2, ht.lines2, ← linesEq_iff.mp heq]
      rfl
    · rw [ht.offset1, List.length_cons]
      change s1.offset + 1 + front.length = _
      omega
    · rw [ht.offset2, List.length_cons]
      change s2.offset + 1 + front.length = _
      omega
  | case2 s1 s2 h hne =>
    rw [trimFront, dif_pos h, if_neg hne]
    exact ⟨[], by simp, by simp, rfl, rfl⟩
  | case3 s1 s2 h =>
    rw [trimFront, dif_neg h]
    exact ⟨[], by simp, by simp, rfl, rfl⟩

theorem trimBack_trimmed (s1 s2 : Slice) :
    ∃ back, Trimmed s1 s2 (trimBack s1 s2).1 (trimBack s1 s2).2 [] back := by
  induction s1, s2 using trimBack.induct with
  | case1 s1 s2 h heq ih =>
    obtain ⟨back, ht⟩ := ih
    rw [trimBack, dif_pos h, if_pos heq]
    refine ⟨back ++ [s1.get (s1.len - 1) (Nat.sub_lt h.1 Nat.one_pos)], ?_⟩
    constructor
    · rw [Slice.lines_concat h.1, ← Slice.first_lines (Nat.sub_le _ _), ht.lines1,
        List.append_assoc]
    · rw [Slice.lines_concat h.2, ← Slice.first_lines (Nat.sub_le _ _), ht.lines2,
        List.append_assoc, linesEq_iff.mp heq]
    · exact ht.offset1
    · exact ht.offset2
  | case2 s1 s2 h hne =>
    rw [trimBack, dif_pos h, if_neg hne]
    exact ⟨[], by simp, by simp, rfl, rfl⟩
  | case3 s1 s2 h =>
    rw [trimBack, dif_neg h]
    exact ⟨[], by simp, by simp, rfl, rfl⟩

theorem trimSlices_trimmed (s1 s2 : Slice) :
    ∃ front back, Trimmed s1 s2 (trimSlices s1 s2).1 (trimSlices s1 s2).2 front back := by
  obtain ⟨front, hf⟩ := trimFront_trimmed s1 s2
  obtain ⟨back, hb⟩ := trimBack_trimmed (trimFront s1 s2).1 (trimFront s1 s2).2
  refine ⟨front, back, ?_⟩
  constructor
  · rw [hf.lines1, hb.lines1, List.append_nil, List.nil_append, List.append_assoc]
    rfl
  · rw [hf.lines2, hb.lines2, List.append_nil, List.nil_append, List.append_assoc]
    rfl
  · exact hb.offset1.trans hf.offset1
  · exact hb.offset2.trans hf.offset2

theorem kept_around {t s : Slice} {front back : List Line} {bits bits' : Bits}
    (hlines : s.lines = front ++ t.lines ++ back) (hoffset : t.offset = s.offset + front.length)
    (hclear : Clear bits s)
    (houtside : ∀ i, (i < t.offset ∨ t.offset + t.len ≤ i) → bits' i = bits i) :
    kept bits' s = front ++ kept bits' t ++ back := by
  have hlen := congrArg List.length hlines
  simp only [Slice.lines_length, List.length_append] at hlen
  have hfront : keptFrom bits' s.offset front = front := by
    apply keptFrom_clear
    intro i hi hlt
    rw [houtside i (by omega)]
    exact hclear i hi (by omega)
  have hback : keptFrom bits' (s.offset + (front ++ t.lines).length) back = back := by
    rw [List.length_append, Slice.lines_length]
    apply keptFrom_clear
    intro i hi hlt
    rw [houtside i (by omega)]
    exact hclear i (by omega) (by omega)
  rw [kept, hlines, keptFrom_append, keptFrom_append, hfront, hback, kept, hoffset]

theorem Marked.of_trimmed {front back : List Line} (ht : Trimmed s1 s2 t1 t2 front back)
    (hclear1 : Clear before.1 s1) (hclear2 : Clear before.2 s2)
    (h : Marked t1 t2 before after) : Marked s1 s2 before after := by
  obtain ⟨hlen1, hlen2⟩ := ht.len
  have hoffset1 := ht.offset1
  have hoffset2 := ht.offset2
  have hkept1 := kept_around ht.lines1 ht.offset1 hclear1 h.outside1
  have hkept2 := kept_around ht.lines2 ht.offset2 hclear2 h.outside2
  constructor
  · intro i hi
    exact h.outside1 i (by omega)
  · intro i hi
    exact h.outside2 i (by omega)
  · rw [hkept1, hkept2, h.common]
  · rw [hkept1, ht.lines1, ht.lines2, lcs_append_suffix, lcs_append_prefix, ← h.longest,
      List.length_append, List.length_append]

theorem kept_parts {s : Slice} {n : ℕ} {mid last : Bits} (hn : n ≤ s.len)
    (hlast : ∀ i, (i < (s.rest n hn).offset ∨ (s.rest n hn).offset + (s.rest n hn).len ≤ i) →
      last i = mid i) : kept last s = kept mid (s.first n hn) ++ kept last (s.rest n hn) := by
  have hsplit : s.lines = (s.first n hn).lines ++ (s.rest n hn).lines := by
    rw [Slice.first_lines, Slice.rest_lines, List.take_append_drop]
  have hfirst : keptFrom last s.offset (s.first n hn).lines =
      keptFrom mid s.offset (s.first n hn).lines := by
    apply keptFrom_congr
    intro i hi hlt
    rw [Slice.lines_length] at hlt
    exact hlast i (.inl hlt)
  rw [kept, hsplit, keptFrom_append, hfirst, Slice.lines_length]
  rfl

theorem Marked.split {n m : ℕ} {mid : Bits × Bits} (hn : n ≤ s1.len) (hm : m ≤ s2.len)
    (htop : Marked (s1.first n hn) (s2.first m hm) before mid)
    (hbot : Marked (s1.rest n hn) (s2.rest m hm) mid after) (hbest : ∀ i ≤ s2.len,
      lcs (s1.first n hn).lines (s2.lines.take i) + lcs (s1.rest n hn).lines (s2.lines.drop i) ≤
        lcs (s1.first n hn).lines (s2.lines.take m) +
          lcs (s1.rest n hn).lines (s2.lines.drop m)) : Marked s1 s2 before after := by
  have hkept1 := kept_parts hn hbot.outside1
  have hkept2 := kept_parts hm hbot.outside2
  have hsplit : s1.lines = (s1.first n hn).lines ++ (s1.rest n hn).lines := by
    rw [Slice.first_lines, Slice.rest_lines, List.take_append_drop]
  have hlcs : lcs s1.lines s2.lines = lcs (s1.first n hn).lines (s2.first m hm).lines +
      lcs (s1.rest n hn).lines (s2.rest m hm).lines := by
    rw [hsplit, Slice.first_lines hm, Slice.rest_lines hm]
    exact lcs_split fun i hi => hbest i (s2.lines_length ▸ hi)
  constructor
  · intro i hi
    have hrest : (s1.rest n hn).offset = s1.offset + n ∧ (s1.rest n hn).len = s1.len - n :=
      ⟨rfl, rfl⟩
    have hfirst : (s1.first n hn).offset = s1.offset ∧ (s1.first n hn).len = n := ⟨rfl, rfl⟩
    rw [hbot.outside1 i (by omega), htop.outside1 i (by omega)]
  · intro i hi
    have hrest : (s2.rest m hm).offset = s2.offset + m ∧ (s2.rest m hm).len = s2.len - m :=
      ⟨rfl, rfl⟩
    have hfirst : (s2.first m hm).offset = s2.offset ∧ (s2.first m hm).len = m := ⟨rfl, rfl⟩
    rw [hbot.outside2 i (by omega), htop.outside2 i (by omega)]
  · rw [hkept1, hkept2, htop.common, hbot.common]
  · rw [hkept1, List.length_append, htop.longest, hbot.longest, hlcs]

end Marked

/-! ### Short slices -/

section Short
variable {s1 s2 : Slice} {changed1 changed2 bits : Bits} {toskip : Option ℕ}

theorem foldl_bitarraySet {is : List ℕ} {j : ℕ} :
    is.foldl (fun changed i => if some i = toskip then changed else bitarraySet changed i) bits j =
      if j ∈ is ∧ some j ≠ toskip then true else bits j := by
  induction is generalizing bits with
  | nil => simp
  | cons i is ih =>
    rw [List.foldl_cons, ih]
    by_cases hj : j ∈ is ∧ some j ≠ toskip
    · rw [if_pos hj, if_pos ⟨List.mem_cons_of_mem i hj.1, hj.2⟩]
    · rw [if_neg hj]
      by_cases hskip : some i = toskip
      · rw [if_pos hskip, if_neg]
        rintro ⟨hmem, hne⟩
        cases List.mem_cons.mp hmem with
        | inl heq => exact hne (heq ▸ hskip)
        | inr hmem => exact hj ⟨hmem, hne⟩
      · rw [if_neg hskip, bitarraySet, Function.update_apply]
        by_cases hji : j = i
        · rw [if_pos hji, if_pos ⟨hji ▸ List.mem_cons_self, hji ▸ hskip⟩]
        · rw [if_neg hji, if_neg]
          rintro ⟨hmem, hne⟩
          exact hj ⟨(List.mem_cons.mp hmem).resolve_left hji, hne⟩

theorem setAllBut_apply {j : ℕ} : setAllBut s2 toskip bits j =
      if (s2.offset ≤ j ∧ j < s2.offset + s2.len) ∧ some j ≠ toskip then true else bits j := by
  rw [setAllBut, foldl_bitarraySet]
  simp

theorem setAllBut_outside {j : ℕ} (h : j < s2.offset ∨ s2.offset + s2.len ≤ j) :
    setAllBut s2 toskip bits j = bits j := by
  rw [setAllBut_apply, if_neg]
  omega

theorem kept_setAllBut_none : kept (setAllBut s2 none bits) s2 = [] := by
  apply keptFrom_marked
  intro i hi hlt
  rw [Slice.lines_length] at hlt
  rw [setAllBut_apply, if_pos ⟨⟨hi, hlt⟩, nofun⟩]

theorem kept_setAllBut_some {k : ℕ} (hk : k < s2.len) (hclear : Clear bits s2) :
    kept (setAllBut s2 (some (s2.offset + k)) bits) s2 = [s2.get k hk] := by
  obtain ⟨hklen, hget⟩ := List.getElem?_eq_some_iff.mp (Slice.getElem?_lines hk)
  have hsplit : s2.lines = s2.lines.take k ++ ([s2.get k hk] ++ s2.lines.drop (k + 1)) := by
    rw [← hget, List.singleton_append, ← List.drop_eq_getElem_cons hklen, List.take_append_drop]
  have hlen : (s2.lines.take k).length = k := by
    rw [List.length_take, Slice.lines_length, Nat.min_eq_left hk.le]
  have hmarked : ∀ i, s2.offset ≤ i → i < s2.offset + s2.len → i ≠ s2.offset + k →
      setAllBut s2 (some (s2.offset + k)) bits i = true := by
    intro i hi hlt hne
    rw [setAllBut_apply, if_pos ⟨⟨hi, hlt⟩, fun heq => hne (Option.some.inj heq)⟩]
  have hskipped : setAllBut s2 (some (s2.offset + k)) bits (s2.offset + k) = false := by
    rw [setAllBut_apply, if_neg fun h => h.2 rfl]
    exact hclear _ (by omega) (by omega)
  have hbefore : keptFrom (setAllBut s2 (some (s2.offset + k)) bits) s2.offset
      (s2.lines.take k) = [] := by
    apply keptFrom_marked
    intro i hi hlt
    rw [hlen] at hlt
    exact hmarked i hi (by omega) (by omega)
  have hafter : keptFrom (setAllBut s2 (some (s2.offset + k)) bits) (s2.offset + k + 1)
      (s2.lines.drop (k + 1)) = [] := by
    apply keptFrom_marked
    intro i hi hlt
    rw [List.length_drop, Slice.lines_length] at hlt
    exact hmarked i (by omega) (by omega) (by omega)
  rw [kept, hsplit, keptFrom_append, hbefore, hlen, keptFrom_append, List.nil_append, keptFrom,
    hskipped, keptFrom, List.length_singleton, hafter]
  rfl

theorem Slice.lines_of_len_one (h : s1.len = 1) : s1.lines = [s1.get 0 (h ▸ Nat.one_pos)] := by
  have hpos : 0 < s1.len := h ▸ Nat.one_pos
  rw [Slice.lines_cons hpos, List.drop_of_length_le (by rw [Slice.lines_length, h])]

theorem setChanged_marked (hone : s1.len ≤ 1) (hclear1 : Clear changed1 s1)
    (hclear2 : Clear changed2 s2) :
    Marked s1 s2 (changed1, changed2) (setChanged changed1 changed2 s1 s2) := by
  unfold setChanged
  split
  case isFalse hne =>
    have hnil : s1.lines = [] := by
      apply List.eq_nil_of_length_eq_zero
      rw [Slice.lines_length]
      omega
    have hkept1 : kept changed1 s1 = [] := by rw [kept, hnil]; rfl
    constructor
    · exact fun i _ => rfl
    · exact fun i hi => setAllBut_outside hi
    · rw [hkept1, kept_setAllBut_none]
    · rw [hkept1, hnil, lcs_nil_left]
      rfl
  case isTrue hlen =>
    have hlines := Slice.lines_of_len_one hlen
    cases hpos : smartlistSliceStringPos s2 (s1.get 0 (hlen ▸ Nat.one_pos)) with
    | none =>
      have hnone : s1.get 0 (hlen ▸ Nat.one_pos) ∉ s2.lines := by
        intro hmem
        rw [smartlistSliceStringPos, Option.map_eq_none_iff, List.findIdx?_eq_none_iff] at hpos
        have hne := hpos _ hmem
        rw [linesEq_iff.mpr rfl] at hne
        exact Bool.noConfusion hne
      have hset : bitarraySet changed1 s1.offset s1.offset = true := Function.update_self ..
      have hkept1 : kept (bitarraySet changed1 s1.offset) s1 = [] := by
        rw [kept, hlines, keptFrom, if_pos hset]
        rfl
      simp only [if_true]
      constructor
      · intro i hi
        exact Function.update_of_ne (by omega) ..
      · exact fun i hi => setAllBut_outside hi
      · rw [hkept1, kept_setAllBut_none]
      · rw [hkept1, hlines, lcs_singleton_of_notMem hnone]
        rfl
    | some p =>
      rw [smartlistSliceStringPos, Option.map_eq_some_iff] at hpos
      obtain ⟨k, hfind, rfl⟩ := hpos
      obtain ⟨hk, heq, -⟩ := List.findIdx?_eq_some_iff_getElem.mp hfind
      have hklen : k < s2.len := by rwa [Slice.lines_length] at hk
      have hget : s2.get k hklen = s1.get 0 (hlen ▸ Nat.one_pos) := by
        have h := Slice.getElem?_lines hklen
        rw [List.getElem?_eq_getElem hk, Option.some.injEq] at h
        rw [← h, linesEq_iff.mp heq]
      have hkept1 : kept changed1 s1 = [s1.get 0 (hlen ▸ Nat.one_pos)] := by
        rw [kept, keptFrom_clear, hlines]
        intro i hi hlt
        rw [Slice.lines_length] at hlt
        exact hclear1 i hi hlt
      simp only [reduceCtorEq, if_false]
      constructor
      · exact fun i _ => rfl
      · exact fun i hi => setAllBut_outside hi
      · rw [hkept1, kept_setAllBut_some hklen hclear2, hget]
      · have hmem : s1.get 0 (hlen ▸ Nat.one_pos) ∈ s2.lines := by
          rw [← hget]
          exact List.mem_of_getElem? (Slice.getElem?_lines hklen)
        rw [hkept1, hlines, lcs_singleton_of_mem hmem]
        rfl

end Short

/-! ### The whole call -/

theorem Clear.mono {bits bits' : Bits} {s t : Slice} (h : Clear bits s)
    (hoffset : s.offset ≤ t.offset) (hend : t.offset + t.len ≤ s.offset + s.len)
    (hsame : ∀ i, t.offset ≤ i → i < t.offset + t.len → bits' i = bits i) : Clear bits' t := by
  intro i hi hlt
  rw [hsame i hi hlt]
  exact h i (by omega) (by omega)

theorem calcChanges_marked (s1 s2 : Slice) (changed1 changed2 : Bits)
    (hclear1 : Clear changed1 s1) (hclear2 : Clear changed2 s2) :
    Marked s1 s2 (changed1, changed2) (calcChanges s1 s2 changed1 changed2) := by
  obtain ⟨front, back, ht⟩ := trimSlices_trimmed s1 s2
  obtain ⟨hlen1, hlen2⟩ := ht.len
  have hoffset1 := ht.offset1
  have hoffset2 := ht.offset2
  have ht1 : Clear changed1 (trimSlices s1 s2).1 :=
    hclear1.mono (by omega) (by omega) fun _ _ _ => rfl
  have ht2 : Clear changed2 (trimSlices s1 s2).2 :=
    hclear2.mono (by omega) (by omega) fun _ _ _ => rfl
  -- Both halves of a trimmed slice are shorter than the slice.
  have hhalves : ∀ t1 t2 : Slice, ¬ t1.len ≤ 1 → t1.len ≤ s1.len → Clear changed1 t1 →
      Clear changed2 t2 → ∀ (hmid : t1.len / 2 ≤ t1.len)
      (hcolumn : optimalColumnToSplit (t1.first _ hmid) (t1.rest _ hmid) t2 ≤ t2.len),
      Marked t1 t2 (changed1, changed2)
        (calcChanges (t1.rest _ hmid) (t2.rest _ hcolumn)
          (calcChanges (t1.first _ hmid) (t2.first _ hcolumn) changed1 changed2).1
          (calcChanges (t1.first _ hmid) (t2.first _ hcolumn) changed1 changed2).2) := by
    intro t1 t2 hlong hle ht1 ht2 hmid hcolumn
    have htop := calcChanges_marked (t1.first _ hmid) (t2.first _ hcolumn) changed1 changed2
      (ht1.mono le_rfl (Nat.add_le_add_left hmid _) fun _ _ _ => rfl)
      (ht2.mono le_rfl (Nat.add_le_add_left hcolumn _) fun _ _ _ => rfl)
    have hrest1 : (t1.rest _ hmid).offset + (t1.rest _ hmid).len = t1.offset + t1.len := by
      change t1.offset + t1.len / 2 + (t1.len - t1.len / 2) = _
      omega
    have hrest2 : (t2.rest _ hcolumn).offset + (t2.rest _ hcolumn).len = t2.offset + t2.len := by
      change t2.offset + _ + (t2.len - _) = _
      omega
    have hbot := calcChanges_marked (t1.rest _ hmid) (t2.rest _ hcolumn)
      (calcChanges (t1.first _ hmid) (t2.first _ hcolumn) changed1 changed2).1
      (calcChanges (t1.first _ hmid) (t2.first _ hcolumn) changed1 changed2).2
      (ht1.mono (Nat.le_add_right _ _) hrest1.le fun i hi _ => htop.outside1 i (.inr hi))
      (ht2.mono (Nat.le_add_right _ _) hrest2.le fun i hi _ => htop.outside2 i (.inr hi))
    exact htop.split hmid hcolumn hbot fun i hi => optimalColumnToSplit_optimal _ _ _ hi
  apply Marked.of_trimmed ht hclear1 hclear2
  unfold calcChanges
  dsimp only
  split
  case isTrue hone => exact setChanged_marked hone ht1 ht2
  case isFalse hlong =>
    split
    case isTrue hone =>
      have hmarked := setChanged_marked hone ht2 ht1
      exact hmarked.swap
    case isFalse => exact hhalves _ _ hlong (trimSlices_len_le s1 s2) ht1 ht2 _ _
termination_by s1.len
decreasing_by
  · change t1.len / 2 < s1.len
    omega
  · change t1.len - t1.len / 2 < s1.len
    omega

/-- `calc_changes` marks lines of its slices only. What it leaves unmarked is one common
subsequence of both, and no common subsequence is longer. -/
theorem calc_changes_longest (slice1 slice2 : Slice) (changed1 changed2 : Bits)
    (hclear1 : Clear changed1 slice1) (hclear2 : Clear changed2 slice2) :
    (∀ i, (i < slice1.offset ∨ slice1.offset + slice1.len ≤ i) →
      (calcChanges slice1 slice2 changed1 changed2).1 i = changed1 i) ∧
    (∀ i, (i < slice2.offset ∨ slice2.offset + slice2.len ≤ i) →
      (calcChanges slice1 slice2 changed1 changed2).2 i = changed2 i) ∧
    kept (calcChanges slice1 slice2 changed1 changed2).1 slice1 =
      kept (calcChanges slice1 slice2 changed1 changed2).2 slice2 ∧
    (kept (calcChanges slice1 slice2 changed1 changed2).1 slice1).Sublist slice1.lines ∧
    (kept (calcChanges slice1 slice2 changed1 changed2).2 slice2).Sublist slice2.lines ∧
    ∀ common : List Line, common.Sublist slice1.lines → common.Sublist slice2.lines →
      common.length ≤ (kept (calcChanges slice1 slice2 changed1 changed2).1 slice1).length := by
  have h := calcChanges_marked slice1 slice2 changed1 changed2 hclear1 hclear2
  refine ⟨h.outside1, h.outside2, h.common, keptFrom_sublist, keptFrom_sublist,
    fun common h1 h2 => ?_⟩
  rw [h.longest]
  exact le_lcs h1 h2

/-- Three lines and five, from the second one of their lists on. -/
theorem calc_changes_longest_three_five : (kept (calcChanges ⟨[[0], [1], [2], [3]], 1, 3, by decide⟩
        ⟨[[0], [3], [1], [4], [3], [2]], 1, 5, by decide⟩ (fun _ => false) fun _ => false).1
      ⟨[[0], [1], [2], [3]], 1, 3, by decide⟩) =
    kept (calcChanges ⟨[[0], [1], [2], [3]], 1, 3, by decide⟩
        ⟨[[0], [3], [1], [4], [3], [2]], 1, 5, by decide⟩ (fun _ => false) fun _ => false).2
      ⟨[[0], [3], [1], [4], [3], [2]], 1, 5, by decide⟩ :=
  (calc_changes_longest _ _ _ _ (fun _ _ _ => rfl) fun _ _ _ => rfl).2.2.1

end TorDaemon.ConsDiff
