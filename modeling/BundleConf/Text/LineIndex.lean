import BundleConf.Text.Offset

/-!
# The index of lines

To tell the line of an offset, a text is indexed by the offsets at which its lines start: at its beginning, and after
every line feed.  They increase, so the line of an offset is found by halving (`partitionPoint`): it is the last one
that starts at or before the offset.  `slice?` is the piece of a text between two offsets, if there is one.

Where a text is cut in two, the lines that start at or before the cut are the first one and those after the line feeds
of the first part (`lineStarts_append`).
-/

namespace BundleConf.Text

/-! ### Halving -/

/-- Halves a range of indices until nothing is left of it, and keeps the half in which the predicate turns false. -/
def bisect (p : Nat → Bool) (low high : Nat) : Nat :=
  if low < high then
    let middle := (low + high) / 2
    if p middle then bisect p (middle + 1) high else bisect p low middle
  else low
termination_by high - low

/-- The number of elements that satisfy the predicate, in an array in which they come first. -/
def partitionPoint {α : Type} (p : α → Bool) (xs : Array α) : Nat :=
  bisect (fun i => xs[i]?.any p) 0 xs.size

/-- Halving finds the index before which the predicate is true and from which on it is false. -/
theorem bisect_eq {p : Nat → Bool} {low high point : Nat} (hlow : low ≤ point) (hhigh : point ≤ high)
    (before : ∀ i, i < point → p i = true) (after : ∀ i, point ≤ i → i < high → p i = false) :
    bisect p low high = point := by
  fun_induction bisect p low high with
  | case1 low high hlt middle hp ih =>
    -- the predicate is true in the middle, so the point comes later
    have hmiddle : middle < point := Nat.lt_of_not_le fun hle => by
      have hfalse := after middle hle (by omega)
      simp [hp] at hfalse
    exact ih (by omega) hhigh after
  | case2 low high hlt middle hp ih =>
    have hmiddle : point ≤ middle := Nat.le_of_not_lt fun hgt => hp (before middle hgt)
    exact ih hlow hmiddle fun i hi hlt => after i hi (by omega)
  | case3 low high hge => omega

theorem partitionPoint_append {α : Type} {p : α → Bool} {front back : List α} (hfront : ∀ x ∈ front, p x = true)
    (hback : ∀ x ∈ back, p x = false) : partitionPoint p (front ++ back).toArray = front.length := by
  refine bisect_eq (Nat.zero_le _) (by simp) (fun i hi => ?_) fun i hi hsize => ?_
  · have hget : (front ++ back).toArray[i]? = some front[i] := by
      rw [List.getElem?_toArray, List.getElem?_append_left hi, List.getElem?_eq_getElem hi]
    rw [hget, Option.any_some]
    exact hfront _ (List.getElem_mem hi)
  · have hlt : i - front.length < back.length := by
      rw [List.size_toArray, List.length_append] at hsize
      omega
    have hget : (front ++ back).toArray[i]? = some back[i - front.length] := by
      rw [List.getElem?_toArray, List.getElem?_append_right hi, List.getElem?_eq_getElem hlt]
    rw [hget, Option.any_some]
    exact hback _ (List.getElem_mem hlt)

/-! ### Where lines start -/

/-- The offsets after the line feeds of a text that starts at the given offset. -/
def lineStartsFrom : (offset : Nat) → List Char → List Nat
  | _, [] => []
  | offset, c :: cs =>
    if c = '\n' then (offset + 1) :: lineStartsFrom (offset + 1) cs else lineStartsFrom (offset + c.utf8Size) cs

/-- The offsets at which the lines of a text start. -/
def lineStarts (cs : List Char) : Array Nat :=
  (0 :: lineStartsFrom 0 cs).toArray

theorem lineStartsFrom_cons (offset : Nat) (c : Char) (cs : List Char) : lineStartsFrom offset (c :: cs) =
    (if c = '\n' then [offset + c.utf8Size] else []) ++ lineStartsFrom (offset + c.utf8Size) cs := by
  rw [lineStartsFrom]
  split
  · subst c
    rfl
  · rfl

theorem lineStartsFrom_append (offset : Nat) (cs ds : List Char) : lineStartsFrom offset (cs ++ ds) =
    lineStartsFrom offset cs ++ lineStartsFrom (offset + byteLength cs) ds := by
  induction cs generalizing offset with
  | nil => rfl
  | cons c cs ih =>
    rw [List.cons_append, lineStartsFrom_cons, ih, lineStartsFrom_cons, List.append_assoc, byteLength_cons,
      Nat.add_assoc]

/-- A line starts after each line feed. -/
theorem length_lineStartsFrom (offset : Nat) (cs : List Char) : (lineStartsFrom offset cs).length = cs.count '\n' := by
  induction cs generalizing offset with
  | nil => rfl
  | cons c cs ih =>
    rw [lineStartsFrom_cons, List.length_append, ih, List.count_cons]
    by_cases hc : c = '\n'
    · simp [hc, Nat.add_comm]
    · simp [hc]

theorem lt_of_mem_lineStartsFrom {offset start : Nat} {cs : List Char} (h : start ∈ lineStartsFrom offset cs) :
    offset < start ∧ start ≤ offset + byteLength cs := by
  induction cs generalizing offset with
  | nil => simp [lineStartsFrom] at h
  | cons c cs ih =>
    have hpos := c.utf8Size_pos
    rw [byteLength_cons]
    rw [lineStartsFrom_cons, List.mem_append] at h
    rcases h with h | h
    · have hstart : start = offset + c.utf8Size := by
        split at h <;> simp_all
      omega
    · have := ih h
      omega

/-- Where a text is cut in two, the lines that start at or before the cut are the first one and those after the line
feeds of the first part. -/
theorem lineStarts_append (cs ds : List Char) :
    partitionPoint (· ≤ byteLength cs) (lineStarts (cs ++ ds)) = cs.count '\n' + 1 ∧
      (lineStarts (cs ++ ds))[cs.count '\n']? = (0 :: lineStartsFrom 0 cs).getLast? := by
  have hsplit : lineStarts (cs ++ ds) = ((0 :: lineStartsFrom 0 cs) ++ lineStartsFrom (byteLength cs) ds).toArray := by
    rw [lineStarts, lineStartsFrom_append, Nat.zero_add]
    rfl
  have hlength : (0 :: lineStartsFrom 0 cs).length = cs.count '\n' + 1 := by
    rw [List.length_cons, length_lineStartsFrom]
  rw [hsplit]
  constructor
  · rw [partitionPoint_append, hlength]
    · intro start hstart
      rcases List.mem_cons.1 hstart with rfl | hstart
      · simp
      · have := (lt_of_mem_lineStartsFrom hstart).2
        simpa using this
    · intro start hstart
      have := (lt_of_mem_lineStartsFrom hstart).1
      simpa using this
  · rw [List.getElem?_toArray, List.getElem?_append_left (by omega), List.getLast?_eq_getElem?, hlength,
      Nat.add_sub_cancel]

/-! ### Pieces -/

/-- The piece of a text between two offsets, unless the second comes before the first or after the end, or one of them
lies inside a character. -/
def slice? (start stop : Nat) (cs : List Char) : Option (List Char) :=
  if start ≤ stop ∧ stop ≤ byteLength cs ∧ isBoundary start cs = true ∧ isBoundary stop cs = true then
    some (beyond start (within stop cs))
  else none

theorem slice?_append (front piece back : List Char) :
    slice? (byteLength front) (byteLength (front ++ piece)) (front ++ piece ++ back) = some piece := by
  have hle : byteLength front ≤ byteLength (front ++ piece) := by simp
  have hstop : byteLength (front ++ piece) ≤ byteLength (front ++ piece ++ back) := by simp
  have hstart : isBoundary (byteLength front) (front ++ piece ++ back) = true :=
    isBoundary_iff.2 ⟨front, piece ++ back, by rw [List.append_assoc], (Nat.min_eq_left (Nat.le_trans hle hstop)).symm⟩
  have hend : isBoundary (byteLength (front ++ piece)) (front ++ piece ++ back) = true :=
    isBoundary_iff.2 ⟨front ++ piece, back, rfl, (Nat.min_eq_left hstop).symm⟩
  rw [slice?, if_pos ⟨hle, hstop, hstart, hend⟩, within_append, beyond_append]

theorem slice?_eq_none {start stop : Nat} {cs : List Char}
    (h : isBoundary start cs = false ∨ isBoundary stop cs = false) : slice? start stop cs = none := by
  rw [slice?, if_neg]
  rintro ⟨-, -, hstart, hstop⟩
  simp [hstart, hstop] at h

end BundleConf.Text
