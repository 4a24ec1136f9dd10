import BundleConf.Report.Render

/-!
# Two ways to count lines

The head of a report names a line and a column in the lines of `Text.lines`, while the location of an error is told by
line feeds alone.  Both can be counted along the text before the place: the report goes on to the next line after the
characters of `Text.breaksLine`, which depend on what comes next (`Report.Label.position_eq_shown`), the location after
line feeds.  The two agree on a place exactly if they agree on every character before it (`Report.shown_eq_after_iff`).
For a report that has come to a later line stays ahead; only a line feed at the end of the text could make up for it,
since no line comes after it in a report, but there the report counts one column more, and the location starts a line.
-/

namespace BundleConf

namespace Text

/-! ### Where a line ends -/

/-- Whether a report goes on to the next line after the character, where `rest` comes next: it ends a line, but does not
end the text and does not belong to a line feed. -/
def breaksLine (c : Char) (rest : List Char) : Bool :=
  endsLine c && !rest.isEmpty && !(c == '\r' && rest.head? == some '\n')

theorem breaksLine_iff {c : Char} {rest : List Char} : breaksLine c rest = true ↔
    endsLine c = true ∧ rest ≠ [] ∧ ¬ (c = '\r' ∧ rest.head? = some '\n') := by
  rw [breaksLine, Bool.and_eq_true, Bool.and_eq_true, Bool.not_eq_true', Bool.not_eq_true', Bool.eq_false_iff,
    Bool.eq_false_iff, and_assoc, ne_eq, ne_eq, List.isEmpty_iff, Bool.and_eq_true, beq_iff_eq, beq_iff_eq]

/-- A character is a line of its own if it breaks the line, and otherwise belongs to the line that comes next. -/
theorem lines_cons (c : Char) (cs : List Char) : lines (c :: cs) =
    if breaksLine c cs then [c] :: lines cs else (c :: (lines cs).headD []) :: (lines cs).tail := by
  by_cases hcrlf : c = '\r' ∧ cs.head? = some '\n'
  · have hjoined : ¬ breaksLine c cs = true := fun h => (breaksLine_iff.1 h).2.2 hcrlf
    obtain ⟨rfl, hhead⟩ := hcrlf
    obtain ⟨cs, rfl⟩ := List.head?_eq_some_iff.1 hhead
    have hlf : lines ('\n' :: cs) = ['\n'] :: lines cs := lines.eq_3 '\n' cs (by simp)
    rw [if_neg hjoined, hlf, lines, List.headD_cons, List.tail_cons]
  · rw [lines.eq_3 c cs fun rest hc hcs => hcrlf ⟨hc, by rw [hcs]; rfl⟩]
    cases cs with
    | nil =>
      have hlast : ¬ breaksLine c [] = true := fun h => (breaksLine_iff.1 h).2.1 rfl
      rw [if_neg hlast]
      split <;> rfl
    | cons d cs =>
      have hends : breaksLine c (d :: cs) = endsLine c := by
        rw [Bool.eq_iff_iff, breaksLine_iff]
        exact ⟨fun h => h.1, fun h => ⟨h, List.cons_ne_nil d cs, hcrlf⟩⟩
      rw [hends]
      cases lines (d :: cs) <;> rfl

theorem exists_lines_cons (c : Char) (cs : List Char) : ∃ line rest, lines (c :: cs) = (c :: line) :: rest := by
  rw [lines_cons]
  split <;> exact ⟨_, _, rfl⟩

theorem lines_eq_nil_iff {cs : List Char} : lines cs = [] ↔ cs = [] := by
  refine ⟨fun h => ?_, fun h => h ▸ rfl⟩
  rw [← flatten_lines cs, h, List.flatten_nil]

/-! ### The line of an offset -/

variable {line : List Char} {rest : List (List Char)} {offset : Nat}

theorem startsFrom_add (k start : Nat) (lines : List (List Char)) :
    startsFrom (k + start) lines = (startsFrom start lines).map (k + ·) := by
  induction lines generalizing start with
  | nil => rfl
  | cons line rest ih => rw [startsFrom, startsFrom, List.map_cons, Nat.add_assoc, ih]

theorem le_of_mem_startsFrom {start : Nat} {lines : List (List Char)} (h : offset ∈ startsFrom start lines) :
    start ≤ offset := by
  induction lines generalizing start with
  | nil => simp [startsFrom] at h
  | cons line rest ih =>
    rw [startsFrom] at h
    rcases List.mem_cons.1 h with rfl | h
    · exact Nat.le_refl _
    · exact Nat.le_trans (Nat.le_add_right _ _) (ih h)

private theorem lineOf_cons (line : List Char) (rest : List (List Char)) (offset : Nat) :
    lineOf (line :: rest) offset = ((startsFrom line.length rest).filter (· ≤ offset)).length := by
  rw [lineOf, startsFrom, Nat.zero_add, List.filter_cons_of_pos (by simp), List.length_cons, Nat.add_sub_cancel]

/-- An offset in the first line, or after the only one. -/
theorem lineOf_of_first (h : rest ≠ [] → offset < line.length) : lineOf (line :: rest) offset = 0 := by
  rw [lineOf_cons]
  cases rest with
  | nil => rfl
  | cons line' rest =>
    rw [List.length_eq_zero_iff, List.filter_eq_nil_iff]
    intro start hstart
    have hlt := h (by simp)
    have hle := le_of_mem_startsFrom hstart
    simp only [decide_eq_true_eq]
    omega

/-- An offset after the first line. -/
theorem lineOf_of_later (hrest : rest ≠ []) (h : line.length ≤ offset) :
    lineOf (line :: rest) offset = lineOf rest (offset - line.length) + 1 := by
  obtain ⟨k, rfl⟩ := Nat.exists_eq_add_of_le h
  obtain ⟨line', rest, rfl⟩ := List.exists_cons_of_ne_nil hrest
  have shifted : (fun start => decide (start ≤ line.length + k)) ∘ (line.length + ·) =
      fun start => decide (start ≤ k) := by
    funext start
    simp
  have first : (startsFrom 0 (line' :: rest)).filter (· ≤ k) = 0 :: (startsFrom line'.length rest).filter (· ≤ k) := by
    rw [startsFrom, Nat.zero_add, List.filter_cons_of_pos (by simp)]
  have shift := startsFrom_add line.length 0 (line' :: rest)
  rw [Nat.add_zero] at shift
  rw [lineOf_cons, shift, List.filter_map, List.length_map, shifted, lineOf_cons, Nat.add_sub_cancel_left, first,
    List.length_cons]

theorem startOf_succ (line : List Char) (rest : List (List Char)) (number : Nat) :
    startOf (line :: rest) (number + 1) = line.length + startOf rest number := by
  rw [startOf, startOf, List.take_succ_cons, List.flatten_cons, List.length_append]

end Text

namespace Report

/-! ### The position that a report names -/

/-- The position of an offset in some lines, the first of which is entered at the position `p`. -/
def positionFrom (p : Position) : List (List Char) → Nat → Position
  | [], offset => ⟨p.line, p.column + offset⟩
  | line :: rest, offset =>
    if rest ≠ [] ∧ line.length ≤ offset then positionFrom ⟨p.line + 1, 1⟩ rest (offset - line.length)
    else ⟨p.line, p.column + offset⟩

private theorem positionFrom_eq (p : Position) (lines : List (List Char)) (offset : Nat) :
    positionFrom p lines offset = ⟨p.line + Text.lineOf lines offset,
      if Text.lineOf lines offset = 0 then p.column + offset
      else offset - Text.startOf lines (Text.lineOf lines offset) + 1⟩ := by
  induction lines generalizing p offset with
  | nil => rfl
  | cons line rest ih =>
    rw [positionFrom]
    split
    · rename_i h
      obtain ⟨hrest, hle⟩ := h
      rw [ih, Text.lineOf_of_later hrest hle, Text.startOf_succ, if_neg (Nat.succ_ne_zero _), Position.mk.injEq]
      refine ⟨by simp only; omega, ?_⟩
      split
      · rename_i hzero
        rw [hzero, Text.startOf]
        simp [Nat.add_comm]
      · omega
    · rename_i h
      have first : Text.lineOf (line :: rest) offset = 0 := by
        refine Text.lineOf_of_first fun hrest => ?_
        have := mt (And.intro hrest) h
        omega
      rw [first, if_pos rfl, Nat.add_zero]

theorem Label.position_eq_positionFrom (label : Label) (lines : List (List Char)) :
    label.position lines = positionFrom ⟨1, 1⟩ lines label.start := by
  rw [positionFrom_eq, Label.position, Position.mk.injEq]
  refine ⟨Nat.add_comm _ _, ?_⟩
  split
  · rename_i hzero
    rw [hzero, Text.startOf]
    simp [Nat.add_comm]
  · rfl

/-- At its start a line is entered where it is entered. -/
private theorem positionFrom_zero (p : Position) (c : Char) (line : List Char) (rest : List (List Char)) :
    positionFrom p ((c :: line) :: rest) 0 = p := by
  simp [positionFrom]

/-- After its first character a line is entered one column further on. -/
private theorem positionFrom_succ (p : Position) (c : Char) (line : List Char) (rest : List (List Char))
    (offset : Nat) : positionFrom p ((c :: line) :: rest) (offset + 1) =
      positionFrom ⟨p.line, p.column + 1⟩ (line :: rest) offset := by
  rw [positionFrom, positionFrom, List.length_cons, Nat.add_sub_add_right]
  simp only [Nat.add_le_add_iff_right]
  rw [Nat.add_assoc, Nat.add_comm 1]

/-- The position in a report after `front`, where `back` comes next in the text, counted from the position `p`. -/
def shown (p : Position) : (front back : List Char) → Position
  | [], _ => p
  | c :: front, back =>
    shown (if Text.breaksLine c (front ++ back) then ⟨p.line + 1, 1⟩ else ⟨p.line, p.column + 1⟩) front back

private theorem positionFrom_lines (p : Position) (front back : List Char) :
    positionFrom p (Text.lines (front ++ back)) front.length = shown p front back := by
  induction front generalizing p with
  | nil =>
    rw [List.nil_append, List.length_nil, shown]
    cases back with
    | nil => rfl
    | cons c back =>
      obtain ⟨line, rest, hlines⟩ := Text.exists_lines_cons c back
      rw [hlines, positionFrom_zero]
  | cons c front ih =>
    rw [List.cons_append, List.length_cons, shown, Text.lines_cons]
    cases hbreaks : Text.breaksLine c (front ++ back) with
    | true =>
      have hrest : Text.lines (front ++ back) ≠ [] := mt Text.lines_eq_nil_iff.1 (Text.breaksLine_iff.1 hbreaks).2.1
      rw [if_pos rfl, if_pos rfl, positionFrom, if_pos ⟨hrest, by simp⟩]
      exact ih _
    | false =>
      rw [if_neg Bool.false_ne_true, if_neg Bool.false_ne_true, ← ih, positionFrom_succ]
      cases hlines : Text.lines (front ++ back) with
      | nil =>
        obtain ⟨rfl, rfl⟩ := List.append_eq_nil_iff.1 (Text.lines_eq_nil_iff.1 hlines)
        rfl
      | cons line rest => rfl

/-- A report counts the position of a label along the text before it. -/
theorem Label.position_eq_shown {label : Label} {front back : List Char} (h : label.start = front.length) :
    label.position (Text.lines (front ++ back)) = shown ⟨1, 1⟩ front back := by
  rw [label.position_eq_positionFrom, h, positionFrom_lines]

/-! ### Where the two ways agree -/

/-- In a text in which `back` comes after `front`, the lines of a report are those between line feeds as far as
`back`. -/
structure CountsAlike (front back : List Char) : Prop where
  /-- A character that ends a line is a line feed, or a carriage return that belongs to one, or the last of the text. -/
  endings : ∀ before c after, front = before ++ c :: after → Text.endsLine c = true →
    c = '\n' ∨ c = '\r' ∧ (after ++ back).head? = some '\n' ∨ after ++ back = []
  /-- What ends the text is no line feed, since a report has no line after it. -/
  unfinished : back = [] → front.getLast? ≠ some '\n'

/-- Whether a report goes on to the next line just after the line feeds of `front`, where `back` comes next. -/
def countsAlike : (front back : List Char) → Bool
  | [], _ => true
  | c :: front, back => (Text.breaksLine c (front ++ back) == (c == '\n')) && countsAlike front back

variable {front back : List Char}

theorem countsAlike_iff_forall : countsAlike front back = true ↔ ∀ before c after, front = before ++ c :: after →
    (Text.breaksLine c (after ++ back) = true ↔ c = '\n') := by
  induction front with
  | nil => simp [countsAlike]
  | cons d front ih =>
    rw [countsAlike, Bool.and_eq_true, ih, beq_iff_eq, Bool.eq_iff_iff, beq_iff_eq]
    constructor
    · rintro ⟨hfirst, hlater⟩ before c after h
      rcases List.cons_eq_append_iff.1 h with ⟨rfl, hcons⟩ | ⟨before, rfl, hfront⟩
      · obtain ⟨rfl, rfl⟩ := List.cons.inj hcons
        exact hfirst
      · exact hlater before c after hfront
    · intro h
      exact ⟨h [] d front rfl, fun before c after hfront => h (d :: before) c after (by rw [hfront]; rfl)⟩

theorem countsAlike_iff : countsAlike front back = true ↔ CountsAlike front back := by
  rw [countsAlike_iff_forall]
  constructor
  · intro h
    refine ⟨fun before c after hfront hends => ?_, ?_⟩
    · by_cases hfeed : c = '\n'
      · exact .inl hfeed
      · have hjoined := mt (h before c after hfront).1 hfeed
        rw [Text.breaksLine_iff] at hjoined
        by_cases hrest : after ++ back = []
        · exact .inr (.inr hrest)
        · refine .inr (.inl ?_)
          by_cases hcrlf : c = '\r' ∧ (after ++ back).head? = some '\n'
          · exact hcrlf
          · exact absurd ⟨hends, hrest, hcrlf⟩ hjoined
    · rintro rfl hlast
      obtain ⟨before, hbefore⟩ := List.getLast?_eq_some_iff.1 hlast
      have hbreaks := Text.breaksLine_iff.1 ((h before '\n' [] hbefore).2 rfl)
      exact hbreaks.2.1 rfl
  · rintro ⟨endings, unfinished⟩ before c after hfront
    rw [Text.breaksLine_iff]
    constructor
    · rintro ⟨hends, hrest, hcrlf⟩
      rcases endings before c after hfront hends with hfeed | hjoined | hlast
      · exact hfeed
      · exact absurd hjoined hcrlf
      · exact absurd hlast hrest
    · rintro rfl
      refine ⟨by decide, fun hlast => ?_, by simp⟩
      obtain ⟨rfl, rfl⟩ := List.append_eq_nil_iff.1 hlast
      exact unfinished rfl (by simp [hfront])

instance : Decidable (CountsAlike front back) :=
  decidable_of_iff _ countsAlike_iff

/-- A report that is where line feeds lead, or in a later line, comes to where they lead exactly if it is there and goes
on to the next line after line feeds only. -/
private theorem shown_eq_foldl_iff {p q : Position} (hcolumn : 0 < p.column) (hahead : p = q ∨ q.line < p.line) :
    shown p front back = front.foldl Position.next q ↔ p = q ∧ countsAlike front back = true := by
  induction front generalizing p q with
  | nil => simp [shown, countsAlike]
  | cons c front ih =>
    obtain ⟨line, column⟩ := p
    obtain ⟨line', column'⟩ := q
    simp only [Position.mk.injEq] at hahead hcolumn
    rw [shown, List.foldl_cons, countsAlike, Bool.and_eq_true, beq_iff_eq, Position.next]
    by_cases hfeed : c = '\n'
    · rw [if_pos hfeed, hfeed, beq_self_eq_true]
      by_cases hrest : front ++ back = []
      · -- the report does not go on, and counts a column
        have hlast : Text.breaksLine '\n' (front ++ back) = false := by rw [hrest]; rfl
        obtain ⟨rfl, rfl⟩ := List.append_eq_nil_iff.1 hrest
        rw [hlast, if_neg Bool.false_ne_true, shown, List.foldl_nil, Position.mk.injEq]
        simp only [Nat.add_eq_right, Position.mk.injEq, Bool.false_eq_true, false_and, and_false, iff_false, not_and]
        omega
      · have hbreaks : Text.breaksLine '\n' (front ++ back) = true :=
          Text.breaksLine_iff.2 ⟨by decide, hrest, by simp⟩
        have hnext := ih (p := ⟨line + 1, 1⟩) (q := ⟨line' + 1, 1⟩) Nat.one_pos
          (by simp only [Position.mk.injEq, and_true]; omega)
        rw [hbreaks, if_pos rfl, hnext, Position.mk.injEq, Position.mk.injEq]
        simp only [Nat.add_right_cancel_iff, and_true, true_and, and_congr_left_iff, iff_self_and]
        omega
    · have hother : (c == '\n') = false := by simpa using hfeed
      rw [if_neg hfeed, hother]
      cases Text.breaksLine c (front ++ back) with
      | true =>
        -- the report comes to a later line, and stays ahead
        have hnext := ih (p := ⟨line + 1, 1⟩) (q := ⟨line', column' + 1⟩) Nat.one_pos (.inr (by simp only; omega))
        rw [if_pos rfl, hnext, Position.mk.injEq, Position.mk.injEq]
        simp only [Nat.right_eq_add, Bool.true_eq_false, false_and, and_false, iff_false, not_and, Bool.not_eq_true,
          and_imp]
        omega
      | false =>
        have hnext := ih (p := ⟨line, column + 1⟩) (q := ⟨line', column' + 1⟩) (Nat.succ_pos _)
          (by simp only [Position.mk.injEq]; omega)
        rw [if_neg Bool.false_ne_true, hnext, Position.mk.injEq, Position.mk.injEq]
        simp

/-- A report names the position that line feeds lead to exactly if its lines are those between line feeds as far. -/
theorem shown_eq_after_iff : shown ⟨1, 1⟩ front back = Position.after front ↔ CountsAlike front back := by
  have hafter := Position.after_append [] front
  rw [List.nil_append, Position.after_nil] at hafter
  rw [hafter, shown_eq_foldl_iff Nat.one_pos (.inl rfl), countsAlike_iff]
  exact and_iff_right rfl

end Report

end BundleConf
