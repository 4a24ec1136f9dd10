import BundleConf.Source.Basic
import Mathlib.Data.List.Induction

/-!
# Looking positions up

The position that is looked up in the index of lines is the one that is counted: its line is one more than the line
feeds before the offset, and its column one more than the characters after the last of them.  It is found for every
offset that does not lie inside a character, so what is told of a place never fails there, and the snippet is the piece
of the text around it; for an offset inside a character there is neither.  Different places have different positions, in
the order in which they stand in the text (`Source.positions_identify`).

The index is followed along the text: whatever comes next, the last line that starts so far starts where the column is
counted from (`exists_line`).
-/

namespace BundleConf

/-! ### The order of positions -/

namespace Position

/-- The position is in an earlier line, or in the same line and an earlier column. -/
def Before (p q : Position) : Prop :=
  p.line < q.line ∨ p.line = q.line ∧ p.column < q.column

variable {p q r : Position}

theorem Before.trans (h : p.Before q) (h' : q.Before r) : p.Before r := by
  unfold Before at *
  omega

/-- One more character leads to a later position. -/
theorem before_next (p : Position) (c : Char) : p.Before (p.next c) := by
  rw [next]
  split
  · exact .inl (Nat.lt_succ_self _)
  · exact .inr ⟨rfl, Nat.lt_succ_self _⟩

theorem before_foldl_next {cs : List Char} (h : cs ≠ []) : p.Before (cs.foldl next p) := by
  induction cs generalizing p with
  | nil => exact absurd rfl h
  | cons c cs ih =>
    rw [List.foldl_cons]
    by_cases hcs : cs = []
    · subst hcs
      exact p.before_next c
    · exact (p.before_next c).trans (ih hcs)

/-- More text leads to a later position. -/
theorem before_after_append (cs : List Char) {ds : List Char} (h : ds ≠ []) : (after cs).Before (after (cs ++ ds)) := by
  rw [after_append]
  exact before_foldl_next h

end Position

/-! ### The line of an offset -/

/-- The last line that starts in a text starts where its column is counted from. -/
theorem exists_line (front : List Char) : ∃ lines line, front = lines ++ line ∧
    (0 :: Text.lineStartsFrom 0 front).getLast? = some (Text.byteLength lines) ∧
      (Position.after front).column = line.length + 1 := by
  -- by induction from the end, where characters are counted
  induction front using List.reverseRecOn with
  | nil => exact ⟨[], [], rfl, rfl, rfl⟩
  | append_singleton front c ih =>
    have starts : 0 :: Text.lineStartsFrom 0 (front ++ [c]) =
        (0 :: Text.lineStartsFrom 0 front) ++ Text.lineStartsFrom (Text.byteLength front) [c] := by
      rw [Text.lineStartsFrom_append, Nat.zero_add, List.cons_append]
    by_cases hc : c = '\n'
    · subst hc
      refine ⟨front ++ ['\n'], [], (List.append_nil _).symm, ?_, by rw [Position.after_concat_newline]; rfl⟩
      rw [starts, Text.lineStartsFrom, if_pos rfl, Text.lineStartsFrom, List.getLast?_concat, Text.byteLength_append]
      rfl
    · obtain ⟨lines, line, hfront, hlast, hcolumn⟩ := ih
      refine ⟨lines, line ++ [c], by rw [hfront, List.append_assoc], ?_, ?_⟩
      · rw [starts, Text.lineStartsFrom, if_neg hc, Text.lineStartsFrom, List.append_nil, hlast]
      · rw [Position.after_concat hc, hcolumn, List.length_append, List.length_singleton]

/-- Ten characters on either side of the place between two parts. -/
private theorem extract_around (front back : List Char) :
    (front ++ back).extract (front.length - 10) (front.length + 10) =
      front.drop (front.length - 10) ++ back.take 10 := by
  rw [List.extract_eq_take_drop, List.drop_append_of_le_length (Nat.sub_le _ _), List.take_append, List.length_drop,
    List.take_of_length_le (by rw [List.length_drop]; omega)]
  congr 2
  omega

namespace Source

/-- The text is cut in two at the offset, or after its last character if that comes first. -/
structure CutsAt (s : Source) (offset : Nat) (front back : List Char) : Prop where
  text : front ++ back = s.chars
  length : Text.byteLength front = min offset s.byteLength

variable {s : Source} {offset : Nat} {front back : List Char}

theorem isBoundary_iff_cutsAt : s.isBoundary offset = true ↔ ∃ front back, s.CutsAt offset front back := by
  rw [isBoundary, Text.isBoundary_iff]
  exact ⟨fun ⟨front, back, htext, hlength⟩ => ⟨front, back, htext, hlength⟩,
    fun ⟨front, back, h⟩ => ⟨front, back, h.text, h.length⟩⟩

namespace CutsAt

theorem byteLength_eq (h : s.CutsAt offset front back) : s.byteLength = Text.byteLength (front ++ back) := by
  rw [byteLength, h.text]

theorem slice?_front (h : s.CutsAt offset front back) :
    Text.slice? 0 (min offset s.byteLength) s.chars = some front := by
  have hslice := Text.slice?_append [] front back
  rwa [List.nil_append, h.text, h.length] at hslice

theorem slice?_back (h : s.CutsAt offset front back) :
    Text.slice? (min offset s.byteLength) s.byteLength s.chars = some back := by
  have hslice := Text.slice?_append front back []
  rwa [List.append_nil, ← h.byteLength_eq, h.text, h.length] at hslice

/-- The index of lines tells the position that is counted. -/
theorem position?_eq (h : s.CutsAt offset front back) : s.position? offset = some (.after front) := by
  obtain ⟨lines, line, hfront, hlast, hcolumn⟩ := exists_line front
  obtain ⟨hline, hstart⟩ := Text.lineStarts_append front back
  have hslice := Text.slice?_append lines line back
  rw [← hfront, h.text, h.length] at hslice
  rw [h.text, h.length] at hline
  rw [h.text, hlast] at hstart
  rw [position?]
  dsimp only
  rw [hline, if_neg (Nat.succ_ne_zero _), Nat.add_sub_cancel, hstart]
  simp only [Option.bind_eq_bind, Option.bind_some, hslice, ← hcolumn]
  rfl

/-- The snippet is the piece of the text from ten characters before the cut to ten characters after it. -/
theorem snippet?_eq (h : s.CutsAt offset front back) : s.snippet? offset =
    some (String.ofList (s.chars.extract (front.length - 10) (front.length + 10))) := by
  have before : (front.reverse.take 10).reverse = front.drop (front.length - 10) := by
    rw [List.take_reverse, List.reverse_reverse]
  rw [snippet?, h.slice?_front, h.slice?_back, ← h.text, extract_around, ← before]
  rfl

theorem within_eq (h : s.CutsAt offset front back) : Text.within offset s.chars = front := by
  by_cases hle : offset ≤ s.byteLength
  · rw [← Nat.min_eq_left hle, ← h.length, ← h.text, Text.within_append]
  · have hlength := h.length.trans (Nat.min_eq_right (Nat.le_of_not_le hle))
    have hback : back = [] := by
      rw [h.byteLength_eq, Text.byteLength_append] at hlength
      exact Text.byteLength_eq_zero.1 (by omega)
    rw [Text.within_eq_self (Nat.le_of_not_le hle), ← h.text, hback, List.append_nil]

/-- The position that is looked up and the snippet are those of the place. -/
theorem eq_position (h : s.CutsAt offset front back) :
    s.position? offset = some (s.position offset) ∧ s.snippet? offset = some (s.snippet offset) := by
  have hbeyond : Text.beyond offset s.chars = back := by
    have hsplit := Text.within_append_beyond offset s.chars
    rw [h.within_eq] at hsplit
    exact List.append_cancel_left (hsplit.trans h.text.symm)
  refine ⟨by rw [h.position?_eq, position, h.within_eq], ?_⟩
  rw [h.snippet?_eq, snippet, h.within_eq, hbeyond, ← h.text, extract_around]
  rfl

/-- Two cuts of a text are in the order of their offsets, and so are the positions there. -/
theorem before {offset' : Nat} {front' back' : List Char} (h : s.CutsAt offset front back)
    (h' : s.CutsAt offset' front' back') (hlt : offset < offset') (hle : offset' ≤ s.byteLength) :
    (Position.after front).Before (.after front') := by
  have hlength := h.length
  have hlength' := h'.length
  obtain ⟨middle, rfl⟩ | ⟨middle, rfl⟩ : (∃ middle, front' = front ++ middle) ∨ ∃ middle, front = front' ++ middle := by
    rcases List.append_eq_append_iff.1 (h.text.trans h'.text.symm) with ⟨middle, hmiddle, -⟩ | ⟨middle, hmiddle, -⟩
    · exact .inl ⟨middle, hmiddle⟩
    · exact .inr ⟨middle, hmiddle⟩
  · refine Position.before_after_append front fun hnil => ?_
    subst hnil
    rw [List.append_nil] at hlength'
    omega
  · rw [Text.byteLength_append] at hlength
    omega

end CutsAt

theorem not_isBoundary_min (h : s.isBoundary offset = false) :
    Text.isBoundary (min offset s.byteLength) s.chars = false := by
  by_cases hle : offset ≤ s.byteLength
  · rwa [Nat.min_eq_left hle]
  · -- past the end there is no character
    have hend : s.isBoundary offset = true :=
      isBoundary_iff_cutsAt.2 ⟨s.chars, [], List.append_nil _, (Nat.min_eq_right (Nat.le_of_not_le hle)).symm⟩
    simp [hend] at h

/-- Inside a character there is no position. -/
theorem position?_eq_none (h : s.isBoundary offset = false) : s.position? offset = none := by
  rw [position?]
  dsimp only
  simp only [Option.bind_eq_bind, Text.slice?_eq_none (.inr (not_isBoundary_min h)), Option.bind_none,
    Option.bind_fun_none, ite_self]

theorem snippet?_eq_none (h : s.isBoundary offset = false) : s.snippet? offset = none := by
  rw [snippet?, Text.slice?_eq_none (.inr (not_isBoundary_min h))]
  rfl

/-- What is told of a place is what is looked up there. -/
theorem location?_eq (s : Source) (span : Span) : s.location? span =
    (s.position? span.start).bind fun position => (s.snippet? span.start).map fun snippet =>
      ⟨s.path, position.line, position.column, snippet, span⟩ := by
  rw [location?]
  split
  · rename_i hboundary
    obtain ⟨front, back, h⟩ := isBoundary_iff_cutsAt.1 hboundary
    obtain ⟨hposition, hsnippet⟩ := h.eq_position
    rw [hposition, hsnippet]
    rfl
  · rename_i hinside
    rw [position?_eq_none (by simpa using hinside)]
    rfl

/-- The position and the snippet of a location that is told are those that are looked up. -/
theorem lookup_of_location? {span : Span} {l : Location} (h : s.location? span = some l) :
    s.position? span.start = some ⟨l.line, l.column⟩ ∧ s.snippet? span.start = some l.snippet := by
  rw [location?_eq] at h
  obtain ⟨position, hposition, hl⟩ := Option.bind_eq_some_iff.1 h
  obtain ⟨snippet, hsnippet, rfl⟩ := Option.map_eq_some_iff.1 hl
  exact ⟨hposition, hsnippet⟩

/-- Every offset that does not lie inside a character has the position that is counted and the snippet around it, in the
order of the offsets, and an offset inside a character has neither. -/
theorem positions_identify (s : Source) :
    (∀ offset front back, s.CutsAt offset front back →
      s.position? offset =
        some ⟨front.count '\n' + 1, (front.reverse.takeWhile (· ≠ '\n')).length + 1⟩ ∧
      s.snippet? offset = some (String.ofList (s.chars.extract (front.length - 10) (front.length + 10)))) ∧
    (∀ offset front back offset' front' back', s.CutsAt offset front back → s.CutsAt offset' front' back' →
      offset < offset' → offset' ≤ s.byteLength → ∃ p q, s.position? offset = some p ∧ s.position? offset' = some q ∧
        (p.line < q.line ∨ p.line = q.line ∧ p.column < q.column)) ∧
    ∀ offset, (¬ ∃ front back, s.CutsAt offset front back) → s.position? offset = none ∧ s.snippet? offset = none := by
  refine ⟨fun offset front back h => ⟨h.position?_eq, h.snippet?_eq⟩, ?_, fun offset h => ?_⟩
  · intro offset front back offset' front' back' h h' hlt hle
    exact ⟨_, _, h.position?_eq, h'.position?_eq, h.before h' hlt hle⟩
  · have hinside : s.isBoundary offset = false := by
      rw [← isBoundary_iff_cutsAt] at h
      simpa using h
    exact ⟨position?_eq_none hinside, snippet?_eq_none hinside⟩

/-- Between two line feeds, past the end, and inside a character of two bytes. -/
theorem positions_identify_empty_line :
    let s : Source := ⟨⟨"a.conf"⟩, "'é'\n\nlayout ;"⟩
    s.CutsAt 5 "'é'\n".toList "\nlayout ;".toList ∧ s.CutsAt 14 s.chars [] ∧
      s.position? 5 = some ⟨2, 1⟩ ∧ s.snippet? 5 = some "'é'\n\nlayout ;" ∧
      (∃ p q, s.position? 5 = some p ∧ s.position? 14 = some q ∧
        (p.line < q.line ∨ p.line = q.line ∧ p.column < q.column)) ∧
      s.position? 2 = none ∧ s.snippet? 2 = none := by
  intro s
  have cut : s.CutsAt 5 "'é'\n".toList "\nlayout ;".toList := ⟨by decide +kernel, by decide +kernel⟩
  have stop : s.CutsAt 14 s.chars [] := ⟨List.append_nil _, by decide +kernel⟩
  have inside : ¬ ∃ front back, s.CutsAt 2 front back := by
    rw [← isBoundary_iff_cutsAt]
    decide +kernel
  obtain ⟨told, ordered, untold⟩ := s.positions_identify
  obtain ⟨hposition, hsnippet⟩ := told 5 _ _ cut
  have hlines : "'é'\n".toList.count '\n' = 1 := by decide +kernel
  have hcolumns : ("'é'\n".toList.reverse.takeWhile (· ≠ '\n')).length = 0 := by decide +kernel
  have hpiece : String.ofList (s.chars.extract ("'é'\n".toList.length - 10) ("'é'\n".toList.length + 10)) =
      "'é'\n\nlayout ;" := by
    decide +kernel
  rw [hlines, hcolumns] at hposition
  rw [hpiece] at hsnippet
  exact ⟨cut, stop, hposition, hsnippet, ordered 5 _ _ 14 _ _ cut stop (by decide) (by decide +kernel), untold 2 inside⟩

end Source

end BundleConf
