import BundleConf.Proofs.Lexing.Unread

/-!
# What a span marks

The span of a token marks its lexeme: the text of the source is what stands before the lexeme, the lexeme, and what
stands after it, and the ends of the span are the byte lengths of the parts that they come after (`Span.Marks`).  A
lexeme is written as its token is (`Token.WrittenAs`); only the end of a text has none.  All tokens that a source
delivers are marked so (`TokenStream.marks_of_mem_unread`), and so is the character at which a stream fails
(`TokenStream.marks_stray`).  Hence the ends of their spans are no offsets inside a character, and their locations
are told without a failure (`Span.Marks.location?`).
-/

namespace BundleConf

/-! ### Lexemes -/

/-- The characters are a way to write the token where `back` comes next.  Only at the end of a text can the closing
quote of a value be missing, and only there is the end token. -/
def Token.WrittenAs (lexeme back : List Char) : Token → Prop
  | .keyword k => lexeme = k.word.toList
  | .mark m => lexeme = [m.char]
  | .value payload => '\'' ∉ payload.toList ∧
      (lexeme = '\'' :: (payload.toList ++ ['\'']) ∨ lexeme = '\'' :: payload.toList ∧ back = [])
  | .comment payload => ∃ text, '\n' ∉ text ∧ lexeme = '/' :: '/' :: text ∧ payload = String.ofList (Text.trim text)
  | .finish => lexeme = [] ∧ back = []

theorem Token.WrittenAs.eq_nil_iff {t : Token} {lexeme back : List Char} (h : t.WrittenAs lexeme back) :
    lexeme = [] ↔ t = .finish := by
  cases t with
  | keyword k =>
    obtain rfl : lexeme = k.word.toList := h
    simpa using List.length_pos_iff.1 k.length_word_pos
  | mark m =>
    obtain rfl : lexeme = [m.char] := h
    simp
  | value payload =>
    obtain ⟨-, rfl | ⟨rfl, -⟩⟩ := h <;> simp
  | comment payload =>
    obtain ⟨text, -, rfl, -⟩ := h
    simp
  | finish =>
    obtain ⟨rfl, -⟩ := h
    simp

/-- The characters up to the first of a kind, and that one if there is one. -/
private theorem take_succ_length_takeWhile {c : Char} (cs : List Char) :
    (cs.take ((cs.takeWhile (· ≠ c)).length + 1) = cs.takeWhile (· ≠ c) ++ [c]) ∨
      cs.take ((cs.takeWhile (· ≠ c)).length + 1) = cs.takeWhile (· ≠ c) ∧
        cs.drop ((cs.takeWhile (· ≠ c)).length + 1) = [] := by
  induction cs with
  | nil => exact .inr ⟨rfl, rfl⟩
  | cons d cs ih =>
    by_cases hd : d = c
    · subst hd
      exact .inl (by simp)
    · rw [List.takeWhile_cons_of_pos (by simpa using hd)]
      simpa using ih

private theorem not_mem_takeWhile (c : Char) (cs : List Char) : c ∉ cs.takeWhile (· ≠ c) := by
  intro hmem
  simpa using List.all_eq_true.1 List.all_takeWhile _ hmem

/-- The characters that a token is found in are written as it is. -/
theorem Token.writtenAs_of_scan? {cs : List Char} {t : Token} {n : Nat} (h : scan? cs = some (t, n)) :
    t.WrittenAs (cs.take n) (cs.drop n) := by
  unfold scan? at h
  split at h
  · simp at h
  · rename_i cs
    obtain ⟨rfl, rfl⟩ : _ = t ∧ _ = n := by simpa using h
    refine ⟨by simpa using not_mem_takeWhile '\'' cs, ?_⟩
    simpa using take_succ_length_takeWhile cs
  · rename_i cs
    obtain ⟨rfl, rfl⟩ := Prod.mk.inj (Option.some.inj h)
    refine ⟨cs.takeWhile (· ≠ '\n'), not_mem_takeWhile '\n' cs, ?_, rfl⟩
    simpa using List.prefix_iff_eq_take.1 (List.takeWhile_prefix _) |>.symm
  · rename_i c cs _ _
    split at h
    · rename_i m hm
      obtain ⟨rfl, rfl⟩ : _ = t ∧ _ = n := by simpa using h
      simpa [WrittenAs] using Mark.ofChar?_eq_some_iff.1 hm
    · obtain ⟨k, hk, hkeyword⟩ := Option.map_eq_some_iff.1 h
      obtain ⟨rfl, rfl⟩ : _ = t ∧ _ = n := by simpa using hkeyword
      exact (List.prefix_iff_eq_take.1 (Keyword.prefix_of_scan? hk)).symm

theorem Token.ne_finish_of_scan? {cs : List Char} {t : Token} {n : Nat} (h : scan? cs = some (t, n)) :
    t ≠ .finish := by
  rintro rfl
  obtain ⟨htake, hdrop⟩ := writtenAs_of_scan? h
  have hnil : cs = [] := by rw [← List.take_append_drop n cs, htake, hdrop, List.append_nil]
  simp [hnil, scan?] at h

/-! ### Spans -/

/-- The span marks the lexeme in the source, between what stands before and what stands after it. -/
structure Span.Marks (span : Span) (source : Source) (front lexeme back : List Char) : Prop where
  text : front ++ lexeme ++ back = source.chars
  start : span.start = Text.byteLength front
  stop : span.stop = Text.byteLength (front ++ lexeme)

namespace Span.Marks

variable {span : Span} {source : Source} {front lexeme back : List Char}

theorem start_le_stop (h : span.Marks source front lexeme back) : span.start ≤ span.stop := by
  rw [h.start, h.stop, Text.byteLength_append]
  exact Nat.le_add_right _ _

theorem stop_le (h : span.Marks source front lexeme back) : span.stop ≤ source.byteLength := by
  rw [h.stop, Source.byteLength, ← h.text, Text.byteLength_append (front ++ lexeme)]
  exact Nat.le_add_right _ _

theorem isBoundary_start (h : span.Marks source front lexeme back) : source.isBoundary span.start = true := by
  refine Text.isBoundary_iff.2 ⟨front, lexeme ++ back, by rw [← h.text, List.append_assoc], ?_⟩
  exact (h.start.symm.trans (Nat.min_eq_left (Nat.le_trans h.start_le_stop h.stop_le)).symm)

theorem isBoundary_stop (h : span.Marks source front lexeme back) : source.isBoundary span.stop = true := by
  refine Text.isBoundary_iff.2 ⟨front ++ lexeme, back, h.text, ?_⟩
  exact h.stop.symm.trans (Nat.min_eq_left h.stop_le).symm

/-- The position of the span is that after what stands before it. -/
theorem position (h : span.Marks source front lexeme back) : source.position span.start = .after front := by
  rw [Source.position, h.start, ← h.text, List.append_assoc, Text.within_append]

theorem location? (h : span.Marks source front lexeme back) : source.location? span = some (source.location span) :=
  if_pos h.isBoundary_start

end Span.Marks

/-! ### Streams -/

namespace TokenStream

variable {s s' : TokenStream} {t : Located Token}

/-- The span of the next token marks a lexeme that is written as the token is. -/
theorem marks_next (h : s.next = .ok (t, s')) :
    ∃ front lexeme back, t.span.Marks s.source front lexeme back ∧ t.value.WrittenAs lexeme back := by
  obtain ⟨front, htext, hoffset⟩ := s.skipSpaces.read
  rw [next] at h
  dsimp only at h
  split at h
  · rename_i hrest
    cases h
    rw [hrest, List.append_nil] at htext
    refine ⟨front, [], [], ⟨?_, hoffset.symm, ?_⟩, rfl, rfl⟩
    · rw [List.append_nil, List.append_nil]
      exact htext
    · rw [List.append_nil]
      exact hoffset.symm
  · rename_i c cs hrest
    split at h
    · rename_i token n hscan
      cases h
      refine ⟨front, (c :: cs).take n, (c :: cs).drop n, ⟨?_, hoffset.symm, ?_⟩, Token.writtenAs_of_scan? hscan⟩
      · rw [List.append_assoc, List.take_append_drop, ← hrest]
        exact htext
      · rw [Text.byteLength_append, hoffset, ← hrest]
        rfl
    · simp at h

/-- Where a stream fails the span marks the one character that starts no token. -/
theorem marks_stray {e : StrayCharacter} (h : s.next = .error e) :
    e.location = s.source.location e.location.span ∧ e.location.span.source = s.number ∧
      ∃ front back, e.location.span.Marks s.source front [e.character] back := by
  obtain ⟨front, htext, hoffset⟩ := s.skipSpaces.read
  rw [next] at h
  dsimp only at h
  split at h
  · simp at h
  · rename_i c cs hrest
    split at h
    · simp at h
    · cases h
      refine ⟨rfl, rfl, front, cs, ?_, hoffset.symm, ?_⟩
      · rw [List.append_assoc, List.singleton_append, ← hrest]
        exact htext
      · simp [Source.location, spanTo, hoffset]

/-- The spans of all tokens that a stream delivers mark their lexemes. -/
theorem marks_of_mem_unread (h : t ∈ s.unread.1) :
    ∃ front lexeme back, t.span.Marks s.source front lexeme back ∧ t.value.WrittenAs lexeme back := by
  fun_induction unread s with
  | case1 => simp at h
  | case2 s u s' hnext hfinish =>
    obtain rfl : t = u := by simpa using h
    exact marks_next hnext
  | case3 s u s' hnext hfinish ih =>
    rcases List.mem_cons.1 h with rfl | h
    · exact marks_next hnext
    · obtain ⟨hsource, -, -⟩ := next_source hnext
      exact hsource ▸ ih h

end TokenStream

end BundleConf
