import BundleConf.Proofs.Lexing.Lexeme
import Mathlib.Data.List.Chain
import Mathlib.Data.List.TakeWhile

/-!
# Nothing of a text is lost

The tokens of a text tile it: between their lexemes there are spaces only, and every lexeme is a whole one, so that a
comment runs to the end of its line and a value to its closing quote if there is one.  `Tiles` says this of the
characters after an offset, and a text has the given tokens exactly if they tile it (`lex_eq_ok_iff_tiles`).  In terms
of offsets: the spans of the tokens lie one after the other on the boundaries of the text, what they mark are the
lexemes, and what lies between them are spaces (`lex_lossless`).
-/

namespace BundleConf

/-! ### Whole lexemes -/

/-- A keyword starts with a letter. -/
theorem Keyword.exists_word_eq_cons (k : Keyword) : ∃ c cs, k.word.toList = c :: cs ∧
    c ≠ '\'' ∧ c ≠ '/' ∧ Mark.ofChar? c = none ∧ isSpace c = false := by
  have table : ∀ k ∈ all, k.word.toList.head?.any
      (fun c => c != '\'' && c != '/' && (Mark.ofChar? c).isNone && !isSpace c) = true := by
    decide +kernel
  obtain ⟨c, hc, hletter⟩ := (Option.any_eq_true _ _).1 (table k (mem_all k))
  obtain ⟨cs, hcs⟩ := List.head?_eq_some_iff.1 hc
  exact ⟨c, cs, hcs, by simpa [and_assoc] using hletter⟩

/-- The characters are the whole lexeme of the token where `back` comes next: they are a way to write it, and a comment
goes on to the end of its line. -/
def Token.Fills (lexeme back : List Char) (t : Token) : Prop :=
  t.WrittenAs lexeme back ∧ (t.isComment = true → ∀ c ∈ back.head?, c = '\n')

namespace Token

variable {t : Token} {lexeme back : List Char}

private theorem head?_drop_length_takeWhile (p : Char → Bool) (cs : List Char) :
    ∀ c ∈ (cs.drop (cs.takeWhile p).length).head?, p c = false := by
  induction cs with
  | nil => simp
  | cons d cs ih =>
    by_cases hd : p d = true
    · simpa [List.takeWhile_cons_of_pos hd] using ih
    · simpa [List.takeWhile_cons_of_neg hd] using hd

/-- What a token is found in is its whole lexeme. -/
theorem fills_of_scan? {cs : List Char} {n : Nat} (h : scan? cs = some (t, n)) : t.Fills (cs.take n) (cs.drop n) := by
  refine ⟨writtenAs_of_scan? h, fun hcomment => ?_⟩
  unfold scan? at h
  split at h
  · simp at h
  · obtain ⟨rfl, -⟩ : _ = t ∧ _ := by simpa using h
    simp [isComment, kind] at hcomment
  · rename_i cs
    obtain ⟨-, rfl⟩ := Prod.mk.inj (Option.some.inj h)
    simpa using head?_drop_length_takeWhile (· ≠ '\n') cs
  · split at h
    · obtain ⟨rfl, -⟩ : _ = t ∧ _ := by simpa using h
      simp [isComment, kind] at hcomment
    · obtain ⟨k, -, hk⟩ := Option.map_eq_some_iff.1 h
      obtain ⟨rfl, -⟩ : _ = t ∧ _ := by simpa using hk
      simp [isComment, kind] at hcomment

private theorem takeWhile_append_of_head? {p : Char → Bool} {cs ds : List Char} (hcs : ∀ c ∈ cs, p c = true)
    (hds : ∀ c ∈ ds.head?, p c = false) : (cs ++ ds).takeWhile p = cs := by
  rw [List.takeWhile_append_of_pos hcs]
  cases ds with
  | nil => simp
  | cons d ds => simp [hds d rfl]

/-- A token is found in its whole lexeme. -/
theorem scan?_of_fills (h : t.Fills lexeme back) (ht : t ≠ .finish) :
    ∃ n, scan? (lexeme ++ back) = some (t, n) ∧ (lexeme ++ back).take n = lexeme ∧ (lexeme ++ back).drop n = back := by
  obtain ⟨hwritten, hline⟩ := h
  cases t with
  | keyword k =>
    obtain rfl : lexeme = k.word.toList := hwritten
    obtain ⟨c, word, hword, hquote, hslash, hmark, -⟩ := k.exists_word_eq_cons
    refine ⟨k.word.toList.length, ?_, List.take_left, List.drop_left⟩
    have hscan : Keyword.scan? (c :: (word ++ back)) = some k := by
      rw [Keyword.scan?_eq_some_iff, hword]
      exact List.prefix_append (c :: word) back
    rw [hword, List.cons_append]
    unfold scan?
    split
    case h_4 c' cs' _ _ heq =>
      obtain ⟨rfl, rfl⟩ := List.cons.inj heq
      rw [hmark, hscan]
      simp [hword]
    all_goals simp_all
  | mark m =>
    obtain rfl : lexeme = [m.char] := hwritten
    exact ⟨1, by cases m <;> rfl, rfl, rfl⟩
  | value payload =>
    obtain ⟨hquote, hlexeme⟩ := hwritten
    have inside : ∀ c ∈ payload.toList, decide (c ≠ '\'') = true := by
      intro c hc
      have : c ≠ '\'' := fun he => hquote (he ▸ hc)
      simpa using this
    refine ⟨payload.toList.length + 2, ?_⟩
    rcases hlexeme with rfl | ⟨rfl, rfl⟩
    · have htaken : (payload.toList ++ '\'' :: back).takeWhile (· ≠ '\'') = payload.toList :=
        takeWhile_append_of_head? inside (by simp)
      have hlength : ('\'' :: (payload.toList ++ ['\''])).length = payload.toList.length + 2 := by simp
      refine ⟨?_, hlength ▸ List.take_left, hlength ▸ List.drop_left⟩
      rw [List.cons_append, List.append_assoc, List.singleton_append, scan?, htaken]
      simp
    · have htaken : payload.toList.takeWhile (· ≠ '\'') = payload.toList :=
        List.takeWhile_eq_self_iff.2 inside
      have hlength : ('\'' :: payload.toList).length ≤ payload.toList.length + 2 := by simp
      rw [List.append_nil]
      refine ⟨?_, List.take_of_length_le hlength, List.drop_of_length_le hlength⟩
      rw [scan?, htaken]
      simp
  | comment payload =>
    obtain ⟨text, htext, rfl, rfl⟩ := hwritten
    have htaken : (text ++ back).takeWhile (· ≠ '\n') = text := by
      refine takeWhile_append_of_head? (fun c hc => ?_) fun c hc => ?_
      · have : c ≠ '\n' := fun he => htext (he ▸ hc)
        simpa using this
      · simpa using hline rfl c hc
    refine ⟨text.length + 2, ?_, by simp, by simp⟩
    rw [List.cons_append, List.cons_append, scan?, htaken]
  | finish => exact absurd rfl ht

/-- A lexeme starts with no space. -/
theorem Fills.dropWhile_append (h : t.Fills lexeme back) (ht : t ≠ .finish) {gap : List Char}
    (hgap : ∀ c ∈ gap, isSpace c = true) : (gap ++ (lexeme ++ back)).dropWhile isSpace = lexeme ++ back := by
  rw [List.dropWhile_append_of_pos hgap]
  obtain ⟨hwritten, -⟩ := h
  cases t with
  | keyword k =>
    obtain rfl : lexeme = k.word.toList := hwritten
    obtain ⟨c, word, hword, -, -, -, hspace⟩ := k.exists_word_eq_cons
    rw [hword]
    exact List.dropWhile_cons_of_neg (by simp [hspace])
  | mark m =>
    obtain rfl : lexeme = [m.char] := hwritten
    exact List.dropWhile_cons_of_neg (by cases m <;> decide)
  | value payload => obtain ⟨-, rfl | ⟨rfl, -⟩⟩ := hwritten <;> exact List.dropWhile_cons_of_neg (by decide)
  | comment payload =>
    obtain ⟨text, -, rfl, -⟩ := hwritten
    exact List.dropWhile_cons_of_neg (by decide)
  | finish => exact absurd rfl ht

end Token

/-! ### Tilings -/

/-- The tokens tile the characters that come after the offset in the source of the given number. -/
inductive Tiles (number : Nat) : Nat → List Char → List (Located Token) → Prop
  /-- Only spaces are left. -/
  | finish {offset : Nat} {gap : List Char} (spaces : ∀ c ∈ gap, isSpace c = true) :
      Tiles number offset gap
        [⟨.finish, ⟨offset + Text.byteLength gap, offset + Text.byteLength gap, number⟩⟩]
  | token {offset : Nat} {cs gap lexeme back : List Char} {t : Located Token} {ts : List (Located Token)}
      (text : cs = gap ++ (lexeme ++ back)) (spaces : ∀ c ∈ gap, isSpace c = true)
      (fills : t.value.Fills lexeme back) (unfinished : t.value ≠ .finish)
      (span : t.span = ⟨offset + Text.byteLength gap, offset + Text.byteLength (gap ++ lexeme), number⟩)
      (rest : Tiles number t.span.stop back ts) : Tiles number offset cs (t :: ts)

namespace TokenStream

variable {s s' : TokenStream} {t : Located Token}

/-- A stream delivers its next token after some spaces, and has read just the two then. -/
theorem next_eq_ok_iff : s.next = .ok (t, s') ↔
    s.skipSpaces.rest = [] ∧ t = ⟨.finish, s.skipSpaces.spanTo s.skipSpaces.offset⟩ ∧ s' = s.skipSpaces ∨
      ∃ n, Token.scan? s.skipSpaces.rest = some (t.value, n) ∧
        t.span = s.skipSpaces.spanTo (s.skipSpaces.skip n).offset ∧ s' = s.skipSpaces.skip n := by
  obtain ⟨token, span⟩ := t
  rw [next]
  dsimp only
  split
  · rename_i hrest
    rw [hrest]
    simp [Token.scan?, eq_comm]
  · rename_i c cs hrest
    rw [hrest]
    cases Token.scan? (c :: cs) with
    | none => simp
    | some found =>
      obtain ⟨token', n⟩ := found
      simp only [Except.ok.injEq, Prod.mk.injEq, Located.mk.injEq, Option.some.injEq, reduceCtorEq, false_and, false_or]
      constructor
      · rintro ⟨⟨rfl, rfl⟩, rfl⟩
        exact ⟨n, ⟨rfl, rfl⟩, rfl, rfl⟩
      · rintro ⟨_, ⟨rfl, rfl⟩, rfl, rfl⟩
        exact ⟨⟨rfl, rfl⟩, rfl⟩

private theorem offset_skip (s : TokenStream) (n : Nat) :
    (s.skip n).offset = s.offset + Text.byteLength (s.rest.take n) := rfl

/-- The spaces before the next token. -/
theorem exists_gap (s : TokenStream) : ∃ gap, s.rest = gap ++ s.skipSpaces.rest ∧
    (∀ c ∈ gap, isSpace c = true) ∧ s.skipSpaces.offset = s.offset + Text.byteLength gap := by
  refine ⟨s.rest.takeWhile isSpace, ?_, fun c hc => List.all_eq_true.1 List.all_takeWhile c hc, ?_⟩
  · rw [rest_skipSpaces, List.takeWhile_append_dropWhile]
  · have htaken := List.prefix_iff_eq_take.1 (List.takeWhile_prefix (l := s.rest) isSpace)
    exact congrArg (fun gap => s.offset + Text.byteLength gap) htaken.symm

/-- What is read as a token is some spaces and then its whole lexeme. -/
theorem exists_fills_of_next (h : s.next = .ok (t, s')) (ht : t.value ≠ .finish) : ∃ gap lexeme,
    s.rest = gap ++ (lexeme ++ s'.rest) ∧ (∀ c ∈ gap, isSpace c = true) ∧ t.value.Fills lexeme s'.rest ∧
      t.span = ⟨s.offset + Text.byteLength gap, s.offset + Text.byteLength (gap ++ lexeme), s.number⟩ ∧
      s'.offset = t.span.stop ∧ s'.number = s.number := by
  obtain ⟨gap, hrest, hgap, hoffset⟩ := s.exists_gap
  rcases next_eq_ok_iff.1 h with ⟨-, rfl, -⟩ | ⟨n, hscan, hspan, rfl⟩
  · exact absurd rfl ht
  · refine ⟨gap, s.skipSpaces.rest.take n, ?_, hgap, Token.fills_of_scan? hscan, ?_, by rw [hspan]; rfl, rfl⟩
    · rw [rest_skip, List.take_append_drop, hrest]
    · rw [hspan, Text.byteLength_append, ← Nat.add_assoc, ← hoffset]
      rfl

/-- What a stream delivers tiles what it has not read. -/
theorem tiles_unread (h : s.unread.2 = none) : Tiles s.number s.offset s.rest s.unread.1 := by
  fun_induction unread s with
  | case1 => simp at h
  | case2 s t s' hnext hfinish =>
    obtain ⟨gap, hrest, hgap, hoffset⟩ := s.exists_gap
    rcases next_eq_ok_iff.1 hnext with ⟨hnil, rfl, -⟩ | ⟨n, hscan, -⟩
    · rw [hrest, hnil, List.append_nil, spanTo, hoffset]
      exact .finish hgap
    · rw [hfinish] at hscan
      exact absurd rfl (Token.ne_finish_of_scan? hscan)
  | case3 s t s' hnext hfinish ih =>
    obtain ⟨gap, lexeme, htext, hgap, hfills, hspan, hoffset, hnumber⟩ := exists_fills_of_next hnext hfinish
    have rest := ih h
    rw [hoffset, hnumber] at rest
    exact .token htext hgap hfills hfinish hspan rest

private theorem skipSpaces_of_gap {gap cs : List Char} (hrest : s.rest = gap ++ cs)
    (hskip : (gap ++ cs).dropWhile isSpace = cs) :
    s.skipSpaces.rest = cs ∧ s.skipSpaces.offset = s.offset + Text.byteLength gap := by
  obtain ⟨gap', hrest', -, hoffset⟩ := s.exists_gap
  have hcs : s.skipSpaces.rest = cs := by rw [rest_skipSpaces, hrest, hskip]
  rw [hcs] at hrest'
  obtain rfl : gap' = gap := List.append_cancel_right (hrest'.symm.trans hrest)
  exact ⟨hcs, hoffset⟩

/-- The streams read the same source, and the second one has read some characters more. -/
structure Precedes (s s' : TokenStream) (between : List Char) : Prop where
  source : s'.source = s.source
  number : s'.number = s.number
  offset : s'.offset = s.offset + Text.byteLength between
  rest : s.rest = between ++ s'.rest

/-- A whole lexeme after some spaces is read as its token. -/
theorem exists_next_of_fills {gap lexeme back : List Char} (hrest : s.rest = gap ++ (lexeme ++ back))
    (spaces : ∀ c ∈ gap, isSpace c = true) (fills : t.value.Fills lexeme back) (unfinished : t.value ≠ .finish)
    (span : t.span = ⟨s.offset + Text.byteLength gap, s.offset + Text.byteLength (gap ++ lexeme), s.number⟩) :
    ∃ r, s.next = .ok (t, r) ∧ r.rest = back ∧ Precedes s r (gap ++ lexeme) := by
  obtain ⟨hleft, hstart⟩ := skipSpaces_of_gap hrest (fills.dropWhile_append unfinished spaces)
  obtain ⟨n, hscan, htake, hdrop⟩ := Token.scan?_of_fills fills unfinished
  have hstop : (s.skipSpaces.skip n).offset = s.offset + Text.byteLength (gap ++ lexeme) := by
    rw [offset_skip, hleft, htake, hstart, Text.byteLength_append, Nat.add_assoc]
  have hspan : t.span = s.skipSpaces.spanTo (s.skipSpaces.skip n).offset := by
    rw [hstop, spanTo, hstart, span]
    rfl
  have hback : (s.skipSpaces.skip n).rest = back := by rw [rest_skip, hleft, hdrop]
  have hnext := next_eq_ok_iff.2 (.inr ⟨n, by rw [hleft]; exact hscan, hspan, rfl⟩)
  exact ⟨_, hnext, hback, rfl, rfl, hstop, by rw [hback, hrest, List.append_assoc]⟩

/-- A stream delivers what tiles what it has not read. -/
theorem unread_of_tiles {number offset : Nat} {cs : List Char} {ts : List (Located Token)}
    (h : Tiles number offset cs ts) (hnumber : s.number = number) (hoffset : s.offset = offset) (hrest : s.rest = cs) :
    s.unread = (ts, none) := by
  induction h generalizing s with
  | @finish offset gap spaces =>
    have hskip : (gap ++ []).dropWhile isSpace = [] := by
      rw [List.dropWhile_append_of_pos spaces]
      rfl
    obtain ⟨hnil, hend⟩ := skipSpaces_of_gap (by rw [hrest, List.append_nil]) hskip
    have hnext := next_eq_ok_iff.2 (.inl ⟨hnil, rfl, rfl⟩)
    rw [unread_of_finish hnext rfl, spanTo, hend, hoffset]
    exact hnumber ▸ rfl
  | @token offset cs gap lexeme back t ts text spaces fills unfinished span _ ih =>
    obtain ⟨r, hnext, hback, read⟩ := exists_next_of_fills (hrest.trans text) spaces fills unfinished
      (by rw [span, hoffset, hnumber])
    have hstop : r.offset = t.span.stop := by rw [read.offset, hoffset, span]
    rw [unread_of_next hnext unfinished, ih (read.number.trans hnumber) hstop hback]

end TokenStream

/-- A text has exactly the tokens that tile it. -/
theorem lex_eq_ok_iff_tiles {text : String} {ts : List (Located Token)} :
    lex text = .ok ts ↔ Tiles 0 0 text.toList ts := by
  rw [lex_eq_ok_iff]
  constructor
  · intro h
    have tiles := TokenStream.tiles_unread (s := .ofSource ⟨.input, text⟩ 0) (by rw [h])
    rwa [h] at tiles
  · exact fun h => TokenStream.unread_of_tiles h rfl rfl rfl

/-! ### Offsets -/

/-- The characters between two offsets. -/
def Text.slice (start stop : Nat) (cs : List Char) : List Char :=
  beyond start (within stop cs)

/-- A part of a text lies between the lengths of what ends before it and of what ends with it. -/
theorem Text.slice_eq {front part back cs : List Char} {start stop : Nat} (h : front ++ part ++ back = cs)
    (hstart : start = byteLength front) (hstop : stop = byteLength (front ++ part)) : slice start stop cs = part := by
  rw [slice, ← h, hstart, hstop, within_append, beyond_append]

theorem Span.Marks.slice_eq {span : Span} {source : Source} {front lexeme back : List Char}
    (h : span.Marks source front lexeme back) : Text.slice span.start span.stop source.chars = lexeme :=
  Text.slice_eq h.text h.start h.stop

theorem Span.Marks.beyond_eq {span : Span} {source : Source} {front lexeme back : List Char}
    (h : span.Marks source front lexeme back) : Text.beyond span.stop source.chars = back := by
  rw [h.stop, ← h.text, Text.beyond_append]

namespace Tiles

variable {number offset : Nat} {cs : List Char} {ts : List (Located Token)}

/-- The end comes last, and nowhere else. -/
theorem exists_eq_concat (h : Tiles number offset cs ts) : ∃ us,
    ts = us ++ [⟨.finish, ⟨offset + Text.byteLength cs, offset + Text.byteLength cs, number⟩⟩] ∧
      ∀ t ∈ us, t.value ≠ .finish := by
  induction h with
  | finish => exact ⟨[], rfl, by simp⟩
  | @token offset cs gap lexeme back t ts text _ _ unfinished span _ ih =>
    obtain ⟨us, rfl, hus⟩ := ih
    refine ⟨t :: us, ?_, by simpa using ⟨unfinished, hus⟩⟩
    have hend : t.span.stop + Text.byteLength back = offset + Text.byteLength cs := by
      rw [span, text]
      simp only [Text.byteLength_append]
      omega
    rw [List.cons_append, hend]

theorem le_start (h : Tiles number offset cs ts) : ∀ t ∈ ts, offset ≤ t.span.start := by
  induction h with
  | finish => simp
  | @token offset cs gap lexeme back t ts _ _ _ _ span _ ih =>
    intro u hu
    have hstart : offset ≤ t.span.start := by simp [span]
    have hstop : offset ≤ t.span.stop := by simp [span]
    rcases List.mem_cons.1 hu with rfl | hu
    · exact hstart
    · exact Nat.le_trans hstop (ih u hu)

/-- The tokens lie one after the other. -/
theorem pairwise (h : Tiles number offset cs ts) : ts.Pairwise fun t u => t.span.stop ≤ u.span.start := by
  induction h with
  | finish => exact List.pairwise_singleton _ _
  | token _ _ _ _ _ rest ih => exact List.pairwise_cons.2 ⟨rest.le_start, ih⟩

variable {source : Source} {front : List Char}

/-- The span of a token marks its lexeme. -/
private theorem marks_of_span {gap lexeme back : List Char} {t : Located Token} (text : cs = gap ++ (lexeme ++ back))
    (span : t.span = ⟨offset + Text.byteLength gap, offset + Text.byteLength (gap ++ lexeme), number⟩)
    (htext : front ++ cs = source.chars) (hoffset : Text.byteLength front = offset) :
    t.span.Marks source (front ++ gap) lexeme back := by
  refine ⟨?_, ?_, ?_⟩
  · rw [← htext, text]
    simp only [List.append_assoc]
  · rw [Text.byteLength_append, hoffset, span]
  · rw [List.append_assoc, Text.byteLength_append, hoffset, span]

/-- Every token is marked at its whole lexeme. -/
theorem exists_marks (h : Tiles number offset cs ts) (htext : front ++ cs = source.chars)
    (hoffset : Text.byteLength front = offset) :
    ∀ t ∈ ts, ∃ front lexeme back, t.span.Marks source front lexeme back ∧ t.value.Fills lexeme back := by
  induction h generalizing front with
  | @finish offset gap spaces =>
    intro t ht
    obtain rfl := List.mem_singleton.1 ht
    refine ⟨front ++ gap, [], [], ⟨by simpa using htext, ?_, ?_⟩, ⟨rfl, rfl⟩, by simp⟩
    · rw [Text.byteLength_append, hoffset]
    · rw [List.append_nil, Text.byteLength_append, hoffset]
  | token text _ fills _ span _ ih =>
    have marks := marks_of_span text span htext hoffset
    intro u hu
    rcases List.mem_cons.1 hu with rfl | hu
    · exact ⟨_, _, _, marks, fills⟩
    · exact ih marks.text marks.stop.symm u hu

/-- Between the tokens, and before the first of them, there are only spaces. -/
theorem isChain_gaps (h : Tiles number offset cs ts) (htext : front ++ cs = source.chars)
    (hoffset : Text.byteLength front = offset) {before : Span} (hbefore : before.stop = offset) :
    (before :: ts.map Located.span).IsChain fun a b =>
      ∀ c ∈ Text.slice a.stop b.start source.chars, isSpace c = true := by
  induction h generalizing front before with
  | @finish offset gap spaces =>
    have hgap : Text.slice before.stop (offset + Text.byteLength gap) source.chars = gap :=
      Text.slice_eq (by rw [htext, List.append_nil]) (by rw [hbefore, hoffset])
        (by rw [Text.byteLength_append, hoffset])
    exact .cons_cons (fun c hc => spaces c (hgap ▸ hc)) (.singleton _)
  | token text spaces _ _ span _ ih =>
    have marks := marks_of_span text span htext hoffset
    have hgap := Text.slice_eq ((List.append_assoc ..).symm.trans marks.text) (hbefore.trans hoffset.symm) marks.start
    exact .cons_cons (fun c hc => spaces c (hgap ▸ hc)) (ih marks.text marks.stop.symm rfl)

end Tiles

/-- The tokens account for all characters of the text. -/
structure Covers (text : String) (ts : List (Located Token)) : Prop where
  /-- One end token comes last, after the last character. -/
  finish : ∃ us, ts = us ++ [⟨.finish, ⟨Text.byteLength text.toList, Text.byteLength text.toList, 0⟩⟩] ∧
    ∀ t ∈ us, t.value ≠ .finish
  nonempty : ∀ t ∈ ts, t.value ≠ .finish → t.span.start < t.span.stop
  bounded : ∀ t ∈ ts, t.span.stop ≤ Text.byteLength text.toList
  boundaries : ∀ t ∈ ts, Text.isBoundary t.span.start text.toList = true ∧
    Text.isBoundary t.span.stop text.toList = true
  ordered : ts.Pairwise fun t u => t.span.stop ≤ u.span.start
  /-- Before the first token and between two neighbours there are only spaces; the last token is the end. -/
  gaps : (⟨0, 0, 0⟩ :: ts.map Located.span).IsChain fun a b =>
    ∀ c ∈ Text.slice a.stop b.start text.toList, c = ' ' ∨ c = '\t' ∨ c = '\r' ∨ c = '\n'
  /-- What a span marks is the whole lexeme of its token. -/
  lexemes : ∀ t ∈ ts, t.value.Fills (Text.slice t.span.start t.span.stop text.toList)
    (Text.beyond t.span.stop text.toList)

/-- A text that is lexed loses nothing. -/
theorem lex_lossless {text : String} {ts : List (Located Token)} (h : lex text = .ok ts) : Covers text ts := by
  have tiles : Tiles 0 0 text.toList ts := lex_eq_ok_iff_tiles.1 h
  have htext : [] ++ text.toList = (Source.mk .input text).chars := rfl
  have marks := tiles.exists_marks htext rfl
  have gaps : (⟨0, 0, 0⟩ :: ts.map Located.span).IsChain fun a b =>
      ∀ c ∈ Text.slice a.stop b.start text.toList, isSpace c = true :=
    tiles.isChain_gaps htext rfl rfl
  refine ⟨?_, fun t ht hfinish => ?_, fun t ht => ?_, fun t ht => ?_, tiles.pairwise, ?_, fun t ht => ?_⟩
  · simpa using tiles.exists_eq_concat
  · obtain ⟨front, lexeme, back, hmarks, hfills⟩ := marks t ht
    have hne : lexeme ≠ [] := fun hnil => hfinish (hfills.1.eq_nil_iff.1 hnil)
    have := Text.length_le_byteLength lexeme
    have := List.length_pos_iff.2 hne
    rw [hmarks.start, hmarks.stop, Text.byteLength_append]
    omega
  · obtain ⟨_, _, _, hmarks, -⟩ := marks t ht
    exact hmarks.stop_le
  · obtain ⟨_, _, _, hmarks, -⟩ := marks t ht
    exact ⟨hmarks.isBoundary_start, hmarks.isBoundary_stop⟩
  · refine gaps.imp fun a b hspaces c hc => ?_
    simpa [isSpace, or_assoc] using hspaces c hc
  · obtain ⟨_, _, _, hmarks, hfills⟩ := marks t ht
    rwa [← hmarks.slice_eq, ← hmarks.beyond_eq] at hfills

/-- A comment before a carriage return, a value of several bytes, and a quote that stands last and opens a value without
end. -/
theorem lex_lossless_lone_quote : ∃ ts, lex "ui// é\r\n 'é''" = .ok ts ∧
    ts.map (fun t => (t.value, t.span.start, t.span.stop)) =
      [(.keyword .ui, 0, 2), (.comment "é", 2, 8), (.value "é", 10, 14), (.value "", 14, 15), (.finish, 15, 15)] ∧
    Covers "ui// é\r\n 'é''" ts := by
  have hlex : (lex "ui// é\r\n 'é''").toOption.map (·.map fun t => (t.value, t.span.start, t.span.stop)) =
      some [(.keyword .ui, 0, 2), (.comment "é", 2, 8), (.value "é", 10, 14), (.value "", 14, 15),
        (.finish, 15, 15)] := by
    decide +kernel
  cases h : lex "ui// é\r\n 'é''" with
  | error e => simp [h, Except.toOption] at hlex
  | ok ts => exact ⟨ts, rfl, by simpa [h, Except.toOption] using hlex, lex_lossless h⟩

end BundleConf
