import BundleConf.Proofs.Lexing.Joining

/-!
# Where lexing fails

A text cannot be lexed exactly if a part of it can be lexed that is followed by characters with which nothing begins: no
space, no keyword, no mark, no value and no comment (`beginnings`).  That part is whole: a value at its end is closed,
for otherwise it would take in the rest, and it does not end with a comment, which would do so too.  A text has at most
one such place (`BreaksAfter`), and there lexing fails: with the first of the characters that follow, and with the span,
the line and the column of that character (`lex_fails_iff`).

A stream that fails has read a tiling up to there (`TokenStream.exists_tiles_of_stray`).  In the other direction the
tokens of the first part are delivered also where the rest comes after it, and then the stream fails at once.
-/

namespace BundleConf

/-! ### Beginnings -/

/-- What a space or a token can begin with: one of the spaces, the word of a keyword, a mark, the quote of a value, or
the slashes of a comment. -/
def beginnings : List (List Char) :=
  [' ', '\t', '\r', '\n'].map ([·]) ++ Keyword.all.map (·.word.toList) ++
    ['{', '}', '[', ']', ':', ',', ';'].map ([·]) ++ [['\''], ['/', '/']]

/-- There is a character, and nothing begins with it. -/
def StartsNothing (cs : List Char) : Prop :=
  cs ≠ [] ∧ ∀ start ∈ beginnings, ¬ start <+: cs

instance (cs : List Char) : Decidable (StartsNothing cs) :=
  inferInstanceAs (Decidable (cs ≠ [] ∧ ∀ start ∈ beginnings, ¬ start <+: cs))

theorem Keyword.scan?_eq_none_iff {cs : List Char} : scan? cs = none ↔ ∀ k : Keyword, ¬ k.word.toList <+: cs := by
  rw [Option.eq_none_iff_forall_ne_some]
  exact forall_congr' fun k => not_congr scan?_eq_some_iff

theorem Token.scan?_eq_none_iff {c : Char} {cs : List Char} : scan? (c :: cs) = none ↔
    c ≠ '\'' ∧ ¬ ['/', '/'] <+: c :: cs ∧ Mark.ofChar? c = none ∧ ∀ k : Keyword, ¬ k.word.toList <+: c :: cs := by
  by_cases hquote : c = '\''
  · subst hquote
    simp [scan?]
  by_cases hslash : ['/', '/'] <+: c :: cs
  · obtain ⟨rest, hrest⟩ := hslash
    obtain ⟨rfl, rfl⟩ : c = '/' ∧ cs = '/' :: rest := by simpa [eq_comm] using hrest
    simp [scan?]
  rw [scan?]
  · cases Mark.ofChar? c with
    | some m => simp
    | none => simp [hquote, hslash, Keyword.scan?_eq_none_iff]
  · exact hquote
  · rintro rest rfl rfl
    exact hslash (List.prefix_append ['/', '/'] rest)

/-- Nothing begins with the characters exactly if the first one is no space and no token is found. -/
theorem startsNothing_cons_iff {c : Char} {cs : List Char} :
    StartsNothing (c :: cs) ↔ isSpace c = false ∧ Token.scan? (c :: cs) = none := by
  have spaces : isSpace c = false ↔ ∀ space ∈ [' ', '\t', '\r', '\n'], ¬ [space] <+: c :: cs := by
    simp only [isSpace, Bool.or_eq_false_iff, beq_eq_false_iff_ne, List.forall_mem_cons, List.cons_prefix_cons]
    grind
  have marks : Mark.ofChar? c = none ↔ ∀ mark ∈ ['{', '}', '[', ']', ':', ',', ';'], ¬ [mark] <+: c :: cs := by
    unfold Mark.ofChar?
    simp only [List.forall_mem_cons, List.cons_prefix_cons]
    grind
  have keywords : (∀ k : Keyword, ¬ k.word.toList <+: c :: cs) ↔ ∀ k ∈ Keyword.all, ¬ k.word.toList <+: c :: cs :=
    ⟨fun h k _ => h k, fun h k => h k k.mem_all⟩
  have quote : c ≠ '\'' ↔ ¬ ['\''] <+: c :: cs := by simp [eq_comm]
  have others : (∀ start ∈ [['\''], ['/', '/']], ¬ start <+: c :: cs) ↔
      ¬ ['\''] <+: c :: cs ∧ ¬ ['/', '/'] <+: c :: cs := by
    rw [List.forall_mem_cons, List.forall_mem_singleton]
  rw [Token.scan?_eq_none_iff, StartsNothing, beginnings, spaces, marks, keywords, quote, List.forall_mem_append,
    List.forall_mem_append, List.forall_mem_append, List.forall_mem_map, List.forall_mem_map, List.forall_mem_map,
    others]
  simp only [ne_eq, reduceCtorEq, not_false_eq_true, true_and]
  tauto

/-! ### Streams that fail -/

namespace Token

variable {t : Token} {lexeme back : List Char}

/-- A lexeme before a character that starts nothing is whole also where the text ends before that character: a value
there is closed, and a comment would have taken in the character. -/
theorem Fills.of_append {c : Char} {cs : List Char} (h : t.Fills lexeme (back ++ c :: cs)) (hc : isSpace c = false) :
    t.Fills lexeme back ∧ (∀ payload, t = .value payload → lexeme = '\'' :: (payload.toList ++ ['\''])) ∧
      (t.isComment = true → back ≠ []) := by
  obtain ⟨hwritten, hline⟩ := h
  have hback : t.isComment = true → back ≠ [] := by
    rintro hcomment rfl
    have hnewline : c = '\n' := hline hcomment c rfl
    simp [hnewline, isSpace] at hc
  have hclosed (payload : String) (ht : t = .value payload) : lexeme = '\'' :: (payload.toList ++ ['\'']) := by
    subst ht
    obtain ⟨-, hlexeme | ⟨-, hnil⟩⟩ := hwritten
    · exact hlexeme
    · simp at hnil
  refine ⟨⟨?_, fun hcomment d hd => ?_⟩, hclosed, hback⟩
  · cases t with
    | value payload => exact ⟨hwritten.1, .inl (hclosed payload rfl)⟩
    | finish => simp [WrittenAs] at hwritten
    | _ => exact hwritten
  · obtain ⟨e, es, rfl⟩ := List.exists_cons_of_ne_nil (hback hcomment)
    exact hline hcomment d hd

end Token

namespace TokenStream

variable {s : TokenStream} {e : StrayCharacter}

/-- A stream fails where nothing begins, with the first character of what is left. -/
theorem exists_of_next_error (h : s.next = .error e) : ∃ c cs, s.skipSpaces.rest = c :: cs ∧
    StartsNothing (c :: cs) := by
  rw [next] at h
  dsimp only at h
  split at h
  · simp at h
  · rename_i c cs hrest
    split at h
    · simp at h
    · rename_i hscan
      have hspace : isSpace c = false := by
        have hne : s.rest.dropWhile isSpace ≠ [] := by simp [← rest_skipSpaces, hrest]
        simpa [← rest_skipSpaces, hrest] using List.head_dropWhile_not isSpace hne
      exact ⟨c, cs, hrest, startsNothing_cons_iff.2 ⟨hspace, hscan⟩⟩

theorem next_of_startsNothing {c : Char} {cs : List Char} (hrest : s.rest = c :: cs) (h : StartsNothing (c :: cs)) :
    s.next = .error ⟨c, s.source.location (s.spanTo (s.offset + c.utf8Size))⟩ := by
  obtain ⟨hspace, hscan⟩ := startsNothing_cons_iff.1 h
  have htaken : s.rest.takeWhile isSpace = [] := by rw [hrest, List.takeWhile_cons_of_neg (by simp [hspace])]
  have self : s.skipSpaces = s := by
    cases s
    simp [skipSpaces, skip, htaken]
  rw [next, self]
  dsimp only
  split
  · simp_all
  · rename_i c' cs' hrest'
    obtain ⟨rfl, rfl⟩ := List.cons.inj (hrest.symm.trans hrest')
    rw [hscan]

/-- A stream that fails has read a tiling up to characters with which nothing begins.  The values of the tiling are
closed, and no comment ends it. -/
theorem exists_tiles_of_stray (h : s.unread.2 = some e) : ∃ front back ts, s.rest = front ++ back ∧
    StartsNothing back ∧ Tiles s.number s.offset front ts ∧ ∀ t ∈ ts,
      (∀ payload, t.value = .value payload → t.span.stop = t.span.start + Text.byteLength payload.toList + 2) ∧
      (t.value.isComment = true → t.span.stop < s.offset + Text.byteLength front) := by
  fun_induction unread s with
  | case1 s e' hnext =>
    obtain ⟨gap, hrest, hgap, -⟩ := s.exists_gap
    obtain ⟨c, cs, hcs, hstarts⟩ := exists_of_next_error hnext
    refine ⟨gap, c :: cs, _, hcs ▸ hrest, hstarts, .finish hgap, fun t ht => ?_⟩
    obtain rfl := List.mem_singleton.1 ht
    simp [Token.isComment, Token.kind]
  | case2 => simp at h
  | case3 s t s' hnext hfinish ih =>
    obtain ⟨gap, lexeme, htext, hgap, hfills, hspan, hoffset, hnumber⟩ := exists_fills_of_next hnext hfinish
    obtain ⟨front, back, ts, hrest, hstarts, htiles, hts⟩ := ih h
    obtain ⟨c, cs, rfl⟩ := List.exists_cons_of_ne_nil hstarts.1
    rw [hrest] at hfills
    obtain ⟨hfills, hclosed, hcomment⟩ := hfills.of_append (startsNothing_cons_iff.1 hstarts).1
    rw [hoffset, hnumber] at htiles
    have length : t.span.stop + Text.byteLength front = s.offset + Text.byteLength (gap ++ (lexeme ++ front)) := by
      rw [hspan]
      simp only [Text.byteLength_append]
      omega
    refine ⟨gap ++ (lexeme ++ front), c :: cs, t :: ts, ?_, hstarts, .token rfl hgap hfills hfinish hspan htiles, ?_⟩
    · rw [htext, hrest]
      simp only [List.append_assoc]
    · refine List.forall_mem_cons.2 ⟨⟨fun payload hvalue => ?_, fun ht => ?_⟩, fun u hu => ?_⟩
      · have quote : '\''.utf8Size = 1 := rfl
        rw [hspan, hclosed payload hvalue]
        simp only [Text.byteLength_append, Text.byteLength_cons, Text.byteLength_nil, quote]
        omega
      · have := List.length_pos_iff.2 (hcomment ht)
        have := Text.length_le_byteLength front
        omega
      · obtain ⟨hvalue, hline⟩ := hts u hu
        refine ⟨hvalue, fun hu' => ?_⟩
        have := hline hu'
        omega

end TokenStream

/-! ### Texts that cannot be lexed -/

/-- The text can be lexed up to a place and not beyond it: what stands before it is whole and has the tokens, and
nothing begins with what comes after it. -/
structure BreaksAfter (text front : String) (ts : List (Located Token)) (back : String) : Prop where
  text : front ++ back = text
  lexed : lex front = .ok ts
  /-- A value that ends the first part has its closing quote. -/
  quote : ∀ t ∈ ts, t.span.stop = Text.byteLength front.toList → ∀ payload, t.value = .value payload →
    Text.slice t.span.start t.span.stop front.toList = '\'' :: (payload.toList ++ ['\''])
  /-- No comment ends the first part. -/
  comment : ∀ t ∈ ts, t.value.isComment = true → t.span.stop ≠ Text.byteLength front.toList
  back : StartsNothing back.toList

namespace BreaksAfter

variable {text front back : String} {ts : List (Located Token)}

theorem closes (h : BreaksAfter text front ts back) : Closes front ts back :=
  ⟨h.quote, fun t ht hstop hcomment => absurd hstop (h.comment t ht hcomment)⟩

/-- A text that breaks after a part cannot be lexed; what is told is the first character after that part. -/
theorem lex_eq (h : BreaksAfter text front ts back) : ∃ c cs, back.toList = c :: cs ∧
    lex text = .error ⟨c, (Source.mk .input text).location
      ⟨Text.byteLength front.toList, Text.byteLength front.toList + c.utf8Size, 0⟩⟩ := by
  obtain rfl := h.text
  obtain ⟨c, cs, hback⟩ := List.exists_cons_of_ne_nil h.back.1
  let s := TokenStream.ofSource ⟨.input, front ++ back⟩ 0
  let s' := s.skip front.toList.length
  have chars : s.rest = front.toList ++ back.toList := String.toList_append
  have rest : s'.rest = back.toList := by rw [TokenStream.rest_skip, chars, List.drop_left]
  have offset : s'.offset = 0 + Text.byteLength front.toList := by
    change 0 + Text.byteLength (s.rest.take front.toList.length) = _
    rw [chars, List.take_left]
  have precedes : s.Precedes s' front.toList := ⟨rfl, rfl, offset, by rw [rest, chars]⟩
  have unread := TokenStream.unread_append (lex_eq_ok_iff_tiles.1 h.lexed) (List.nil_append _) rfl h.closes rfl rfl rest
    precedes
  have stuck := TokenStream.next_of_startsNothing (rest.trans hback) (hback ▸ h.back)
  refine ⟨c, cs, hback, lex_eq_error_iff.2 ?_⟩
  rw [unread, TokenStream.unread_of_error stuck, TokenStream.spanTo, offset, Nat.zero_add]
  rfl

/-- There is only one place at which a text breaks. -/
theorem unique {front' back' : String} {ts' : List (Located Token)} (h : BreaksAfter text front ts back)
    (h' : BreaksAfter text front' ts' back') : front = front' ∧ back = back' := by
  obtain ⟨c, cs, -, hlex⟩ := h.lex_eq
  obtain ⟨c', cs', -, hlex'⟩ := h'.lex_eq
  have length : Text.byteLength front.toList = Text.byteLength front'.toList := by
    have := congrArg (·.location.span.start) (Except.error.inj (hlex.symm.trans hlex'))
    simpa [Source.location] using this
  have parts (f b : String) (hf : f ++ b = text) : text.toList = f.toList ++ b.toList := by
    rw [← hf, String.toList_append]
  have fronts : front.toList = front'.toList := by
    rw [← Text.within_append front.toList back.toList, ← parts _ _ h.text, length, parts _ _ h'.text,
      Text.within_append]
  have backs : back.toList = back'.toList := by
    have := (parts _ _ h.text).symm.trans (parts _ _ h'.text)
    rw [fronts] at this
    exact List.append_cancel_left this
  exact ⟨String.toList_inj.1 fronts, String.toList_inj.1 backs⟩

end BreaksAfter

/-- A text that cannot be lexed breaks somewhere. -/
theorem exists_breaksAfter {text : String} {e : StrayCharacter} (h : lex text = .error e) :
    ∃ front ts back, BreaksAfter text front ts back := by
  obtain ⟨front, back, ts, hrest, hstarts, htiles, hts⟩ := TokenStream.exists_tiles_of_stray (lex_eq_error_iff.1 h)
  have chars : text.toList = front ++ back := hrest
  have tiles : Tiles 0 0 (String.ofList front).toList ts := String.toList_ofList.symm ▸ htiles
  have htext : [] ++ (String.ofList front).toList = (Source.mk .input (String.ofList front)).chars := rfl
  refine ⟨String.ofList front, ts, String.ofList back, ?_, lex_eq_ok_iff_tiles.2 tiles, ?_, ?_, by simpa using hstarts⟩
  · rw [← String.ofList_append, ← chars, String.ofList_toList]
  · intro t ht _ payload hvalue
    obtain ⟨before, lexeme, after, hmarks, hfills⟩ := tiles.exists_marks htext rfl t ht
    rw [hvalue] at hfills
    have hslice : Text.slice t.span.start t.span.stop (String.ofList front).toList = lexeme := hmarks.slice_eq
    obtain ⟨-, hlexeme | ⟨hlexeme, -⟩⟩ := hfills.1
    · exact hslice.trans hlexeme
    · -- the span is too long for a value without its closing quote
      have hstop := (hts t ht).1 payload hvalue
      have quote : '\''.utf8Size = 1 := rfl
      rw [hmarks.start, hmarks.stop, hlexeme] at hstop
      simp only [Text.byteLength_append, Text.byteLength_cons, quote] at hstop
      omega
  · intro t ht hcomment
    have before : t.span.stop < 0 + Text.byteLength front := (hts t ht).2 hcomment
    rw [String.toList_ofList]
    omega

/-- Lexing fails exactly for the texts that break somewhere, which they do at one place only, and it tells the character
that stands there, with its span, its line and its column. -/
theorem lex_fails_iff (text : String) :
    ((∃ e, lex text = .error e) ↔ ∃ front ts back, BreaksAfter text front ts back) ∧
    (∀ front ts back front' ts' back', BreaksAfter text front ts back → BreaksAfter text front' ts' back' →
      front = front' ∧ back = back') ∧
    ∀ front ts back, BreaksAfter text front ts back → ∃ e, lex text = .error e ∧
      back.toList.head? = some e.character ∧
      e.location.span = ⟨Text.byteLength front.toList, Text.byteLength front.toList + e.character.utf8Size, 0⟩ ∧
      e.location.line = front.toList.count '\n' + 1 ∧
      e.location.column = (front.toList.reverse.takeWhile (· ≠ '\n')).length + 1 := by
  refine ⟨⟨fun ⟨e, he⟩ => exists_breaksAfter he, fun ⟨front, ts, back, h⟩ => ?_⟩,
    fun _ _ _ _ _ _ h h' => h.unique h', fun front ts back h => ?_⟩
  · obtain ⟨c, cs, -, hlex⟩ := h.lex_eq
    exact ⟨_, hlex⟩
  · obtain ⟨c, cs, hback, hlex⟩ := h.lex_eq
    have position : (Source.mk .input text).position (Text.byteLength front.toList) = .after front.toList := by
      rw [Source.position, Source.chars, ← h.text, String.toList_append, Text.within_append]
    refine ⟨_, hlex, by rw [hback]; rfl, rfl, ?_, ?_⟩
    · exact congrArg Position.line position
    · exact congrArg Position.column position

/-- The word `inclu` comes after a value of several bytes and a comment, in the third line. -/
theorem lex_fails_partial_keyword :
    let front := "ui 'é'\n// ?\n\t"
    let text := front ++ "inclu 'x';"
    ∃ ts e, BreaksAfter text front ts "inclu 'x';" ∧ lex text = .error e ∧ e.character = 'i' ∧
      e.location.span = ⟨14, 15, 0⟩ ∧ e.location.line = 3 ∧ e.location.column = 2 := by
  intro front text
  let ts : List (Located Token) := [⟨.keyword .ui, ⟨0, 2, 0⟩⟩, ⟨.value "é", ⟨3, 7, 0⟩⟩, ⟨.comment "?", ⟨8, 12, 0⟩⟩,
    ⟨.finish, ⟨14, 14, 0⟩⟩]
  have length : Text.byteLength front.toList = 14 := by decide +kernel
  have breaks : BreaksAfter text front ts "inclu 'x';" := by
    refine ⟨rfl, by decide +kernel, fun t ht hstop payload hvalue => ?_, fun t ht hcomment hstop => ?_,
      by decide +kernel⟩
    · have last : ∀ t ∈ ts, t.span.stop = 14 → t.value = .finish := by decide
      simp [last t ht (hstop.trans length)] at hvalue
    · have last : ∀ t ∈ ts, t.span.stop = 14 → t.value.isComment = false := by decide
      simp [last t ht (hstop.trans length)] at hcomment
  obtain ⟨-, -, told⟩ := lex_fails_iff text
  obtain ⟨e, hlex, hcharacter, hspan, hline, hcolumn⟩ := told front ts _ breaks
  have first : e.character = 'i' := by
    have head : "inclu 'x';".toList.head? = some 'i' := by decide +kernel
    simpa using hcharacter.symm.trans head
  have lines : front.toList.count '\n' = 2 := by decide +kernel
  have columns : (front.toList.reverse.takeWhile (· ≠ '\n')).length = 1 := by decide +kernel
  refine ⟨ts, e, breaks, hlex, first, ?_, by rw [hline, lines], by rw [hcolumn, columns]⟩
  rw [hspan, length, first]
  rfl

end BundleConf
