import BundleConf.Proofs.Lexing.Tiling

/-!
# Texts side by side

No token looks beyond its end, so a text can be lexed piece by piece: the tokens of two texts side by side are those of
the first one without its end, and then those of the second one, as much later as the first text is long
(`lex_append`).  Only two lexemes run on, and the first text must not end with them (`Closes`): a value without its
closing quote takes in whatever comes next, and a comment what does not start with a line feed.

The tokens that tile the first text are delivered also where more text comes after it (`TokenStream.unread_append`), and
a stream that has the same characters before it as another one, but stands later, delivers the same tokens later
(`TokenStream.Trails.unread`).
-/

namespace BundleConf

/-! ### Moving tokens -/

/-- The span that lies a number of bytes later. -/
def Span.later (k : Nat) (span : Span) : Span :=
  ⟨span.start + k, span.stop + k, span.source⟩

def Located.later {α : Type} (k : Nat) (t : Located α) : Located α :=
  ⟨t.value, t.span.later k⟩

namespace TokenStream

/-- The second stream has the same characters before it as the first one, but stands a number of bytes later. -/
structure Trails (k : Nat) (s s' : TokenStream) : Prop where
  number : s'.number = s.number
  offset : s'.offset = s.offset + k
  rest : s'.rest = s.rest

namespace Trails

variable {k : Nat} {s s' : TokenStream}

theorem skip (h : Trails k s s') (n : Nat) : Trails k (s.skip n) (s'.skip n) := by
  refine ⟨h.number, ?_, ?_⟩
  · change s'.offset + Text.byteLength (s'.rest.take n) = s.offset + Text.byteLength (s.rest.take n) + k
    rw [h.rest, h.offset]
    omega
  · rw [rest_skip, rest_skip, h.rest]

theorem skipSpaces (h : Trails k s s') : Trails k s.skipSpaces s'.skipSpaces := by
  rw [TokenStream.skipSpaces, TokenStream.skipSpaces, h.rest]
  exact h.skip _

private theorem spanTo_later (h : Trails k s s') (stop : Nat) : s'.spanTo (stop + k) = (s.spanTo stop).later k := by
  simp only [spanTo, Span.later, h.offset, h.number]

/-- They go on with the same token, or fail with the same character. -/
theorem next (h : Trails k s s') :
    (∃ e e', s.next = .error e ∧ s'.next = .error e' ∧ e'.character = e.character ∧
      e'.location.span = e.location.span.later k) ∨
    ∃ t r r', s.next = .ok (t, r) ∧ s'.next = .ok (t.later k, r') ∧ Trails k r r' := by
  have hs := h.skipSpaces
  rw [TokenStream.next, TokenStream.next]
  dsimp only
  rw [hs.rest]
  split
  · refine .inr ⟨_, _, _, rfl, ?_, hs⟩
    rw [hs.offset, hs.spanTo_later]
    rfl
  · rename_i c cs _
    split
    · rename_i token n _
      refine .inr ⟨_, _, _, rfl, ?_, hs.skip n⟩
      rw [(hs.skip n).offset, hs.spanTo_later]
      rfl
    · refine .inl ⟨_, _, rfl, rfl, rfl, ?_⟩
      rw [hs.offset, Nat.add_right_comm]
      exact hs.spanTo_later _

/-- They deliver the same tokens, and neither fails or both do, at the same character. -/
theorem unread (h : Trails k s s') : s'.unread.1 = s.unread.1.map (·.later k) ∧
    (s.unread.2 = none → s'.unread.2 = none) ∧
    ∀ e, s.unread.2 = some e → ∃ e', s'.unread.2 = some e' ∧ e'.character = e.character ∧
      e'.location.span = e.location.span.later k := by
  fun_induction TokenStream.unread s generalizing s' with
  | case1 s e hn =>
    rcases h.next with ⟨e₁, e', hn₁, hn', hsame⟩ | ⟨_, _, _, hn', -, -⟩
    · obtain rfl : e = e₁ := by simpa [hn] using hn₁
      simpa [unread_of_error hn'] using hsame
    · simp [hn] at hn'
  | case2 s t r hn ht =>
    rcases h.next with ⟨_, _, hn', -⟩ | ⟨t', u, r', hn', hu, -⟩
    · simp [hn] at hn'
    · obtain ⟨rfl, -⟩ : t = t' ∧ r = u := by simpa [hn] using hn'
      simp [unread_of_finish hu ht]
  | case3 s t r hn ht ih =>
    rcases h.next with ⟨_, _, hn', -⟩ | ⟨t', u, r', hn', hu, hr⟩
    · simp [hn] at hn'
    · obtain ⟨rfl, rfl⟩ : t = t' ∧ r = u := by simpa [hn] using hn'
      rw [unread_of_next hu ht]
      simpa using ih hr

end Trails

/-! ### More text after a text -/

theorem unread_congr {s s' : TokenStream} (h : s.next = s'.next) : s.unread = s'.unread := by
  cases hn : s.next with
  | error e =>
    have hn' : s'.next = .error e := h ▸ hn
    rw [unread_of_error hn, unread_of_error hn']
  | ok next =>
    obtain ⟨t, r⟩ := next
    have hn' : s'.next = .ok (t, r) := h ▸ hn
    by_cases ht : t.value = .finish
    · rw [unread_of_finish hn ht, unread_of_finish hn' ht]
    · rw [unread_of_next hn ht, unread_of_next hn' ht]

/-- Spaces do not count. -/
theorem Precedes.unread_eq {s s' : TokenStream} {gap : List Char} (h : Precedes s s' gap)
    (spaces : ∀ c ∈ gap, isSpace c = true) : s.unread = s'.unread := by
  have htaken : s.rest.takeWhile isSpace = gap ++ s'.rest.takeWhile isSpace := by
    rw [h.rest, List.takeWhile_append_of_pos spaces]
  have hoffset : s.skipSpaces.offset = s'.skipSpaces.offset := by
    change s.offset + Text.byteLength (s.rest.take (s.rest.takeWhile isSpace).length) =
      s'.offset + Text.byteLength (s'.rest.take (s'.rest.takeWhile isSpace).length)
    have prefixes (cs : List Char) : cs.take (cs.takeWhile isSpace).length = cs.takeWhile isSpace :=
      (List.prefix_iff_eq_take.1 (List.takeWhile_prefix isSpace)).symm
    rw [prefixes, prefixes, htaken, Text.byteLength_append, h.offset, Nat.add_assoc]
  have hrest : s.skipSpaces.rest = s'.skipSpaces.rest := by
    rw [rest_skipSpaces, rest_skipSpaces, h.rest, List.dropWhile_append_of_pos spaces]
  have same : s.skipSpaces = s'.skipSpaces := by
    cases s
    cases s'
    obtain ⟨rfl, rfl, -, -⟩ := h
    simpa [skipSpaces, skip] using And.intro hoffset hrest
  refine unread_congr ?_
  rw [next, next, same]

end TokenStream

/-- What ends with the first text does not run on into the second one: a value that ends there has its closing quote,
and what a comment that ends there meets is a line feed, or nothing. -/
structure Closes (first : String) (ts : List (Located Token)) (second : String) : Prop where
  quote : ∀ t ∈ ts, t.span.stop = Text.byteLength first.toList → ∀ payload, t.value = .value payload →
    Text.slice t.span.start t.span.stop first.toList = '\'' :: (payload.toList ++ ['\''])
  line : ∀ t ∈ ts, t.span.stop = Text.byteLength first.toList → t.value.isComment = true →
    ∀ c ∈ second.toList.head?, c = '\n'

namespace Token

variable {t : Token} {lexeme back more : List Char}

/-- A lexeme that is closed stays whole if more comes after the text. -/
theorem Fills.append (h : t.Fills lexeme back)
    (quote : back = [] → ∀ payload, t = .value payload → lexeme = '\'' :: (payload.toList ++ ['\'']))
    (line : back = [] → t.isComment = true → ∀ c ∈ more.head?, c = '\n') (ht : t ≠ .finish) :
    t.Fills lexeme (back ++ more) := by
  obtain ⟨hwritten, hline⟩ := h
  refine ⟨?_, fun hcomment => ?_⟩
  · cases t with
    | value payload =>
      obtain ⟨hquote, hclosed | ⟨-, hback⟩⟩ := hwritten
      · exact ⟨hquote, .inl hclosed⟩
      · exact ⟨hquote, .inl (quote hback payload rfl)⟩
    | finish => exact absurd rfl ht
    | _ => exact hwritten
  · cases back with
    | nil => exact line rfl hcomment
    | cons d back => exact hline hcomment

end Token

namespace TokenStream

/-- The tokens that tile a text are delivered, but for the end, also where more text comes after it; what comes next
is what a stream delivers that has read the first text. -/
theorem unread_append {number offset : Nat} {cs : List Char} {ts : List (Located Token)}
    (h : Tiles number offset cs ts) {first second : String} {front : List Char} (htext : front ++ cs = first.toList)
    (hfront : Text.byteLength front = offset) (closes : Closes first ts second) {s s' : TokenStream}
    (hnumber : s.number = number) (hoffset : s.offset = offset) (hs' : s'.rest = second.toList)
    (precedes : Precedes s s' cs) : s.unread = (ts.dropLast ++ s'.unread.1, s'.unread.2) := by
  induction h generalizing s front with
  | finish spaces => exact precedes.unread_eq spaces
  | @token offset cs gap lexeme back t ts text spaces fills unfinished span rest ih =>
    have hend : back = [] → t.span.stop = Text.byteLength first.toList := by
      rintro rfl
      rw [span, ← htext, text, List.append_nil, Text.byteLength_append front, hfront]
    have hlexeme : Text.slice t.span.start t.span.stop first.toList = lexeme := by
      have hparts : front ++ gap ++ lexeme ++ back = first.toList := by
        rw [← htext, text]
        simp only [List.append_assoc]
      refine Text.slice_eq hparts ?_ ?_
      · rw [Text.byteLength_append, hfront, span]
      · rw [List.append_assoc, Text.byteLength_append, hfront, span]
    have fills' : t.value.Fills lexeme (back ++ second.toList) :=
      fills.append (fun hback payload ht => hlexeme ▸ closes.quote t List.mem_cons_self (hend hback) payload ht)
        (fun hback => closes.line t List.mem_cons_self (hend hback)) unfinished
    have hrest : s.rest = gap ++ (lexeme ++ (back ++ second.toList)) := by
      rw [precedes.rest, hs', text]
      simp only [List.append_assoc]
    obtain ⟨r, hnext, hback, read⟩ := exists_next_of_fills hrest spaces fills' unfinished
      (by rw [span, hoffset, hnumber])
    have hstop : r.offset = t.span.stop := by rw [read.offset, hoffset, span]
    have precedes' : Precedes r s' back := by
      refine ⟨precedes.source.trans read.source.symm, precedes.number.trans read.number.symm, ?_, by rw [hback, hs']⟩
      rw [precedes.offset, read.offset, text, ← List.append_assoc, Text.byteLength_append (gap ++ lexeme),
        Nat.add_assoc]
    have closes' : Closes first ts second :=
      ⟨fun u hu => closes.quote u (List.mem_cons_of_mem _ hu), fun u hu => closes.line u (List.mem_cons_of_mem _ hu)⟩
    have htext' : (front ++ (gap ++ lexeme)) ++ back = first.toList := by
      rw [← htext, text]
      simp only [List.append_assoc]
    have hfront' : Text.byteLength (front ++ (gap ++ lexeme)) = t.span.stop := by
      rw [Text.byteLength_append, hfront, span]
    have hne : ts ≠ [] := by
      obtain ⟨us, rfl, -⟩ := rest.exists_eq_concat
      simp
    rw [unread_of_next hnext unfinished, ih htext' hfront' closes' (read.number.trans hnumber) hstop precedes',
      List.dropLast_cons_of_ne_nil hne, List.cons_append]

end TokenStream

/-- Texts are lexed one after the other: if nothing runs on then the tokens of the two texts side by side are those of
the first one without its end and then those of the second one, as much later as the first text is long, and what fails
in the second text fails there. -/
theorem lex_append {a b : String} {ts : List (Located Token)} (ha : lex a = .ok ts) (closes : Closes a ts b) :
    ((∃ us, lex (a ++ b) = .ok us) ↔ ∃ us, lex b = .ok us) ∧
    (∀ us, lex b = .ok us →
      lex (a ++ b) = .ok (ts.dropLast ++ us.map (·.later (Text.byteLength a.toList)))) ∧
    ∀ e, lex b = .error e → ∃ e', lex (a ++ b) = .error e' ∧ e'.character = e.character ∧
      e'.location.span = e.location.span.later (Text.byteLength a.toList) := by
  have tiles : Tiles 0 0 a.toList ts := lex_eq_ok_iff_tiles.1 ha
  let s := TokenStream.ofSource ⟨.input, a ++ b⟩ 0
  let s' := s.skip a.toList.length
  have chars : s.rest = a.toList ++ b.toList := String.toList_append
  have rest : s'.rest = b.toList := by rw [TokenStream.rest_skip, chars, List.drop_left]
  have offset : s'.offset = 0 + Text.byteLength a.toList := by
    change 0 + Text.byteLength (s.rest.take a.toList.length) = _
    rw [chars, List.take_left]
  have precedes : s.Precedes s' a.toList := ⟨rfl, rfl, offset, by rw [rest, chars]⟩
  have unread := TokenStream.unread_append tiles (List.nil_append _) rfl closes rfl rfl rest precedes
  have trails : TokenStream.Trails (Text.byteLength a.toList) (.ofSource ⟨.input, b⟩ 0) s' := ⟨rfl, offset, rest⟩
  obtain ⟨hlater, hok, herror⟩ := trails.unread
  have ok (us : List (Located Token)) (hb : lex b = .ok us) :
      lex (a ++ b) = .ok (ts.dropLast ++ us.map (·.later (Text.byteLength a.toList))) := by
    rw [lex_eq_ok_iff] at hb
    rw [lex_eq_ok_iff, unread, hlater, hok (by rw [hb]), hb]
  have error (e : StrayCharacter) (hb : lex b = .error e) : ∃ e', lex (a ++ b) = .error e' ∧
      e'.character = e.character ∧ e'.location.span = e.location.span.later (Text.byteLength a.toList) := by
    obtain ⟨e', he', same⟩ := herror e (lex_eq_error_iff.1 hb)
    exact ⟨e', lex_eq_error_iff.2 (by rw [unread]; exact he'), same⟩
  refine ⟨⟨?_, ?_⟩, ok, error⟩
  · rintro ⟨us, hus⟩
    cases hb : lex b with
    | ok us => exact ⟨us, rfl⟩
    | error e =>
      obtain ⟨e', he', -⟩ := error e hb
      simp [hus] at he'
  · rintro ⟨us, hus⟩
    exact ⟨_, ok us hus⟩

/-- A comment after a value of two bytes ends the first text, and the second one goes on in the next line, with a
value or with a character that starts no token. -/
theorem lex_append_comment :
    let a := "ui 'é'// x"
    let ts : List (Located Token) := [⟨.keyword .ui, ⟨0, 2, 0⟩⟩, ⟨.value "é", ⟨3, 7, 0⟩⟩, ⟨.comment "x", ⟨7, 11, 0⟩⟩,
      ⟨.finish, ⟨11, 11, 0⟩⟩]
    lex a = .ok ts ∧ Closes a ts "\n'z'" ∧ Closes a ts "\n?" ∧
      lex (a ++ "\n'z'") = .ok (ts.dropLast ++ [⟨.value "z", ⟨12, 15, 0⟩⟩, ⟨.finish, ⟨15, 15, 0⟩⟩]) ∧
      ∃ e, lex (a ++ "\n?") = .error e ∧ e.character = '?' ∧ e.location.span = ⟨12, 13, 0⟩ := by
  intro a ts
  have ha : lex a = .ok ts := by decide +kernel
  have length : Text.byteLength a.toList = 11 := by decide +kernel
  have closes (b : String) (hb : ∀ c ∈ b.toList.head?, c = '\n') : Closes a ts b := by
    refine ⟨fun t ht hstop payload hvalue => ?_, fun _ _ _ _ => hb⟩
    have last : ∀ t ∈ ts, t.span.stop = 11 → t.value = .comment "x" ∨ t.value = .finish := by decide
    rcases last t ht (hstop.trans length) with h | h <;> simp [h] at hvalue
  have good : Closes a ts "\n'z'" := closes _ (by simp)
  have bad : Closes a ts "\n?" := closes _ (by simp)
  have hgood : lex "\n'z'" = .ok [⟨.value "z", ⟨1, 4, 0⟩⟩, ⟨.finish, ⟨4, 4, 0⟩⟩] := by decide +kernel
  have hbad : lex "\n?" = .error ⟨'?', ⟨.input, 2, 1, "\n?", ⟨1, 2, 0⟩⟩⟩ := by decide +kernel
  obtain ⟨-, hok, -⟩ := lex_append ha good
  obtain ⟨-, -, herror⟩ := lex_append ha bad
  obtain ⟨e, he, hcharacter, hspan⟩ := herror _ hbad
  exact ⟨ha, good, bad, by simpa [length, Located.later, Span.later] using hok _ hgood, e, he, hcharacter,
    by simpa [length, Span.later] using hspan⟩

end BundleConf
