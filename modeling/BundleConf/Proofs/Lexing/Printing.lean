import BundleConf.Proofs.Lexing.Tiling

/-!
# Lexing what has been written

Tokens that are written with a space after each are read back as they were (`lex_print`), comments apart, which would
run on over the tokens after them.  What has been lexed can be written so: a value never holds a quote
(`TokenStream.isPrintable_of_unread`).
-/

namespace BundleConf

namespace Token

variable {t : Token}

/-- What a token is written with is a whole lexeme, whatever comes next. -/
theorem fills_spelling (h : t.IsPrintable) (hc : t.isComment = false) (back : List Char) :
    t.Fills t.spelling back := by
  refine ⟨?_, fun hcomment => by simp [hc] at hcomment⟩
  cases t with
  | keyword k => rfl
  | mark m => rfl
  | value payload => exact ⟨h, .inl rfl⟩
  | comment payload => simp [isComment, kind] at hc
  | finish => exact h.elim

/-- What has been read can be written. -/
theorem WrittenAs.isPrintable {lexeme back : List Char} (h : t.WrittenAs lexeme back) (ht : t ≠ .finish)
    (hc : t.isComment = false) : t.IsPrintable := by
  cases t with
  | keyword k => trivial
  | mark m => trivial
  | value payload => exact h.1
  | comment payload => simp [isComment, kind] at hc
  | finish => exact ht rfl

/-- Tokens tile what is written with them, after some spaces. -/
theorem tiles_print {ts : List Token} (hts : ∀ t ∈ ts, t.IsPrintable ∧ t.isComment = false) {lead : List Char}
    (hlead : ∀ c ∈ lead, isSpace c = true) (number offset : Nat) :
    ∃ us e, Tiles number offset (lead ++ ts.flatMap fun t => t.spelling ++ [' ']) (us ++ [e]) ∧ e.value = .finish ∧
      us.map Located.value = ts := by
  induction ts generalizing lead offset with
  | nil =>
    rw [List.flatMap_nil, List.append_nil]
    exact ⟨[], _, .finish hlead, rfl, rfl⟩
  | cons t ts ih =>
    obtain ⟨⟨hprintable, hcomment⟩, hrest⟩ := List.forall_mem_cons.1 hts
    have hfinish : t ≠ .finish := by
      rintro rfl
      exact hprintable
    let span : Span := ⟨offset + Text.byteLength lead, offset + Text.byteLength (lead ++ t.spelling), number⟩
    -- the space after the token comes before the next one
    have hspace : ∀ c ∈ [' '], isSpace c = true := List.forall_mem_singleton.2 rfl
    obtain ⟨us, e, tiles, he, hvalues⟩ := ih hrest hspace span.stop
    refine ⟨⟨t, span⟩ :: us, e, ?_, he, congrArg (t :: ·) hvalues⟩
    rw [List.flatMap_cons, List.append_assoc]
    exact .token rfl hlead (fills_spelling hprintable hcomment _) hfinish rfl tiles

end Token

/-- The tokens that a stream delivers can be written, apart from comments and the end. -/
theorem TokenStream.isPrintable_of_unread {s : TokenStream} {t : Located Token} (h : t ∈ s.unread.1)
    (ht : t.value ≠ .finish) (hc : t.value.isComment = false) : t.value.IsPrintable := by
  fun_induction unread s with
  | case1 => simp at h
  | case2 s u s' _ hu =>
    obtain rfl : t = u := by simpa using h
    exact absurd hu ht
  | case3 s u s' hn hu ih =>
    rcases List.mem_cons.1 h with rfl | h
    · rcases next_eq_ok_iff.1 hn with ⟨-, rfl, -⟩ | ⟨n, hscan, -⟩
      · exact absurd rfl ht
      · exact (Token.writtenAs_of_scan? hscan).isPrintable ht hc
    · exact ih h

/-- Tokens that are written with a space after each are read back. -/
theorem lex_print {ts : List Token} (hts : ∀ t ∈ ts, t.IsPrintable ∧ t.isComment = false) :
    ∃ us, lex (Token.print ts) = .ok us ∧ (meaningful us).map Located.value = ts ++ [.finish] := by
  obtain ⟨us, e, tiles, he, hvalues⟩ := Token.tiles_print hts (List.forall_mem_nil _) 0 0
  have hlex : lex (Token.print ts) = .ok (us ++ [e]) := by
    rw [lex_eq_ok_iff_tiles, Token.print, String.toList_ofList]
    exact tiles
  refine ⟨us ++ [e], hlex, ?_⟩
  rw [map_value_meaningful, List.map_append, hvalues, List.map_singleton, he, List.filter_eq_self]
  intro t ht
  rcases List.mem_append.1 ht with ht | ht
  · simp [(hts t ht).2]
  · obtain rfl : t = .finish := by simpa using ht
    rfl

end BundleConf
