import BundleConf.Token.Stream

/-!
# What is left of a token stream

`TokenStream.unread` lists the tokens that a stream still delivers, up to the end of its text or to the first character
that starts no token.  If there is no such character then these are the tokens that remain (`remaining_eq_ok_iff`).
The tokens are those of the text alone: streams that have the same characters before them deliver the same tokens, apart
from the number of the source that they read (`SameText.unread_eq`).
-/

namespace BundleConf

/-- The tokens that are not comments. -/
def meaningful (ts : List (Located Token)) : List (Located Token) :=
  ts.filter fun t => !t.value.isComment

theorem meaningful_cons_of_isComment {t : Located Token} (h : t.value.isComment = true) (ts : List (Located Token)) :
    meaningful (t :: ts) = meaningful ts := by
  simp [meaningful, h]

theorem meaningful_cons {t : Located Token} (h : t.value.isComment = false) (ts : List (Located Token)) :
    meaningful (t :: ts) = t :: meaningful ts := by
  simp [meaningful, h]

/-- The end of a text is no comment. -/
theorem meaningful_concat {e : Located Token} (he : e.value = .finish) (ts : List (Located Token)) :
    meaningful (ts ++ [e]) = meaningful ts ++ [e] := by
  have comment : e.value.isComment = false := by rw [he]; rfl
  simp [meaningful, comment]

theorem map_value_meaningful (ts : List (Located Token)) :
    (meaningful ts).map Located.value = (ts.map Located.value).filter fun t => !t.isComment := by
  rw [meaningful, List.filter_map]
  rfl

namespace TokenStream

/-- A token is one of the stream's source. -/
theorem next_source {s s' : TokenStream} {t : Located Token} (h : s.next = .ok (t, s')) :
    s'.source = s.source ∧ s'.number = s.number ∧ t.span.source = s.number := by
  rw [next] at h
  split at h
  · cases h
    exact ⟨rfl, rfl, rfl⟩
  · split at h
    · cases h
      exact ⟨rfl, rfl, rfl⟩
    · simp at h

/-- The tokens that the stream still delivers, and the character at which it fails, if it does not come to the end. -/
def unread (s : TokenStream) : List (Located Token) × Option StrayCharacter :=
  match _h : s.next with
  | .error e => ([], some e)
  | .ok (t, s') => if _ht : t.value = .finish then ([t], none) else (t :: s'.unread.1, s'.unread.2)
termination_by s.rest.length
decreasing_by exact length_rest_next_lt _h _ht

theorem unread_of_error {s : TokenStream} {e : StrayCharacter} (h : s.next = .error e) : s.unread = ([], some e) := by
  rw [unread]
  split <;> simp_all

theorem unread_of_finish {s s' : TokenStream} {t : Located Token} (h : s.next = .ok (t, s')) (ht : t.value = .finish) :
    s.unread = ([t], none) := by
  rw [unread]
  split <;> simp_all

theorem unread_of_next {s s' : TokenStream} {t : Located Token} (h : s.next = .ok (t, s')) (ht : t.value ≠ .finish) :
    s.unread = (t :: s'.unread.1, s'.unread.2) := by
  rw [unread]
  split <;> simp_all

/-- A stream that does not fail delivers exactly the tokens that remain. -/
theorem remaining_eq_ok_iff {s : TokenStream} {ts : List (Located Token)} :
    s.remaining = .ok ts ↔ s.unread = (ts, none) := by
  fun_induction unread s generalizing ts with
  | case1 s e h =>
    rw [remaining]
    split <;> simp_all
  | case2 s t s' h ht =>
    rw [remaining]
    split <;> simp_all
  | case3 s t s' h ht ih =>
    rw [remaining]
    split
    · simp_all
    · rename_i t' s'' h'
      obtain ⟨rfl, rfl⟩ : t = t' ∧ s' = s'' := by simpa [h] using h'
      rw [dif_neg ht]
      rcases hu : s'.unread with ⟨us, _ | e⟩
      · rw [ih.2 hu]
        simp
      · rcases hr : s'.remaining with e' | us'
        · simp
        · have := ih.1 hr
          rw [hu] at this
          simp at this

/-- A stream fails exactly with the character that ends the tokens it delivers. -/
theorem remaining_eq_error_iff {s : TokenStream} {e : StrayCharacter} :
    s.remaining = .error e ↔ s.unread.2 = some e := by
  fun_induction unread s with
  | case1 s e' h =>
    rw [remaining]
    split <;> simp_all
  | case2 s t s' h ht =>
    rw [remaining]
    split <;> simp_all
  | case3 s t s' h ht ih =>
    rw [remaining]
    split
    · simp_all
    · rename_i t' s'' h'
      obtain ⟨rfl, rfl⟩ : t = t' ∧ s' = s'' := by simpa [h] using h'
      rw [dif_neg ht, ← ih]
      cases s'.remaining <;> simp

/-- A stream that does not fail delivers an end, and delivers it last. -/
theorem exists_unread_eq_concat {s : TokenStream} (h : s.unread.2 = none) :
    ∃ us e, s.unread.1 = us ++ [e] ∧ e.value = .finish ∧ ∀ t ∈ us, t.value ≠ .finish := by
  fun_induction unread s with
  | case1 => simp at h
  | case2 s t s' hn ht => exact ⟨[], t, rfl, ht, by simp⟩
  | case3 s t s' hn ht ih =>
    obtain ⟨us, e, hu, he, hus⟩ := ih h
    refine ⟨t :: us, e, by rw [hu, List.cons_append], he, ?_⟩
    simpa using ⟨ht, hus⟩

end TokenStream

/-- The same thing at the same place of another source. -/
def Located.inSource {α : Type} (number : Nat) (t : Located α) : Located α :=
  ⟨t.value, { t.span with source := number }⟩

namespace TokenStream

/-- The streams have come to the same place in the same text. -/
def SameText (s s' : TokenStream) : Prop :=
  s.offset = s'.offset ∧ s.rest = s'.rest

theorem sameText_ofSource (path path' : Path) (text : String) (number number' : Nat) :
    SameText (ofSource ⟨path, text⟩ number) (ofSource ⟨path', text⟩ number') :=
  ⟨rfl, rfl⟩

theorem SameText.skip {s s' : TokenStream} (h : SameText s s') (n : Nat) : SameText (s.skip n) (s'.skip n) := by
  refine ⟨?_, ?_⟩
  · simp only [TokenStream.skip, h.1, h.2]
  · simp only [TokenStream.skip, h.2]

theorem SameText.skipSpaces {s s' : TokenStream} (h : SameText s s') : SameText s.skipSpaces s'.skipSpaces := by
  rw [TokenStream.skipSpaces, TokenStream.skipSpaces, h.2]
  exact h.skip _

/-- They go on in the same way: with the same token, each in its own source, or with a failure. -/
theorem SameText.next {s s' : TokenStream} (h : SameText s s') :
    (∃ e e', s.next = .error e ∧ s'.next = .error e') ∨
      ∃ t r r', s.next = .ok (t, r) ∧ s'.next = .ok (t.inSource s'.number, r') ∧ r'.number = s'.number ∧
        SameText r r' := by
  have hs := h.skipSpaces
  have rest := hs.2
  rw [TokenStream.next, TokenStream.next]
  dsimp only
  rw [← rest]
  split
  · refine .inr ⟨_, _, s'.skipSpaces, rfl, ?_, rfl, hs⟩
    simp only [Located.inSource, spanTo, hs.1]
    rfl
  · split
    · rename_i token n _
      refine .inr ⟨_, _, s'.skipSpaces.skip n, rfl, ?_, rfl, hs.skip n⟩
      simp only [Located.inSource, spanTo, hs.1, (hs.skip n).1]
      rfl
    · exact .inl ⟨_, _, rfl, rfl⟩

/-- They deliver the same tokens, each in its own source, and both fail or neither does. -/
theorem SameText.unread_eq {s s' : TokenStream} (h : SameText s s') :
    s'.unread.1 = s.unread.1.map (·.inSource s'.number) ∧ s.unread.2.isSome = s'.unread.2.isSome := by
  fun_induction unread s generalizing s' with
  | case1 s e hn =>
    rcases h.next with ⟨_, e', _, hn'⟩ | ⟨_, _, _, hn', _⟩
    · simp [unread_of_error hn']
    · simp [hn] at hn'
  | case2 s t r hn ht =>
    rcases h.next with ⟨_, _, hn', _⟩ | ⟨t', u, r', hn', hu, _, _⟩
    · simp [hn] at hn'
    · obtain ⟨rfl, -⟩ : t = t' ∧ r = u := by simpa [hn] using hn'
      simp [unread_of_finish hu ht]
  | case3 s t r hn ht ih =>
    rcases h.next with ⟨_, _, hn', _⟩ | ⟨t', u, r', hn', hu, hnumber, hr⟩
    · simp [hn] at hn'
    · obtain ⟨rfl, rfl⟩ : t = t' ∧ r = u := by simpa [hn] using hn'
      rw [unread_of_next hu ht]
      simpa [hnumber] using ih hr

theorem SameText.map_value_unread {s s' : TokenStream} (h : SameText s s') :
    s.unread.1.map Located.value = s'.unread.1.map Located.value ∧ s.unread.2.isSome = s'.unread.2.isSome := by
  obtain ⟨htokens, hfailure⟩ := h.unread_eq
  refine ⟨?_, hfailure⟩
  rw [htokens, List.map_map]
  rfl

theorem SameText.map_value_meaningful {s s' : TokenStream} (h : SameText s s') :
    (meaningful s.unread.1).map Located.value = (meaningful s'.unread.1).map Located.value := by
  rw [BundleConf.map_value_meaningful, BundleConf.map_value_meaningful, h.map_value_unread.1]

/-- The path of a source does not show in its tokens. -/
theorem unread_ofSource (path path' : Path) (text : String) (number : Nat) :
    (ofSource ⟨path, text⟩ number).unread.1 = (ofSource ⟨path', text⟩ number).unread.1 := by
  obtain ⟨htokens, -⟩ := (sameText_ofSource path' path text number number).unread_eq
  obtain ⟨hself, -⟩ := (sameText_ofSource path' path' text number number).unread_eq
  exact htokens.trans hself.symm

end TokenStream

/-- The tokens of a text are those that any stream of it delivers. -/
theorem lex_eq_ok_iff {text : String} {ts : List (Located Token)} :
    lex text = .ok ts ↔ (TokenStream.ofSource ⟨.input, text⟩ 0).unread = (ts, none) :=
  TokenStream.remaining_eq_ok_iff

theorem lex_eq_error_iff {text : String} {e : StrayCharacter} :
    lex text = .error e ↔ (TokenStream.ofSource ⟨.input, text⟩ 0).unread.2 = some e :=
  TokenStream.remaining_eq_error_iff

/-- A stream that delivers a source to its end delivers the tokens of the text. -/
theorem TokenStream.lex_of_unread {source : Source} {number : Nat} (h : (ofSource source number).unread.2 = none) :
    ∃ ts, lex source.text = .ok ts ∧ (ofSource source number).unread.1 = ts.map (·.inSource number) := by
  have same : SameText (ofSource ⟨.input, source.text⟩ 0) (ofSource source number) :=
    sameText_ofSource _ _ source.text 0 number
  obtain ⟨htokens, hfailure⟩ := same.unread_eq
  rw [h] at hfailure
  exact ⟨_, lex_eq_ok_iff.2 (Prod.ext rfl (by simpa using hfailure)), htokens⟩

/-- A text that has been lexed is delivered again under any name and number. -/
theorem TokenStream.unread_of_lex {text : String} {ts : List (Located Token)} (h : lex text = .ok ts) (path : Path)
    (number : Nat) : (meaningful (ofSource ⟨path, text⟩ number).unread.1).map Located.value =
        (meaningful ts).map Located.value ∧ (ofSource ⟨path, text⟩ number).unread.2 = none := by
  have same : SameText (ofSource ⟨path, text⟩ number) (ofSource ⟨.input, text⟩ 0) :=
    sameText_ofSource _ _ text number 0
  have hvalues := same.map_value_meaningful
  obtain ⟨-, hfailure⟩ := same.map_value_unread
  rw [lex_eq_ok_iff.1 h] at hvalues hfailure
  exact ⟨hvalues, by simpa using hfailure⟩

end BundleConf
