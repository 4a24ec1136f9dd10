import BundleConf.Token.Scan

/-!
# The tokens of a source

A token stream reads a source token by token.  It knows how far it has read: `next` delivers the token after that
point and the stream that has read it, and `rewind` starts again.  Past the last token it delivers end tokens, as often
as it is asked.  Where no token starts, `next` fails, and since a failure yields no stream, a stream that failed can
only fail again.  `remaining` lists the tokens not yet read, and `lex` all tokens of a text.

A stream that delivers anything but an end token comes closer to the end (`length_rest_next_lt`).
-/

namespace BundleConf

/-- A character that starts no token, and where it stands. -/
structure StrayCharacter where
  character : Char
  location : Location
  deriving DecidableEq, Repr

/-- A source of a given number, read up to an offset. -/
structure TokenStream where
  source : Source
  number : Nat
  /-- How many bytes have been read. -/
  offset : Nat
  rest : List Char
  /-- What has been read and what has not make up the text. -/
  read : ∃ front, front ++ rest = source.chars ∧ Text.byteLength front = offset

namespace TokenStream

/-- The stream that has read nothing. -/
def ofSource (source : Source) (number : Nat) : TokenStream where
  source := source
  number := number
  offset := 0
  rest := source.chars
  read := ⟨[], rfl, rfl⟩

def rewind (s : TokenStream) : TokenStream :=
  ofSource s.source s.number

/-- The stream after `n` more characters. -/
def skip (s : TokenStream) (n : Nat) : TokenStream where
  source := s.source
  number := s.number
  offset := s.offset + Text.byteLength (s.rest.take n)
  rest := s.rest.drop n
  read := by
    obtain ⟨front, h, hlen⟩ := s.read
    refine ⟨front ++ s.rest.take n, ?_, ?_⟩
    · rw [List.append_assoc, List.take_append_drop, h]
    · rw [Text.byteLength_append, hlen]

def skipSpaces (s : TokenStream) : TokenStream :=
  s.skip (s.rest.takeWhile isSpace).length

/-- A span of the stream's source, from where the stream is. -/
def spanTo (s : TokenStream) (stop : Nat) : Span :=
  ⟨s.offset, stop, s.number⟩

/-- The next token, and the stream that has read it. -/
def next (s : TokenStream) : Except StrayCharacter (Located Token × TokenStream) :=
  let s := s.skipSpaces
  match s.rest with
  | [] => .ok (⟨.finish, s.spanTo s.offset⟩, s)
  | c :: cs =>
    match Token.scan? (c :: cs) with
    | some (token, n) =>
      let s' := s.skip n
      .ok (⟨token, s.spanTo s'.offset⟩, s')
    | none => .error ⟨c, s.source.location (s.spanTo (s.offset + c.utf8Size))⟩

@[simp] theorem rest_skip (s : TokenStream) (n : Nat) : (s.skip n).rest = s.rest.drop n := rfl

@[simp] theorem rest_skipSpaces (s : TokenStream) : s.skipSpaces.rest = s.rest.dropWhile isSpace := by
  rw [skipSpaces, rest_skip]
  conv => lhs; arg 2; rw [← List.takeWhile_append_dropWhile (p := isSpace) (l := s.rest)]
  rw [List.drop_left]

theorem length_rest_skipSpaces_le (s : TokenStream) : s.skipSpaces.rest.length ≤ s.rest.length := by
  rw [rest_skipSpaces]
  exact (List.dropWhile_suffix _).length_le

theorem length_rest_next_le {s s' : TokenStream} {t : Located Token} (h : s.next = .ok (t, s')) :
    s'.rest.length ≤ s.rest.length := by
  have hle := s.length_rest_skipSpaces_le
  rw [next] at h
  split at h
  · cases h
    exact hle
  · split at h
    · cases h
      rw [rest_skip, List.length_drop]
      omega
    · simp at h

/-- A token that is not the end is read by moving on. -/
theorem length_rest_next_lt {s s' : TokenStream} {t : Located Token} (h : s.next = .ok (t, s'))
    (ht : t.value ≠ .finish) : s'.rest.length < s.rest.length := by
  have hle := s.length_rest_skipSpaces_le
  rw [next] at h
  split at h
  · cases h
    simp at ht
  · rename_i c cs hrest
    split at h
    · rename_i token n hscan
      cases h
      have hpos := Token.scan?_pos hscan
      rw [rest_skip, List.length_drop]
      rw [hrest] at hle ⊢
      simp only [List.length_cons] at hle ⊢
      omega
    · simp at h

/-- The tokens not yet read, the end token last. -/
def remaining (s : TokenStream) : Except StrayCharacter (List (Located Token)) :=
  match _h : s.next with
  | .error e => .error e
  | .ok (t, s') =>
    if _ht : t.value = .finish then .ok [t]
    else match s'.remaining with
      | .error e => .error e
      | .ok ts => .ok (t :: ts)
termination_by s.rest.length
decreasing_by exact length_rest_next_lt _h _ht

end TokenStream

/-- The path that stands for a text without a file. -/
def Path.input : Path := ⟨"<input>"⟩

/-- The tokens of a text, the end token last. -/
def lex (text : String) : Except StrayCharacter (List (Located Token)) :=
  (TokenStream.ofSource ⟨.input, text⟩ 0).remaining

end BundleConf
