import BundleConf.Proofs.Lexing.Tiling

/-!
# Tokens in any spacing

Tokens can be written with any spaces before, between and after them, or with none, and are read back as they were
written (`lex_written`).  Lexemes that stand side by side do not run together; only after a comment the line has to
end.  A keyword is written as its word, as `Keyword.isKeyword` knows it, and messages show the same word
(`Keyword.text_eq`).
-/

namespace BundleConf

/-- Something to write: a word, or a token that is no keyword. -/
inductive Piece where
  | word (text : String)
  | mark (mark : Mark)
  | value (payload : String)
  | comment (payload : String)
  deriving DecidableEq, Repr

namespace Piece

/-- The characters of a piece. -/
def chars : Piece → List Char
  | word text => text.toList
  | mark m => [m.char]
  | value payload => '\'' :: (payload.toList ++ ['\''])
  | comment payload => '/' :: '/' :: ' ' :: payload.toList

/-- The words are those of keywords; a value has no quote inside, and a comment is one line without blanks around. -/
def IsLegal : Piece → Prop
  | word text => Keyword.isKeyword text = true
  | mark _ => True
  | value payload => '\'' ∉ payload.toList
  | comment payload => '\n' ∉ payload.toList ∧ Text.trim payload.toList = payload.toList

def IsComment : Piece → Prop
  | comment _ => True
  | _ => False

/-- The token is what the piece writes: that of a word is the keyword which messages show as the word in quotes. -/
def Writes : Piece → Token → Prop
  | word text, t => ∃ k, t = .keyword k ∧ t.kind.text = "'" ++ text ++ "'"
  | mark m, t => t = .mark m
  | value payload, t => t = .value payload
  | comment payload, t => t = .comment payload

/-- The characters of pieces, each with what comes after it. -/
def written : List (Piece × List Char) → List Char
  | [] => []
  | (piece, gap) :: rest => piece.chars ++ (gap ++ written rest)

/-- The pieces are legal and have spaces after them, and every comment ends its line. -/
def AreSpaced : List (Piece × List Char) → Prop
  | [] => True
  | (piece, gap) :: rest => piece.IsLegal ∧ (∀ c ∈ gap, isSpace c = true) ∧
      (piece.IsComment → ∀ c ∈ (gap ++ written rest).head?, c = '\n') ∧ AreSpaced rest

private theorem trim_cons_space (cs : List Char) : Text.trim (' ' :: cs) = Text.trim cs := by
  rw [Text.trim, Text.trim, Text.trimStart, List.dropWhile_cons_of_pos (by decide)]
  rfl

/-- The characters of a legal piece are the whole lexeme of its token. -/
theorem exists_fills {p : Piece} (h : p.IsLegal) {back : List Char} (hline : p.IsComment → ∀ c ∈ back.head?, c = '\n') :
    ∃ t : Token, p.Writes t ∧ t ≠ .finish ∧ t.Fills p.chars back := by
  cases p with
  | word text =>
    obtain ⟨k, rfl⟩ := Keyword.isKeyword_iff.1 h
    exact ⟨.keyword k, ⟨k, rfl, k.text_eq⟩, by simp, rfl, by simp [Token.isComment, Token.kind]⟩
  | mark m => exact ⟨.mark m, rfl, by simp, rfl, by simp [Token.isComment, Token.kind]⟩
  | value payload =>
    exact ⟨.value payload, rfl, by simp, ⟨h, .inl rfl⟩, by simp [Token.isComment, Token.kind]⟩
  | comment payload =>
    obtain ⟨hnewline, htrim⟩ := h
    refine ⟨.comment payload, rfl, by simp, ⟨' ' :: payload.toList, by simpa using hnewline, rfl, ?_⟩,
      fun _ => hline trivial⟩
    rw [trim_cons_space, htrim, String.ofList_toList]

/-- Pieces tile what is written with them. -/
theorem tiles_written {pieces : List (Piece × List Char)} (h : AreSpaced pieces) {lead : List Char}
    (hlead : ∀ c ∈ lead, isSpace c = true) (number offset : Nat) :
    ∃ ts e, Tiles number offset (lead ++ written pieces) (ts ++ [e]) ∧ e.value = .finish ∧
      List.Forall₂ (fun p t => p.1.Writes t.value) pieces ts := by
  induction pieces generalizing lead offset with
  | nil =>
    rw [written, List.append_nil]
    exact ⟨[], _, .finish hlead, rfl, .nil⟩
  | cons piece pieces ih =>
    obtain ⟨p, gap⟩ := piece
    obtain ⟨hlegal, hgap, hline, hrest⟩ := h
    obtain ⟨t, hwrites, hfinish, hfills⟩ := exists_fills hlegal hline
    let span : Span := ⟨offset + Text.byteLength lead, offset + Text.byteLength (lead ++ p.chars), number⟩
    obtain ⟨ts, e, tiles, he, hall⟩ := ih hrest hgap span.stop
    exact ⟨⟨t, span⟩ :: ts, e, .token rfl hlead hfills hfinish rfl tiles, he, .cons hwrites hall⟩

end Piece

/-- Whatever is written in whatever spacing is read back, and one end after it. -/
theorem lex_written {pieces : List (Piece × List Char)} (h : Piece.AreSpaced pieces) {lead : List Char}
    (hlead : ∀ c ∈ lead, isSpace c = true) :
    ∃ ts e, lex (String.ofList (lead ++ Piece.written pieces)) = .ok (ts ++ [e]) ∧ e.value = .finish ∧
      List.Forall₂ (fun p t => p.1.Writes t.value) pieces ts := by
  obtain ⟨ts, e, tiles, he, hall⟩ := Piece.tiles_written h hlead 0 0
  refine ⟨ts, e, ?_, he, hall⟩
  rw [lex_eq_ok_iff_tiles, String.toList_ofList]
  exact tiles

/-- Keywords, values and marks side by side, a value that looks like a comment, and a comment of nothing at the end. -/
theorem lex_written_side_by_side :
    let pieces : List (Piece × List Char) := [(.word "ui", []), (.word "include", []), (.value "// é", []),
      (.value "", []), (.mark .semicolon, []), (.comment "'", ['\n', '\r']), (.word "index", []), (.comment "", [])]
    Piece.AreSpaced pieces ∧ Piece.written pieces = "uiinclude'// é''';// '\n\rindex// ".toList ∧
      ∃ ts e, lex (String.ofList ([' '] ++ Piece.written pieces)) = .ok (ts ++ [e]) ∧ e.value = .finish ∧
        List.Forall₂ (fun p t => p.1.Writes t.value) pieces ts := by
  intro pieces
  have words : Keyword.isKeyword "ui" = true ∧ Keyword.isKeyword "include" = true ∧
      Keyword.isKeyword "index" = true := by
    decide +kernel
  have trimmed : Text.trim ['\''] = ['\''] ∧ Text.trim [] = [] := by decide
  have spaced : Piece.AreSpaced pieces := by
    simp [pieces, Piece.AreSpaced, Piece.IsLegal, Piece.IsComment, Piece.written, words, trimmed, isSpace]
  exact ⟨spaced, by decide +kernel, lex_written spaced (List.forall_mem_singleton.2 rfl)⟩

end BundleConf
