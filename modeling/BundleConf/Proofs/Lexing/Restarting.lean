import BundleConf.Proofs.Lexing.Tiling
import BundleConf.Text.LineIndex

/-!
# Starting over

A token stream can be asked for its next token, for all that remain, and to start over, in any order; to be asked for
all that remain also makes it start over, whether or not it fails (`TokenStream.tokenize`).  A reader keeps the tokens
that were delivered to it one by one since the stream was last at the beginning, and is not moved by a failure
(`TokenReader.call`).

Let the scan of a source be the tokens that a fresh stream delivers, up to the end or to the character at which it
fails.  Whatever a reader has asked for, the stream is where the last delivered token ends, and what it still delivers
completes what has been delivered to the scan; or the scan is complete, and has been followed by ends only
(`TokenReader.Follows`).  One call keeps this (`TokenReader.Follows.call`), hence any sequence of calls does
(`TokenReader.follows_afterCalls`).
-/

namespace BundleConf

/-- The end of a source, as the streams of the source deliver it. -/
def Source.finish (source : Source) (number : Nat) : Located Token :=
  ⟨.finish, ⟨source.byteLength, source.byteLength, number⟩⟩

namespace TokenStream

variable {s s' : TokenStream} {t : Located Token}

/-- All tokens that remain, and the stream, which starts over. -/
def tokenize (s : TokenStream) : Except StrayCharacter (List (Located Token)) × TokenStream :=
  (s.remaining, s.rewind)

/-! ### Where a stream is -/

/-- A stream that has delivered a token is at its end. -/
theorem offset_of_next (h : s.next = .ok (t, s')) : s'.offset = t.span.stop := by
  rcases next_eq_ok_iff.1 h with ⟨-, rfl, rfl⟩ | ⟨n, -, hspan, rfl⟩
  · rfl
  · rw [hspan]
    rfl

theorem offset_of_rest_eq_nil (h : s.rest = []) : s.offset = s.source.byteLength := by
  obtain ⟨front, htext, hoffset⟩ := s.read
  rw [h, List.append_nil] at htext
  rw [← hoffset, htext, Source.byteLength]

/-- The end is delivered when nothing is left. -/
theorem finish_of_next (h : s.next = .ok (t, s')) (ht : t.value = .finish) :
    t = s.source.finish s.number ∧ s'.rest = [] := by
  rcases next_eq_ok_iff.1 h with ⟨hrest, rfl, rfl⟩ | ⟨n, hscan, -⟩
  · refine ⟨?_, hrest⟩
    have hend := offset_of_rest_eq_nil hrest
    rw [spanTo, hend]
    rfl
  · exact absurd ht (Token.ne_finish_of_scan? hscan)

/-- Where nothing is left a stream delivers the end, again and again. -/
theorem exists_next_of_rest_eq_nil (h : s.rest = []) :
    ∃ s', s.next = .ok (s.source.finish s.number, s') ∧ s'.rest = [] := by
  have hskip : s.skipSpaces.rest = [] := by rw [rest_skipSpaces, h, List.dropWhile_nil]
  have hnext := next_eq_ok_iff.2 (.inl ⟨hskip, rfl, rfl⟩)
  obtain ⟨hfinish, -⟩ := finish_of_next hnext rfl
  exact ⟨s.skipSpaces, hfinish ▸ hnext, hskip⟩

theorem unread_of_rest_eq_nil (h : s.rest = []) : s.unread = ([s.source.finish s.number], none) := by
  obtain ⟨s', hnext, -⟩ := exists_next_of_rest_eq_nil h
  exact unread_of_finish hnext rfl

/-- What is delivered as an end is the end of the source. -/
theorem eq_finish_of_mem_unread (h : t ∈ s.unread.1) (ht : t.value = .finish) : t = s.source.finish s.number := by
  fun_induction unread s with
  | case1 => simp at h
  | case2 s u s' hnext hfinish =>
    obtain rfl : t = u := by simpa using h
    exact (finish_of_next hnext ht).1
  | case3 s u s' hnext hfinish ih =>
    rcases List.mem_cons.1 h with rfl | h
    · exact absurd ht hfinish
    · obtain ⟨hsource, hnumber, -⟩ := next_source hnext
      rw [← hsource, ← hnumber]
      exact ih h

/-- The text can be cut where a stream is, and what comes then is what the stream has not read. -/
theorem slice?_offset (s : TokenStream) :
    Text.slice? s.offset s.source.byteLength s.source.chars = some s.rest := by
  obtain ⟨front, htext, hoffset⟩ := s.read
  have hslice := Text.slice?_append front s.rest []
  rwa [List.append_nil, htext, hoffset] at hslice

end TokenStream

/-! ### Readers -/

/-- What a token stream can be asked for. -/
inductive TokenReader.Call where
  | next
  | tokenize
  | rewind

/-- A stream, and the tokens that it has delivered one by one since it was last at the beginning. -/
structure TokenReader where
  stream : TokenStream
  delivered : List (Located Token)

namespace TokenReader

def ofSource (source : Source) (number : Nat) : TokenReader :=
  ⟨.ofSource source number, []⟩

/-- The reader after a call; a failure to deliver a token does not move the stream. -/
def call (r : TokenReader) : Call → TokenReader
  | .next =>
    match r.stream.next with
    | .ok (t, s) => ⟨s, r.delivered ++ [t]⟩
    | .error _ => r
  | .tokenize => ⟨r.stream.tokenize.2, []⟩
  | .rewind => ⟨r.stream.rewind, []⟩

/-- The reader after some calls, failed ones included. -/
def afterCalls (r : TokenReader) (calls : List Call) : TokenReader :=
  calls.foldl call r

variable {source : Source} {number : Nat} {r : TokenReader} {e : StrayCharacter}

theorem call_next_of_error (h : r.stream.next = .error e) : r.call .next = r := by
  simp only [call, h]

theorem call_next_of_ok {t : Located Token} {s : TokenStream} (h : r.stream.next = .ok (t, s)) :
    r.call .next = ⟨s, r.delivered ++ [t]⟩ := by
  simp only [call, h]

/-- A stream that has failed is not moved by asking on. -/
theorem afterCalls_next_of_error (h : r.stream.next = .error e) (n : Nat) :
    r.afterCalls (List.replicate n .next) = r := by
  induction n with
  | zero => rfl
  | succ n ih =>
    rw [List.replicate_succ, afterCalls, List.foldl_cons, call_next_of_error h]
    exact ih

/-! ### The scan -/

/-- What has been delivered is a part of the scan, and the stream delivers the rest of it; or it is the whole scan and
some more ends, and the stream has nothing left. -/
inductive Progress (scan : List (Located Token) × Option StrayCharacter) (finish : Located Token)
    (r : TokenReader) : Prop
  | within (tokens : scan.1 = r.delivered ++ r.stream.unread.1) (failure : scan.2 = r.stream.unread.2)
  | past {k : Nat} (tokens : r.delivered = scan.1 ++ List.replicate k finish) (failure : scan.2 = none)
      (rest : r.stream.rest = [])

/-- The reader follows the scan of the source. -/
structure Follows (source : Source) (number : Nat) (r : TokenReader) : Prop where
  progress : Progress (TokenStream.ofSource source number).unread (source.finish number) r
  source : r.stream.source = source
  number : r.stream.number = number
  /-- The stream is where the last token ends that it has delivered. -/
  offset : r.stream.offset = (r.delivered.getLast?.map fun t => t.span.stop).getD 0

theorem follows_ofSource (source : Source) (number : Nat) : (ofSource source number).Follows source number :=
  ⟨.within rfl rfl, rfl, rfl, rfl⟩

namespace Follows

/-- To start over is to be as at the beginning. -/
theorem rewind_eq (h : r.Follows source number) : r.stream.rewind = TokenStream.ofSource source number := by
  rw [TokenStream.rewind, h.source, h.number]

theorem call_rewind (h : r.Follows source number) : r.call .rewind = ofSource source number := by
  rw [TokenReader.call, h.rewind_eq, ofSource]

theorem call_tokenize (h : r.Follows source number) : r.call .tokenize = ofSource source number := by
  rw [TokenReader.call, TokenStream.tokenize, h.rewind_eq, ofSource]

/-- A call keeps the reader to the scan. -/
theorem call (h : r.Follows source number) (c : Call) : (r.call c).Follows source number := by
  cases c with
  | tokenize => exact h.call_tokenize ▸ follows_ofSource source number
  | rewind => exact h.call_rewind ▸ follows_ofSource source number
  | next =>
    cases hnext : r.stream.next with
    | error e => rwa [call_next_of_error hnext]
    | ok read =>
      obtain ⟨t, s⟩ := read
      rw [call_next_of_ok hnext]
      obtain ⟨hsource, hnumber, -⟩ := TokenStream.next_source hnext
      refine ⟨?_, hsource.trans h.source, hnumber.trans h.number, by simpa using TokenStream.offset_of_next hnext⟩
      cases h.progress with
      | within tokens failure =>
        by_cases ht : t.value = .finish
        · -- the end completes the scan
          obtain ⟨-, hrest⟩ := TokenStream.finish_of_next hnext ht
          rw [TokenStream.unread_of_finish hnext ht] at tokens failure
          exact .past (k := 0) (by simpa using tokens.symm) failure hrest
        · rw [TokenStream.unread_of_next hnext ht] at tokens failure
          exact .within (by simpa using tokens) failure
      | @past k tokens failure rest =>
        obtain ⟨s', hnext', hrest⟩ := TokenStream.exists_next_of_rest_eq_nil rest
        rw [h.source, h.number] at hnext'
        obtain ⟨rfl, rfl⟩ := Prod.mk.inj (Except.ok.inj (hnext'.symm.trans hnext))
        refine .past (k := k + 1) ?_ failure hrest
        rw [tokens, List.append_assoc, List.replicate_succ']

theorem afterCalls (h : r.Follows source number) (calls : List Call) : (r.afterCalls calls).Follows source number := by
  induction calls generalizing r with
  | nil => exact h
  | cons c calls ih => exact ih (h.call c)

end Follows

/-- Whatever is asked for, a reader of a source follows the scan. -/
theorem follows_afterCalls (source : Source) (number : Nat) (calls : List Call) :
    ((ofSource source number).afterCalls calls).Follows source number :=
  (follows_ofSource source number).afterCalls calls

/-! ### What a reader can rely on -/

/-- What has been delivered is a leading part of the scan and of ends after it. -/
theorem Progress.exists_isPrefix {scan : List (Located Token) × Option StrayCharacter} {finish : Located Token}
    (h : Progress scan finish r) :
    ∃ n, r.delivered <+: scan.1 ++ List.replicate n finish ∧ (scan.2 ≠ none → n = 0) := by
  cases h with
  | within tokens _ => exact ⟨0, by simp [tokens], fun _ => rfl⟩
  | @past k tokens failure _ => exact ⟨k, tokens ▸ List.prefix_rfl, fun hne => absurd failure hne⟩

namespace Follows

/-- The stream is at the beginning, at the end of a token of the scan, or at the end. -/
theorem offset_cases (h : r.Follows source number) : r.stream.offset = 0 ∨
    (∃ t ∈ (TokenStream.ofSource source number).unread.1, r.stream.offset = t.span.stop) ∨
      r.stream.offset = source.byteLength := by
  have hoffset := h.offset
  cases hlast : r.delivered.getLast? with
  | none => exact .inl (by rw [hoffset, hlast]; rfl)
  | some t =>
    have hstop : r.stream.offset = t.span.stop := by rw [hoffset, hlast]; rfl
    have hmem : t ∈ r.delivered := List.mem_of_getLast? hlast
    obtain ⟨n, hleading, -⟩ := h.progress.exists_isPrefix
    rcases List.mem_append.1 (hleading.subset hmem) with hscan | hend
    · exact .inr (.inl ⟨t, hscan, hstop⟩)
    · rw [List.eq_of_mem_replicate hend] at hstop
      exact .inr (.inr hstop)

theorem slice?_eq (h : r.Follows source number) :
    Text.slice? r.stream.offset source.byteLength source.chars = some r.stream.rest := by
  have hslice := r.stream.slice?_offset
  rwa [h.source] at hslice

/-- A stream fails when all of the scan has been delivered. -/
theorem scan_of_error (h : r.Follows source number) (herror : r.stream.next = .error e) :
    (TokenStream.ofSource source number).unread = (r.delivered, some e) := by
  cases h.progress with
  | within tokens failure =>
    rw [TokenStream.unread_of_error herror] at tokens failure
    exact Prod.ext (by simpa using tokens) failure
  | past _ _ rest =>
    obtain ⟨s', hnext, -⟩ := TokenStream.exists_next_of_rest_eq_nil rest
    simp [herror] at hnext

theorem tokenize_of_failure (h : r.Follows source number)
    (hscan : (TokenStream.ofSource source number).unread.2 = some e) : r.stream.tokenize.1 = .error e := by
  cases h.progress with
  | within _ failure => exact TokenStream.remaining_eq_error_iff.2 (failure.symm.trans hscan)
  | past _ failure _ => simp [hscan] at failure

/-- The tokens that remain are those of the scan that have not been delivered, or the end alone if all have been. -/
theorem tokenize_of_success (h : r.Follows source number)
    (hscan : (TokenStream.ofSource source number).unread.2 = none) :
    ∃ ts, r.stream.tokenize.1 = .ok (ts ++ [source.finish number]) ∧ (∀ t ∈ ts, t.value ≠ .finish) ∧
      (r.delivered ++ (ts ++ [source.finish number]) = (TokenStream.ofSource source number).unread.1 ∨
        (TokenStream.ofSource source number).unread.1 <+: r.delivered ∧ ts = []) := by
  cases h.progress with
  | within tokens failure =>
    have hunread : r.stream.unread.2 = none := failure.symm.trans hscan
    obtain ⟨ts, t, hts, ht, hbefore⟩ := TokenStream.exists_unread_eq_concat hunread
    have hend : t = source.finish number := by
      rw [← h.source, ← h.number]
      exact TokenStream.eq_finish_of_mem_unread (by rw [hts]; simp) ht
    rw [hend] at hts
    exact ⟨ts, TokenStream.remaining_eq_ok_iff.2 (Prod.ext hts hunread), hbefore, .inl (by rw [tokens, hts])⟩
  | past tokens _ rest =>
    have hunread := TokenStream.unread_of_rest_eq_nil rest
    rw [h.source, h.number] at hunread
    refine ⟨[], TokenStream.remaining_eq_ok_iff.2 hunread, by simp, .inr ⟨?_, rfl⟩⟩
    rw [tokens]
    exact List.prefix_append _ _

end Follows

/-- What holds of a reader of the source at any time; `scan` are the tokens that a fresh stream delivers, up to the end
or to the character at which it fails. -/
structure Restartable (source : Source) (scan : List (Located Token) × Option StrayCharacter) (finish : Located Token)
    (r : TokenReader) : Prop where
  /-- The stream is at the beginning, where a token of the scan ends, or at the end of the text. -/
  position : r.stream.offset = 0 ∨ (∃ t ∈ scan.1, r.stream.offset = t.span.stop) ∨ r.stream.offset = source.byteLength
  /-- The text can be cut there. -/
  slice : Text.slice? r.stream.offset source.byteLength source.chars = some r.stream.rest
  /-- What has been delivered is a leading part of the scan, and of repeated ends after it if the scan does not fail. -/
  delivered : ∃ n, r.delivered <+: scan.1 ++ List.replicate n finish ∧ (scan.2 ≠ none → n = 0)
  /-- A failure comes after the whole scan and is that of the scan; asking on leads to the same failure. -/
  failure : ∀ e, r.stream.next = .error e → scan = (r.delivered, some e) ∧
    ∀ n, (r.afterCalls (List.replicate n .next)).stream.offset = r.stream.offset ∧
      (r.afterCalls (List.replicate n .next)).stream.next = .error e
  /-- All that remains of a scan that comes to the end is what has not been delivered, with one end; -/
  tokens : scan.2 = none → ∃ ts, r.stream.tokenize.1 = .ok (ts ++ [finish]) ∧ (∀ t ∈ ts, t.value ≠ .finish) ∧
    (r.delivered ++ (ts ++ [finish]) = scan.1 ∨ scan.1 <+: r.delivered ∧ ts = [])
  /-- of a scan that fails it is the failure. -/
  noTokens : ∀ e, scan.2 = some e → r.stream.tokenize.1 = .error e
  /-- To start over, or to ask for all that remains, leads back to the beginning. -/
  tokenized : (r.call .tokenize).stream.offset = 0
  rewound : (r.call .rewind).stream.offset = 0

/-- Whatever sequence of calls is made on a stream of a source, with failures in between or not, the reader goes through
the scan of the source and starts over when told to. -/
theorem restartable_afterCalls (source : Source) (number : Nat) (calls : List Call) :
    Restartable source (TokenStream.ofSource source number).unread (source.finish number)
      ((ofSource source number).afterCalls calls) := by
  have follows := follows_afterCalls source number calls
  refine ⟨follows.offset_cases, follows.slice?_eq, follows.progress.exists_isPrefix, fun e herror => ?_,
    follows.tokenize_of_success, fun e => follows.tokenize_of_failure, ?_, ?_⟩
  · refine ⟨follows.scan_of_error herror, fun n => ?_⟩
    rw [afterCalls_next_of_error herror]
    exact ⟨rfl, herror⟩
  · rw [follows.call_tokenize]
    rfl
  · rw [follows.call_rewind]
    rfl

private def strayed : Source := ⟨⟨"a.conf"⟩, "ui 'é' @"⟩

private def ended : Source := ⟨⟨"b.conf"⟩, "ui\n"⟩

/-- A reader that has failed, started over and failed again after a character of two bytes, and one that has been told
of the end twice. -/
theorem restartable_afterCalls_stray :
    (∃ r, r = (ofSource strayed 0).afterCalls [.next, .tokenize, .next, .next, .next] ∧
      r.delivered.map Located.value = [.keyword .ui, .value "é"] ∧ r.stream.offset = 7 ∧ r.stream.next.isOk = false ∧
      Restartable strayed (TokenStream.ofSource strayed 0).unread (strayed.finish 0) r) ∧
    ∃ r, r = (ofSource ended 1).afterCalls [.next, .rewind, .next, .next, .next] ∧
      r.delivered = [⟨.keyword .ui, ⟨0, 2, 1⟩⟩, ended.finish 1, ended.finish 1] ∧
      r.stream.tokenize.1.toOption = some [ended.finish 1] ∧
      Restartable ended (TokenStream.ofSource ended 1).unread (ended.finish 1) r := by
  refine ⟨⟨_, rfl, ?_, ?_, ?_, restartable_afterCalls strayed 0 _⟩,
    ⟨_, rfl, ?_, ?_, restartable_afterCalls ended 1 _⟩⟩ <;> decide +kernel

end TokenReader

end BundleConf
