import BundleConf.Proofs.Include.Pinpointing
import BundleConf.Proofs.Report.Dividing

/-!
# The head of a report

Under its headline a report names the file, line and column of what it shows (`Report.isHeaded_render`).  The message
in the same report names those of the error's location.  The place is the same, but the report counts lines in its own
way, so the two names differ for some errors: for one at the end of a text that ends with a line feed, say, or after a
carriage return.  They are the same exactly if the lines of the report are those between line feeds as far as the error
(`Session.Parses.report_names_location_iff`).
-/

namespace BundleConf

/-- The name of a position in a file. -/
def Position.labelIn (p : Position) (file : Path) : String :=
  file.text ++ ":" ++ toString p.line ++ ":" ++ toString p.column

theorem Location.label_eq (l : Location) : l.label = (Position.mk l.line l.column).labelIn l.file :=
  rfl

namespace Report

/-! ### What is named at the head -/

/-- Under its headline the report of a diagnostic in a file names the place with this label. -/
def IsHeaded (report : String) (d : Diagnostic) (file : Path) (label : String) : Prop :=
  ∃ indent rest, report.toList = ("Error: " ++ category d ++ " error in " ++ file.text).toList ++
    '\n' :: (List.replicate indent ' ' ++ '╭' :: '─' :: '[' :: (label.toList ++ ']' :: '\n' :: rest))

variable {report : String} {d : Diagnostic} {file : Path} {p q : Position}

/-- Where a character comes first a text is cut in one way only. -/
private theorem eq_of_append_cons_eq {c : Char} {front front' back back' : List Char} (hfront : c ∉ front)
    (hfront' : c ∉ front') (h : front ++ c :: back = front' ++ c :: back') : front = front' ∧ back = back' := by
  rcases List.append_eq_append_iff.1 h with ⟨between, rfl, hback⟩ | ⟨between, rfl, hback⟩
  · cases between with
    | nil => simpa using hback
    | cons d between =>
      obtain ⟨rfl, -⟩ := List.cons.inj hback
      simp at hfront'
  · cases between with
    | nil => simpa [eq_comm] using hback
    | cons d between =>
      obtain ⟨rfl, -⟩ := List.cons.inj hback
      simp at hfront

private theorem notMem_toList_toString {c : Char} (hc : c.isDigit = false) (n : Nat) : c ∉ (toString n).toList := by
  rw [Nat.toString_eq_ofList_toDigits, String.toList_ofList]
  intro hmem
  simp [Nat.isDigit_of_mem_toDigits (by decide) (by decide) hmem] at hc

/-- A report names one position of a file. -/
theorem IsHeaded.unique (hp : IsHeaded report d file (p.labelIn file)) (hq : IsHeaded report d file (q.labelIn file)) :
    p = q := by
  obtain ⟨indent, rest, hreport⟩ := hp
  obtain ⟨indent', rest', hreport'⟩ := hq
  have hbelow := (List.cons.inj (List.append_cancel_left (hreport.symm.trans hreport'))).2
  obtain ⟨-, hlabels⟩ := eq_of_append_cons_eq (by simp [List.mem_replicate]) (by simp [List.mem_replicate]) hbelow
  simp only [Position.labelIn, String.toList_append, List.append_assoc, List.cons.injEq, List.append_cancel_left_eq,
    true_and] at hlabels
  obtain ⟨hline, hcolumns⟩ := eq_of_append_cons_eq (notMem_toList_toString (by decide) p.line)
    (notMem_toList_toString (by decide) q.line) hlabels
  obtain ⟨hcolumn, -⟩ := eq_of_append_cons_eq (notMem_toList_toString (by decide) p.column)
    (notMem_toList_toString (by decide) q.column) hcolumns
  have line : p.line = q.line := toString_injective (String.toList_injective hline)
  have column : p.column = q.column := toString_injective (String.toList_injective hcolumn)
  exact congr (congrArg Position.mk line) column

private theorem exists_located (d : Diagnostic) (l : Location) {source : Source} (hchars : source.chars ≠ []) :
    ∃ indent rows, located d l source = ("Error: " ++ category d ++ " error in " ++ l.file.text).toList ::
      (List.replicate indent ' ' ++ '╭' :: '─' :: '[' ::
        ((((Label.ofSpan l.span source.chars).position (Text.lines source.chars)).labelIn l.file).toList ++ [']'])) ::
      rows := by
  rw [located, if_neg hchars, body, margin]
  simp only [List.cons_append, List.append_assoc, Position.labelIn]
  exact ⟨_, _, rfl⟩

/-- A report names the position of what it marks, in its own lines. -/
theorem isHeaded_render {sources : SourceTable} {l : Location} {source : Source} (hlocation : d.location? = some l)
    (hsource : sources.get? l.span.source = some source) (hchars : source.chars ≠ []) :
    IsHeaded (render d sources) d l.file
      (((Label.ofSpan l.span source.chars).position (Text.lines source.chars)).labelIn l.file) := by
  have hplace : (d.location?.bind fun l => (sources.get? l.span.source).map fun source => (l, source)) =
      some (l, source) := by
    rw [hlocation, Option.bind_some, hsource, Option.map_some]
  obtain ⟨indent, rows, hrows⟩ := exists_located d l hchars
  refine ⟨indent, rows.flatMap fun row => row ++ ['\n'], ?_⟩
  rw [render, hplace, String.toList_ofList]
  dsimp only
  rw [hrows]
  simp only [List.flatMap_cons, List.append_assoc, List.cons_append, List.nil_append]

end Report

/-- A message quotes the label of the location, unless it is about an include that has not been found. -/
theorem Diagnostic.exists_message_eq {d : Diagnostic} {l : Location} (hlocation : d.location? = some l)
    (hcategory : Report.category d ≠ "include") : ∃ before after, d.message = before ++ l.label ++ after := by
  cases d with
  | lexical character location =>
    obtain rfl : location = l := Option.some.inj hlocation
    refine ⟨"Lexical error: unexpected character '" ++ String.singleton character ++ "' at ",
      ": `" ++ location.snippet ++ "`", ?_⟩
    change _ ++ (location.label ++ ": `" ++ location.snippet ++ "`") = _
    simp only [String.append_assoc]
  | unexpected expected found location =>
    obtain rfl : location = l := Option.some.inj hlocation
    refine ⟨"Syntax error: expected " ++ expected ++ ", found " ++ found ++ " at ",
      ": `" ++ location.snippet ++ "`", ?_⟩
    change _ ++ (location.label ++ ": `" ++ location.snippet ++ "`") = _
    simp only [String.append_assoc]
  | missingInclude => exact absurd rfl hcategory
  | structural reason location =>
    obtain rfl : location = l := Option.some.inj hlocation
    exact ⟨"Structural error: " ++ reason ++ " at ", "", by rw [String.append_empty]; rfl⟩
  | _ => simp [location?] at hlocation

/-! ### Reports of failed parses -/

section Pinpoints

variable {failure : Failure} {root : Nat} {l : Location} {source : Source} {front lexeme back : List Char}

/-- Nothing in an empty source is pointed to. -/
theorem Failure.Pinpoints.chars_ne_nil (h : failure.Pinpoints root l source front lexeme back) : source.chars ≠ [] := by
  intro hempty
  have htext := h.marks.text
  rw [hempty, List.append_eq_nil_iff, List.append_eq_nil_iff] at htext
  exact (h.ending htext.1.2).2.2.2 hempty

/-- The report of the failure marks the lexeme from its start. -/
theorem Failure.Pinpoints.start_eq (h : failure.Pinpoints root l source front lexeme back) :
    (Report.Label.ofSpan l.span source.chars).start = front.length := by
  have hmarked : Report.markedBytes l.span (Text.byteLength source.chars) = (l.span.start, l.span.stop) :=
    Session.markedBytes_of_marks h.marks h.chars_ne_nil fun hnil => (h.ending hnil).2.2.1
  rw [Report.Label.ofSpan, hmarked]
  dsimp only
  rw [h.marks.start, ← h.marks.text, List.append_assoc, Text.within_append]

/-- The report names the position that is counted along the text before the lexeme. -/
theorem Failure.Pinpoints.isHeaded (h : failure.Pinpoints root l source front lexeme back)
    (hl : failure.error.diagnostic.location? = some l) :
    Report.IsHeaded (Report.render failure.error.diagnostic failure.session.sources) failure.error.diagnostic l.file
      ((Report.shown ⟨1, 1⟩ front (lexeme ++ back)).labelIn l.file) := by
  have hheaded := Report.isHeaded_render hl h.known h.chars_ne_nil
  have htext := (List.append_assoc front lexeme back).symm.trans h.marks.text
  have hshown : (Report.Label.ofSpan l.span source.chars).position (Text.lines (front ++ (lexeme ++ back))) =
      Report.shown ⟨1, 1⟩ front (lexeme ++ back) :=
    Report.Label.position_eq_shown h.start_eq
  rwa [← hshown, htext]

/-- It names the location exactly if its lines are those between line feeds as far as the lexeme. -/
theorem Failure.Pinpoints.isHeaded_iff (h : failure.Pinpoints root l source front lexeme back)
    (hl : failure.error.diagnostic.location? = some l) :
    Report.IsHeaded (Report.render failure.error.diagnostic failure.session.sources) failure.error.diagnostic l.file
      l.label ↔ Report.CountsAlike front (lexeme ++ back) := by
  have hlocated : Position.mk l.line l.column = .after front := by
    rw [← h.marks.position, h.location]
    rfl
  rw [l.label_eq, hlocated, ← Report.shown_eq_after_iff]
  constructor
  · intro hheaded
    exact (h.isHeaded hl).unique hheaded
  · intro heq
    exact heq ▸ h.isHeaded hl

end Pinpoints

namespace Session

variable {s₀ : Session} {failure : Failure}

/-- Whatever parse fails with a location: the report of the failure names a place in the file of the location at its
head, and the message of the failure, unless an include has not been found, names the location.  The two name the same
place exactly if, in the text before it, no character ends a line but line feeds, carriage returns before them and the
last character of the text, and the text does not end there with a line feed. -/
theorem Parses.report_names_location_iff {parse : Nat → Reading Parsed} (hparse : s₀.Parses parse) (files : FileSystem)
    (budget : Nat) {l : Location} (h : (parse budget).run files = .error failure)
    (hl : failure.error.diagnostic.location? = some l) :
    (∃ source front back, failure.session.sources.get? l.span.source = some source ∧ front ++ back = source.chars ∧
      Text.byteLength front = l.span.start ∧
      (∃ p : Position, Report.IsHeaded (Report.render failure.error.diagnostic failure.session.sources)
        failure.error.diagnostic l.file (p.labelIn l.file)) ∧
      (Report.IsHeaded (Report.render failure.error.diagnostic failure.session.sources) failure.error.diagnostic l.file
        l.label ↔ Report.CountsAlike front back)) ∧
    (Report.category failure.error.diagnostic ≠ "include" →
      ∃ before after, failure.error.diagnostic.message = before ++ l.label ++ after) := by
  obtain ⟨source, front, lexeme, back, pinpoints⟩ := hparse.isPinpointed files budget h l hl
  refine ⟨⟨source, front, lexeme ++ back, pinpoints.known, ?_, pinpoints.marks.start.symm, ⟨_, pinpoints.isHeaded hl⟩,
    pinpoints.isHeaded_iff hl⟩, Diagnostic.exists_message_eq hl⟩
  rw [← List.append_assoc, pinpoints.marks.text]

private def noFiles : FileSystem := fun _ => .error .notFound

/-- What a text without includes fails with, and the sources of its report. -/
private def reported (text : String) : Option (Diagnostic × SourceTable) :=
  match ((new ⟨"."⟩).parseTextWithin 1 ⟨"app.conf"⟩ text).run noFiles with
  | .error failure => some (failure.error.diagnostic, failure.session.sources)
  | .ok _ => none

private theorem exists_of_reported {text : String} {d : Diagnostic} {sources : SourceTable}
    (h : reported text = some (d, sources)) :
    ∃ failure, ((new ⟨"."⟩).parseTextWithin 1 ⟨"app.conf"⟩ text).run noFiles = .error failure ∧
      failure.error.diagnostic = d ∧ failure.session.sources = sources := by
  rw [reported] at h
  split at h
  · rename_i failure hrun
    obtain ⟨hd, hsources⟩ := Prod.mk.inj (Option.some.inj h)
    exact ⟨failure, hrun, hd, hsources⟩
  · simp at h

private def bracket : Location :=
  ⟨⟨"./app.conf"⟩, 3, 1, withBraces "ui (\r\n\r\n]", ⟨8, 9, 0⟩⟩

/-- After carriage returns that belong to line feeds a report names the location, as the message does. -/
theorem report_names_location_of_crlf : ∃ failure,
    ((new ⟨"."⟩).parseTextWithin 1 ⟨"app.conf"⟩ (withBraces "ui (\r\n\r\n]")).run noFiles = .error failure ∧
      failure.error.diagnostic.location? = some bracket ∧
      Report.IsHeaded (Report.render failure.error.diagnostic failure.session.sources) failure.error.diagnostic
        ⟨"./app.conf"⟩ "./app.conf:3:1" ∧
      ∃ before after, failure.error.diagnostic.message = before ++ "./app.conf:3:1" ++ after := by
  let source : Source := ⟨⟨"./app.conf"⟩, withBraces "ui (\r\n\r\n]"⟩
  have hreported : reported source.text =
      some (.unexpected Mark.rightBrace.text "']'" bracket, SourceTable.empty.add source) := by
    decide +kernel
  obtain ⟨failure, hrun, hd, hsources⟩ := exists_of_reported hreported
  have hlocation : failure.error.diagnostic.location? = some bracket := by rw [hd]; rfl
  have hlabel : bracket.label = "./app.conf:3:1" := by decide +kernel
  obtain ⟨⟨_, front, back, hsource, htext, hstart, -, hnamed⟩, hmessage⟩ :=
    (Parses.text ⟨"app.conf"⟩ source.text).report_names_location_iff noFiles 1 hrun hlocation
  rw [hsources] at hsource
  obtain rfl : source = _ := Option.some.inj hsource
  -- the text is cut before the bracket
  obtain rfl : source.chars.take 8 = front := by
    have hwithin := Text.within_append front back
    rw [htext, hstart] at hwithin
    exact (by decide +kernel : source.chars.take 8 = Text.within 8 source.chars).trans hwithin
  obtain rfl : source.chars.drop 8 = back :=
    List.append_cancel_left ((List.take_append_drop 8 source.chars).trans htext.symm)
  rw [hlabel] at hnamed hmessage
  exact ⟨failure, hrun, hlocation, hnamed.2 (by decide +kernel), hmessage (by rw [hd]; decide)⟩

private def endOfFile : Location :=
  ⟨⟨"./app.conf"⟩, 2, 1, withBraces "ui (\n", ⟨5, 5, 0⟩⟩

/-- At the end of a text that ends with a line feed a report names another line than the location. -/
theorem not_report_names_location : ¬ ∀ (s₀ : Session) (parse : Nat → Reading Parsed) (files : FileSystem)
    (budget : Nat) (failure : Failure) (l : Location), s₀.Parses parse → (parse budget).run files = .error failure →
      failure.error.diagnostic.location? = some l →
      Report.IsHeaded (Report.render failure.error.diagnostic failure.session.sources) failure.error.diagnostic l.file
        l.label := by
  intro h
  let source : Source := ⟨⟨"./app.conf"⟩, withBraces "ui (\n"⟩
  have hreported : reported source.text =
      some (.unexpected Mark.rightBrace.text "end of file" endOfFile, SourceTable.empty.add source) := by
    decide +kernel
  obtain ⟨failure, hrun, hd, hsources⟩ := exists_of_reported hreported
  have hlocation : failure.error.diagnostic.location? = some endOfFile := by rw [hd]; rfl
  have hsource : failure.session.sources.get? 0 = some source := by rw [hsources]; rfl
  have hnamed := Report.isHeaded_render hlocation hsource (by decide +kernel)
  have hposition : (Report.Label.ofSpan endOfFile.span source.chars).position (Text.lines source.chars) = ⟨1, 6⟩ := by
    decide +kernel
  rw [hposition] at hnamed
  have hlabel := h _ _ noFiles 1 failure endOfFile (.text ⟨"app.conf"⟩ source.text) hrun hlocation
  have hsame : Position.mk 2 1 = ⟨1, 6⟩ := Report.IsHeaded.unique hlabel hnamed
  simp at hsame

end Session

end BundleConf
