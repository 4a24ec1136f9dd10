import BundleConf.Proofs.Grammar.Canonical
import BundleConf.Proofs.Lexing.Printing
import BundleConf.Proofs.Parsing.Acceptance

/-!
# Writing an application and reading it back

An application without quotes in its texts is written as a text whose tokens are those of its derivation.  The parse of
that text yields the application if no package name is taken twice and no unique flag is carried twice, and it yields
nothing otherwise (`exists_parseText_print_eq_ok_iff`).
-/

namespace BundleConf

/-! ### The texts of an application -/

/-- The texts that stand in quotes in what is written. -/
def Route.texts (r : Route) : List String :=
  r.path :: r.template :: r.layout.toList ++ r.depends

def Package.texts (p : Package) : List String :=
  p.name :: p.requires ++ p.directories ++ p.files ++ p.options ++ p.routes.flatMap Route.texts

def Ui.texts (ui : Ui) : List String :=
  ui.template ++ ui.assets ++ ui.javascript ++ ui.stylesheets

def App.texts (app : App) : List String :=
  app.packages.flatMap Package.texts ++ app.routes.flatMap Route.texts ++ app.ui.texts ++ app.middlewares

/-- The token reads back from what it is written with, and a parse takes it where it stands. -/
structure Token.IsPlain (t : Token) : Prop where
  printable : t.IsPrintable
  comment : t.isComment = false
  noInclude : t ≠ .keyword .include

namespace Token

@[simp] theorem isPlain_value {text : String} : (value text).IsPlain ↔ '\'' ∉ text.toList :=
  ⟨IsPlain.printable, fun h => ⟨h, rfl, by simp⟩⟩

@[simp] theorem isPlain_mark (m : Mark) : (mark m).IsPlain :=
  ⟨trivial, rfl, by simp⟩

@[simp] theorem isPlain_keyword {k : Keyword} : (keyword k).IsPlain ↔ k ≠ .include :=
  ⟨fun h => by simpa using h.noInclude, fun h => ⟨trivial, rfl, by simpa using h⟩⟩

end Token

/-- The texts are without quotes. -/
def Unquoted (texts : List String) : Prop :=
  ∀ text ∈ texts, '\'' ∉ text.toList

open List (forall_mem_append forall_mem_cons forall_mem_flatMap forall_mem_nil)

theorem isPlain_statementTokens {k : Keyword} (hk : k ≠ .include) {values : List String} (h : Unquoted values) :
    ∀ t ∈ values.flatMap (statementTokens k), t.IsPlain := by
  rw [forall_mem_flatMap]
  intro value hvalue
  simpa [statementTokens, hk] using h value hvalue

theorem isPlain_listTokens {names : List String} (h : Unquoted names) : ∀ t ∈ listTokens names, t.IsPlain := by
  cases names with
  | nil => simp [listTokens]
  | cons name names =>
    obtain ⟨hname, hnames⟩ := forall_mem_cons.1 h
    rw [listTokens_cons, forall_mem_append, forall_mem_append, forall_mem_flatMap]
    refine ⟨⟨?_, fun next hnext => ?_⟩, ?_⟩
    · simpa using hname
    · simpa using hnames next hnext
    · simp

theorem isPlain_routesTokens {rs : List Route} (h : Unquoted (rs.flatMap Route.texts)) :
    ∀ t ∈ routesTokens rs, t.IsPlain := by
  have hroute : ∀ r ∈ rs, ∀ t ∈ r.tokens, t.IsPlain := by
    intro r hr
    have hr : Unquoted r.texts := forall_mem_flatMap.1 h r hr
    simp only [Unquoted, Route.texts, forall_mem_append, forall_mem_cons] at hr
    obtain ⟨⟨hpath, htemplate, hlayout⟩, hdepends⟩ := hr
    simp only [Route.tokens, forall_mem_append]
    refine ⟨⟨⟨⟨?_, ?_⟩, isPlain_listTokens hdepends⟩, ?_⟩, by simp⟩
    · simp [hpath, htemplate]
    · cases hr : r.layout with
      | none => simp
      | some layout => simpa [hr] using hlayout
    · rw [forall_mem_flatMap]
      simp
  simp only [routesTokens, forall_mem_append, forall_mem_flatMap]
  exact ⟨⟨by simp, hroute⟩, by simp⟩

theorem Package.isPlain_tokens {p : Package} (h : Unquoted p.texts) : ∀ t ∈ p.tokens, t.IsPlain := by
  simp only [Unquoted, texts, forall_mem_append, forall_mem_cons] at h
  obtain ⟨⟨⟨⟨⟨hname, hrequires⟩, hdirectories⟩, hfiles⟩, hoptions⟩, hroutes⟩ := h
  simp only [tokens, forall_mem_append]
  refine ⟨⟨⟨⟨⟨⟨?_, ?_⟩, ?_⟩, ?_⟩, ?_⟩, isPlain_routesTokens hroutes⟩, by simp⟩
  · simp [hname]
  · exact isPlain_statementTokens (by simp) hrequires
  · exact isPlain_statementTokens (by simp) hdirectories
  · exact isPlain_statementTokens (by simp) hfiles
  · exact isPlain_statementTokens (by simp) hoptions

theorem Ui.isPlain_tokens {ui : Ui} (h : Unquoted ui.texts) : ∀ t ∈ ui.tokens, t.IsPlain := by
  have hfields : ∀ field, Unquoted (ui.get field) := by
    simp only [Unquoted, texts, forall_mem_append] at h
    intro field
    cases field
    · exact h.1.1.1
    · exact h.1.1.2
    · exact h.1.2
    · exact h.2
  simp only [tokens, forall_mem_append, forall_mem_flatMap]
  refine ⟨⟨by simp, fun field _ => ?_⟩, by simp⟩
  exact forall_mem_cons.2 ⟨by simp, isPlain_listTokens (hfields field)⟩

/-- What an application is written with reads back, and includes nothing. -/
theorem App.isPlain_tokens {app : App} (h : Unquoted app.texts) : ∀ t ∈ app.tokens, t.IsPlain := by
  simp only [Unquoted, texts, forall_mem_append] at h
  obtain ⟨⟨⟨hpackages, hroutes⟩, hui⟩, hmiddlewares⟩ := h
  simp only [tokens, forall_mem_append]
  refine ⟨⟨⟨?_, isPlain_routesTokens hroutes⟩, Ui.isPlain_tokens hui⟩, ?_⟩
  · rw [forall_mem_flatMap]
    exact fun p hp => p.isPlain_tokens (forall_mem_flatMap.1 hpackages p hp)
  · exact isPlain_statementTokens (by simp) hmiddlewares

/-! ### Reading back -/

/-- A text with the tokens of an application is accepted exactly when the application is consistent, and means it then,
whatever stands between the tokens. -/
theorem exists_parseText_eq_ok_iff_of_tokens (files : FileSystem) {text : String} {ts : List (Located Token)}
    {app : App} (hlex : lex text = .ok ts) (hts : (meaningful ts).map Located.value = app.tokens ++ [.finish])
    (noInclude : .keyword .include ∉ app.tokens) {app' : App} :
    (∃ s, (parseText text).run files = .ok (app', s)) ↔ app.IsConsistent ∧ app' = app := by
  let here := Session.new ⟨"."⟩
  let stream := TokenStream.ofSource ⟨here.rootPath .input, text⟩ 0
  obtain ⟨hvalues, -⟩ := TokenStream.unread_of_lex hlex (here.rootPath .input) 0
  have htokens : (meaningful stream.unread.1).map Located.value = app.tokens ++ [.finish] := hvalues.trans hts
  have noInclude' : ∀ t ∈ meaningful stream.unread.1, t.value ≠ .keyword .include := by
    intro t ht hinclude
    have hmem : t.value ∈ app.tokens ++ [.finish] := htokens ▸ List.mem_map_of_mem ht
    rw [hinclude] at hmem
    simp [noInclude] at hmem
  have accepted : (∃ s, (parseText text).run files = .ok (app', s)) ↔
      (Machine.start 0).run (meaningful stream.unread.1) = .error (.finished app') :=
    Session.run_parseTextWithin_eq_ok_iff files maxIncludes rfl noInclude' app'
  rw [← App.tokens_declarations] at htokens
  rw [accepted, Machine.run_declarations_eq_finished_iff htokens (app.numbers_declarations _),
    App.declared_declarations]

/-- An application that is written without quotes in its texts is read back, if no package name is taken twice and
neither error404 nor index is carried twice; otherwise what is written is not accepted. -/
theorem exists_parseText_print_eq_ok_iff (files : FileSystem) {app : App}
    (unquoted : ∀ text ∈ app.texts, '\'' ∉ text.toList) (app' : App) :
    (∃ s, (parseText app.print).run files = .ok (app', s)) ↔
      app.packageNames.Nodup ∧ (∀ flag ∈ [RouteFlag.error404, .index], app.allRoutes.countP (·.has flag) ≤ 1) ∧
        app' = app := by
  have plain := App.isPlain_tokens unquoted
  obtain ⟨ts, hlex, hts⟩ := lex_print fun t ht => ⟨(plain t ht).printable, (plain t ht).comment⟩
  rw [← and_assoc]
  exact exists_parseText_eq_ok_iff_of_tokens files hlex hts fun h => (plain _ h).noInclude rfl

/-- Names like generated ones, and texts that look like the marks and the comments of the language. -/
private def intricate : App where
  packages :=
    [{ name := "anonymous-1", requires := ["", "// x"], files := [withBraces "(\n)"],
       routes := [{ path := "/é", template := "t", depends := ["anonymous-0", ""], layout := some "[]",
                    error404 := true, isPrivate := true }] },
     { name := "" }]
  routes := [{ path := "//", template := "ui", index := true, dialog := true }]
  ui := { assets := ["", ","] }
  middlewares := ["last"]

theorem exists_parseText_print_intricate :
    intricate.print = withBraces "package 'anonymous-1' ( requires '' ; requires '// x' ; file '(\n)' ; " ++
      withBraces "routes ( '/é' : 't' layout : '[]' [ 'anonymous-0' , '' ] , error404 , private ; ) ) " ++
      withBraces "package '' ( routes ( ) ) routes ( '//' : 'ui' [ ] , index , dialog ; ) " ++
      withBraces "ui ( template [ ] assets [ '' , ',' ] javascript [ ] stylesheets [ ] ) middleware 'last' ; " ∧
    (∀ text ∈ intricate.texts, '\'' ∉ text.toList) ∧
    ∃ s, (parseText intricate.print).run (fun _ => .error .notFound) = .ok (intricate, s) := by
  have unquoted : ∀ text ∈ intricate.texts, '\'' ∉ text.toList := by decide +kernel
  have names : intricate.packageNames.Nodup := by decide +kernel
  have flags : ∀ flag ∈ [RouteFlag.error404, .index], intricate.allRoutes.countP (·.has flag) ≤ 1 := by decide +kernel
  refine ⟨?_, unquoted, (exists_parseText_print_eq_ok_iff _ unquoted intricate).2 ⟨names, flags, rfl⟩⟩
  -- lists of characters are compared faster than texts
  rw [← String.toList_inj, App.print, Token.print, String.toList_ofList]
  simp only [String.toList_append, toList_withBraces]
  decide +kernel

end BundleConf
