import BundleConf.Path.Basic

/-!
# The components of a path

`join` and `parent?` edit the text of a path, and what they do to the components does not depend on how the path is
written: joining a relative path appends its components (`Path.components_join`), and the parent of a path has the
components before the last one (`Path.components_parent?_getD`), which is a name for the paths that `..` can take back
(`Path.components_parent?`).  So a request is resolved component by component: silent parts do nothing, `..` takes a
name back if there is one at the end and is kept otherwise, and a name is appended (`Path.components_resolve`).  A
request that never goes up further than it has come down is resolved to a path below the directory
(`Path.follow_of_staysBelow`).
-/

namespace BundleConf.Path

variable {cs : List Char} {p : Path}

/-! ### Parts -/

/-- No part has a slash. -/
theorem slash_notMem_of_mem_parts {part : List Char} (h : part ∈ parts cs) : '/' ∉ part := by
  induction cs generalizing part with
  | nil =>
    obtain rfl : part = [] := by simpa [parts] using h
    simp
  | cons c cs ih =>
    rw [parts] at h
    split at h
    · rcases List.mem_cons.1 h with rfl | h
      · simp
      · exact ih h
    · rename_i hc
      obtain ⟨first, rest, hcs⟩ := List.exists_cons_of_ne_nil (parts_ne_nil cs)
      rw [hcs] at h ih
      rcases List.mem_cons.1 h with rfl | h
      · simpa [Ne.symm hc] using ih List.mem_cons_self
      · exact ih (List.mem_cons_of_mem _ h)

/-- A slash separates the parts before it from those after it. -/
theorem parts_append_slash (cs ds : List Char) : parts (cs ++ '/' :: ds) = parts cs ++ parts ds := by
  induction cs with
  | nil => rw [List.nil_append, parts_slash, parts, List.singleton_append]
  | cons c cs ih =>
    rw [List.cons_append, parts, ih, parts]
    split
    · rfl
    · obtain ⟨first, rest, hcs⟩ := List.exists_cons_of_ne_nil (parts_ne_nil cs)
      rw [hcs]
      rfl

theorem parts_of_slash_notMem (h : '/' ∉ cs) : parts cs = [cs] := by
  induction cs with
  | nil => rfl
  | cons c cs ih =>
    obtain ⟨hc, hcs⟩ := not_or.1 (mt List.mem_cons.2 h)
    rw [parts, if_neg (Ne.symm hc), ih hcs]

/-- Parts are read back from the text that is made of them. -/
theorem parts_unparts {ps : List (List Char)} (hne : ps ≠ []) (h : ∀ part ∈ ps, '/' ∉ part) :
    parts (unparts ps) = ps := by
  induction ps with
  | nil => exact absurd rfl hne
  | cons part ps ih =>
    obtain ⟨hpart, hps⟩ := List.forall_mem_cons.1 h
    cases ps with
    | nil => exact parts_of_slash_notMem hpart
    | cons part' ps =>
      rw [unparts, parts_append_slash, parts_of_slash_notMem hpart, ih (by simp) hps, List.singleton_append]
      simp

/-! ### What parts say -/

theorem ofPart?_of_isSilent {part : List Char} (h : isSilent part = true) : Component.ofPart? part = none := by
  rw [Component.ofPart?, if_pos h]

theorem ofPart?_eq_none_iff {part : List Char} : Component.ofPart? part = none ↔ isSilent part = true := by
  refine ⟨fun h => ?_, ofPart?_of_isSilent⟩
  rw [Component.ofPart?] at h
  split at h
  · assumption
  · split at h <;> simp at h

/-- Dropping silent parts changes nothing that is said. -/
theorem filterMap_dropSilent (ps : List (List Char)) :
    (dropSilent ps).filterMap Component.ofPart? = ps.filterMap Component.ofPart? := by
  have tail : (ps.reverse.takeWhile isSilent).filterMap Component.ofPart? = [] := by
    refine List.filterMap_eq_nil_iff.2 fun part hpart => ofPart?_of_isSilent ?_
    exact List.all_eq_true.1 List.all_takeWhile part hpart
  have split : ps = dropSilent ps ++ (ps.reverse.takeWhile isSilent).reverse := by
    rw [dropSilent, ← List.reverse_append, List.takeWhile_append_dropWhile, List.reverse_reverse]
  conv => rhs; rw [split, List.filterMap_append, List.filterMap_reverse, tail]
  simp

theorem dropSilent_isPrefix (ps : List (List Char)) : dropSilent ps <+: ps := by
  refine ⟨(ps.reverse.takeWhile isSilent).reverse, ?_⟩
  rw [dropSilent, ← List.reverse_append, List.takeWhile_append_dropWhile, List.reverse_reverse]

/-- The last part that is left says something. -/
theorem isSilent_of_dropSilent_eq_concat {ps init : List (List Char)} {last : List Char}
    (h : dropSilent ps = init ++ [last]) : isSilent last = false := by
  have hdrop : ps.reverse.dropWhile isSilent = last :: init.reverse := by
    rw [← List.reverse_reverse (ps.reverse.dropWhile isSilent), ← dropSilent, h]
    simp
  have hne : ps.reverse.dropWhile isSilent ≠ [] := by simp [hdrop]
  simpa [hdrop] using List.head_dropWhile_not isSilent hne

/-! ### The start of a path -/

/-- What the parts of a path say before any name. -/
def opening : List (List Char) → List Component
  | [] :: _ :: _ => [.root]
  | ['.'] :: _ => [.here]
  | _ => []

/-- Only what comes first opens a path. -/
theorem opening_append {ps qs qs' : List (List Char)} (hps : ps ≠ []) (hqs : qs ≠ []) (hqs' : qs' ≠ []) :
    opening (ps ++ qs) = opening (ps ++ qs') := by
  obtain ⟨q, qs, rfl⟩ := List.exists_cons_of_ne_nil hqs
  obtain ⟨q', qs', rfl⟩ := List.exists_cons_of_ne_nil hqs'
  rcases ps with _ | ⟨p, _ | ⟨p', ps⟩⟩
  · exact absurd rfl hps
  · unfold opening
    split <;> simp_all
  · unfold opening
    split <;> simp_all

theorem opening_append_of_ne {ps qs : List (List Char)} (hps : ps ≠ []) (hone : ps ≠ [[]]) :
    opening (ps ++ qs) = opening ps := by
  rcases ps with _ | ⟨p, _ | ⟨p', ps⟩⟩
  · exact absurd rfl hps
  · unfold opening
    split <;> split <;> simp_all
  · unfold opening
    split <;> split <;> simp_all

theorem opening_of_isPrefix {ps qs : List (List Char)} (h : qs <+: ps) (hps : opening ps = []) : opening qs = [] := by
  obtain ⟨rest, rfl⟩ := h
  rcases qs with _ | ⟨q, _ | ⟨q', qs⟩⟩
  · rfl
  · unfold opening at hps ⊢
    split at hps <;> split <;> simp_all
  · unfold opening at hps ⊢
    split at hps <;> split <;> simp_all

private theorem parts_cons_of_ne {c : Char} (hc : c ≠ '/') (cs : List Char) :
    ∃ first rest, parts cs = first :: rest ∧ parts (c :: cs) = (c :: first) :: rest := by
  obtain ⟨first, rest, hcs⟩ := List.exists_cons_of_ne_nil (parts_ne_nil cs)
  exact ⟨first, rest, hcs, by rw [parts, if_neg hc, hcs]⟩

/-- A text that starts with neither a slash nor a dot that is its whole first part opens no path. -/
private theorem opening_parts_eq_nil (hslash : ∀ rest, cs ≠ '/' :: rest) (hdot : cs ≠ ['.'])
    (hdotslash : ∀ rest, cs ≠ '.' :: '/' :: rest) : opening (parts cs) = [] := by
  cases cs with
  | nil => rfl
  | cons c cs =>
    have hc : c ≠ '/' := fun hc => hslash cs (by rw [hc])
    obtain ⟨first, rest, hcs, hparts⟩ := parts_cons_of_ne hc cs
    have hfirst : c :: first ≠ ['.'] := by
      rintro h
      obtain ⟨rfl, rfl⟩ := List.cons.inj h
      cases cs with
      | nil => exact hdot rfl
      | cons d cs =>
        by_cases hd : d = '/'
        · exact hdotslash cs (by rw [hd])
        · obtain ⟨_, _, -, hcs'⟩ := parts_cons_of_ne hd cs
          simp [hcs'] at hcs
    rw [hparts]
    unfold opening
    split <;> simp_all

/-- A path says what its parts say, and its first part may say how it starts. -/
theorem components_eq (p : Path) :
    p.components = opening (parts p.text.toList) ++ (parts p.text.toList).filterMap Component.ofPart? := by
  change headComponent (splitHead p.text.toList).1 ++
    (parts (splitHead p.text.toList).2).filterMap Component.ofPart? = _
  generalize p.text.toList = cs
  fun_cases splitHead cs with
  | case1 cs =>
    obtain ⟨first, rest, hcs⟩ := List.exists_cons_of_ne_nil (parts_ne_nil cs)
    rw [parts_slash, hcs]
    rfl
  | case2 => rfl
  | case3 cs =>
    have hparts : parts ('.' :: '/' :: cs) = ['.'] :: parts cs := by simp [parts]
    rw [hparts, parts_slash]
    rfl
  | case4 cs hslash hdot hdotslash =>
    rw [opening_parts_eq_nil hslash hdot hdotslash]
    rfl

@[simp] theorem components_empty : components ⟨""⟩ = [] := rfl

/-- Only the empty path says nothing. -/
theorem components_eq_nil_iff : p.components = [] ↔ p.text = "" := by
  constructor
  · intro h
    obtain ⟨hopening, hparts⟩ := List.append_eq_nil_iff.1 ((components_eq p).symm.trans h)
    obtain ⟨first, rest, hfirst⟩ := List.exists_cons_of_ne_nil (parts_ne_nil p.text.toList)
    rw [hfirst] at hopening hparts
    have hsilent : isSilent first = true :=
      ofPart?_eq_none_iff.1 (List.filterMap_eq_nil_iff.1 hparts first List.mem_cons_self)
    obtain rfl | rfl : first = [] ∨ first = ['.'] := by simpa [isSilent] using hsilent
    · cases rest with
      | nil =>
        have htext : p.text.toList = [] := by rw [← unparts_parts p.text.toList, hfirst]; rfl
        simpa using htext
      | cons part rest => simp [opening] at hopening
    · simp [opening] at hopening
  · intro h
    obtain rfl : p = ⟨""⟩ := congrArg Path.mk h
    rfl

/-! ### Joining -/

/-- A relative path that is joined is appended, but for a dot at its start. -/
theorem components_join {a b : Path} (ha : a.text ≠ "") (hb : b.isAbsolute = false) :
    (a.join b).components = a.components ++ (parts b.text.toList).filterMap Component.ofPart? := by
  have hne : a.text.toList ≠ [] := by simpa using ha
  have hparts : parts (a.join b).text.toList = parts a.text.toList ++ parts b.text.toList ∨
      ∃ ps, ps ≠ [] ∧ parts a.text.toList = ps ++ [[]] ∧
        parts (a.join b).text.toList = ps ++ parts b.text.toList := by
    rw [join, hb]
    by_cases hlast : a.text.toList.getLast? = some '/'
    · obtain ⟨front, hfront⟩ := List.getLast?_eq_some_iff.1 hlast
      refine .inr ⟨parts front, parts_ne_nil front, by rw [hfront, parts_append_slash]; rfl, ?_⟩
      rw [hfront]
      simp [parts_append_slash]
    · refine .inl ?_
      simp [hlast, hne, parts_append_slash]
  rw [components_eq, components_eq]
  rcases hparts with hparts | ⟨ps, hps, ha', hparts⟩
  · rw [hparts, List.filterMap_append, ← List.append_assoc]
    rw [opening_append_of_ne (parts_ne_nil _) fun hempty => hne (by rw [← unparts_parts a.text.toList, hempty]; rfl)]
  · have silent : [[]].filterMap Component.ofPart? = [] := rfl
    rw [hparts, ha', opening_append hps (parts_ne_nil _) (List.cons_ne_nil [] []), List.filterMap_append,
      List.filterMap_append, silent, List.append_nil, List.append_assoc]

/-! ### Parents -/

/-- What is made of some parts says what they say. -/
private theorem filterMap_parts_unparts {ps : List (List Char)} (h : ∀ part ∈ ps, '/' ∉ part) :
    (parts (unparts ps)).filterMap Component.ofPart? = ps.filterMap Component.ofPart? := by
  cases ps with
  | nil => rfl
  | cons part ps => rw [parts_unparts (by simp) h]

/-- The first parts of a path say the same on their own, after what the path starts with. -/
private theorem components_unparts {qs : List (List Char)} (h : qs <+: parts (splitHead cs).2) :
    components ⟨String.ofList ((splitHead cs).1 ++ unparts qs)⟩ =
      headComponent (splitHead cs).1 ++ qs.filterMap Component.ofPart? := by
  have noslash : ∀ part ∈ qs, '/' ∉ part := fun part hpart => slash_notMem_of_mem_parts (h.subset hpart)
  rw [components_eq, String.toList_ofList]
  fun_cases splitHead cs with
  | case1 cs =>
    obtain ⟨first, rest, hparts⟩ := List.exists_cons_of_ne_nil (parts_ne_nil (unparts qs))
    rw [List.singleton_append, parts_slash, List.filterMap_cons, ← filterMap_parts_unparts noslash, hparts]
    rfl
  | case2 =>
    rcases List.prefix_cons_iff.1 h with rfl | ⟨qs, rfl, hqs⟩
    · rfl
    · obtain rfl := List.prefix_nil.1 hqs
      rfl
  | case3 cs =>
    rw [splitHead, parts_slash] at h
    rcases List.prefix_cons_iff.1 h with rfl | ⟨qs, rfl, -⟩
    · rfl
    · cases qs with
      | nil => rfl
      | cons part qs =>
        have text : ['.'] ++ unparts ([] :: part :: qs) = ['.'] ++ '/' :: unparts (part :: qs) := rfl
        rw [text, parts_append_slash, List.filterMap_append,
          filterMap_parts_unparts (List.forall_mem_cons.1 noslash).2]
        rfl
  | case4 cs hslash hdot hdotslash =>
    change opening (parts (unparts qs)) ++ (parts (unparts qs)).filterMap Component.ofPart? =
      qs.filterMap Component.ofPart?
    have hsplit : splitHead cs = ([], cs) := by rw [splitHead] <;> assumption
    rw [hsplit] at h
    have hopening : opening (parts (unparts qs)) = [] := by
      cases qs with
      | nil => rfl
      | cons part qs =>
        rw [parts_unparts (by simp) noslash]
        exact opening_of_isPrefix h (opening_parts_eq_nil hslash hdot hdotslash)
    rw [hopening, filterMap_parts_unparts noslash, List.nil_append]

/-- A path says what its parts say without the silent ones at its end. -/
private theorem components_eq_dropSilent (p : Path) : p.components = headComponent (splitHead p.text.toList).1 ++
    (dropSilent (parts (splitHead p.text.toList).2)).filterMap Component.ofPart? := by
  rw [filterMap_dropSilent]
  rfl

/-- The parent of a path in which some part speaks is what stands before the last such part. -/
private theorem exists_parent? {init : List (List Char)} {last : List Char}
    (hinit : dropSilent (parts (splitHead p.text.toList).2) = init ++ [last]) :
    ∃ q c, p.parent? = some q ∧ p.components = q.components ++ [c] := by
  have hspeaks : isSilent last = false := isSilent_of_dropSilent_eq_concat hinit
  obtain ⟨c, hc⟩ : ∃ c, Component.ofPart? last = some c := by
    rw [Component.ofPart?, if_neg (by simp [hspeaks])]
    split <;> exact ⟨_, rfl⟩
  have hlast : [last].filterMap Component.ofPart? = [c] := by simp [hc]
  have hparent : p.parent? = some ⟨String.ofList ((splitHead p.text.toList).1 ++ unparts (dropSilent init))⟩ := by
    rw [parent?]
    dsimp only
    rw [hinit]
    cases init with
    | nil => rfl
    | cons part init =>
      have hdrop : (part :: (init ++ [last])).dropLast = part :: init := by
        rw [← List.cons_append, List.dropLast_concat]
      rw [List.cons_append]
      dsimp only
      rw [hdrop]
  have hprefix : dropSilent init <+: parts (splitHead p.text.toList).2 :=
    (dropSilent_isPrefix init).trans ((hinit ▸ List.prefix_append init [last]).trans (dropSilent_isPrefix _))
  refine ⟨_, c, hparent, ?_⟩
  rw [components_unparts hprefix, filterMap_dropSilent, components_eq_dropSilent p, hinit, List.filterMap_append, hlast,
    List.append_assoc]

/-- The parent of a path that ends with a name is what stands before that name. -/
theorem components_parent? {name : List Char} {cs : List Component} (h : p.components = cs ++ [.name name]) :
    ∃ q, p.parent? = some q ∧ q.components = cs := by
  rcases List.eq_nil_or_concat (dropSilent (parts (splitHead p.text.toList).2)) with hnil | ⟨init, last, hinit⟩
  · -- only what a path starts with would be left
    rw [components_eq_dropSilent, hnil, List.filterMap_nil, List.append_nil, eq_comm] at h
    unfold headComponent at h
    split at h <;> simp [List.append_eq_cons_iff] at h
  · rw [List.concat_eq_append] at hinit
    obtain ⟨q, c, hparent, hcomponents⟩ := exists_parent? hinit
    obtain ⟨hq, -⟩ := List.append_inj' (hcomponents.symm.trans h) rfl
    exact ⟨q, hparent, hq⟩

/-- The directory of a path, which is the empty path if it has no parent, is what stands before the last component. -/
theorem components_parent?_getD (p : Path) : (p.parent?.getD ⟨""⟩).components = p.components.dropLast := by
  rcases List.eq_nil_or_concat (dropSilent (parts (splitHead p.text.toList).2)) with hnil | ⟨init, last, hinit⟩
  · have hparent : p.parent?.getD ⟨""⟩ = ⟨""⟩ := by
      rw [parent?]
      dsimp only
      rw [hnil]
      dsimp only
      split <;> rfl
    rw [hparent, components_eq_dropSilent p, hnil, List.filterMap_nil, List.append_nil]
    unfold headComponent
    split <;> rfl
  · rw [List.concat_eq_append] at hinit
    obtain ⟨q, c, hparent, hcomponents⟩ := exists_parent? hinit
    rw [hparent, Option.getD_some, hcomponents, List.dropLast_concat]

/-! ### Requests -/

/-- The components after one part of a request. -/
def Component.follow (cs : List Component) (part : List Char) : List Component :=
  match Component.ofPart? part with
  | none => cs
  | some .up =>
    match cs.getLast? with
    | some (.name _) => cs.dropLast
    | _ => cs ++ [.up]
  | some c => cs ++ [c]

/-- A part that is joined to a path is appended to its components. -/
private theorem components_join_part {part : List Char} {c : Component} (hslash : '/' ∉ part)
    (hc : Component.ofPart? part = some c) : (p.join ⟨String.ofList part⟩).components = p.components ++ [c] := by
  have hsilent : isSilent part = false := by
    cases hs : isSilent part with
    | false => rfl
    | true => simp [ofPart?_of_isSilent hs] at hc
  have hparts : (parts part).filterMap Component.ofPart? = [c] := by simp [parts_of_slash_notMem hslash, hc]
  have hrelative : isAbsolute ⟨String.ofList part⟩ = false := by
    cases part with
    | nil => rfl
    | cons d part =>
      have : d ≠ '/' := fun h => hslash (by simp [h])
      simpa [isAbsolute] using this
  by_cases hp : p.text = ""
  · obtain rfl : p = ⟨""⟩ := congrArg Path.mk hp
    rw [join_empty_left, components_eq, components_empty, String.toList_ofList, hparts, parts_of_slash_notMem hslash]
    have hopening : opening [part] = [] := by
      unfold opening
      split <;> simp_all [isSilent]
    rw [hopening]
  · rw [components_join hp hrelative, String.toList_ofList, hparts]

/-- A part of a request does to a path what it does to its components. -/
theorem components_follow (p : Path) {part : List Char} (hslash : '/' ∉ part) :
    (p.follow part).components = Component.follow p.components part := by
  rw [follow, Component.follow]
  by_cases hsilent : isSilent part = true
  · rw [if_pos hsilent, ofPart?_of_isSilent hsilent]
  · rw [if_neg hsilent]
    by_cases hup : part = ['.', '.']
    · subst hup
      have hpart : Component.ofPart? ['.', '.'] = some .up := rfl
      have hjoin : (p.join ⟨".."⟩).components = p.components ++ [.up] := components_join_part hslash hpart
      rw [if_pos rfl, hpart]
      dsimp only
      cases hlast : p.components.getLast? with
      | none => exact hjoin
      | some c =>
        cases c with
        | name name =>
          obtain ⟨cs, hcs⟩ := List.getLast?_eq_some_iff.1 hlast
          obtain ⟨q, hq, hcomponents⟩ := components_parent? hcs
          simp only [hq, Option.getD_some, hcomponents, hcs, List.dropLast_concat]
        | _ => exact hjoin
    · have hpart : Component.ofPart? part = some (.name part) := by
        rw [Component.ofPart?, if_neg hsilent, if_neg hup]
      rw [if_neg hup, hpart]
      exact components_join_part hslash hpart

/-- A request is resolved component by component. -/
theorem components_resolve (directory : Path) (request : String) :
    (directory.resolve request).components = (parts request.toList).foldl Component.follow directory.components := by
  have hparts : ∀ part ∈ parts request.toList, '/' ∉ part := fun part hpart => slash_notMem_of_mem_parts hpart
  rw [resolve]
  generalize parts request.toList = ps at hparts
  induction ps generalizing directory with
  | nil => rfl
  | cons part ps ih =>
    obtain ⟨hpart, hps⟩ := List.forall_mem_cons.1 hparts
    rw [List.foldl_cons, List.foldl_cons, ih _ hps, components_follow _ hpart]

/-! ### Below a directory -/

/-- The path is the directory or lies below it: its components are those of the directory, and then names. -/
def LiesIn (directory p : Path) : Prop :=
  ∃ names : List (List Char), p.components = directory.components ++ names.map .name

/-- Whether a request that is followed from so many names below a directory never leaves the directory, and ends
below it. -/
def staysBelow : (depth : Nat) → List (List Char) → Bool
  | depth, [] => depth != 0
  | depth, part :: rest =>
    match Component.ofPart? part with
    | none => staysBelow depth rest
    | some .up => depth != 0 && staysBelow (depth - 1) rest
    | some _ => staysBelow (depth + 1) rest

theorem ofPart?_eq_some_iff {part : List Char} {c : Component} : Component.ofPart? part = some c ↔
    part = ['.', '.'] ∧ c = .up ∨ isSilent part = false ∧ part ≠ ['.', '.'] ∧ c = .name part := by
  rw [Component.ofPart?]
  split
  · rename_i hsilent
    have hup : part ≠ ['.', '.'] := by
      rintro rfl
      simp [isSilent] at hsilent
    simp [hsilent, hup]
  · rename_i hsilent
    split <;> simp_all [eq_comm (a := c)]

/-- A request that stays below a directory leads to a path below it. -/
theorem follow_of_staysBelow {names : List (List Char)} {ps : List (List Char)} (cs : List Component)
    (h : staysBelow names.length ps = true) : ∃ names', names' ≠ [] ∧
      ps.foldl Component.follow (cs ++ names.map .name) = cs ++ names'.map .name := by
  induction ps generalizing names with
  | nil => exact ⟨names, by simpa [staysBelow] using h, rfl⟩
  | cons part ps ih =>
    rw [staysBelow] at h
    rw [List.foldl_cons, Component.follow]
    cases hpart : Component.ofPart? part with
    | none =>
      rw [hpart] at h
      exact ih h
    | some c =>
      rw [hpart] at h
      rcases ofPart?_eq_some_iff.1 hpart with ⟨-, rfl⟩ | ⟨-, -, rfl⟩
      · rcases List.eq_nil_or_concat names with rfl | ⟨init, last, rfl⟩
        · simp at h
        · have hlast : (cs ++ (init.concat last).map Component.name).getLast? = some (.name last) := by simp
          have hinit : (cs ++ (init.concat last).map Component.name).dropLast = cs ++ init.map .name := by
            rw [List.concat_eq_append, List.map_append, ← List.append_assoc, List.map_singleton, List.dropLast_concat]
          dsimp only
          rw [hlast]
          dsimp only
          rw [hinit]
          exact ih (by simpa using h)
      · have hnext : cs ++ names.map Component.name ++ [.name part] = cs ++ (names ++ [part]).map .name := by simp
        dsimp only
        rw [hnext]
        exact ih (by simpa using h)

/-- A relative path opens with a dot or with nothing. -/
theorem opening_of_isAbsolute_eq_false (h : p.isAbsolute = false) :
    opening (parts p.text.toList) = [] ∨ opening (parts p.text.toList) = [.here] := by
  unfold opening
  split
  · rename_i part rest hparts
    have htext : p.text.toList = '/' :: unparts (part :: rest) := by
      rw [← unparts_parts p.text.toList, hparts]
      rfl
    simp [isAbsolute, htext] at h
  · exact .inr rfl
  · exact .inl rfl

/-- Without `..` there are only names among the parts. -/
private theorem exists_names {ps : List (List Char)} (hup : ['.', '.'] ∉ ps) :
    ∃ names : List (List Char), ps.filterMap Component.ofPart? = names.map .name := by
  induction ps with
  | nil => exact ⟨[], rfl⟩
  | cons part ps ih =>
    obtain ⟨hpart, hps⟩ := not_or.1 (mt List.mem_cons.2 hup)
    obtain ⟨names, hnames⟩ := ih hps
    rw [List.filterMap_cons]
    cases hc : Component.ofPart? part with
    | none => exact ⟨names, hnames⟩
    | some c =>
      rcases ofPart?_eq_some_iff.1 hc with ⟨rfl, -⟩ | ⟨-, -, rfl⟩
      · exact absurd rfl hpart
      · exact ⟨part :: names, by simp [hnames]⟩

/-- A relative path without `..` leads into the directory that it is joined to, unless there is none and the path
starts with a dot. -/
theorem components_join_of_relative {a b : Path} (hrelative : b.isAbsolute = false)
    (hup : ['.', '.'] ∉ parts b.text.toList) (hhere : a.text = "" → .here ∉ b.components) :
    ∃ names : List (List Char), (a.join b).components = a.components ++ names.map .name ∧
      ∀ name, .name name ∈ b.components → name ∈ names := by
  obtain ⟨names, hnames⟩ := exists_names hup
  have hopening := opening_of_isAbsolute_eq_false hrelative
  have hb : b.components = opening (parts b.text.toList) ++ names.map .name := by rw [components_eq, hnames]
  refine ⟨names, ?_, fun name hname => ?_⟩
  · by_cases ha : a.text = ""
    · obtain rfl : a = ⟨""⟩ := congrArg Path.mk ha
      rcases hopening with hopening | hopening
      · rw [join_empty_left, hb, hopening, components_empty]
      · simp [hb, hopening] at hhere
    · rw [components_join ha hrelative, hnames]
  · rcases hopening with hopening | hopening
    · simpa [hb, hopening] using hname
    · simpa [hb, hopening] using hname

end BundleConf.Path
