import BundleConf.Proofs.Path.Components

/-!
# Resolving by components

Resolving a request edits the text of a path, but what comes of it is told by components: those of the directory are
followed by the parts of the request from left to right (`Component.follow`), where a part is what stands between two
slashes (`parts_eq_splitOn`).  So the spelling of the directory does not matter, a request cannot make a relative path
absolute or an absolute one relative, whatever slashes it starts with, and a request that goes on after a slash is
resolved from where the first part of it leads (`resolve_by_components`).
-/

namespace BundleConf.Path

variable {p : Path}

private theorem unparts_eq_intercalate (ps : List (List Char)) : unparts ps = ['/'].intercalate ps := by
  induction ps with
  | nil => rfl
  | cons part ps ih =>
    cases ps with
    | nil => simp [unparts]
    | cons part' ps =>
      rw [List.intercalate_cons_cons, List.append_assoc, ← ih]
      rfl

/-- The parts of a text are what stands between its slashes. -/
theorem parts_eq_splitOn (cs : List Char) : parts cs = cs.splitOn '/' := by
  have noslash : ∀ part ∈ parts cs, '/' ∉ part := fun part hpart => slash_notMem_of_mem_parts hpart
  calc parts cs = (['/'].intercalate (parts cs)).splitOn '/' :=
        (List.splitOn_intercalate '/' noslash (parts_ne_nil cs)).symm
    _ = cs.splitOn '/' := by rw [← unparts_eq_intercalate, unparts_parts]

/-! ### Absolute paths -/

/-- The root is among the components of the absolute paths, and only of those. -/
theorem isAbsolute_iff : p.isAbsolute = true ↔ .root ∈ p.components := by
  have between : .root ∉ (parts p.text.toList).filterMap Component.ofPart? := by
    intro h
    obtain ⟨part, -, hpart⟩ := List.mem_filterMap.1 h
    simp [ofPart?_eq_some_iff] at hpart
  have opened : .root ∈ p.components ↔ .root ∈ opening (parts p.text.toList) := by
    rw [components_eq, List.mem_append]
    simp [between]
  rw [opened]
  cases habsolute : p.isAbsolute with
  | false => rcases opening_of_isAbsolute_eq_false habsolute with hopening | hopening <;> simp [hopening]
  | true =>
    obtain ⟨cs, htext⟩ : ∃ cs, p.text.toList = '/' :: cs := by
      simpa [isAbsolute, List.head?_eq_some_iff] using habsolute
    obtain ⟨part, rest, hparts⟩ := List.exists_cons_of_ne_nil (parts_ne_nil cs)
    rw [htext, parts_slash, hparts]
    simp [opening]

/-- Following a part neither adds the root nor takes it away. -/
theorem root_mem_follow {cs : List Component} {part : List Char} :
    .root ∈ Component.follow cs part ↔ .root ∈ cs := by
  rw [Component.follow]
  cases hpart : Component.ofPart? part with
  | none => rfl
  | some c =>
    rcases ofPart?_eq_some_iff.1 hpart with ⟨-, rfl⟩ | ⟨-, -, rfl⟩
    · dsimp only
      split
      · rename_i name hlast
        obtain ⟨init, rfl⟩ := List.getLast?_eq_some_iff.1 hlast
        simp
      · simp
    · simp

theorem root_mem_foldl_follow {cs : List Component} (ps : List (List Char)) :
    .root ∈ ps.foldl Component.follow cs ↔ .root ∈ cs := by
  induction ps generalizing cs with
  | nil => rfl
  | cons part ps ih => rw [List.foldl_cons, ih, root_mem_follow]

theorem isAbsolute_resolve (directory : Path) (request : String) :
    (directory.resolve request).isAbsolute = directory.isAbsolute := by
  rw [Bool.eq_iff_iff, isAbsolute_iff, isAbsolute_iff, components_resolve, root_mem_foldl_follow]

/-! ### Requests -/

/-- A request that goes on after a slash is resolved from where it has led before. -/
theorem resolve_append_slash (directory : Path) (request further : String) :
    directory.resolve (request ++ "/" ++ further) = (directory.resolve request).resolve further := by
  have text : (request ++ "/" ++ further).toList = request.toList ++ '/' :: further.toList := by simp
  rw [resolve, text, parts_append_slash, List.foldl_append]
  rfl

/-- A request is resolved by components, from left to right. -/
theorem resolve_by_components (directory : Path) (request : String) :
    (directory.resolve request).components =
      (request.toList.splitOn '/').foldl Component.follow directory.components ∧
    (directory.resolve request).isAbsolute = directory.isAbsolute ∧
    (∀ other : Path, other.components = directory.components →
      (other.resolve request).components = (directory.resolve request).components) ∧
    ∀ further : String,
      directory.resolve (request ++ "/" ++ further) = (directory.resolve request).resolve further := by
  refine ⟨?_, isAbsolute_resolve directory request, fun other h => ?_, resolve_append_slash directory request⟩
  · rw [components_resolve, parts_eq_splitOn]
  · rw [components_resolve, components_resolve, h]

/-- Two spellings of a directory, and a request that starts with slashes and goes up over both of its names. -/
theorem resolve_by_components_spellings :
    let directory : Path := ⟨"a//b/."⟩
    let other : Path := ⟨"a/./b/"⟩
    other.components = directory.components ∧
      (other.resolve "//../x/../../..").components = (directory.resolve "//../x/../../..").components ∧
      directory.resolve ("//../x" ++ "/" ++ "../../..") = (directory.resolve "//../x").resolve "../../.." ∧
      (directory.resolve "//../x/../../..").isAbsolute = false ∧
      (directory.resolve "//../x/../../..").components = [.up] := by
  intro directory other
  have same : other.components = directory.components := by decide +kernel
  obtain ⟨hcomponents, habsolute, hspelling, hfurther⟩ := resolve_by_components directory "//../x/../../.."
  obtain ⟨-, -, -, happend⟩ := resolve_by_components directory "//../x"
  refine ⟨same, hspelling other same, happend "../../..", habsolute.trans (by decide +kernel), hcomponents.trans ?_⟩
  decide +kernel

end BundleConf.Path
