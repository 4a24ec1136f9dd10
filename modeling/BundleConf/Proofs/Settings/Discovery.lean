import BundleConf.Proofs.Path.Resolution
import BundleConf.Settings.Basic

/-!
# A directory without a manifest

A directory that has no manifest gets its settings from its own path, one that has a manifest from the path of the
manifest's parent, which need not be written in the same way: slashes and dots at the end of the directory are gone.
Yet they have the same components (`Settings.components_directoryOf_manifest`), and so have the paths of a root that is
joined to either, so no manifest means the same as an empty one (`Settings.discover_as_empty_manifest`).

Wherever a manifest is, its root has the components of the manifest's directory and then those that the manifest gives,
unless these are absolute (`Path.components_join_eq`).
-/

namespace BundleConf

/-! ### Joining by components -/

/-- The components without a dot that opens the path. -/
def Path.Component.withoutDot : List Component → List Component
  | .here :: cs => cs
  | cs => cs

/-- What is said of a path that is joined to another, by components alone. -/
theorem Path.components_join_eq (a b : Path) : (a.join b).components =
    if b.isAbsolute then b.components
    else if a.components = [] then b.components
    else a.components ++ Component.withoutDot b.components := by
  cases hb : b.isAbsolute with
  | true => rw [if_pos rfl, join_of_isAbsolute hb]
  | false =>
    rw [if_neg (by simp)]
    by_cases ha : a.text = ""
    · obtain rfl : a = ⟨""⟩ := congrArg Path.mk ha
      rw [join_empty_left, if_pos components_empty]
    · -- the parts of the joined path are its components, but for the dot
      have hparts : Component.withoutDot b.components = (parts b.text.toList).filterMap Component.ofPart? := by
        rw [components_eq]
        rcases opening_of_isAbsolute_eq_false hb with hopening | hopening
        · rw [hopening, List.nil_append]
          unfold Component.withoutDot
          split
          · rename_i cs hcs
            obtain ⟨part, -, hpart⟩ := List.mem_filterMap.1 (hcs ▸ List.mem_cons_self)
            simp [ofPart?_eq_some_iff] at hpart
          · rfl
        · rw [hopening]
          rfl
      rw [if_neg (mt components_eq_nil_iff.1 ha), components_join ha hb, hparts]

/-- The spelling of a path to which another is joined does not matter. -/
theorem Path.components_join_congr {a a' : Path} (h : a.components = a'.components) (b : Path) :
    (a.join b).components = (a'.join b).components := by
  rw [components_join_eq, components_join_eq, h]

/-! ### Manifests -/

/-- What the text of a manifest says, if it is one. -/
def Manifest.ofText? (text : String) : Option Manifest :=
  (Toml.statements? text).bind ofStatements?

namespace Settings

variable {text : String} {path : Path} {settings : Settings} {m : Manifest}

/-- The directory that the root of a manifest is relative to. -/
def directoryOf (path : Path) : Path :=
  path.parent?.getD ⟨""⟩

/-- The root that a manifest gives, before it is joined to the manifest's directory. -/
def givenRoot (m : Manifest) : Path :=
  (m.root.map Path.mk).getD default.root

/-- A text gives settings exactly if it says something that does. -/
theorem ofText_eq_ok_iff : ofText text path = .ok settings ↔
    ∃ m, Manifest.ofText? text = some m ∧ ofManifest m path = .ok settings := by
  rw [ofText, Manifest.ofText?]
  cases Toml.statements? text with
  | none => simp
  | some statements => cases hm : Manifest.ofStatements? statements <;> simp [hm]

theorem root_of_ofManifest (h : ofManifest m path = .ok settings) :
    settings.root = (directoryOf path).join (givenRoot m) := by
  rw [ofManifest] at h
  split at h
  · simp at h
  · split at h
    · simp at h
    · obtain rfl := Except.ok.inj h
      rfl

/-- The settings that an empty manifest gives. -/
theorem ofManifest_empty (path : Path) :
    ofManifest {} path = .ok ⟨(directoryOf path).join default.root, default.entry⟩ :=
  rfl

theorem components_directoryOf (path : Path) : (directoryOf path).components = path.components.dropLast :=
  path.components_parent?_getD

/-- However a directory is written, its manifest is in it. -/
theorem components_directoryOf_manifest (directory : Path) :
    (directoryOf (directory.join manifestName)).components = directory.components := by
  have relative : manifestName.isAbsolute = false := by decide +kernel
  have name : manifestName.components = [.name manifestName.text.toList] := by decide +kernel
  rw [components_directoryOf, Path.components_join_eq, relative, name, if_neg (by simp)]
  by_cases hempty : directory.components = []
  · rw [if_pos hempty, hempty]
    rfl
  · rw [if_neg hempty]
    exact List.dropLast_concat

/-- The settings of a directory are those of its manifest if there is one. -/
theorem run_discover_of_ok {directory : Path} {files : FileSystem}
    (h : files (directory.join manifestName) = .ok text)
    (hm : ofText text (directory.join manifestName) = .ok settings) :
    (discover directory).run files = .ok settings := by
  have hlookup : ofLookup (directory.join manifestName) (.ok text) = .ok settings := by
    rw [ofLookup, hm]
    rfl
  simp [discover, h, Lookup.isFile, hlookup]

theorem run_discover_of_not_isFile {directory : Path} {files : FileSystem}
    (h : (files (directory.join manifestName)).isFile = false) :
    (discover directory).run files = .ok ⟨directory.join default.root, default.entry⟩ := by
  simp [discover, h]

/-- A directory without a manifest has the settings, by components, that an empty manifest in it gives it: one whose
text is empty, or that has just the header of its table.  The root that any manifest gives is told by components: those
of the manifest's directory, which are those of its path but for the last, and then those of the root that is written in
it, without a dot at the start if there is anything before it; or the latter alone if it is absolute. -/
theorem discover_as_empty_manifest :
    (∀ (directory : Path) (files : FileSystem), (files (directory.join manifestName)).isFile = false →
      ∃ found given, (discover directory).run files = .ok found ∧ ofText "" (directory.join manifestName) = .ok given ∧
        found.root.components = given.root.components ∧ found.entry = given.entry ∧
        found.entryPath.components = given.entryPath.components ∧
        ∀ (files' : FileSystem) (text : String), files' (directory.join manifestName) = .ok text →
          text = "" ∨ text = "[conf]" ∨ Manifest.ofText? text = some {} → (discover directory).run files' = .ok given) ∧
    ∀ (text : String) (path : Path) (settings : Settings), ofText text path = .ok settings →
      ∃ m, Manifest.ofText? text = some m ∧ settings.root.components =
        if (givenRoot m).isAbsolute then (givenRoot m).components
        else if path.components.dropLast = [] then (givenRoot m).components
        else path.components.dropLast ++ Path.Component.withoutDot (givenRoot m).components := by
  have empty : Manifest.ofText? "" = some {} := by decide +kernel
  have header : Manifest.ofText? "[conf]" = some {} := by decide +kernel
  refine ⟨fun directory files hfile => ?_, fun text path settings h => ?_⟩
  · have given (text : String) (htext : Manifest.ofText? text = some {}) :=
      ofText_eq_ok_iff.2 ⟨{}, htext, ofManifest_empty (directory.join manifestName)⟩
    have root := Path.components_join_congr (components_directoryOf_manifest directory).symm default.root
    refine ⟨_, _, run_discover_of_not_isFile hfile, given "" empty, root, rfl, Path.components_join_congr root _, ?_⟩
    rintro files' text hfound (rfl | rfl | htext)
    · exact run_discover_of_ok hfound (given "" empty)
    · exact run_discover_of_ok hfound (given "[conf]" header)
    · exact run_discover_of_ok hfound (given text htext)
  · obtain ⟨m, hm, hsettings⟩ := ofText_eq_ok_iff.1 h
    refine ⟨m, hm, ?_⟩
    rw [root_of_ofManifest hsettings, Path.components_join_eq, components_directoryOf]

/-- A directory that is written with doubled slashes and a dot at the end, and a manifest in it whose root opens with a
dot. -/
theorem discover_as_empty_manifest_spelled :
    let directory : Path := ⟨"a//b/."⟩
    let files : FileSystem := fun _ => .error .notFound
    (files (directory.join manifestName)).isFile = false ∧
      (∃ found given, (discover directory).run files = .ok found ∧
        ofText "" (directory.join manifestName) = .ok given ∧
        found.root = ⟨"a//b/./conf"⟩ ∧ given.root = ⟨"a//b/conf"⟩ ∧
        found.root.components = given.root.components ∧ found.entryPath.components = given.entryPath.components ∧
        (discover directory).run (fun _ => .ok "[conf]") = .ok given) ∧
      ∃ settings, ofText "[conf]\nroot = './x'" (directory.join manifestName) = .ok settings ∧
        settings.root.components = [.name ['a'], .name ['b'], .name ['x']] := by
  intro directory files
  obtain ⟨hmissing, hroot⟩ := discover_as_empty_manifest
  refine ⟨rfl, ?_, ?_⟩
  · obtain ⟨found, given, hfound, hgiven, root, -, entryPath, hcreated⟩ := hmissing directory files rfl
    have hempty : ofText "" (directory.join manifestName) = _ :=
      ofText_eq_ok_iff.2 ⟨{}, by decide +kernel, ofManifest_empty _⟩
    obtain rfl := Except.ok.inj (hfound.symm.trans (run_discover_of_not_isFile rfl))
    obtain rfl := Except.ok.inj (hgiven.symm.trans hempty)
    refine ⟨_, _, hfound, hgiven, ?_, ?_, root, entryPath, hcreated _ "[conf]" rfl (.inr (.inl rfl))⟩ <;> decide +kernel
  · have hsaid : Manifest.ofText? "[conf]\nroot = './x'" = some { root := some "./x" } := by decide +kernel
    have hsettings : ofText "[conf]\nroot = './x'" (directory.join manifestName) = _ :=
      ofText_eq_ok_iff.2 ⟨_, hsaid, rfl⟩
    obtain ⟨m, hm, hcomponents⟩ := hroot _ _ _ hsettings
    obtain rfl := Option.some.inj (hm.symm.trans hsaid)
    exact ⟨_, hsettings, hcomponents.trans (by decide +kernel)⟩

end Settings

end BundleConf
