import BundleConf.Diagnostic.Basic
import BundleConf.Files.Lookup
import BundleConf.Settings.Manifest

/-!
# Settings

Where a configuration lives: a root directory, and in it the entry file with which parsing starts.  A manifest gives
the root relative to the directory that the manifest is in.  A directory without a manifest has the settings that an
empty manifest would give it.
-/

namespace BundleConf

/-- Where a configuration lives. -/
structure Settings where
  root : Path
  entry : Path
  deriving DecidableEq, Repr

/-- Why a manifest gives no settings. -/
inductive ManifestError where
  /-- The text is not a TOML document. -/
  | notToml
  /-- The document says something that no manifest says. -/
  | foreign
  | emptyEntry
  | absoluteEntry (entry : Path)
  deriving DecidableEq, Repr

def ManifestError.message : ManifestError → String
  | notToml => "invalid manifest: not a TOML document"
  | foreign => "invalid manifest: only the strings 'root' and 'entry' of the table 'conf' can be given"
  | emptyEntry => "'conf.entry' must not be empty"
  | absoluteEntry entry => "'conf.entry' must be relative to the root, got '" ++ entry.text ++ "'"

inductive SettingsError where
  | unreadable (path : Path) (cause : ReadError)
  | manifest (path : Path) (cause : ManifestError)
  deriving DecidableEq, Repr

def SettingsError.diagnostic : SettingsError → Diagnostic
  | unreadable path cause => .unreadable path cause.message
  | manifest path cause => .manifest cause.message path

namespace Settings

/-- The name of a manifest that is found without being named. -/
def manifestName : Path := ⟨"appconf.toml"⟩

/-- The settings where nothing is said. -/
def default : Settings := ⟨⟨"conf"⟩, ⟨"app.conf"⟩⟩

def entryPath (s : Settings) : Path :=
  s.root.join s.entry

/-- The settings with the root and the entry replaced where others are given. -/
def override (s : Settings) (root entry : Option Path) : Settings :=
  ⟨root.getD s.root, entry.getD s.entry⟩

/-- The settings that a manifest at the given path gives. -/
def ofManifest (m : Manifest) (path : Path) : Except ManifestError Settings :=
  let base := path.parent?.getD ⟨""⟩
  let root := (m.root.map Path.mk).getD default.root
  let entry := (m.entry.map Path.mk).getD default.entry
  if entry.text = "" then .error .emptyEntry
  else if entry.isAbsolute then .error (.absoluteEntry entry)
  else .ok ⟨base.join root, entry⟩

/-- The settings that the text of a manifest at the given path gives. -/
def ofText (text : String) (path : Path) : Except ManifestError Settings :=
  match Toml.statements? text with
  | none => .error .notToml
  | some statements =>
    match Manifest.ofStatements? statements with
    | none => .error .foreign
    | some m => ofManifest m path

/-- The settings that a manifest gives; `found` is what there is at its path. -/
def ofLookup (path : Path) (found : Lookup) : Except SettingsError Settings :=
  match found with
  | .error cause => .error (.unreadable path cause)
  | .ok text => (ofText text path).mapError (.manifest path)

def load (path : Path) : Reading (Except SettingsError Settings) := do
  return ofLookup path (← Reading.lookup path)

/-- The settings of a directory: those of its manifest, if it has one. -/
def discover (directory : Path) : Reading (Except SettingsError Settings) := do
  let path := directory.join manifestName
  let found ← Reading.lookup path
  if found.isFile then return ofLookup path found
  else return .ok ⟨directory.join default.root, default.entry⟩

end Settings

end BundleConf
