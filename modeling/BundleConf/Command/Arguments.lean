import BundleConf.Path.Basic

/-!
# Arguments of the command line

A command line names a command and its options.  Some options belong to every command and may stand before or after its
name; of two values given at the two places the one after the name counts, and at one place an option is given once.
Options end at a double dash.  A command line that does not make sense yields no request.
-/

namespace BundleConf

/-- A command, with what belongs to it alone. -/
inductive Command where
  /-- Print what a configuration declares: in short, or in full as JSON. -/
  | parse (entry : Option Path) (json : Bool)
  | tokens (file : Path)
  | check (entry : Option Path)
  /-- Parse a configuration whenever it changes. -/
  | watch (entry : Option Path) (keepScreen : Bool)
  deriving DecidableEq, Repr

/-- The options that belong to every command. -/
structure CommonOptions where
  manifest : Option Path := none
  root : Option Path := none
  verbosity : Nat := 0
  deriving DecidableEq, Repr

inductive Request where
  | version
  | run (command : Command) (options : CommonOptions)
  deriving DecidableEq, Repr

namespace Arguments

/-- An argument, by its form. -/
inductive Form where
  | plain (text : String)
  /-- Two dashes with a name, and a value if one follows after an equals sign. -/
  | long (name : String) (value : Option String)
  /-- One dash with letters. -/
  | short (letters : List Char)
  | doubleDash

def Form.of (argument : String) : Form :=
  match argument.toList with
  | ['-', '-'] => .doubleDash
  | '-' :: '-' :: cs =>
    let value := match cs.dropWhile (· != '=') with
      | [] => none
      | _ :: value => some (String.ofList value)
    .long (String.ofList (cs.takeWhile (· != '='))) value
  | '-' :: c :: cs => .short (c :: cs)
  | _ => .plain argument

/-- A path given as an argument; it must not be empty. -/
def path? (text : String) : Option Path :=
  if text = "" then none else some ⟨text⟩

/-- The path that an option names, and the arguments after it: the value after the equals sign, or else the next
argument if that is no option itself. -/
def pathValue? (value : Option String) (rest : List String) : Option (Path × List String) :=
  match value, rest with
  | some text, rest => (path? text).map (·, rest)
  | none, [] => none
  | none, argument :: rest =>
    match Form.of argument with
    | .plain text => (path? text).map (·, rest)
    | _ => none

/-- A value for an option that has none yet. -/
def once {α : Type} (given : Option α) (value : α) : Option α :=
  if given.isNone then some value else none

/-- The common options after one more option with a long name, and the arguments after it; none if the option is not a
common one or makes no sense. -/
def addLong? (o : CommonOptions) (name : String) (value : Option String) (rest : List String) :
    Option (CommonOptions × List String) :=
  match name, value with
  | "manifest", value => do
    let (path, rest) ← pathValue? value rest
    let path ← once o.manifest path
    pure ({ o with manifest := path }, rest)
  | "root", value => do
    let (path, rest) ← pathValue? value rest
    let path ← once o.root path
    pure ({ o with root := path }, rest)
  | "verbose", none => some ({ o with verbosity := o.verbosity + 1 }, rest)
  | _, _ => none

theorem length_le_of_pathValue? {value : Option String} {rest rest' : List String} {path : Path}
    (h : pathValue? value rest = some (path, rest')) : rest'.length ≤ rest.length := by
  unfold pathValue? at h
  split at h
  · simp only [Option.map_eq_some_iff, Prod.mk.injEq] at h
    obtain ⟨_, _, _, rfl⟩ := h
    exact Nat.le_refl _
  · simp at h
  · split at h
    · simp only [Option.map_eq_some_iff, Prod.mk.injEq] at h
      obtain ⟨_, _, _, rfl⟩ := h
      exact Nat.le_succ _
    · simp at h

theorem length_le_of_addLong? {o o' : CommonOptions} {name : String} {value : Option String} {rest rest' : List String}
    (h : addLong? o name value rest = some (o', rest')) : rest'.length ≤ rest.length := by
  unfold addLong? at h
  split at h
  · simp only [Option.bind_eq_bind, Option.bind_eq_some_iff, Option.pure_def, Option.some.injEq, Prod.mk.injEq] at h
    obtain ⟨⟨path, rest⟩, hvalue, _, _, _, rfl⟩ := h
    exact length_le_of_pathValue? hvalue
  · simp only [Option.bind_eq_bind, Option.bind_eq_some_iff, Option.pure_def, Option.some.injEq, Prod.mk.injEq] at h
    obtain ⟨⟨path, rest⟩, hvalue, _, _, _, rfl⟩ := h
    exact length_le_of_pathValue? hvalue
  · simp only [Option.some.injEq, Prod.mk.injEq] at h
    exact Nat.le_of_eq (congrArg List.length h.2.symm)
  · simp at h

/-- The common options after letters behind one dash: each asks for more messages. -/
def addLetters? (o : CommonOptions) (letters : List Char) : Option CommonOptions :=
  if letters.all (· == 'v') then some { o with verbosity := o.verbosity + letters.length } else none

/-! ### After the name of the command -/

/-- What stands after the name of a command. -/
structure Tail where
  options : CommonOptions := {}
  /-- Whether the flag that belongs to the command is given. -/
  flag : Bool := false
  operands : List String := []

/-- Reads what stands after the name of a command with the given flag, if it has one. -/
def tail? (flag : Option String) (t : Tail) (arguments : List String) : Option Tail :=
  match arguments with
  | [] => some t
  | argument :: rest =>
    match Form.of argument with
    | .plain text => tail? flag { t with operands := t.operands ++ [text] } rest
    | .doubleDash => some { t with operands := t.operands ++ rest }
    | .short letters =>
      match addLetters? t.options letters with
      | none => none
      | some options => tail? flag { t with options } rest
    | .long name value =>
      if flag = some name then
        if value.isNone && !t.flag then tail? flag { t with flag := true } rest else none
      else
        match _h : addLong? t.options name value rest with
        | none => none
        | some (options, rest') => tail? flag { t with options } rest'
termination_by arguments.length
decreasing_by
  all_goals simp_wf
  have := length_le_of_addLong? _h
  omega

/-- At most one operand, which is a path. -/
def optionalPath : List String → Option (Option Path)
  | [] => some none
  | [text] => (path? text).map some
  | _ => none

def flagOf : String → Option String
  | "parse" => some "json"
  | "watch" => some "no-clear"
  | _ => none

/-- The command of a name, with what stands after the name. -/
def command? (name : String) (t : Tail) : Option Command :=
  match name with
  | "parse" => (optionalPath t.operands).map (.parse · t.flag)
  | "tokens" => (optionalPath t.operands).bind fun file => file.map .tokens
  | "check" => (optionalPath t.operands).map .check
  | "watch" => (optionalPath t.operands).map (.watch · t.flag)
  | _ => none

/-- The common options given before and after the name of a command. -/
def merge (before after : CommonOptions) : CommonOptions where
  manifest := after.manifest <|> before.manifest
  root := after.root <|> before.root
  verbosity := before.verbosity + after.verbosity

/-! ### The whole command line -/

/-- Reads a command line, after the given common options. -/
def requestAfter? (o : CommonOptions) (arguments : List String) : Option Request :=
  match arguments with
  | [] => none
  | argument :: rest =>
    match Form.of argument with
    | .plain name => do
      let t ← tail? (flagOf name) {} rest
      let command ← command? name t
      pure (.run command (merge o t.options))
    | .doubleDash => none
    | .short letters =>
      match letters.dropWhile (· == 'v') with
      | 'V' :: _ => some .version
      | _ =>
        match addLetters? o letters with
        | none => none
        | some o => requestAfter? o rest
    | .long "version" none => some .version
    | .long name value =>
      match _h : addLong? o name value rest with
      | none => none
      | some (o, rest') => requestAfter? o rest'
termination_by arguments.length
decreasing_by
  all_goals simp_wf
  have := length_le_of_addLong? _h
  omega

end Arguments

/-- What a command line asks for, if it makes sense. -/
def Request.ofArguments? (arguments : List String) : Option Request :=
  Arguments.requestAfter? {} arguments

end BundleConf
