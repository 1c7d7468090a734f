import BorrowLang.CommandLine.Word
import BorrowLang.Settings

/-! # Options of a command line

The words of a command line are read from left to right.  The first run of arguments names the
files; an argument anywhere else is refused.  A later option replaces an earlier one. -/
set_option autoImplicit false
namespace BorrowLang.CommandLine

/-- What a command line asks for. -/
structure Options where
  files : List String := []
  json : Bool := false
  checkOnly : Bool := false
  verify : Bool := false
  verbose : Bool := false
  entry : Option String := none
  maxCallDepth : Option Int := none
  lifetimes : Option String := none
deriving Repr, DecidableEq, Inhabited

/-- Why nothing is run: help was asked for, or the words are not understood. -/
inductive Stop
  | help
  | usage
deriving Repr, DecidableEq

def Stop.code : Stop → Nat
  | help => 0
  | usage => 2

def Options.switchOn (options : Options) : Switch → Except Stop Options
  | .help => .error .help
  | .json => .ok { options with json := true }
  | .checkOnly => .ok { options with checkOnly := true }
  | .verify => .ok { options with verify := true }
  | .verbose => .ok { options with verbose := true }

def Options.switchAllOn (options : Options) : List Switch → Except Stop Options
  | [] => .ok options
  | s :: rest =>
      match options.switchOn s with
      | .error stop => .error stop
      | .ok options => options.switchAllOn rest

def Options.give (options : Options) (k : Key) (value : String) : Except Stop Options :=
  match k with
  | .entry => .ok { options with entry := some value }
  | .maxCallDepth =>
      match Text.integer? value.toList with
      | some depth => .ok { options with maxCallDepth := some depth }
      | none => .error .usage
  | .lifetimes =>
      if (LifetimeMode.ofText? value).isSome then .ok { options with lifetimes := some value }
      else .error .usage

/-- How far a command line is read. -/
structure Reading where
  options : Options := {}
  /-- The last word belongs to the files. -/
  gathering : Bool := false
  /-- The option whose value is the next word. -/
  awaiting : Option Key := none
  /-- Some word has no place. -/
  stray : Bool := false

def Reading.argument (r : Reading) (text : String) : Except Stop Reading :=
  match r.awaiting with
  | some k =>
      match r.options.give k text with
      | .error stop => .error stop
      | .ok options => .ok { r with options, awaiting := none }
  | none =>
      if r.gathering || r.options.files.isEmpty then
        .ok { r with
              options := { r.options with files := r.options.files ++ [text] }
              gathering := true }
      else .ok { r with stray := true }

def Reading.next (r : Reading) (word : Word) : Except Stop Reading :=
  match r.awaiting, word with
  | _, .argument text => r.argument text
  | some _, _ => .error .usage
  | none, .separator =>
      .ok { r with stray := r.stray || !(r.gathering || r.options.files.isEmpty) }
  | none, .unknown => .ok { r with gathering := false, stray := true }
  | none, .refused => .error .usage
  | none, .key k none => .ok { r with gathering := false, awaiting := some k }
  | none, .key k (some value) =>
      match r.options.give k value with
      | .error stop => .error stop
      | .ok options => .ok { r with options, gathering := false }
  | none, .switches all stray =>
      match r.options.switchAllOn all with
      | .error stop => .error stop
      | .ok options => .ok { r with options, gathering := false, stray := r.stray || stray }

def Reading.all (r : Reading) : List Word → Except Stop Reading
  | [] => .ok r
  | word :: rest =>
      match r.next word with
      | .error stop => .error stop
      | .ok r => r.all rest

/-- What a command line asks for; at least one file must be named. -/
def Options.ofWords (words : List Word) : Except Stop Options :=
  match ({} : Reading).all words with
  | .error stop => .error stop
  | .ok r =>
      if r.awaiting.isSome || r.stray || r.options.files.isEmpty then .error .usage
      else .ok r.options

/-- What a command line asks for, with the settings it gives. -/
def readOptions (argv : List String) : Except Stop (Options × Settings) :=
  match words? argv with
  | none => .error .usage
  | some words =>
      match Options.ofWords words with
      | .error stop => .error stop
      | .ok options =>
          match Settings.ofOptions? options.entry options.maxCallDepth options.lifetimes with
          | .ok settings => .ok (options, settings)
          | .error _ => .error .usage

end BorrowLang.CommandLine
