import BorrowLang.Text.Integer

/-! # Words of a command line

A word is an argument or an option.  A long option may be cut short as long as no other option
starts the same way, and may have its value after an equals sign; one-letter options may share a
dash.  A word with a dash that is no option is still an argument if it looks like a negative number
or contains a space. -/
set_option autoImplicit false
namespace BorrowLang.CommandLine

/-- Options that are on or off. -/
inductive Switch
  | help
  | json
  | checkOnly
  | verify
  | verbose
deriving Repr, DecidableEq

/-- Options that have a value. -/
inductive Key
  | entry
  | maxCallDepth
  | lifetimes
deriving Repr, DecidableEq

/-- An option. -/
inductive Flag
  | switch (s : Switch)
  | key (k : Key)
deriving Repr, DecidableEq

def flags : List (String × Flag) :=
  [("-h", .switch .help), ("--help", .switch .help), ("--json", .switch .json),
   ("--check-only", .switch .checkOnly), ("--verify", .switch .verify), ("--entry", .key .entry),
   ("--max-call-depth", .key .maxCallDepth), ("--lifetimes", .key .lifetimes),
   ("-v", .switch .verbose), ("--verbose", .switch .verbose)]

def flag? (chars : List Char) : Option Flag :=
  flags.lookup (String.ofList chars)

/-- The options whose long form begins with these characters. -/
def flagsFrom (chars : List Char) : List Flag :=
  (flags.filter fun (name, _) => chars.isPrefixOf name.toList).map Prod.snd

/-- What one word of a command line is. -/
inductive Word
  | argument (text : String)
  /-- The word `--`: everything after it is an argument. -/
  | separator
  /-- Switches, perhaps followed by a letter that is none. -/
  | switches (all : List Switch) (stray : Bool)
  /-- An option that has a value, which may be in the same word. -/
  | key (k : Key) (value : Option String)
  /-- Not an option, although it looks like one. -/
  | unknown
  /-- A switch with a value. -/
  | refused
deriving Repr, DecidableEq

/-- The word that is a flag, with or without a value after an equals sign. -/
def Flag.word : Flag → Option (List Char) → Word
  | switch s, none => .switches [s] false
  | switch _, some _ => .refused
  | key k, value => .key k (value.map String.ofList)

def letterSwitch? (c : Char) : Option Switch :=
  match flag? ['-', c] with
  | some (.switch s) => some s
  | _ => none

/-- The switches that share a dash, up to a letter that is none; a value or a second dash after one
of them is refused. -/
def letterSwitches? : List Char → Option (List Switch × Bool)
  | [] => some ([], false)
  | '-' :: _ | '=' :: _ => none
  | c :: rest =>
      match letterSwitch? c with
      | none => some ([], true)
      | some s => (letterSwitches? rest).map fun (more, stray) => (s :: more, stray)

/-- The characters before the first equals sign, and those after it if there is one. -/
def splitValue (chars : List Char) : List Char × Option (List Char) :=
  match chars.dropWhile (· ≠ '=') with
  | _ :: value => (chars.takeWhile (· ≠ '='), some value)
  | [] => (chars, none)

def strayWord (chars : List Char) : Word :=
  if Text.looksNegative chars || chars.contains ' ' then .argument (String.ofList chars)
  else .unknown

/-- A word that starts with two dashes and is not an option as it stands; none where it could be
several. -/
def longWord? (chars : List Char) : Option Word :=
  let (name, value) := splitValue chars
  match flagsFrom name with
  | [flag] => some (flag.word value)
  | [] => some (strayWord chars)
  | _ => none

/-- A word of one dash and letters that is not an option as it stands. -/
def shortWord (letter : Char) (rest : List Char) : Word :=
  match letterSwitch? letter with
  | none => strayWord ('-' :: letter :: rest)
  | some s =>
      match letterSwitches? rest with
      | none => .refused
      | some (more, stray) => .switches (s :: more) stray

/-- One word; none where it could be several options. -/
def word? (text : String) : Option Word :=
  match text.toList with
  | '-' :: letter :: rest =>
      let chars := '-' :: letter :: rest
      match flag? chars with
      | some flag => some (flag.word none)
      | none =>
          let (name, value) := splitValue chars
          match if value.isSome then flag? name else none with
          | some flag => some (flag.word value)
          | none => if letter = '-' then longWord? chars else some (shortWord letter rest)
  | _ => some (.argument text)

/-- The words of a command line; none where one of them could be several options. -/
def words? : List String → Option (List Word)
  | [] => some []
  | text :: rest =>
      if text = "--" then some (.separator :: rest.map .argument)
      else
        match word? text, words? rest with
        | some word, some words => some (word :: words)
        | _, _ => none

end BorrowLang.CommandLine
