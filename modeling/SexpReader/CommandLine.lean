import SexpReader.Batch

/-!
# The command line

`Command.ofArguments` reads the arguments. A long flag may be shortened as long as it fits one
option only, single letters may share a dash, and two dashes alone end the flags. A value for a
flag that takes none is refused at once. Then asking for help wins over everything, and asking for
the version over everything else. What remains has to begin with the word `parse`; the other words
are paths, and every flag has to be known and given once.

`Options.respond` says what the program writes and how it ends when it is to parse. The sources are
the files at the paths, or the standard input if there are no paths. A path in the home of nobody
ends the program before it reads anything. A fuzzer that drives the program has it parse in turns,
and whatever fails in them, the program then ends as if all were well.

`Command.respond` is the response to any command: help, version and usage, and the table of options
in front of the rest.
-/

namespace SexpReader

/-- The options that can be switched on. -/
inductive Switch where
  | strict
  | fuzz
  | debug
deriving DecidableEq

namespace Switch

/-- All options, in the order of the help text. -/
def all : List Switch := [strict, fuzz, debug]

/-- The long name of an option, without dashes. -/
def name : Switch → Text
  | strict => "strict"
  | fuzz => "fuzz"
  | debug => "debug"

/-- The option that a letter stands for. -/
def ofLetter? (c : CodePoint) : Option Switch :=
  if c = .ofChar 'd' then some debug else none

/-- The option that a long name stands for. No two options begin alike, so the first letters are
enough. -/
def ofName? (t : Text) : Option Switch :=
  if t.isEmpty then none else all.find? fun s => t.isPrefixOf s.name

end Switch

/-- An argument, or a letter of one. -/
inductive Argument where
  | word (t : Text)
  | letter (c : CodePoint)
  | long (name : Text) (value : Option Text)
deriving DecidableEq

namespace Argument

/-- The character that flags begin with. -/
def dash : CodePoint := .ofChar '-'

/-- The character between a flag and its value. -/
def equals : CodePoint := .ofChar '='

/-- The long flag with this text after its dashes. -/
def ofLong (t : Text) : Argument :=
  match t.dropWhile (· != equals) with
  | [] => .long t none
  | _ :: value => .long (t.takeWhile (· != equals)) (some value)

/-- The flags of an argument, or its word. A dash alone is a word. -/
def ofText (t : Text) : List Argument :=
  match t with
  | a :: b :: rest =>
    if a ≠ dash then [.word t]
    else if b = dash then [ofLong rest]
    else (b :: rest).map .letter
  | _ => [.word t]

/-- The arguments. From two dashes alone on, all of them are words. -/
def ofTexts : List Text → List Argument
  | [] => []
  | t :: ts => if t = [dash, dash] then (t :: ts).map .word else ofText t ++ ofTexts ts

/-- The word that an argument is. -/
def word? : Argument → Option Text
  | .word t => some t
  | _ => none

/-- The flag asks for the help text. -/
def isHelp : Argument → Bool
  | .letter c => c == .ofChar 'h'
  | .long name value => name == "help" && value != some []
  | .word _ => false

/-- The flag asks for the version. -/
def isVersion : Argument → Bool
  | .long name value => name == "version" && value != some []
  | _ => false

/-- The option that a flag stands for, or nothing inside if it is unknown. A word is no flag. -/
def switch? : Argument → Option (Option Switch)
  | .word _ => none
  | .letter c => some (Switch.ofLetter? c)
  | .long name _ => some (Switch.ofName? name)

/-- The option that was given a value, which none of them takes. -/
def surplus? : Argument → Option Switch
  | .long name (some _) => Switch.ofName? name
  | _ => none

end Argument

/-- The options of the command `parse`. -/
structure Options where
  /-- Only newline, tab and space are blanks. -/
  strict : Bool
  /-- Show the options, the trace and the bounds. -/
  debug : Bool
  /-- Have a fuzzer drive the program. -/
  fuzz : Bool
  paths : List Path
deriving DecidableEq

/-- What the arguments ask for. -/
inductive Command where
  | help
  | version
  /-- Nothing that makes sense; perhaps an option was given a value. -/
  | misuse (surplus : Option Switch)
  | parse (options : Options)
deriving DecidableEq

/-- What ended the program before its end. -/
inductive Interruption where
  | file (error : FileError)
  | unknownHome
  /-- There is no fuzzer to drive the program. -/
  | noFuzzer
deriving DecidableEq

/-- The interruption in a sentence. -/
def Interruption.message : Interruption → Text
  | .file error => error.message
  | .unknownHome => "Could not determine home directory."
  | .noFuzzer => "No module named 'afl'"

/-- What the program writes, and how it ends: with an exit code, or interrupted. -/
structure Response where
  ending : Except Interruption Nat
  output : Text
  complaints : Text

namespace Response

/-- Nothing is written, and all is well. -/
def done : Response := ⟨.ok 0, [], []⟩

/-- One response and then another, which takes the place of the first exit code. After an
interruption there is no other. -/
def andThen (r s : Response) : Response :=
  match r.ending with
  | .error _ => r
  | .ok _ => ⟨s.ending, r.output ++ s.output, r.complaints ++ s.complaints⟩

end Response

namespace Command

/-- How the program is called. -/
def usage : Text := "Usage:\n    sxstream parse [options] [<path>...]\n"

/-- The help text. -/
def helpText : Text :=
  " sxstream parse s-expressions\n\n" ++ usage ++ "\nOptions:\n"
    ++ "    --strict       only newline tab and space are whitespace\n"
    ++ "    --fuzz\n    -d --debug\n"

/-- The name and version of the program. -/
def versionText : Text := "sxstream 0.1.0\n"

/-- What is said of arguments that make no sense. -/
def misuseText : Option Switch → Text
  | none => usage
  | some s => "--" ++ s.name ++ " must not have an argument\n" ++ usage

/-- The options with these switches on, if each of the flags is known and none is repeated. -/
def options? (args : List Argument) (paths : List Text) : Option Options := do
  let switches ← (args.filterMap Argument.switch?).mapM id
  guard (switches.eraseDups.length = switches.length)
  return ⟨switches.contains .strict, switches.contains .debug, switches.contains .fuzz,
    paths.map Path.ofText⟩

/-- What the words and the flags ask for together. -/
def ofWords (args : List Argument) : Option Command := do
  match args.filterMap Argument.word? with
  | [] => none
  | word :: paths =>
    guard (word = "parse")
    return .parse (← options? args paths)

/-- Reads the arguments. -/
def ofArguments (ts : List Text) : Command :=
  let args := Argument.ofTexts ts
  match args.findSome? Argument.surplus? with
  | some s => .misuse (some s)
  | none =>
    if args.any Argument.isHelp then .help
    else if args.any Argument.isVersion then .version
    else (ofWords args).getD (.misuse none)

end Command

namespace Options

/-- The dialect that the options ask for. -/
def dialect (o : Options) : Dialect := if o.strict then .strict else .standard

/-- The paths with the homes of users in place. -/
def expandedPaths (o : Options) (home : Text → Option Text) : Except Interruption (List Path) :=
  o.paths.mapM fun p =>
    match p.expand? home with
    | some q => .ok q
    | none =>
      .error (if p.user?.any (·.any (·.val == 0)) then .file .embeddedNul else .unknownHome)

/-- The sources: the files at some paths, with their contents in the same order, or the standard
input if there are no paths and something can be read there. -/
def sourcesOf (paths : List Path) (contents : List (Except FileError Bytes))
    (stdin : Option Bytes) : List Source :=
  match paths, stdin with
  | [], none => []
  | [], some buffer => [⟨"<stdin>", .ok buffer⟩]
  | _, _ => List.zipWith (fun p content => ⟨p.print, content⟩) paths contents

/-- The sources in a file system in memory. -/
def sources (o : Options) (s : FileSystem) (stdin : Option Bytes) :
    Except Interruption (List Source) := do
  let paths ← o.expandedPaths s.home?
  return sourcesOf paths (paths.map s.read) stdin

/-- One row of the table of options. -/
def tableRow (name value : Text) : Text :=
  let padding : Text := List.replicate (8 - name.length) (CodePoint.ofChar ' ')
  "| " ++ name ++ padding ++ " | " ++ value ++ " |\n"

/-- The table of options: what is set comes first. -/
def table (o : Options) : Text :=
  let switches : List (Text × Bool) :=
    [("--debug", o.debug), ("--fuzz", o.fuzz), ("--strict", o.strict)]
  let rows (value : Text) (rs : List (Text × Bool)) : Text :=
    rs.flatMap fun (name, _) => tableRow name value
  "+-docopt args+---+\n" ++ tableRow "arg" " " ++ "+----------+---+\n" ++ tableRow "parse" "x"
    ++ (if o.paths.isEmpty then [] else tableRow "<path>" "_")
    ++ rows "x" (switches.filter (·.2)) ++ rows " " (switches.filter (!·.2))
    ++ "+----------+---+\n"

/-- The report on the sources. -/
def report (o : Options) (sources : List Source) : Report :=
  .ofSources o.dialect o.debug sources

end Options

/-- The response to a report: the exit code tells whether something failed. -/
def Report.response (r : Report) : Response :=
  ⟨match r.stopped with
    | some e => .error (.file e)
    | none => .ok (if r.failures.isEmpty then 0 else 1), r.output, r.complaints⟩

/-- What a fuzzer has the program parse, turn by turn. There may be other sources in each turn. -/
abbrev Turns := List (Except Interruption (List Source))

namespace Options

/-- The response to the sources, parsed once. -/
def turn (o : Options) : Except Interruption (List Source) → Response
  | .error e => ⟨.error e, [], []⟩
  | .ok ss => (o.report ss).response

/-- The response to the sources, or to what the fuzzer has the program parse, if there is a fuzzer.
After its turns the exit code is zero, whatever failed in them. -/
def respond (o : Options) (fuzzer : Option Turns)
    (sources : Except Interruption (List Source)) : Response :=
  if o.fuzz then
    match fuzzer with
    | none => ⟨.error .noFuzzer, [], []⟩
    | some turns => turns.foldr (fun ss rest => (o.turn ss).andThen rest) .done
  else o.turn sources

end Options

/-- The response to a command, given the sources that its options name and the fuzzer. -/
def Command.respond (sources : Options → Except Interruption (List Source))
    (fuzzer : Option Turns) : Command → Response
  | .help => ⟨.ok 0, helpText, []⟩
  | .version => ⟨.ok 0, versionText, []⟩
  | .misuse surplus => ⟨.ok 1, [], misuseText surplus⟩
  | .parse o =>
    let response := o.respond fuzzer (sources o)
    { response with output := (if o.debug then o.table else []) ++ response.output }

end SexpReader
