import PascalBlock.CrossReference
import PascalBlock.Node.Source
import PascalBlock.Parser.Statement
import PascalBlock.Report
import PascalBlock.Token.Scan

/-!
# The command line

What the arguments ask for, and what is written to the standard output for a source. Arguments are
taken from left to right; the first wrong one, or the first that asks for help or the version,
settles the outcome.
-/

namespace PascalBlock.CommandLine

/-- What to show besides the errors. -/
structure Options where
  tree : Bool
  source : Bool
  xref : Bool
deriving DecidableEq, Repr

/-- What the arguments ask for. -/
inductive Request where
  | usageError
  | help
  | version
  | run (options : Options) (path : String)
deriving DecidableEq, Repr

/-- What is known after some of the arguments. -/
structure Progress where
  options : Options
  path : Option String

def Progress.initial : Progress := ⟨⟨false, false, false⟩, none⟩

inductive Flag where
  | tree | source | xref | verbose | help | version
deriving DecidableEq, Repr

/-- The flag of a name. -/
def Flag.ofName? : String → Option Flag
  | "tree" => some .tree
  | "source" => some .source
  | "xref" => some .xref
  | "verbose" => some .verbose
  | "help" => some .help
  | "version" => some .version
  | _ => none

/-- The flag of a letter. -/
def Flag.ofLetter? : Char → Option Flag
  | 'v' => some .verbose
  | 'h' => some .help
  | 'V' => some .version
  | _ => none

/-- One flag. What to show may be asked for only once; logging leaves the output as it is. -/
def Progress.flag (s : Progress) : Flag → Except Request Progress
  | .tree =>
    if s.options.tree then .error .usageError else .ok { s with options.tree := true }
  | .source =>
    if s.options.source then .error .usageError else .ok { s with options.source := true }
  | .xref =>
    if s.options.xref then .error .usageError else .ok { s with options.xref := true }
  | .verbose => .ok s
  | .help => .error .help
  | .version => .error .version

/-- The flags of letters written together. -/
def Progress.letters : Progress → List Char → Except Request Progress
  | s, [] => .ok s
  | s, c :: cs =>
    match Flag.ofLetter? c with
    | some f => (s.flag f).bind fun s' => s'.letters cs
    | none => .error .usageError

/-- The path of the source, which may be given only once. -/
def Progress.positional (s : Progress) (arg : String) : Except Request Progress :=
  if s.path.isSome || arg.isEmpty then .error .usageError else .ok { s with path := some arg }

/-- One argument before a bare `--`. -/
def Progress.argument (s : Progress) (arg : String) : Except Request Progress :=
  match arg.toList with
  | '-' :: '-' :: name =>
    match Flag.ofName? (String.ofList name) with
    | some f => s.flag f
    | none => .error .usageError
  | '-' :: c :: cs => s.letters (c :: cs)
  | _ => s.positional arg

/-- Takes the arguments one by one; behind a bare `--` (`plain`) all are paths. -/
def readArguments : Bool → Progress → List String → Request
  | _, s, [] =>
    match s.path with
    | some path => .run s.options path
    | none => .usageError
  | plain, s, arg :: rest =>
    if !plain && arg == "--" then readArguments true s rest
    else
      match if plain then s.positional arg else s.argument arg with
      | .ok s' => readArguments plain s' rest
      | .error request => request

/-- What the arguments ask for. -/
def Request.ofArguments (args : List String) : Request := readArguments false .initial args

/-! ## Output -/

/-- What the program writes and the code it exits with. -/
structure Response where
  output : String
  exitCode : Nat
deriving DecidableEq, Repr

def helpText : String :=
  "Parse a Pascal block into an intermediate tree and report syntax errors\n\n" ++
  "Usage: pascal-front [OPTIONS] <FILE>\n\n" ++
  "Arguments:\n" ++
  "  <FILE>  Pascal source file\n\n" ++
  "Options:\n" ++
  "      --tree        Print the intermediate tree\n" ++
  "      --source      Print the tree back as Pascal source\n" ++
  "      --xref        Print the cross-reference listing of identifiers\n" ++
  "  -v, --verbose...  Log more (-v info, -vv debug, -vvv trace)\n" ++
  "  -h, --help        Print help\n" ++
  "  -V, --version     Print version\n"

def versionText : String := "pascal-front 0.1.0\n"

/-- The last part of a path, where there is one. -/
def fileName (path : String) : String :=
  let name := String.ofList (path.toList.reverse.takeWhile (· != '/')).reverse
  if name ∈ ["", ".", ".."] then path else name

/-- How many lines a source has. -/
def lineCount (source : String) : Nat := (Text.lines source.toList).length

/-- The last line of the output. -/
def summary (source : String) (errors : Nat) (elapsed : String) : String :=
  toString (lineCount source) ++ " source lines, " ++ toString errors ++ " syntax errors, " ++
    elapsed ++ " total\n"

/-- The reports of all diagnostics. -/
def reports (log : DiagnosticLog) (source : String) : String :=
  String.join (log.entries.toList.map fun d => Report.render d.error source)

/-- The tree as source, with the period of a program. -/
def sourceListing (root : Option Node) : String :=
  (root.map fun node => node.source ++ ".\n").getD ""

/-- What is written for a parse: the errors, what the options ask for, and the summary. -/
def parseOutput (options : Options) (source elapsed : String) (p : Parsed (Option Node)) :
    Response :=
  let log := p.after.log
  ⟨reports log source ++
      (if options.tree then Node.dump p.value else "") ++
      (if options.source then sourceListing p.value else "") ++
      (if options.xref then CrossReference.listing p.after.scopes else "") ++
      summary source log.count elapsed,
    if log.count = 0 then 0 else 1⟩

/-- What is written for a source. A source that has no tokens has only the report of why. -/
def sourceOutput (options : Options) (file source elapsed : String) : Response :=
  match tokenize source file with
  | .error e => ⟨Report.render e source, 1⟩
  | .ok tokens => parseOutput options source elapsed (parse tokens file)

/-- What the program does for its arguments, where `content` has the bytes of every file that can be
read and `elapsed` stands for the time taken. -/
def respond (args : List String) (content : String → Option ByteArray) (elapsed : String) :
    Response :=
  match Request.ofArguments args with
  | .usageError => ⟨"", 2⟩
  | .help => ⟨helpText, 0⟩
  | .version => ⟨versionText, 0⟩
  | .run options path =>
    match (content path).bind String.fromUTF8? with
    | none => ⟨"", 1⟩
    | some source => sourceOutput options (fileName path) source elapsed

end PascalBlock.CommandLine
