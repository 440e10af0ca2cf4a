import BlockScript.Command.Display
import BlockScript.Command.Flags
import BlockScript.Command.Host
import BlockScript.Command.Lines
import BlockScript.Command.Path
import BlockScript.Session
import BlockScript.Settings.Document
import BlockScript.Syntax.Render
import BlockScript.Text.Blank

/-! # The command line tool

The tool runs a source file, shows its tokens or its tree, or starts an interactive session. What it does is a function
of its arguments and of the host it runs on. -/

namespace BlockScript.Command

structure Outcome where
  code : Nat
  output : Bytes
  errors : Bytes
  history : Option Bytes
  deriving DecidableEq, Repr

def usage : Bytes :=
  Bytes.join (ascii "\n")
    [ascii "Usage: kestrel [-config file.yml] <command> [/path/to/source.ks]",
     ascii "",
     ascii "Commands:",
     ascii "  run     evaluate a source file",
     ascii "  tokens  print the tokens of a source file",
     ascii "  ast     print the syntax tree of a source file",
     ascii "  repl    start an interactive session"]

def lines (texts : List Bytes) : Bytes := texts.flatMap fun text => text ++ [Lines.newline]

def logged (settings : Settings) (entries : List Log.Entry) : Bytes :=
  lines (Log.lines (settings.level?.getD .warning) entries)

def showUsage : Outcome := ⟨2, lines [usage], [], none⟩

/-! ## Source files -/

structure Report where
  events : List Event
  shown : Except Bytes (List Bytes)

def tokensReport (settings : Settings) (source : Bytes) : Report :=
  match Source.tokens source settings.lineTerminator with
  | .ok tokens => ⟨[], .ok (tokens.map (Display.token settings.color))⟩
  | .error e => ⟨[], .error e.message⟩

def treeReport (settings : Settings) (source : Bytes) : Report :=
  match Program.ofSource source settings.lineTerminator with
  | .ok program => ⟨[], .ok (program.map Stmt.text)⟩
  | .error e => ⟨[], .error e.message⟩

def runReport (settings : Settings) (source : Bytes) : Report :=
  match Program.ofSource source settings.lineTerminator with
  | .error e => ⟨[], .error e.message⟩
  | .ok program =>
    match program.run ampleBound with
    | (.ok value, world) => ⟨world.trace.toList, .ok [Display.value settings.color value]⟩
    | (.error halt, world) => ⟨world.trace.toList, .error halt.message⟩

def report? (command : Bytes) : Option (Settings → Bytes → Report) :=
  if command = ascii "run" then some runReport
  else if command = ascii "tokens" then some tokensReport
  else if command = ascii "ast" then some treeReport
  else none

def Report.outcome (settings : Settings) (path : Bytes) (r : Report) : Outcome :=
  let events := r.events.map Log.ofEvent
  match r.shown with
  | .ok texts => ⟨0, lines texts, logged settings events, none⟩
  | .error message =>
    let failed : Log.Entry :=
      ⟨.debug, ascii "Evaluation failed", [(ascii "error", message), (ascii "file", path)]⟩
    ⟨1, lines [Display.error settings.color message], logged settings (events ++ [failed]), none⟩

/-- Runs a command on a source file. The file is read before the command is looked at. -/
def onFile (settings : Settings) (host : Host) (command path : Bytes) : Outcome :=
  let path := Path.absolute host.directory path
  match host.read path with
  | .error e =>
    let message := ascii "read " ++ path ++ ascii ": " ++ e.message path
    ⟨1, [], logged settings [⟨.error, ascii "Cannot read source", [(ascii "error", message)]⟩], none⟩
  | .ok source =>
    match report? command with
    | some report => (report settings source).outcome settings path
    | none => showUsage

/-! ## Interactive sessions -/

def prompt : Bytes := ascii "kestrel> "

def historyPath (host : Host) : Bytes := Path.absolute host.home (ascii ".kestrel_history")

structure Dialogue where
  session : Session
  shown : Bytes
  history : List Bytes

/-- Answers one line. A blank line is neither evaluated nor remembered. -/
def Dialogue.answer (settings : Settings) (d : Dialogue) (line : Bytes) : Dialogue :=
  if Blank.isBlankText line then ⟨d.session, d.shown ++ prompt, d.history⟩
  else
    let (result, session) := d.session.eval ampleBound line settings.lineTerminator
    let reply := match result with
      | .ok value => Display.value settings.color value
      | .error e => Display.error settings.color e.message
    ⟨session, d.shown ++ prompt ++ lines [reply], Lines.remember d.history line⟩

def interactive (settings : Settings) (host : Host) : Outcome :=
  let earlier := match host.read (historyPath host) with
    | .ok file => Lines.readHistory file
    | .error _ => []
  let entered := (Lines.split host.input).map Lines.Line.text
  let last := entered.foldl (Dialogue.answer settings) ⟨.start, [], earlier⟩
  let events := last.session.world.trace.toList.map Log.ofEvent
  ⟨0, last.shown ++ prompt ++ lines [[]], logged settings events, some (Lines.writeHistory last.history)⟩

/-! ## The whole tool -/

def run (settings : Settings) (host : Host) (arguments : List Bytes) : Outcome :=
  match arguments with
  | [command] => if command = ascii "repl" then interactive settings host else showUsage
  | [command, path] => onFile settings host command path
  | _ => showUsage

def loadSettings (path : Bytes) (file : Except FileError Bytes) : Except Bytes Settings :=
  match file with
  | .ok text =>
    match Settings.ofYaml text with
    | .ok settings => .ok settings
    | .error e => .error (ascii "config: " ++ path ++ ascii ": " ++ e.message)
  | .error e =>
    if e.isOpenable then
      .error (ascii "config: " ++ path ++ ascii ": parse: yaml: input error: " ++ e.message path)
    else .error (ascii "config: open " ++ path ++ ascii ": " ++ e.message path)

def invoke (host : Host) (invocation : Invocation) : Outcome :=
  let settings :=
    if invocation.config.isEmpty then .ok Settings.default
    else loadSettings invocation.config (host.read invocation.config)
  match settings with
  | .ok settings => run settings host invocation.arguments
  | .error message =>
    let entry : Log.Entry := ⟨.fatal, ascii "Cannot load configuration", [(ascii "error", message)]⟩
    ⟨1, [], lines [entry.line], none⟩

def execute (host : Host) (arguments : List Bytes) : Outcome :=
  match Invocation.parse arguments with
  | .ok invocation => invoke host invocation
  | .error e =>
    match e.message? with
    | some message => ⟨2, [], lines [message, usage], none⟩
    | none => ⟨0, [], lines [usage], none⟩

def readsInput (arguments : List Bytes) : Bool :=
  match Invocation.parse arguments with
  | .error _ => false
  | .ok invocation => invocation.arguments = [ascii "repl"]

def files (directory home : Bytes) (arguments : List Bytes) : List Bytes :=
  match Invocation.parse arguments with
  | .error _ => []
  | .ok invocation =>
    let sources := match invocation.arguments with
      | [_, path] => [Path.absolute directory path]
      | _ => []
    invocation.config :: Path.absolute home (ascii ".kestrel_history") :: sources

end BlockScript.Command
