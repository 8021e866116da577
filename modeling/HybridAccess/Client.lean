/-
  HybridAccess — the client as a program.

  `Client.perform` is what the program does for a command line: it prints
  where its configuration file is, writes that file, or runs. What a run can
  do without a network is done here: it reads the configuration and looks for
  the end points of the links.
-/
import HybridAccess.CommandLine
import HybridAccess.Config.File
import HybridAccess.Interface
import HybridAccess.Tunnel

namespace HybridAccess.Client

open CommandLine (Action Invocation Stop)

/-! ## Texts -/

/-- The name of the program. -/
def programName : String := "grecp-client"

/-- The version of the program. -/
def version : String := "0.1.0"

/-- What the program is for. -/
def about : String := "Hybrid access client bonding an LTE and a DSL link over GRE"

/-- How the program is used. -/
def help : List String :=
  [about, "", "Usage: " ++ programName ++ " [OPTIONS] [COMMAND]", "", "Commands:",
    "  run                Run the client in the foreground (default)",
    "  init-config        Write a default config file (does not overwrite unless --force)",
    "  print-config-path  Print the resolved config file path",
    "  help               Print this message or the help of the given subcommand(s)", "",
    "Options:",
    "      --config <CONFIG>  Path to config file (TOML)",
    "  -h, --help             Print help",
    "  -V, --version          Print version"]

/-- How a command is used. -/
def commandHelp (command : String) : List String :=
  if command = CommandLine.runName then
    ["Run the client in the foreground (default)", "",
      "Usage: " ++ programName ++ " run", "", "Options:", "  -h, --help  Print help"]
  else if command = CommandLine.writeConfigName then
    ["Write a default config file (does not overwrite unless --force)", "",
      "Usage: " ++ programName ++ " init-config [OPTIONS]", "", "Options:",
      "      --force  Overwrite existing config file", "  -h, --help   Print help"]
  else if command = CommandLine.printPathName then
    ["Print the resolved config file path", "",
      "Usage: " ++ programName ++ " print-config-path", "", "Options:", "  -h, --help  Print help"]
  else
    ["Print this message or the help of the given subcommand(s)", "",
      "Usage: " ++ programName ++ " help [COMMAND]...", "", "Arguments:",
      "  [COMMAND]...  Print help for the subcommand(s)"]

/-- The text of an error and the reason behind it, each line of which is indented. -/
def report (message : String) (cause : Option String) : String :=
  "Error: " ++ message ++ "\n" ++
    match cause with
    | none => ""
    | some cause => "\nCaused by:\n    " ++ cause.replace "\n" "\n    " ++ "\n"

/-! ## Running -/

/-- Where the addresses of all interfaces are listed. -/
def tablePath : String := "/proc/net/if_inet6"

/-- Why the client does not run. -/
inductive Fault
  | config (problem : Config.File.Problem)
  /-- The end point of a link is not known. -/
  | unresolved (tunnel : Tunnel) (interface : String) (reason : Interface.Unresolved)
  /-- The socket of a link cannot be opened. -/
  | noSocket (tunnel : Tunnel) (address : IPv6) (reason : Host.Failure)
deriving DecidableEq, Repr

namespace Fault

/-- The text of a fault. -/
def message : Fault → String
  | config problem => problem.message
  | unresolved tunnel interface _ =>
    "failed to resolve IPv6 address of " ++ tunnel.name ++ " interface '" ++ interface ++ "'"
  | noSocket tunnel address _ =>
    "failed to open raw GRE socket for " ++ tunnel.name ++ " on " ++ address.toText

/-- The reason behind a fault. -/
def cause? : Fault → Option String
  | config problem => problem.cause?
  | unresolved _ _ reason => some reason.message
  | noSocket _ _ reason => some reason.message

/-- The text of a fault and the reason behind it. -/
def text (f : Fault) : String := report f.message f.cause?

/-- The number with which the client ends. -/
def code : Fault → UInt32
  | config (.halted _) => 101
  | _ => 1

end Fault

/-- What is logged when the configuration was read. -/
def loadedEntry (shown : String) : Log.Entry := ⟨.info, "Loaded config from " ++ shown⟩

/-- What is logged about the configuration when the client starts. -/
def configEntry (c : Config) : Log.Entry :=
  ⟨.info, "Client config: anycast=" ++ c.anycast.toText ++ " lte=" ++ c.lteInterface ++
    " dsl=" ++ c.dslInterface ++ s!" bonding={c.bonding} tunnel=" ++ c.tunnelName ++
    s!" mtu={c.mtu}"⟩

/-- The end point of a link, with the table of addresses that was found. -/
def linkAddress (table : Except Host.Failure Bytes) (tunnel : Tunnel) (interface : String) :
    Except Fault IPv6 :=
  (Interface.endpoint interface table).mapError (.unresolved tunnel interface)

/-- Why the client does not run where no raw socket may be opened. The link of the cellular tunnel
is looked at first. -/
def obstacle (c : Config) (table : Except Host.Failure Bytes) : Fault :=
  match linkAddress table .lte c.lteInterface with
  | .error fault => fault
  | .ok address => .noSocket .lte address .notPermitted

/-- The events that the log keeps. -/
def logged (c : Config) (entries : List Log.Entry) : List Log.Entry :=
  Log.upTo ((Log.Level.ofWord? c.logLevel).getD .info) entries

/-! ## Command lines -/

/-- The words that are printed when a command line is not carried out, and whether that is as it
should be. -/
def stopped : Stop → Bool × List String
  | .help none => (true, help)
  | .help (some command) => (true, commandHelp command)
  | .version => (true, [programName ++ " " ++ version])
  | _ => (false, ["Usage: " ++ programName ++ " [OPTIONS] [COMMAND]", "",
      "For more information, try '--help'."])

/-- What a run of the program leaves behind. The output is a list of lines. -/
structure Outcome where
  code : UInt32
  output : List String
  errors : String
  files : Host.Files

/-- What is printed when a configuration file was written. -/
def writtenLine (path : String) : String := "Wrote default config to " ++ path

/-- The lines of a text. -/
def linesOf (text : String) : List String := (Text.lines text.toList).map String.ofList

/-- The lines that appear where some texts are printed, each with a line feed behind it. -/
def printed (texts : List String) : List String :=
  texts.flatMap fun text => linesOf (text ++ "\n")

/-- What was written to a stream of the program under the name that the stream has as a device. -/
def streamed (files : Host.Files) (name : String) : String :=
  ((files.read ("/dev/" ++ name)).toOption.bind Bytes.toText?).getD ""

/-- The outcome of a fault. -/
def Outcome.ofFault (output : List String) (files : Host.Files) (f : Fault) : Outcome :=
  ⟨f.code, printed output, f.text, files⟩

/-- What the program does on a host where no raw socket may be opened. -/
def perform (home : Option String) (files : Host.Files) (words : List String) : Outcome :=
  match Invocation.read words with
  | .error stop =>
    let (fine, lines) := stopped stop
    if fine then ⟨0, lines, "", files⟩ else ⟨2, [], "", files⟩
  | .ok invocation =>
    let path := invocation.config.getD (Config.File.defaultPath home none)
    match invocation.action.getD .run with
    | .printPath => ⟨0, printed [path], "", files⟩
    | .writeConfig force =>
      match Config.File.save files path .default force with
      | (.ok _, files) =>
        ⟨0, linesOf (streamed files "stdout") ++ printed [writtenLine path],
          streamed files "stderr", files⟩
      | (.error problem, files) => .ofFault [] files (.config problem)
    | .run =>
      match Config.File.load files path with
      | .error problem => .ofFault [] files (.config problem)
      | .ok c =>
        .ofFault ((logged c [loadedEntry path, configEntry c]).map (·.line)) files
          (obstacle c (files.read tablePath))

end HybridAccess.Client
