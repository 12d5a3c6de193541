import KiteCompiler.CommandLine.Flag

/-!
# Commands

The commands of the program with what is said about them and the flags that they take. A command stands below the
program itself or, for the scripts that complete command lines, below `completion`.
-/

namespace KiteCompiler.CommandLine

def program : Text := "kite"

def about : Text := "Translate Kite classes into Java source"

inductive Shell where
  | bash | zsh | fish | powershell
  deriving DecidableEq, Repr

def Shell.name : Shell → Text
  | bash => "bash"
  | zsh => "zsh"
  | fish => "fish"
  | powershell => "powershell"

inductive Command where
  | compile | check | parse | emit | resolve | lsp | help | completion
  | script (shell : Shell)
  deriving DecidableEq, Repr

namespace Command

def below : Option Command → List Command
  | none => [compile, check, parse, emit, resolve, lsp, help, completion]
  | some completion => [script .bash, script .zsh, script .fish, script .powershell]
  | some _ => []

def name : Command → Text
  | compile => "compile"
  | check => "check"
  | parse => "parse"
  | emit => "emit"
  | resolve => "resolve"
  | lsp => "lsp"
  | help => "help"
  | completion => "completion"
  | script shell => shell.name

def ofName? (parent : Option Command) (name : Text) : Option Command := (below parent).find? (·.name = name)

def path : Option Command → Text
  | none => program
  | some (script shell) => program ++ " " ++ name completion ++ " " ++ shell.name
  | some c => program ++ " " ++ c.name

def synopsis : Command → Text
  | compile | check => " [file or directory...]"
  | parse | emit => " <file>"
  | resolve => " <name>..."
  | help => " [command]"
  | lsp | completion | script _ => ""

/-- Does a command do something without a command below it? -/
def isRunnable : Option Command → Bool
  | none | some completion => false
  | some _ => true

def summary : Command → Text
  | compile => "Translate .kite files into .java files"
  | check => "Report syntax and semantic problems without writing any files"
  | parse => "Parse a .kite file and dump its syntax tree"
  | emit => "Print the Java translation of a .kite file"
  | resolve => "Show where type names are defined on the search path"
  | lsp => "Start the Language Server Protocol server"
  | help => "Help about any command"
  | completion => "Generate the autocompletion script for the specified shell"
  | script shell => "Generate the autocompletion script for " ++ shell.name

end Command

/-- How a script is put to use. -/
def Shell.instructions : Shell → Text
  | bash =>
    "Generate the autocompletion script for the bash shell.\n\n" ++
    "This script depends on the 'bash-completion' package.\n" ++
    "If it is not installed already, you can install it via your OS's package manager.\n\n" ++
    "To load completions in your current shell session:\n\n" ++
    "\tsource <(kite completion bash)\n\n" ++
    "To load completions for every new session, execute once:\n\n" ++
    "#### Linux:\n\n" ++
    "\tkite completion bash > /etc/bash_completion.d/kite\n\n" ++
    "#### macOS:\n\n" ++
    "\tkite completion bash > $(brew --prefix)/etc/bash_completion.d/kite\n\n" ++
    "You will need to start a new shell for this setup to take effect."
  | zsh =>
    "Generate the autocompletion script for the zsh shell.\n\n" ++
    "If shell completion is not already enabled in your environment you will need\n" ++
    "to enable it.  You can execute the following once:\n\n" ++
    "\techo \"autoload -U compinit; compinit\" >> ~/.zshrc\n\n" ++
    "To load completions in your current shell session:\n\n" ++
    "\tsource <(kite completion zsh)\n\n" ++
    "To load completions for every new session, execute once:\n\n" ++
    "#### Linux:\n\n" ++
    "\tkite completion zsh > \"$\x7bfpath[1]\x7d/_kite\"\n\n" ++
    "#### macOS:\n\n" ++
    "\tkite completion zsh > $(brew --prefix)/share/zsh/site-functions/_kite\n\n" ++
    "You will need to start a new shell for this setup to take effect."
  | fish =>
    "Generate the autocompletion script for the fish shell.\n\n" ++
    "To load completions in your current shell session:\n\n" ++
    "\tkite completion fish | source\n\n" ++
    "To load completions for every new session, execute once:\n\n" ++
    "\tkite completion fish > ~/.config/fish/completions/kite.fish\n\n" ++
    "You will need to start a new shell for this setup to take effect."
  | powershell =>
    "Generate the autocompletion script for powershell.\n\n" ++
    "To load completions in your current shell session:\n\n" ++
    "\tkite completion powershell | Out-String | Invoke-Expression\n\n" ++
    "To load completions for every new session, add the output of the above command\n" ++
    "to your powershell profile."

def Command.description : Command → Text
  | compile =>
    "Translate .kite files into .java files.\n\n" ++
    "Each Foo.kite becomes Foo.java in the output directory, below the\n" ++
    "subdirectory matching its package. A file with errors produces no output.\n" ++
    "Without arguments the sources listed in kite.yaml are compiled."
  | resolve =>
    "Show where type names are defined on the search path.\n\n" ++
    "The search path is taken from --search-path or from kite.yaml. With\n" ++
    "--package every argument names a package and its types are listed."
  | help =>
    "Help provides help for any command in the application.\n" ++
    "Simply type kite help [path to command] for full details."
  | completion =>
    "Generate the autocompletion script for kite for the specified shell.\n" ++
    "See each sub-command's help for details on how to use the generated script."
  | script shell => shell.instructions
  | c => c.summary

/-! ## Flags -/

def commonFlags : List Flag :=
  [.lettered "verbose" 'v' .count "Increase log verbosity",
    .named "config" .text "Path to kite.yaml (default: searched upwards from the working directory)"]

def helpFlag (name : Text) : Flag := .lettered "help" 'h' .switch ("help for " ++ name)

def versionFlag : Flag := .named "version" .switch ("version for " ++ program)

def werrorFlag : Flag := .named "werror" .switch "Treat warnings as errors"

def projectFlags : List Flag :=
  [werrorFlag, .named "search-path" .list "Directories and archives used to check imports",
    .named "no-color" .switch "Disable coloured diagnostics"]

def Command.flags : Command → List Flag
  | compile =>
    [.lettered "output" 'o' .text "Directory for generated Java files",
      .lettered "jobs" 'j' .number "Number of files compiled in parallel (default: one per CPU)",
      .lettered "watch" 'w' .switch "Recompile files whenever they change",
      { Flag.named "interval" .duration "Polling interval for --watch" with preset := some "1s" }] ++ projectFlags
  | check => projectFlags
  | parse =>
    [{ Flag.lettered "format" 'f' .text "Output format (tree, json)" with preset := some "\"tree\"" },
      .named "comments" .switch "List comments after the parse tree",
      .named "ast" .switch "Dump the abstract syntax tree instead of the parse tree",
      .lettered "expression" 'e' .switch "Parse the file as a single expression"]
  | emit => [werrorFlag]
  | resolve =>
    [.named "search-path" .list "Directories and archives to search",
      .lettered "package" 'p' .switch "List the types of packages instead",
      .lettered "describe" 'd' .switch "Show the kind and supertypes of compiled classes"]
  | lsp | help | completion => []
  | script _ => [.named "no-descriptions" .switch "disable completion descriptions"]

def Command.localFlags : Option Command → List Flag
  | none => commonFlags ++ [helpFlag program, versionFlag]
  | some c => helpFlag c.name :: c.flags

def Command.allFlags : Option Command → List Flag
  | none => localFlags none
  | some c => commonFlags ++ localFlags (some c)

end KiteCompiler.CommandLine
