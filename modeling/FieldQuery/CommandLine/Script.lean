/-!
# Completion scripts

A script has a shell ask this program for the completions of a query.
-/

namespace FieldQuery

inductive ShellKind where
  | bash
  | zsh
  | fish
deriving DecidableEq, Repr

namespace ShellKind

/-- The shell that a word names, in any mixture of ASCII cases. -/
def ofName? (text : String) : Option ShellKind :=
  match text.toLower with
  | "bash" => some bash
  | "zsh" => some zsh
  | "fish" => some fish
  | _ => none

def bashLines : List String := [
  "_searchline_query() \x7b",
  "    local cur=\"$\x7bCOMP_WORDS[COMP_CWORD]\x7d\"",
  "    local IFS=$'\\n'",
  "    COMPREPLY=($(searchline --format plain -q complete \"$cur\" 2>/dev/null"
    ++ " | sed -e 's/^\" *//' -e 's/\"$//'))",
  "\x7d",
  "",
  "_searchline_enhanced() \x7b",
  "    local sub=\"$\x7bCOMP_WORDS[1]\x7d\"",
  "    if [[ ( \"$sub\" == \"complete\" || \"$sub\" == \"validate\" ) && $COMP_CWORD -ge 2"
    ++ " && \"$\x7bCOMP_WORDS[COMP_CWORD]\x7d\" != -* ]]; then",
  "        _searchline_query",
  "        return 0",
  "    fi",
  "    _searchline \"$@\"",
  "\x7d",
  "",
  "complete -F _searchline_enhanced -o bashdefault -o default searchline"]

def zshLines : List String := [
  "_searchline_query() \x7b",
  "    local -a suggestions",
  "    suggestions=(\"$\x7b(@f)$(searchline --format plain -q complete \"$PREFIX\" 2>/dev/null"
    ++ " | sed -e 's/^\" *//' -e 's/\"$//')\x7d\")",
  "    compadd -Q -U -- \"$\x7bsuggestions[@]\x7d\"",
  "\x7d",
  "",
  "_searchline_enhanced() \x7b",
  "    if [[ ( $\x7bwords[2]\x7d == complete || $\x7bwords[2]\x7d == validate )"
    ++ " && CURRENT -ge 3 && $\x7bwords[CURRENT]\x7d != -* ]]; then",
  "        _searchline_query",
  "        return 0",
  "    fi",
  "    _searchline \"$@\"",
  "\x7d",
  "",
  "compdef _searchline_enhanced searchline"]

def fishLines : List String := [
  "function __searchline_query",
  "    searchline --format plain -q complete (commandline -ct) 2>/dev/null"
    ++ " | string trim -c '\" '",
  "end",
  "",
  "complete -c searchline -n \"__fish_seen_subcommand_from complete validate\""
    ++ " -f -a \"(__searchline_query)\""]

def scriptLines : ShellKind → List String
  | bash => bashLines
  | zsh => zshLines
  | fish => fishLines

/-- The script that completes queries. All other arguments are left to the shell. -/
def script (shell : ShellKind) : List String :=
  ["", "# Complete QUERY arguments through searchline itself"] ++ shell.scriptLines

end ShellKind

end FieldQuery
