import NotebookExtract.Text.Lines

/-!
# What the program says of itself
-/

namespace NotebookExtract.Command

/-- The program's name and version, on a line of its own. -/
def versionText : Text := "nbstrip 0.1.0\n".toList

/-- The program's help. -/
def helpText : Text :=
  ("Extract code from a Jupyter notebook and strip its comments\n\n" ++
    "Usage: nbstrip [OPTIONS] <INPUT>\n\n" ++
    "Arguments:\n" ++
    "  <INPUT>  Notebook to read, or `-` for standard input\n\n" ++
    "Options:\n" ++
    "  -o, --output <OUTPUT>     Write the result to this path instead of next to the input\n" ++
    "      --stdout              Write the result to standard output\n" ++
    "  -f, --format <FORMAT>     Output format [possible values: python, markdown]\n" ++
    "      --code-only           Keep only code cells\n" ++
    "      --keep-comments       Leave code cells untouched\n" ++
    "      --keep-line-comments  Keep trailing `#` comments\n" ++
    "      --keep-docstrings     Keep documentation block strings\n" ++
    "  -c, --config <CONFIG>     Configuration file layered over the built-in defaults\n" ++
    "  -v, --verbose...          Increase log verbosity (-v info, -vv debug, -vvv trace)\n" ++
    "  -h, --help                Print help\n" ++
    "  -V, --version             Print version\n").toList

end NotebookExtract.Command
