import Scim.Command.Run

/-!
# Help

* `helpText`     how the program, or one of its commands, is used.
-/

namespace Scim.Command

/-- The line on each option before the command. -/
def optionLines : List String :=
  ["  --output [tree|json]  Form of the output (default: tree).",
    "  --json                Alias for --output json.",
    "  -q, --quiet           Suppress non-essential stderr output.",
    "  -v                    Increase verbosity (-v, -vv).",
    "  --max-length INTEGER  Maximum expression length (default: $" ++ lengthVariable ++
      " or 8192).",
    "  --max-depth INTEGER   Maximum parenthesis/bracket nesting (default: $" ++ depthVariable ++
      " or 64).",
    "  --version             Show the version and exit.",
    "  -h, --help            Show this message and exit."]

/-- What a command does. -/
def summary : Mode → String
  | .filter => "Parse a SCIM filter, e.g. 'emails[type eq \"work\"] and active eq true'."
  | .path => "Parse a SCIM PATCH path, e.g. 'members[value eq \"2819c223\"].display'."

/-- The lines that tell how the program, or one of its commands, is used. -/
def helpLines : Option Mode → List String
  | none =>
    ["Usage: " ++ programName ++ " [OPTIONS] COMMAND [ARGS]...", "", "Options:"] ++ optionLines ++
      ["", "Commands:", "  filter  " ++ summary .filter, "  path    " ++ summary .path]
  | some mode =>
    ["Usage: " ++ programName ++ " " ++ mode.label ++ " [OPTIONS] EXPRESSION", "",
      "  " ++ summary mode, "", "Options:", "  -h, --help  Show this message and exit."]

/-- How the program, or one of its commands, is used. -/
def helpText (command : Option Mode) : String :=
  String.join ((helpLines command).map (· ++ "\n"))

end Scim.Command
