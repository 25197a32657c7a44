import Reckoner.Desk.Basic

/-!
# The help

The text of the help page. It names the file of the history.
-/

namespace Reckoner.Desk

/-- The lines of the help page. -/
def helpLines (d : Desk) : List (List Char) :=
  [ "histcalc - Terminal Calculator with History",
    "",
    "Operators:",
    "  +  : Addition        (e.g., 5 + 3 = 8)",
    "  -  : Subtraction     (e.g., 10 - 4 = 6)",
    "  *  : Multiplication  (e.g., 6 * 7 = 42)",
    "  /  : Division        (e.g., 15 / 3 = 5, 1 / 0 = Infinity)",
    "  %  : Remainder       (e.g., 10 % 3 = 1, -10 % 3 = -1)",
    "  ^  : Power           (e.g., 2 ^ 3 ^ 2 = 512)",
    "  ** : Power, same as ^ (e.g., 2 ** 3 = 8)",
    "  -x : Sign, binds tighter than power (-2 ^ 2 = 4)",
    "",
    "Commands:",
    "  q : Save history and quit",
    "  h : Show saved history",
    "  s : Save history now",
    "  c : Change history file (next line is the path)",
    "  details <expression> : Show step-by-step evaluation with time",
    "  Current history file: " ++ d.session.history.path.text,
    "",
    "Navigation:",
    "  ← → : Move cursor left/right",
    "  Ctrl+←/→ : Move cursor by words",
    "  Home/End : Move to start/end of line",
    "  ↑ ↓ : Recall earlier input",
    "  PgUp/PgDn : Page through the session",
    "  Ctrl+U : Clear current input",
    "  Ctrl+C : Save and quit",
    "  Esc / F1 : Close this help" ].map String.toList

/-- The title of the help page. -/
def helpTitle : List Char := " histcalc Help ".toList

end Reckoner.Desk
