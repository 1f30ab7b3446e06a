import Spreadsheet.CommandLine.Command

/-! # Help

The pages that explain the command line. Operands, options and commands are listed in two columns,
and the second one begins behind the longest entry of the first one. -/

namespace Spreadsheet.CommandLine

def Verb.summary : Verb → String
  | eval => "Evaluate every cell of a CSV sheet and output the results as CSV"
  | cell => "Print the evaluated value of one cell"
  | formula => "Evaluate a single formula, optionally against a sheet"
  | info => "Show information about a sheet"

def Verb.operandSummaries : Verb → List (String × String)
  | eval => [("<INPUT>", "Input CSV file with raw cell values and formulas")]
  | cell => [("<INPUT>", "Input CSV file"), ("<ADDRESS>", "Cell address (e.g., B12)")]
  | formula => [("<EXPR>", "Formula text (the leading '=' is optional)")]
  | info => [("<INPUT>", "Input CSV file")]

def Flag.summary : Flag → String × String
  | output => ("-o, --output <OUTPUT>", "Output CSV file (default: stdout)")
  | sheet => ("-s, --sheet <SHEET>", "CSV sheet the formula's references read from")
  | delimiter => ("-d, --delimiter <DELIMITER>", "Field delimiter (default: comma) [default: ,]")

/-- A list in two columns under a heading. -/
def table (heading : String) (entries : List (String × String)) : List String :=
  let width := entries.foldl (fun n e => max n e.1.length) 0
  heading :: entries.map fun e =>
    "  " ++ e.1 ++ String.ofList (List.replicate (width + 2 - e.1.length) ' ') ++ e.2

def unlines (lines : List String) : String := String.join (lines.map (· ++ "\n"))

def helpSummary : String := "Print this message or the help of the given subcommand(s)"

def helpOption : String := "-h, --help"

def Page.text : Page → String
  | program =>
    unlines (["Spreadsheet formula evaluation tool", "", "Usage: gridcalc <COMMAND>", ""] ++
      table "Commands:" (Verb.all.map (fun v => (v.name, v.summary)) ++ [("help", helpSummary)]) ++
      [""] ++
      table "Options:" [(helpOption, "Print help"), ("-V, --version", "Print version")])
  | verb v =>
    unlines ([v.summary, "",
      "Usage: gridcalc " ++ v.name ++ " [OPTIONS] " ++
        String.intercalate " " (v.operands.map fun o => "<" ++ o ++ ">"), ""] ++
      table "Arguments:" v.operandSummaries ++ [""] ++
      table "Options:" (v.flags.map Flag.summary ++ [(helpOption, "Print help")]))
  | help =>
    unlines ([helpSummary, "", "Usage: gridcalc help [COMMAND]...", ""] ++
      table "Arguments:" [("[COMMAND]...", "Print help for the subcommand(s)")])

def version : String := "gridcalc 0.1.0\n"

end Spreadsheet.CommandLine
