import Spreadsheet.Main
import Spreadsheet.Proofs.Csv.RoundTrip
import Spreadsheet.Proofs.Formula.Malformed
import Spreadsheet.Proofs.Formula.Parsing
import Spreadsheet.Proofs.Recalculation.Cycles
import Spreadsheet.Proofs.Recalculation.Texts
import Spreadsheet.Proofs.Program.Balance
import Spreadsheet.Proofs.Recalculation.Locality
import Spreadsheet.Proofs.Pass.Record
import Spreadsheet.Proofs.Recalculation.Counts
import Spreadsheet.Proofs.Formula.Scanning
import Spreadsheet.Proofs.Formula.Sequence
import Spreadsheet.Proofs.Number.Nearest
import Spreadsheet.Proofs.Number.Printed
import Spreadsheet.Proofs.Formula.Lexing
import Spreadsheet.Proofs.Sheet.Label
import Spreadsheet.Proofs.Sheet.Boundary
import Spreadsheet.Edit
import Spreadsheet.Proofs.Pass.Run
import Spreadsheet.Proofs.Recalculation.Lookups
import Spreadsheet.Proofs.Sheet.History
import Spreadsheet.Proofs.Sheet.Rectangle
import Spreadsheet.Proofs.Formula.References
import Spreadsheet.Proofs.Sheet.A1
import Spreadsheet.Proofs.Pass.Trail
import Spreadsheet.Proofs.Csv.Accounting
import Spreadsheet.Proofs.Csv.Lookup
import Spreadsheet.Proofs.Text.Encoding
import Spreadsheet.Proofs.Csv.Position
import Spreadsheet.Proofs.Formula.Case
import Spreadsheet.Proofs.Program.Renaming
import Spreadsheet.Proofs.Recalculation.Case
import Spreadsheet.Proofs.Value.Comparison
import Spreadsheet.Proofs.Number.Whole
import Spreadsheet.Proofs.Number.ReadBack
import Spreadsheet.Proofs.Value.Criteria
import Spreadsheet.Proofs.Value.Shown
import Spreadsheet.Proofs.Recalculation.Copies
import Spreadsheet.Proofs.Formula.Words
import Spreadsheet.Proofs.Program.Written
import Spreadsheet.Proofs.Sheet.UsedRange
import Spreadsheet.Proofs.Sheet.Columns
import Spreadsheet.Proofs.Formula.Neighbours
