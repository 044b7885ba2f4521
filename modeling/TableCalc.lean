import TableCalc.Page.Basic
import TableCalc.Main
import TableCalc.Proofs.Formula.Evaluation
import TableCalc.Proofs.Formula.Edits
import TableCalc.Proofs.Formula.InRange
import TableCalc.Proofs.Table.Csv
import TableCalc.Proofs.Page.Authoring
import TableCalc.Proofs.Formula.Join
import TableCalc.Proofs.Formula.Report
import TableCalc.Proofs.Formula.Recompute
import TableCalc.Proofs.Formula.Removal
import TableCalc.Proofs.Number.Double
import TableCalc.Proofs.Number.Nearest
import TableCalc.Proofs.Number.Literal
import TableCalc.Proofs.Number.Shortest
import TableCalc.Proofs.Table.Kinds
import TableCalc.Proofs.Json.Cell
import TableCalc.Proofs.Json.Names
import TableCalc.Proofs.Table.Json
import TableCalc.Proofs.Formula.Reads
import TableCalc.Proofs.Number.Bytewise
import TableCalc.Proofs.Page.Accepted
import TableCalc.Proofs.Number.Arithmetic
import TableCalc.Proofs.Sample.File
import TableCalc.Proofs.Number.Value
import TableCalc.Proofs.Number.Fraction
import TableCalc.Proofs.Sample.Stirring
import TableCalc.Proofs.Formula.Independence
import TableCalc.Proofs.Number.Order
import TableCalc.Proofs.Number.Whole
import TableCalc.Proofs.Table.Equality
import TableCalc.Proofs.Table.Selection
import TableCalc.Proofs.Formula.Atomic
import TableCalc.Proofs.Formula.Fieldwise
import TableCalc.Proofs.Table.Choices
import TableCalc.Proofs.Page.Picker
import TableCalc.Proofs.Formula.Cut
import TableCalc.Proofs.Formula.Column
import TableCalc.Proofs.Table.Records
