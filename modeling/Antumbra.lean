import Antumbra.Core.MulDiv
import Antumbra.Core.Exact
import Antumbra.Math.ConstantProduct
import Antumbra.Math.Runs
import Antumbra.Math.Fallible
import Antumbra.Math.Codec
import Antumbra.Math.Reading
import Antumbra.Curve.Curve
import Antumbra.Curve.Solvency
import Antumbra.Curve.Fees
import Antumbra.Curve.Quotes
import Antumbra.Curve.Splitting
import Antumbra.Curve.Sale
import Antumbra.Curve.Instructions
import Antumbra.Curve.Closing
import Antumbra.Math.Till
import Antumbra.Curve.Holding
import Antumbra.Curve.Path
import Antumbra.Math.Bits
import Antumbra.Math.Accrual
import Antumbra.Math.Reserve
import Antumbra.Math.Interpolation
import Antumbra.Vesting.Schedule
import Antumbra.Vesting.Position
import Antumbra.Vesting.Calls
import Antumbra.Vesting.Latest
import Antumbra.Vesting.Split
import Antumbra.Vesting.Types
import Antumbra.Vesting.Accrual
import Antumbra.Vesting.Apply
import Antumbra.Vesting.Validity
import Antumbra.Vesting.Life
import Antumbra.Vesting.Freeze
import Antumbra.Vesting.Plan
import Antumbra.Vesting.Planned
import Antumbra.Vesting.Chain
import Antumbra.Vesting.Rows
import Antumbra.Vesting.Seeds
import Antumbra.Vesting.Records
import Antumbra.Vesting.Solvency
import Antumbra.Vesting.Single
import Antumbra.Vesting.Acceptance
import Antumbra.Vesting.Authority
import Antumbra.Vesting.Interference
import Antumbra.Math.Scan
import Antumbra.Math.Radix
import Antumbra.Math.Numeral
import Antumbra.Vesting.Batch
import Antumbra.Vesting.Lifeline
import Antumbra.Vesting.Log
import Antumbra.Vesting.Library
import Antumbra.Vesting.Escrows
import Antumbra.Vesting.Rules
import Antumbra.Vesting.Landing
import Antumbra.Vesting.Refinement
import Antumbra.Vesting.History
import Antumbra.Vesting.Milestones
import Antumbra.Cli.Batch
import Antumbra.Cli.Send
import Antumbra.Cli.Report
import Antumbra.Cli.Time
import Antumbra.Weighted.Weighted
import Antumbra.Weighted.Binfixed
import Antumbra.Weighted.Payout
import Antumbra.Weighted.Schedule
import Antumbra.Math.Horner
import Antumbra.Math.Series
import Antumbra.Math.Terms
import Antumbra.Weighted.Exact
import Antumbra.Weighted.BinaryLog
import Antumbra.Weighted.BinaryExp
import Antumbra.Weighted.BinaryPower
import Antumbra.Weighted.BinaryOrder
import Antumbra.Weighted.DecimalLog
import Antumbra.Weighted.DecimalPower
import Antumbra.Weighted.Contract
import Antumbra.Weighted.BinaryWords
import Antumbra.Weighted.Pool
import Antumbra.Math.Flow
import Antumbra.Weighted.Instructions
import Antumbra.Weighted.Chain
import Antumbra.Weighted.Proceeds
import Antumbra.Math.PowerLaw
import Antumbra.Weighted.Price
import Antumbra.Weighted.Drift
import Antumbra.Weighted.Residue
import Antumbra.App.Schedule
import Antumbra.App.Accrual
import Antumbra.App.Texts
import Antumbra.Math.Unicode
import Antumbra.App.QString
import Antumbra.App.Base58
import Antumbra.Math.Hex
import Antumbra.Cli.Ids
import Antumbra.App.Ids
import Antumbra.Cli.Commands
import Antumbra.App.Listing
import Antumbra.App.Lookup
import Antumbra.App.Instruction
import Antumbra.App.Replay
import Antumbra.App.Verdicts
import Antumbra.App.Seeds
import Antumbra.App.Decimal
import Antumbra.App.Amounts
