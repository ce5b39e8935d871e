import SqliteReader.Main
import SqliteReader.Proofs.SourceAgreement
import SqliteReader.Proofs.ImageSource
import SqliteReader.Proofs.TreeFindings
import SqliteReader.Proofs.WalkFindings
import SqliteReader.Proofs.CursorWalk
import SqliteReader.Proofs.MachineRun
import SqliteReader.Proofs.ScanRun
import SqliteReader.Proofs.InstructionSteps
import SqliteReader.Proofs.KeySearch
import SqliteReader.Proofs.LookupRun
import SqliteReader.Proofs.WatchedReads
import SqliteReader.Proofs.WholeWalk
import SqliteReader.Proofs.ReadFailures
import SqliteReader.Proofs.LockExclusion
import SqliteReader.Proofs.PageDecoding
import SqliteReader.Proofs.TraversalEnds
import SqliteReader.Proofs.ArenaShape
import SqliteReader.Proofs.BalancedReads
import SqliteReader.Proofs.ServedRows
import SqliteReader.Proofs.VarintLaws
import SqliteReader.Proofs.ValueOrder
import SqliteReader.Proofs.FailedCalls
import SqliteReader.Proofs.SeparateExecutions
import SqliteReader.Proofs.HeaderHistory
import SqliteReader.Proofs.SeekWalk
import SqliteReader.Proofs.KeptNodes
import SqliteReader.Proofs.FrozenTree
import SqliteReader.Proofs.CountedRows
import SqliteReader.Proofs.CellRejections
import SqliteReader.Proofs.ColumnContents
import SqliteReader.Proofs.HeaderFields
import SqliteReader.Proofs.RowBuffer
import SqliteReader.Proofs.MachineBounds
import SqliteReader.Proofs.StoredIntegers
import SqliteReader.Proofs.TextCasts
import SqliteReader.Proofs.RoundingInterval
import SqliteReader.Proofs.NumberTexts
import SqliteReader.Proofs.BlankWords
import SqliteReader.Proofs.CountCommand
