import TinyOrm.Lib.InStream
import TinyOrm.Text
import TinyOrm.DataType
import TinyOrm.DataLoader
import TinyOrm.DataFileReader
import TinyOrm.Lib.Walk
import TinyOrm.DataFile
import TinyOrm.DataFileWalk
import TinyOrm.DataFileDamage
import TinyOrm.Binding
import TinyOrm.Lib.BoolExpr
import TinyOrm.RowFilter
import TinyOrm.SelectGrammar
import TinyOrm.Session
import TinyOrm.Lib.Execution
import TinyOrm.Lib.Ownership
import TinyOrm.Pool
import TinyOrm.PoolSafety
import TinyOrm.PoolTargets
import TinyOrm.Transaction
import TinyOrm.Catalog
import TinyOrm.ColumnDdl
import TinyOrm.ColumnTexts
import TinyOrm.ColumnHistory
import TinyOrm.DataFileLengths
import TinyOrm.MigrationRecords
import TinyOrm.Timestamp
import TinyOrm.ResultSet
import TinyOrm.NullCells
import TinyOrm.ResultForms
import TinyOrm.GeneratedModel
import TinyOrm.ColumnEquality
import TinyOrm.ResultBinds
import TinyOrm.ObjectRows
import TinyOrm.MetadataLookup
import TinyOrm.TagOrder
import TinyOrm.ColumnTags
import TinyOrm.KeyClauses
import TinyOrm.TableHistory
import TinyOrm.StringLoops
import TinyOrm.SnakeNames
import TinyOrm.RawStatements
import TinyOrm.Paging
import TinyOrm.Lib.Calendar
import TinyOrm.LocalTime
import TinyOrm.TimeFields
import TinyOrm.TimeTexts
import TinyOrm.TimeParts
import TinyOrm.Lib.Calls
import TinyOrm.StatementFailures
import TinyOrm.Lib.BoolJoin
import TinyOrm.BoundConditions
import TinyOrm.StatementReading
import TinyOrm.Lib.Answers
import TinyOrm.RowStore
import TinyOrm.ObjectStore
import TinyOrm.Lib.Carrying
import TinyOrm.RowMigration
import TinyOrm.ObjectHistory
import TinyOrm.Lib.Parts
import TinyOrm.Application
import TinyOrm.Lib.Memory
import TinyOrm.StatementMemory
import TinyOrm.ModelMemory
import TinyOrm.PoolCapacity
import TinyOrm.CmdLine
import TinyOrm.CmdLineText
import TinyOrm.GeneratorMain
import TinyOrm.GeneratedFiles
