import NoidaDb.Postgres.UniqueKeys
import NoidaDb.Postgres.RowChecks
import NoidaDb.Postgres.BlockEnds
import NoidaDb.Postgres.Savepoints
import NoidaDb.Postgres.WriteDetection
import NoidaDb.Postgres.ReferentialIntegrity
import NoidaDb.Kafka.Fencing
import NoidaDb.Kafka.Restart
import NoidaDb.Kafka.Offsets
import NoidaDb.Kafka.Rebalances
import NoidaDb.MySql.Deadlocks
import NoidaDb.Postgres.Sequences
import NoidaDb.Redis.ExactlyOnce
import NoidaDb.Redis.ScanGuarantee
import NoidaDb.Redis.AccessData
import NoidaDb.Redis.DumpRestore
import NoidaDb.Kafka.Retention
import NoidaDb.Kafka.TimeLookups
import NoidaDb.Postgres.CascadeReturns
import NoidaDb.Postgres.WindowFrames
import NoidaDb.MySql.Logic
import NoidaDb.MySql.Joins
import NoidaDb.MySql.StoredNumbers
import NoidaDb.MySql.Like
import NoidaDb.Sql.NumericRemainder
import NoidaDb.Sql.NumericRoots
import NoidaDb.Sql.NumericText
import NoidaDb.Sql.JsonContainment
import NoidaDb.Sql.TimestampText
import NoidaDb.Postgres.Joins
import NoidaDb.Sql.TimestampArithmetic
import NoidaDb.Redis.GlobLanguage
import NoidaDb.Sql.Truncation
import NoidaDb.Redis.Deadlines
import NoidaDb.Sql.ZoneText
import NoidaDb.Redis.Counts
import NoidaDb.Elasticsearch.Fuzzy
import NoidaDb.Elasticsearch.Slices
import NoidaDb.Redis.CommonSubsequences
import NoidaDb.Redis.Ordered
import NoidaDb.Redis.Resp
import NoidaDb.Redis.Watching
