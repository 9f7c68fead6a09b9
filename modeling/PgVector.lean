import PgVector.Hnsw.TracePages
import PgVector.Ivfflat.InsertPage
import PgVector.Ivfflat.ScanExact
import PgVector.Types.Compare
import PgVector.Hnsw.CloserCache
import PgVector.Hnsw.Placement
import PgVector.Hnsw.Duplicates
import PgVector.Hnsw.SearchModes
import PgVector.Hnsw.StrictOrder
import PgVector.Hnsw.TraceAccounting
import PgVector.Hnsw.TraceCounts
import PgVector.Types.SparsevecBuffer
import PgVector.Types.SparsevecWritten
import PgVector.Ivfflat.SameList
import PgVector.Hnsw.FreeSlotsInvariant
import PgVector.Hnsw.VacuumPoints
import PgVector.Types.Bit
import PgVector.Hnsw.SharedAlloc
import PgVector.Hnsw.Runs
import PgVector.Ivfflat.KmeansInit
