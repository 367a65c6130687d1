import RustRocksdb.CxxRocksdb.Basic
import RustRocksdb.CxxRocksdb.UserData
import RustRocksdb.CxxRocksdb.Ring
import RustRocksdb.CxxRocksdb.Coalescer
import RustRocksdb.CxxRocksdb.World
import RustRocksdb.CxxRocksdb.Ledger
import RustRocksdb.CxxRocksdb.Contexts
import RustRocksdb.CxxRocksdb.Pending
import RustRocksdb.CxxRocksdb.Resumption
import RustRocksdb.CxxRocksdb.Delivery
import RustRocksdb.CxxRocksdb.Drain
import RustRocksdb.CxxRocksdb.Reap
import RustRocksdb.Crocksdb.CreateIterators
import RustRocksdb.Crocksdb.Heap
import RustRocksdb.Crocksdb.Get
import RustRocksdb.Crocksdb.Compression
import RustRocksdb.Crocksdb.SstPartitioner
import RustRocksdb.Crocksdb.Encryption
