import LoggerHigh.Basic
import LoggerHigh.Lib.Transition
import LoggerHigh.Lib.ThreadSum
import LoggerHigh.Lib.LittleEndian
import LoggerHigh.Lib.ByteMemory
import LoggerHigh.Lib.LengthPrefix
import LoggerHigh.Lib.Contents
import LoggerHigh.Lib.Fifo
import LoggerHigh.Lib.Loop
import LoggerHigh.Lib.Packing
import LoggerHigh.Lib.Blocks
import LoggerHigh.Lib.OrderedText
import LoggerHigh.Lib.Json
import LoggerHigh.Lib.ProtoWire
import LoggerHigh.Lib.Stdio
import LoggerHigh.Lib.Trim
import LoggerHigh.Compress.ZlibCompressor
import LoggerHigh.Compress.DecompressLoop
import LoggerHigh.Compress.InflateStream
import LoggerHigh.Compress.CompressLoop
import LoggerHigh.Compress.ChunkedStream
import LoggerHigh.Compress.Zlib
import LoggerHigh.Crypt.AesGcmCipher
import LoggerHigh.Crypt.NonceRuns
import LoggerHigh.Mmap.MmapBuffer
import LoggerHigh.Mmap.BufferCycle
import LoggerHigh.Mmap.BufferRuns
import LoggerHigh.Mmap.MmapStore
import LoggerHigh.Mmap.StoreMoves
import LoggerHigh.Mmap.StoreOwnership
import LoggerHigh.Mmap.StoreExpected
import LoggerHigh.Mmap.StoreBuffers
import LoggerHigh.Mmap.StorePool
import LoggerHigh.Mmap.StoreTeardown
import LoggerHigh.Mmap.StoreReentry
import LoggerHigh.Mmap.StoreRetry
import LoggerHigh.Mmap.StoreFrames
import LoggerHigh.Mmap.StoreFlow
import LoggerHigh.Mmap.StoreFlushFailure
import LoggerHigh.Mmap.StoreDelivery
import LoggerHigh.Mmap.StoreFifo
import LoggerHigh.Mmap.StoreLeftover
import LoggerHigh.Mmap.StoreCalls
import LoggerHigh.Mmap.StoreLossless
import LoggerHigh.Sinks.ShardName
import LoggerHigh.Sinks.ShardWriter
import LoggerHigh.Sinks.ShardPacking
import LoggerHigh.Sinks.ShardFaults
import LoggerHigh.Sinks.EvictionRunner
import LoggerHigh.Sinks.EvictionRace
import LoggerHigh.Sinks.EvictionSweep
import LoggerHigh.Sinks.SweepErrors
import LoggerHigh.Context.Strand
import LoggerHigh.Context.ThreadPool
import LoggerHigh.Context.PoolMoves
import LoggerHigh.Context.PoolInvariant
import LoggerHigh.Context.PoolProgress
import LoggerHigh.Context.PoolShutdown
import LoggerHigh.Context.PoolUnlocked
import LoggerHigh.Sinks.LocalTime
import LoggerHigh.Sinks.ShardStamp
import LoggerHigh.Sinks.ShardOrder
import LoggerHigh.Audit.ShardReader
import LoggerHigh.Audit.ShardGrammar
import LoggerHigh.Proto.LogRecord
import LoggerHigh.Formatter.EffectiveFormatter
import LoggerHigh.Crypt.KeyAgreement
import LoggerHigh.Sinks.EffectiveSink
import LoggerHigh.Audit.LogDecoder
import LoggerHigh.Sinks.ShortWrites
import LoggerHigh.Sinks.ShardDistinct
import LoggerHigh.Sinks.FlushDurability
import LoggerHigh.Audit.SinkShards
import LoggerHigh.Sinks.SinkRuns
import LoggerHigh.Audit.RoundTrip
import LoggerHigh.Audit.RecordIsolation
import LoggerHigh.Mmap.StoreSolo
import LoggerHigh.Lib.SortByKey
import LoggerHigh.Sinks.SharedSink
import LoggerHigh.Audit.KeptRecords
import LoggerHigh.Audit.ShardDirectory
import LoggerHigh.Mmap.StoreRestart
import LoggerHigh.Audit.Sessions
import LoggerHigh.Sinks.EvictionOrder
import LoggerHigh.Audit.EvictedDirectory
import LoggerHigh.Mmap.StoreSerial
import LoggerHigh.Sinks.OverlappingFlush
import LoggerHigh.Audit.OverlappingRecords
import LoggerHigh.Sinks.EvictionThread
import LoggerHigh.Sinks.SinkLifetime
import LoggerHigh.Audit.ShardNonces
import LoggerHigh.Mmap.MmapRegion
import LoggerHigh.Handle.LogHandle
import LoggerHigh.Audit.BufferFiles
