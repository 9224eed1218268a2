import EvProxy.Http.Ascii

/-!
# Configuration (`config.hpp`)

`size_t` and `long` fields are numbers; where 64-bit wrap-around can be seen,
the arithmetic that uses them says so.
-/

namespace EvProxy

inductive BackendKind where
  | threadPerConn
  | threadPool
  | eventLoop
  deriving DecidableEq

structure Config where
  listenHost : Bytes := bytes "127.0.0.1"
  listenPort : Int := 8888
  backlog : Int := 512
  backend : BackendKind := .threadPerConn
  threadPoolSize : Nat := 64
  jobQueueCapacity : Nat := 256
  maxHeaderBytes : Nat := 16 * 1024
  maxBodyBytes : Nat := 8 * 1024 * 1024
  ioChunkBytes : Nat := 32 * 1024
  desiredFdLimit : Int := 10240
  eventLoops : Nat := 1
  pollTimeoutMs : Int := 30000
  asyncResolve : Bool := true
  resolverThreads : Nat := 4
  dnsCacheTtlS : Int := 60
  resolveDelayMs : Int := 0
  cacheEnabled : Bool := true
  cacheMaxEntries : Nat := 256
  cacheMaxBytes : Nat := 64 * 1024 * 1024
  cacheMaxEntryBytes : Nat := 1 * 1024 * 1024
  logLevel : Int := 2
  deriving DecidableEq

end EvProxy
