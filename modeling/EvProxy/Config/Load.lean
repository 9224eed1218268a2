import EvProxy.Config

/-!
# Reading a configuration file (`config.cpp`)

`load_config` as the source has it: the lines of the file one after the other,
each cut at its first `#`, split at its first `=`, trimmed and dispatched on the
key. A load that fails leaves the settings of the earlier lines in place.
-/

namespace EvProxy

def hash : UInt8 := 35
def equals : UInt8 := 61

/-- The lines `std::getline` yields: a final line feed starts no further line. -/
def getlines : Bytes → List Bytes
  | [] => []
  | c :: rest =>
    if c = lf then [] :: getlines rest
    else
      match getlines rest with
      | [] => [[c]]
      | line :: lines => (c :: line) :: lines

/-- `parse_backend`. -/
def parseBackend (name : Bytes) : Option BackendKind :=
  if name = bytes "thread_per_conn" then some .threadPerConn
  else if name = bytes "thread_pool" then some .threadPool
  else if name = bytes "event_loop" then some .eventLoop
  else none

/-- What `load_config` trims and what it takes for blank. -/
def configBlanks : Bytes := bytes " \t\r"

/-- The `trim` of `load_config`, which takes off carriage returns as well. -/
def trimLine (s : Bytes) : Bytes := Text.strip configBlanks s

/-- `line.erase(line.find('#'))`. -/
def eraseComment (line : Bytes) : Bytes :=
  match Text.find [hash] line with
  | some i => line.take i
  | none => line

/-- The dispatch on the key; an error is the text after the line number. -/
def assign (key val : Bytes) (cfg : Config) : Except Bytes Config :=
  if key = bytes "listen_host" then .ok { cfg with listenHost := val }
  else if key = bytes "listen_port" then .ok { cfg with listenPort := atoi val }
  else if key = bytes "backlog" then .ok { cfg with backlog := atoi val }
  else if key = bytes "max_header_bytes" then .ok { cfg with maxHeaderBytes := strtoul val }
  else if key = bytes "max_body_bytes" then .ok { cfg with maxBodyBytes := strtoul val }
  else if key = bytes "io_chunk_bytes" then .ok { cfg with ioChunkBytes := strtoul val }
  else if key = bytes "desired_fd_limit" then .ok { cfg with desiredFdLimit := strtol val }
  else if key = bytes "event_loops" then .ok { cfg with eventLoops := strtoul val }
  else if key = bytes "poll_timeout_ms" then .ok { cfg with pollTimeoutMs := atoi val }
  else if key = bytes "async_resolve" then .ok { cfg with asyncResolve := atoi val != 0 }
  else if key = bytes "resolver_threads" then .ok { cfg with resolverThreads := strtoul val }
  else if key = bytes "dns_cache_ttl_s" then .ok { cfg with dnsCacheTtlS := atoi val }
  else if key = bytes "resolve_delay_ms" then .ok { cfg with resolveDelayMs := atoi val }
  else if key = bytes "thread_pool_size" then .ok { cfg with threadPoolSize := strtoul val }
  else if key = bytes "job_queue_capacity" then .ok { cfg with jobQueueCapacity := strtoul val }
  else if key = bytes "cache_enabled" then .ok { cfg with cacheEnabled := atoi val != 0 }
  else if key = bytes "cache_max_entries" then .ok { cfg with cacheMaxEntries := strtoul val }
  else if key = bytes "cache_max_bytes" then .ok { cfg with cacheMaxBytes := strtoul val }
  else if key = bytes "cache_max_entry_bytes" then .ok { cfg with cacheMaxEntryBytes := strtoul val }
  else if key = bytes "log_level" then .ok { cfg with logLevel := atoi val }
  else if key = bytes "backend" then
    match parseBackend val with
    | some kind => .ok { cfg with backend := kind }
    | none => .error (bytes "unknown backend '" ++ val ++ bytes "'")
  else .error (bytes "unknown key '" ++ key ++ bytes "'")

/-- One round of the loop: the configuration after the line, or what is wrong with it. -/
def loadLine (line : Bytes) (cfg : Config) : Except Bytes Config :=
  let line := eraseComment line
  match Text.find [equals] line with
  | none =>
    if (Text.findFirstNotOf configBlanks line).isNone then .ok cfg
    else .error (bytes "expected key = value")
  | some eq =>
    let key := trimLine (Text.substr line 0 eq)
    let val := trimLine (line.drop (eq + 1))
    if key = [] then .ok cfg else assign key val cfg

/-- The loop of `load_config`, with the line number counted so far. -/
def loadLines : Nat → List Bytes → Config → Option Bytes × Config
  | _, [], cfg => (none, cfg)
  | lineno, line :: rest, cfg =>
    match loadLine line cfg with
    | .ok cfg => loadLines (lineno + 1) rest cfg
    | .error wrong => (some (bytes "line " ++ toDec (lineno + 1) ++ bytes ": " ++ wrong), cfg)

/-- `load_config`: the error text if it returns false, and the configuration it
leaves. `file` is what opening `path` gives. -/
def loadConfig (file : Option Bytes) (path : Bytes) (cfg : Config) : Option Bytes × Config :=
  match file with
  | none => (some (bytes "cannot open config: " ++ path), cfg)
  | some content => loadLines 0 (getlines content) cfg

end EvProxy
