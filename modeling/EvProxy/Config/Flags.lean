import EvProxy.Config.Grammar

/-!
# Command line and configuration file (`main.cpp`)

`main` reads the flags into one `Config`, then loads the file into another, takes
that one over and puts back the fields whose flag was seen. Five flags are put
back; `-L`, `-C`, `-R` and `-D` are not, and their values are lost whenever a file
is given (`flagsWin_iff`).
-/

namespace EvProxy

/-- The flags that take a value. -/
inductive Flag where
  | config
  | port
  | level
  | workers
  | loops
  | cache
  | resolve
  | delay
  | queue
  | backend
  deriving DecidableEq

/-- How `main` leaves before it serves: its exit status and what it prints to `stderr`. -/
structure Exit where
  status : Nat
  stderr : Bytes
  deriving DecidableEq

/-- The locals of `main` while it reads its arguments. -/
structure Flags where
  cfg : Config := {}
  configPath : Bytes := []
  portSet : Bool := false
  levelSet : Bool := false
  backendSet : Bool := false
  workersSet : Bool := false
  queueSet : Bool := false

/-- What the path names, if it can be opened; the empty path never can. -/
structure Disk where
  content : Bytes → Option Bytes
  unnamed : content [] = none

def usage : Bytes :=
  bytes "usage: evproxy [-c config] [-p port] [-b backend] [-v level] [-w workers] [-q queuecap]\n" ++
  bytes "  backends: thread_per_conn | thread_pool | event_loop\n" ++
  bytes "  -w/-q apply to thread_pool only; -w IS the connections-in-flight ceiling\n" ++
  bytes "  -R 0|1 blocking|async resolve   -D ms injected resolver delay\n" ++
  bytes "  -C 0|1 response cache off|on (the I/O benchmark runs with -C 0)\n" ++
  bytes "  -L N   event_loop shards, one kqueue+listener+cache each (default 1)\n"

def flagOf (arg : Bytes) : Option Flag :=
  if arg = bytes "-c" then some .config
  else if arg = bytes "-p" then some .port
  else if arg = bytes "-v" then some .level
  else if arg = bytes "-w" then some .workers
  else if arg = bytes "-L" then some .loops
  else if arg = bytes "-C" then some .cache
  else if arg = bytes "-R" then some .resolve
  else if arg = bytes "-D" then some .delay
  else if arg = bytes "-q" then some .queue
  else if arg = bytes "-b" then some .backend
  else none

/-- What a flag does with its value. -/
def Flag.take (value : Bytes) (f : Flags) : Flag → Except Exit Flags
  | config => .ok { f with configPath := value }
  | port => .ok { f with cfg := { f.cfg with listenPort := atoi value }, portSet := true }
  | level => .ok { f with cfg := { f.cfg with logLevel := atoi value }, levelSet := true }
  | workers => .ok { f with cfg := { f.cfg with threadPoolSize := strtoul value }, workersSet := true }
  | loops => .ok { f with cfg := { f.cfg with eventLoops := strtoul value } }
  | cache => .ok { f with cfg := { f.cfg with cacheEnabled := atoi value != 0 } }
  | resolve => .ok { f with cfg := { f.cfg with asyncResolve := atoi value != 0 } }
  | delay => .ok { f with cfg := { f.cfg with resolveDelayMs := atoi value } }
  | queue => .ok { f with cfg := { f.cfg with jobQueueCapacity := strtoul value }, queueSet := true }
  | backend =>
    match parseBackend value with
    | some kind => .ok { f with cfg := { f.cfg with backend := kind }, backendSet := true }
    | none => .error ⟨2, bytes "unknown backend '" ++ value ++ bytes "'\n"⟩

/-- The loop over the arguments. -/
def parseFlags : List Bytes → Flags → Except Exit Flags
  | [], f => .ok f
  | arg :: rest, f =>
    match flagOf arg with
    | some flag =>
      match rest with
      | [] => .error ⟨2, bytes "missing value for " ++ arg ++ bytes "\n"⟩
      | value :: rest =>
        match flag.take value f with
        | .ok f => parseFlags rest f
        | .error exit => .error exit
    | none =>
      if arg = bytes "-h" ∨ arg = bytes "--help" then .error ⟨0, usage⟩
      else .error ⟨2, bytes "unknown argument '" ++ arg ++ bytes "'\n" ++ usage⟩

/-- `cfg = from_file`, then the flags that are put back. -/
def mergeFlags (f : Flags) (fromFile : Config) : Config :=
  let cfg := fromFile
  let cfg := if f.portSet then { cfg with listenPort := f.cfg.listenPort } else cfg
  let cfg := if f.levelSet then { cfg with logLevel := f.cfg.logLevel } else cfg
  let cfg := if f.backendSet then { cfg with backend := f.cfg.backend } else cfg
  let cfg := if f.workersSet then { cfg with threadPoolSize := f.cfg.threadPoolSize } else cfg
  if f.queueSet then { cfg with jobQueueCapacity := f.cfg.jobQueueCapacity } else cfg

/-- `main` up to the configuration it runs with; `args` is `argv` without the program. -/
def mainConfig (disk : Disk) (args : List Bytes) : Except Exit Config :=
  match parseFlags args {} with
  | .error exit => .error exit
  | .ok f =>
    if f.configPath = [] then .ok f.cfg
    else
      match loadConfig (disk.content f.configPath) f.configPath {} with
      | (some err, _) => .error ⟨2, bytes "config: " ++ err ++ bytes "\n"⟩
      | (none, fromFile) => .ok (mergeFlags f fromFile)

/-- The setting a flag is for. -/
def Flag.key : Flag → Option Key
  | config => none
  | port => some .listenPort
  | level => some .logLevel
  | workers => some .threadPoolSize
  | loops => some .eventLoops
  | cache => some .cacheEnabled
  | resolve => some .asyncResolve
  | delay => some .resolveDelayMs
  | queue => some .jobQueueCapacity
  | backend => some .backend

/-- The value of the last occurrence of `flag`: flags and values alternate. -/
def given (flag : Flag) : List Bytes → Option Bytes
  | arg :: value :: rest => (given flag rest).or (if flagOf arg = some flag then some value else none)
  | _ => none

/-- The `was set` local of a flag; four flags with a setting have none. -/
def Flags.wasSet (f : Flags) : Flag → Bool
  | .port => f.portSet
  | .level => f.levelSet
  | .backend => f.backendSet
  | .workers => f.workersSet
  | .queue => f.queueSet
  | _ => false

/-- The flags `main` puts back after it has taken over the file. -/
def Flag.restored : Flag → Bool
  | port | level | backend | workers | queue => true
  | _ => false

theorem Flag.restored_eq_false {flag : Flag} {key : Key} (sets : flag.key = some key) :
    flag.restored = false ↔ flag ∈ [loops, cache, resolve, delay] := by
  cases flag <;> first | decide | cases sets

theorem Flag.key_inj {flag other : Flag} {key : Key} (sets : flag.key = some key) (sets' : other.key = some key) :
    flag = other := by
  rw [← sets'] at sets
  cases flag <;> cases other <;> first | rfl | cases sets

/-- The one flag whose value can be refused. -/
theorem take_backend {value : Bytes} {f f' : Flags} (taken : Flag.backend.take value f = .ok f') :
    ∃ kind, parseBackend value = some kind ∧ f' = { f with cfg.backend := kind, backendSet := true } := by
  simp only [Flag.take] at taken
  split at taken
  · rename_i kind known
    cases taken
    exact ⟨kind, known, rfl⟩
  · cases taken

/-- What a flag with a setting leaves: the converted value in its field. -/
theorem take_key {flag : Flag} {value : Bytes} {f f' : Flags} (taken : flag.take value f = .ok f') {key : Key}
    (sets : flag.key = some key) : ∃ v, key.read value = some v ∧ f'.cfg = f.cfg.set key v := by
  cases flag
  case config => cases sets
  case backend =>
    cases sets
    obtain ⟨kind, known, rfl⟩ := take_backend taken
    exact ⟨kind, known, rfl⟩
  all_goals
    cases sets
    cases taken
    exact ⟨_, rfl, rfl⟩

theorem take_config {flag : Flag} {value : Bytes} {f f' : Flags} (taken : flag.take value f = .ok f')
    (none_set : flag.key = none) : f'.cfg = f.cfg := by
  cases flag <;> cases none_set
  cases taken
  rfl

/-- The other fields keep their values. -/
theorem take_get_ne {flag : Flag} {value : Bytes} {f f' : Flags} (taken : flag.take value f = .ok f') {key : Key}
    (other : flag.key ≠ some key) : f'.cfg.get key = f.cfg.get key := by
  cases sets : flag.key with
  | none => rw [take_config taken sets]
  | some mine =>
    obtain ⟨v, -, same⟩ := take_key taken sets
    rw [same]
    refine Config.get_set_ne key mine v f.cfg ?_
    rintro rfl
    exact other sets

theorem take_wasSet {flag : Flag} {value : Bytes} {f f' : Flags} (taken : flag.take value f = .ok f') (other : Flag) :
    f'.wasSet other = (f.wasSet other || (decide (other = flag) && flag.restored)) := by
  cases flag
  case backend =>
    obtain ⟨kind, -, rfl⟩ := take_backend taken
    cases other <;> simp [Flags.wasSet, Flag.restored]
  all_goals
    cases taken
    cases other <;> simp [Flags.wasSet, Flag.restored]

theorem take_path {flag : Flag} {value : Bytes} {f f' : Flags} (taken : flag.take value f = .ok f') :
    f'.configPath = if flag = .config then value else f.configPath := by
  cases flag
  case backend =>
    obtain ⟨kind, -, rfl⟩ := take_backend taken
    rfl
  all_goals
    cases taken
    rfl

/-- What the loop over the arguments leaves: each flag's last value in its field,
the last path, and which flags were seen. -/
structure Parsed (args : List Bytes) (f f' : Flags) : Prop where
  flag : ∀ flag key value, flag.key = some key → given flag args = some value → key.read value = some (f'.cfg.get key)
  other : ∀ key, (∀ flag, flag.key = some key → given flag args = none) → f'.cfg.get key = f.cfg.get key
  path : f'.configPath = (given .config args).getD f.configPath
  seen : ∀ flag, f'.wasSet flag = (f.wasSet flag || (flag.restored && (given flag args).isSome))

theorem given_cons {arg value : Bytes} {flag : Flag} (known : flagOf arg = some flag) (other : Flag)
    (rest : List Bytes) :
    given other (arg :: value :: rest) = (given other rest).or (if flag = other then some value else none) := by
  simp [given, known]

theorem Parsed.next {arg value : Bytes} {rest : List Bytes} {flag : Flag} {f f₁ f' : Flags}
    (known : flagOf arg = some flag) (taken : flag.take value f = .ok f₁) (parsed : Parsed rest f₁ f') :
    Parsed (arg :: value :: rest) f f' where
  flag := by
    intro other key value' sets last
    rw [given_cons known] at last
    cases later : given other rest with
    | some w =>
      rw [later, Option.some_or] at last
      exact parsed.flag other key value' sets (later.trans last)
    | none =>
      -- no later occurrence: the field is as this flag left it
      have stays : f'.cfg.get key = f₁.cfg.get key := by
        refine parsed.other key fun flag' sets' => ?_
        rw [Flag.key_inj sets' sets, later]
      rw [later, Option.none_or] at last
      split at last
      · rename_i same
        cases last
        obtain ⟨v, read, cfg⟩ := take_key taken (same ▸ sets)
        rw [stays, cfg, Config.get_set, read]
      · cases last
  other := by
    intro key absent
    have later : ∀ flag', flag'.key = some key → given flag' rest = none := by
      intro flag' sets
      have none_given := absent flag' sets
      rw [given_cons known, Option.or_eq_none_iff] at none_given
      exact none_given.1
    rw [parsed.other key later]
    refine take_get_ne taken fun sets => ?_
    have none_given := absent flag sets
    rw [given_cons known, Option.or_eq_none_iff, if_pos rfl] at none_given
    cases none_given.2
  path := by
    rw [parsed.path, take_path taken, given_cons known]
    cases given .config rest with
    | some w => rfl
    | none => by_cases same : flag = .config <;> simp [same]
  seen := by
    intro other
    rw [parsed.seen, take_wasSet taken, given_cons known]
    by_cases same : flag = other
    · subst same
      cases flag.restored <;> simp
    · simp [same, Ne.symm same]

theorem parseFlags_parsed {args : List Bytes} {f f' : Flags} (accepted : parseFlags args f = .ok f') :
    Parsed args f f' := by
  fun_induction parseFlags args f with
  | case1 f =>
    cases accepted
    refine ⟨?_, fun key absent => rfl, rfl, by simp [given]⟩
    intro flag key value sets last
    cases last
  | case2 | case4 | case5 | case6 => cases accepted
  | case3 f arg flag known value rest f₁ taken ih => exact (ih accepted).next known taken

/-- One line of the merge. -/
def restore (seen : Bool) (key : Key) (flags cfg : Config) : Config :=
  if seen then cfg.set key (flags.get key) else cfg

theorem get_restore (seen : Bool) (mine key : Key) (flags cfg : Config) :
    (restore seen mine flags cfg).get key = if seen = true ∧ mine = key then flags.get key else cfg.get key := by
  cases seen with
  | false => simp [restore]
  | true =>
    by_cases same : mine = key
    · subst same
      simp [restore, Config.get_set]
    · simp [restore, same, Config.get_set_ne key mine _ _ (Ne.symm same)]

theorem mergeFlags_eq (f : Flags) (fromFile : Config) :
    mergeFlags f fromFile =
      restore (f.wasSet .queue) .jobQueueCapacity f.cfg (restore (f.wasSet .workers) .threadPoolSize f.cfg
        (restore (f.wasSet .backend) .backend f.cfg (restore (f.wasSet .level) .logLevel f.cfg
          (restore (f.wasSet .port) .listenPort f.cfg fromFile)))) := rfl

/-- A flag that was seen and has a local for it keeps its field. -/
theorem mergeFlags_seen {f : Flags} {flag : Flag} {key : Key} (sets : flag.key = some key)
    (seen : f.wasSet flag = true) (fromFile : Config) : (mergeFlags f fromFile).get key = f.cfg.get key := by
  rw [mergeFlags_eq]
  cases flag <;> cases sets <;> simp_all [Flags.wasSet, get_restore]

/-- Every other field is the file's. -/
theorem mergeFlags_unseen {f : Flags} {key : Key} (unseen : ∀ flag : Flag, flag.key = some key → f.wasSet flag = false)
    (fromFile : Config) : (mergeFlags f fromFile).get key = fromFile.get key := by
  have other (flag : Flag) (mine : Key) (sets : flag.key = some mine) : ¬ (f.wasSet flag = true ∧ mine = key) := by
    rintro ⟨seen, rfl⟩
    rw [unseen flag sets] at seen
    cases seen
  rw [mergeFlags_eq, get_restore, if_neg (other .queue _ rfl), get_restore, if_neg (other .workers _ rfl), get_restore,
    if_neg (other .backend _ rfl), get_restore, if_neg (other .level _ rfl), get_restore, if_neg (other .port _ rfl)]

/-- The command line wins: its flags determine their fields, the file the others. -/
structure FlagsWin (args : List Bytes) (fromFile cfg : Config) : Prop where
  flags : ∀ flag key value, Flag.key flag = some key → given flag args = some value →
    key.read value = some (cfg.get key)
  file : ∀ key, (∀ flag, Flag.key flag = some key → given flag args = none) → cfg.get key = fromFile.get key

/-- With a file that names the last `-c`, `main` runs with the merge of the two. -/
theorem mainConfig_merge {disk : Disk} {args : List Bytes} {path : Bytes} {fromFile cfg : Config}
    (accepted : mainConfig disk args = .ok cfg) (named : given .config args = some path)
    (loads : loadConfig (disk.content path) path {} = (none, fromFile)) :
    ∃ f, Parsed args {} f ∧ cfg = mergeFlags f fromFile := by
  unfold mainConfig at accepted
  split at accepted
  · cases accepted
  · rename_i f parse
    have parsed := parseFlags_parsed parse
    have same : f.configPath = path := by rw [parsed.path, named, Option.getD_some]
    have nonempty : f.configPath ≠ [] := by
      rintro empty
      rw [← same, empty, disk.unnamed] at loads
      cases loads
    rw [if_neg nonempty, same, loads] at accepted
    cases accepted
    exact ⟨f, parsed, rfl⟩

/-- The flags win over the file exactly when the file agrees with every `-L`, `-C`,
`-R` and `-D` given: those four are not put back. -/
theorem flagsWin_iff (disk : Disk) (args : List Bytes) (path : Bytes) (fromFile cfg : Config)
    (accepted : mainConfig disk args = .ok cfg) (named : given .config args = some path)
    (loads : loadConfig (disk.content path) path {} = (none, fromFile)) :
    FlagsWin args fromFile cfg ↔
      ∀ flag ∈ [Flag.loops, Flag.cache, Flag.resolve, Flag.delay], ∀ key value, flag.key = some key →
        given flag args = some value → key.read value = some (fromFile.get key) := by
  obtain ⟨f, parsed, rfl⟩ := mainConfig_merge accepted named loads
  have unset : ∀ flag, ({} : Flags).wasSet flag = false := by
    intro flag
    cases flag <;> rfl
  have seen (flag : Flag) : f.wasSet flag = (flag.restored && (given flag args).isSome) := by
    rw [parsed.seen, unset, Bool.false_or]
  have lost {flag : Flag} {key : Key} (sets : flag.key = some key) (dropped : flag.restored = false) :
      (mergeFlags f fromFile).get key = fromFile.get key := by
    refine mergeFlags_unseen (fun other sets' => ?_) fromFile
    rw [Flag.key_inj sets' sets, seen, dropped, Bool.false_and]
  constructor
  · intro win flag among key value sets last
    rw [← lost sets ((Flag.restored_eq_false sets).mpr among)]
    exact win.flags flag key value sets last
  · intro agrees
    refine ⟨?_, ?_⟩
    · intro flag key value sets last
      cases kept : flag.restored with
      | true =>
        have was : f.wasSet flag = true := by simp [seen, kept, last]
        rw [mergeFlags_seen sets was]
        exact parsed.flag flag key value sets last
      | false =>
        rw [lost sets kept]
        exact agrees flag ((Flag.restored_eq_false sets).mp kept) key value sets last
    · intro key absent
      refine mergeFlags_unseen (fun flag sets => ?_) fromFile
      simp [seen, absent flag sets]

/-- A disk with one empty file. -/
def emptyFile : Disk where
  content path := if path = bytes "evproxy.conf" then some [] else none
  unnamed := by decide

def portAndFile : List Bytes := [bytes "-c", bytes "evproxy.conf", bytes "-p", bytes "9000"]

theorem flagsWin_port : FlagsWin portAndFile {} { listenPort := 9000 } := by
  refine (flagsWin_iff emptyFile portAndFile (bytes "evproxy.conf") {} { listenPort := 9000 } ?_ ?_ ?_).mpr ?_
  · rfl
  · decide +kernel
  · decide +kernel
  · have absent : ∀ flag ∈ [Flag.loops, Flag.cache, Flag.resolve, Flag.delay], given flag portAndFile = none := by
      decide +kernel
    intro flag among key value sets last
    rw [absent flag among] at last
    cases last

def cacheOffAndFile : List Bytes := [bytes "-C", bytes "0", bytes "-c", bytes "evproxy.conf"]

/-- A run asked for without the cache has it as soon as a file is named. -/
theorem flagsWin_cache_lost :
    mainConfig emptyFile cacheOffAndFile = .ok {} ∧ given .config cacheOffAndFile = some (bytes "evproxy.conf") ∧
      loadConfig (emptyFile.content (bytes "evproxy.conf")) (bytes "evproxy.conf") {} = (none, {}) ∧
      ¬ FlagsWin cacheOffAndFile {} {} := by
  refine ⟨rfl, by decide +kernel, by decide +kernel, fun win => ?_⟩
  have off : some (atoi (bytes "0") != 0) = some true :=
    win.flags .cache .cacheEnabled (bytes "0") rfl (by decide +kernel)
  exact absurd off (by decide +kernel)

end EvProxy
