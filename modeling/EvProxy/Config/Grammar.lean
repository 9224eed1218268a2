import EvProxy.Config.Load
import EvProxy.Settings

/-!
# The grammar of configuration files

What `load_config` is for, in its own terms: a line is blank, sets a key, or is
wrong, once everything from its first `#` is gone. A file is then a list of
assignments to independent settings, and `Settings` says what they leave in each
field. `loadsExactly_iff` compares the code with this: the two agree except on
lines that have an `=` with nothing but blanks before it, which the code skips.
-/

namespace EvProxy

/-- The keys of the file, one for each field of `Config`. -/
inductive Key where
  | listenHost
  | listenPort
  | backlog
  | maxHeaderBytes
  | maxBodyBytes
  | ioChunkBytes
  | desiredFdLimit
  | eventLoops
  | pollTimeoutMs
  | asyncResolve
  | resolverThreads
  | dnsCacheTtlS
  | resolveDelayMs
  | threadPoolSize
  | jobQueueCapacity
  | cacheEnabled
  | cacheMaxEntries
  | cacheMaxBytes
  | cacheMaxEntryBytes
  | logLevel
  | backend
  deriving DecidableEq

/-- The key as the file spells it. -/
def Key.name : Key → Bytes
  | listenHost => bytes "listen_host"
  | listenPort => bytes "listen_port"
  | backlog => bytes "backlog"
  | maxHeaderBytes => bytes "max_header_bytes"
  | maxBodyBytes => bytes "max_body_bytes"
  | ioChunkBytes => bytes "io_chunk_bytes"
  | desiredFdLimit => bytes "desired_fd_limit"
  | eventLoops => bytes "event_loops"
  | pollTimeoutMs => bytes "poll_timeout_ms"
  | asyncResolve => bytes "async_resolve"
  | resolverThreads => bytes "resolver_threads"
  | dnsCacheTtlS => bytes "dns_cache_ttl_s"
  | resolveDelayMs => bytes "resolve_delay_ms"
  | threadPoolSize => bytes "thread_pool_size"
  | jobQueueCapacity => bytes "job_queue_capacity"
  | cacheEnabled => bytes "cache_enabled"
  | cacheMaxEntries => bytes "cache_max_entries"
  | cacheMaxBytes => bytes "cache_max_bytes"
  | cacheMaxEntryBytes => bytes "cache_max_entry_bytes"
  | logLevel => bytes "log_level"
  | backend => bytes "backend"

/-- What a key holds. -/
def Key.Value : Key → Type
  | listenHost => Bytes
  | listenPort | backlog | desiredFdLimit | pollTimeoutMs | dnsCacheTtlS | resolveDelayMs | logLevel => Int
  | maxHeaderBytes | maxBodyBytes | ioChunkBytes | eventLoops | resolverThreads | threadPoolSize
  | jobQueueCapacity | cacheMaxEntries | cacheMaxBytes | cacheMaxEntryBytes => Nat
  | asyncResolve | cacheEnabled => Bool
  | backend => BackendKind

/-- How `load_config` converts the text of a value; only a backend can be refused. -/
def Key.read : (key : Key) → Bytes → Option key.Value
  | listenHost => fun val => some val
  | listenPort | backlog | pollTimeoutMs | dnsCacheTtlS | resolveDelayMs | logLevel => fun val => some (atoi val)
  | desiredFdLimit => fun val => some (strtol val)
  | maxHeaderBytes | maxBodyBytes | ioChunkBytes | eventLoops | resolverThreads | threadPoolSize
  | jobQueueCapacity | cacheMaxEntries | cacheMaxBytes | cacheMaxEntryBytes => fun val => some (strtoul val)
  | asyncResolve | cacheEnabled => fun val => some (atoi val != 0)
  | backend => parseBackend

/-- The field a key names. -/
def Config.get : (key : Key) → Config → key.Value
  | .listenHost => Config.listenHost
  | .listenPort => Config.listenPort
  | .backlog => Config.backlog
  | .maxHeaderBytes => Config.maxHeaderBytes
  | .maxBodyBytes => Config.maxBodyBytes
  | .ioChunkBytes => Config.ioChunkBytes
  | .desiredFdLimit => Config.desiredFdLimit
  | .eventLoops => Config.eventLoops
  | .pollTimeoutMs => Config.pollTimeoutMs
  | .asyncResolve => Config.asyncResolve
  | .resolverThreads => Config.resolverThreads
  | .dnsCacheTtlS => Config.dnsCacheTtlS
  | .resolveDelayMs => Config.resolveDelayMs
  | .threadPoolSize => Config.threadPoolSize
  | .jobQueueCapacity => Config.jobQueueCapacity
  | .cacheEnabled => Config.cacheEnabled
  | .cacheMaxEntries => Config.cacheMaxEntries
  | .cacheMaxBytes => Config.cacheMaxBytes
  | .cacheMaxEntryBytes => Config.cacheMaxEntryBytes
  | .logLevel => Config.logLevel
  | .backend => Config.backend

def Config.set : (key : Key) → key.Value → Config → Config
  | .listenHost => fun v cfg => { cfg with listenHost := v }
  | .listenPort => fun v cfg => { cfg with listenPort := v }
  | .backlog => fun v cfg => { cfg with backlog := v }
  | .maxHeaderBytes => fun v cfg => { cfg with maxHeaderBytes := v }
  | .maxBodyBytes => fun v cfg => { cfg with maxBodyBytes := v }
  | .ioChunkBytes => fun v cfg => { cfg with ioChunkBytes := v }
  | .desiredFdLimit => fun v cfg => { cfg with desiredFdLimit := v }
  | .eventLoops => fun v cfg => { cfg with eventLoops := v }
  | .pollTimeoutMs => fun v cfg => { cfg with pollTimeoutMs := v }
  | .asyncResolve => fun v cfg => { cfg with asyncResolve := v }
  | .resolverThreads => fun v cfg => { cfg with resolverThreads := v }
  | .dnsCacheTtlS => fun v cfg => { cfg with dnsCacheTtlS := v }
  | .resolveDelayMs => fun v cfg => { cfg with resolveDelayMs := v }
  | .threadPoolSize => fun v cfg => { cfg with threadPoolSize := v }
  | .jobQueueCapacity => fun v cfg => { cfg with jobQueueCapacity := v }
  | .cacheEnabled => fun v cfg => { cfg with cacheEnabled := v }
  | .cacheMaxEntries => fun v cfg => { cfg with cacheMaxEntries := v }
  | .cacheMaxBytes => fun v cfg => { cfg with cacheMaxBytes := v }
  | .cacheMaxEntryBytes => fun v cfg => { cfg with cacheMaxEntryBytes := v }
  | .logLevel => fun v cfg => { cfg with logLevel := v }
  | .backend => fun v cfg => { cfg with backend := v }

theorem Config.get_set (key : Key) (v : key.Value) (cfg : Config) : (cfg.set key v).get key = v := by
  cases key <;> rfl

theorem Config.get_set_ne (key other : Key) (v : other.Value) (cfg : Config) (differ : key ≠ other) :
    (cfg.set other v).get key = cfg.get key := by
  cases key <;> cases other <;> first | rfl | exact absurd rfl differ

theorem Config.ext_get (cfg cfg' : Config) (same : ∀ key, cfg.get key = cfg'.get key) : cfg = cfg' := by
  cases cfg
  cases cfg'
  rw [Config.mk.injEq]
  exact ⟨same .listenHost, same .listenPort, same .backlog, same .backend, same .threadPoolSize,
    same .jobQueueCapacity, same .maxHeaderBytes, same .maxBodyBytes, same .ioChunkBytes, same .desiredFdLimit,
    same .eventLoops, same .pollTimeoutMs, same .asyncResolve, same .resolverThreads, same .dnsCacheTtlS,
    same .resolveDelayMs, same .cacheEnabled, same .cacheMaxEntries, same .cacheMaxBytes, same .cacheMaxEntryBytes,
    same .logLevel⟩

/-- The fields of a `Config` as independent settings. -/
def Config.fields : Settings.Fields Key Key.Value Config where
  get key cfg := cfg.get key
  set key v cfg := cfg.set key v
  get_set := Config.get_set
  get_set_ne := Config.get_set_ne
  ext := Config.ext_get

/-- A setting and its value. -/
abbrev Assignment := Sigma Key.Value

def Key.all : List Key :=
  [listenHost, listenPort, backlog, maxHeaderBytes, maxBodyBytes, ioChunkBytes, desiredFdLimit, eventLoops,
    pollTimeoutMs, asyncResolve, resolverThreads, dnsCacheTtlS, resolveDelayMs, threadPoolSize, jobQueueCapacity,
    cacheEnabled, cacheMaxEntries, cacheMaxBytes, cacheMaxEntryBytes, logLevel, backend]

theorem Key.mem_all (key : Key) : key ∈ Key.all := by
  cases key <;> decide

/-- The key of a name. -/
def keyOf (name : Bytes) : Option Key := Key.all.find? (·.name = name)

theorem keyOf_eq_some {name : Bytes} {key : Key} : keyOf name = some key ↔ key.name = name := by
  constructor
  · intro found
    simpa using List.find?_some found
  · rintro rfl
    have named : ∀ key ∈ Key.all, keyOf key.name = some key := by decide +kernel
    exact named key key.mem_all

theorem keyOf_eq_none {name : Bytes} (none_found : keyOf name = none) (key : Key) : name ≠ key.name := by
  intro same
  rw [keyOf_eq_some.mpr same.symm] at none_found
  cases none_found

theorem Key.name_ne_nil (key : Key) : key.name ≠ [] := by
  have named : ∀ key ∈ Key.all, key.name ≠ [] := by decide +kernel
  exact named key key.mem_all

theorem Key.equals_not_mem_name (key : Key) : equals ∉ key.name := by
  have apart : ∀ key ∈ Key.all, equals ∉ key.name := by decide +kernel
  exact apart key key.mem_all

/-- A known key is assigned its converted value. -/
theorem assign_name (key : Key) (val : Bytes) (cfg : Config) :
    assign key.name val cfg =
      (key.read val).elim (.error (bytes "unknown backend '" ++ val ++ bytes "'")) fun v => .ok (cfg.set key v) := by
  cases key
  case backend =>
    change _ = (parseBackend val).elim _ _
    unfold assign
    cases parseBackend val <;> rfl
  all_goals rfl

/-- Any other key is refused. -/
theorem assign_unknown {key : Bytes} (unknown : ∀ k : Key, key ≠ k.name) (val : Bytes) (cfg : Config) :
    assign key val cfg = .error (bytes "unknown key '" ++ key ++ bytes "'") := by
  have other (k : Key) {yes no : Except Bytes Config} : (if key = k.name then yes else no) = no := if_neg (unknown k)
  calc assign key val cfg
    _ = _ := (other .listenHost).trans <| (other .listenPort).trans <| (other .backlog).trans <|
      (other .maxHeaderBytes).trans <| (other .maxBodyBytes).trans <| (other .ioChunkBytes).trans <|
      (other .desiredFdLimit).trans <| (other .eventLoops).trans <| (other .pollTimeoutMs).trans <|
      (other .asyncResolve).trans <| (other .resolverThreads).trans <| (other .dnsCacheTtlS).trans <|
      (other .resolveDelayMs).trans <| (other .threadPoolSize).trans <| (other .jobQueueCapacity).trans <|
      (other .cacheEnabled).trans <| (other .cacheMaxEntries).trans <| (other .cacheMaxBytes).trans <|
      (other .cacheMaxEntryBytes).trans <| (other .logLevel).trans <| other .backend

/-- A line without its comment. -/
def uncommented (line : Bytes) : Bytes := line.takeWhile (· ≠ hash)

/-- Nothing but spaces, tabs and carriage returns. -/
def Blank (s : Bytes) : Prop := ∀ c ∈ s, c ∈ configBlanks

instance (s : Bytes) : Decidable (Blank s) := inferInstanceAs (Decidable (∀ c ∈ s, c ∈ configBlanks))

/-- The line reads `key = val`, with any blanks around the two. -/
def Sets (key : Key) (val line : Bytes) : Prop :=
  ∃ left right, uncommented line = left ++ equals :: right ∧ Text.Padded configBlanks key.name left ∧
    Text.Padded configBlanks val right

/-- A line as the grammar wants it. -/
def InGrammar (line : Bytes) : Prop :=
  Blank (uncommented line) ∨ ∃ key val, Sets key val line ∧ (key.read val).isSome

/-- A line with an `=` and no key before it. -/
def Keyless (line : Bytes) : Prop := ∃ left right, uncommented line = left ++ equals :: right ∧ Blank left

theorem eraseComment_eq (line : Bytes) : eraseComment line = uncommented line := by
  rw [uncommented, ← Text.take_find_singleton, eraseComment]
  cases Text.find [hash] line <;> rfl

theorem Blank.equals_not_mem {s : Bytes} (blank : Blank s) : equals ∉ s :=
  fun mem => absurd (blank equals mem) (by decide)

theorem trimLine_eq_nil {s : Bytes} : trimLine s = [] ↔ Blank s := by
  rw [trimLine, Text.strip_eq_iff]
  constructor
  · rintro ⟨front, back, rfl, inside, -, -⟩
    simpa [Blank] using inside
  · intro blank
    exact ⟨s, [], by simp, by simpa [Blank] using blank, by simp, by simp⟩

theorem equals_not_mem_of_padded {key : Key} {left : Bytes} (names : Text.Padded configBlanks key.name left) :
    equals ∉ left := by
  obtain ⟨front, back, rfl, inside, -, -⟩ := names
  have blank : Blank (front ++ back) := inside
  have outside := blank.equals_not_mem
  simp only [List.mem_append, not_or] at outside ⊢
  exact ⟨⟨outside.1, key.equals_not_mem_name⟩, outside.2⟩

/-- The two sides of the first `=`, trimmed. -/
def entry (line : Bytes) : Option (Bytes × Bytes) :=
  (Text.find [equals] (uncommented line)).map fun eq =>
    (trimLine ((uncommented line).take eq), trimLine ((uncommented line).drop (eq + 1)))

theorem entry_eq_none {line : Bytes} : entry line = none ↔ equals ∉ uncommented line := by
  rw [entry, Option.map_eq_none_iff, Text.find_singleton_eq_none]

theorem entry_eq_some {line key val : Bytes} :
    entry line = some (key, val) ↔
      ∃ left right, uncommented line = left ++ equals :: right ∧ equals ∉ left ∧ trimLine left = key ∧
        trimLine right = val := by
  constructor
  · intro split
    obtain ⟨eq, found, same⟩ := Option.map_eq_some_iff.mp split
    obtain ⟨rfl, rfl⟩ := Prod.mk.inj same
    obtain ⟨cut, absent⟩ := Text.find_singleton_eq_some found
    exact ⟨_, _, cut, absent, rfl, rfl⟩
  · rintro ⟨left, right, cut, absent, rfl, rfl⟩
    rw [entry, cut, Text.find_singleton_append absent]
    simp

theorem sets_iff {key : Key} {val line : Bytes} : Sets key val line ↔ entry line = some (key.name, val) := by
  rw [entry_eq_some]
  constructor
  · rintro ⟨left, right, cut, names, value⟩
    exact ⟨left, right, cut, equals_not_mem_of_padded names, Text.strip_eq_iff.mpr names, Text.strip_eq_iff.mpr value⟩
  · rintro ⟨left, right, cut, -, names, value⟩
    exact ⟨left, right, cut, Text.strip_eq_iff.mp names, Text.strip_eq_iff.mp value⟩

theorem keyless_iff {line : Bytes} : Keyless line ↔ ∃ val, entry line = some ([], val) := by
  simp only [entry_eq_some]
  constructor
  · rintro ⟨left, right, cut, blank⟩
    exact ⟨_, left, right, cut, blank.equals_not_mem, trimLine_eq_nil.mpr blank, rfl⟩
  · rintro ⟨val, left, right, cut, -, empty, -⟩
    exact ⟨left, right, cut, trimLine_eq_nil.mp empty⟩

theorem loadLine_eq (line : Bytes) (cfg : Config) :
    loadLine line cfg =
      match entry line with
      | none => if Blank (uncommented line) then .ok cfg else .error (bytes "expected key = value")
      | some (key, val) => if key = [] then .ok cfg else assign key val cfg := by
  have blank : (Text.findFirstNotOf configBlanks (uncommented line)).isNone = true ↔ Blank (uncommented line) := by
    rw [Option.isNone_iff_eq_none, Text.findFirstNotOf_eq_none]
    rfl
  simp only [loadLine, eraseComment_eq, entry, Text.substr_zero, blank]
  cases Text.find [equals] (uncommented line) <;> rfl

/-- The assignments a line makes. -/
def assigned (line : Bytes) : List Assignment :=
  match entry line with
  | none => []
  | some (name, val) =>
    match keyOf name with
    | none => []
    | some key => ((key.read val).map (Sigma.mk key)).toList

theorem assigned_sets {key : Key} {val line : Bytes} (sets : Sets key val line) :
    assigned line = ((key.read val).map (Sigma.mk key)).toList := by
  have known : keyOf key.name = some key := keyOf_eq_some.mpr rfl
  simp only [assigned, sets_iff.mp sets, known]

/-- A line assigns nothing but the key it sets. -/
theorem sets_of_mem_assigned {line : Bytes} {a : Assignment} (mem : a ∈ assigned line) :
    ∃ val, Sets a.1 val line := by
  unfold assigned at mem
  split at mem
  · simp at mem
  · rename_i name val split
    split at mem
    · simp at mem
    · rename_i key known
      obtain ⟨v, -, rfl⟩ : ∃ v, key.read val = some v ∧ Sigma.mk key v = a := by simpa using mem
      refine ⟨val, sets_iff.mpr ?_⟩
      rw [split, keyOf_eq_some.mp known]

/-- A line without a key is skipped, though the grammar has no such line. -/
theorem Keyless.not_inGrammar {line : Bytes} (keyless : Keyless line) : ¬ InGrammar line := by
  obtain ⟨val, split⟩ := keyless_iff.mp keyless
  rintro (blank | ⟨key, val', sets, -⟩)
  · rw [entry_eq_none.mpr blank.equals_not_mem] at split
    cases split
  · rw [sets_iff.mp sets] at split
    exact key.name_ne_nil (congrArg Prod.fst (Option.some.inj split))

theorem entry_blank {line : Bytes} (blank : Blank (uncommented line)) : entry line = none :=
  entry_eq_none.mpr blank.equals_not_mem

theorem keyOf_nil : keyOf [] = none := by
  cases found : keyOf [] with
  | none => rfl
  | some key => exact absurd (keyOf_eq_some.mp found) key.name_ne_nil

/-- A line the loop does not stop at: its assignments are carried out. -/
theorem loadLine_accepted {line : Bytes} (accepted : InGrammar line ∨ Keyless line) (cfg : Config) :
    loadLine line cfg = .ok (Settings.write Config.fields cfg (assigned line)) := by
  rw [loadLine_eq]
  rcases accepted with (blank | ⟨key, val, sets, readable⟩) | keyless
  · simp [assigned, entry_blank blank, blank]
  · obtain ⟨v, read⟩ := Option.isSome_iff_exists.mp readable
    rw [assigned_sets sets, sets_iff.mp sets, read]
    simp only [key.name_ne_nil, if_false, assign_name, read, Option.elim_some]
    rfl
  · obtain ⟨val, split⟩ := keyless_iff.mp keyless
    simp [assigned, split, keyOf_nil]

/-- Every other line ends the load. -/
theorem loadLine_refused {line : Bytes} (refused : ¬ (InGrammar line ∨ Keyless line)) (cfg : Config) :
    ∃ wrong, loadLine line cfg = .error wrong := by
  obtain ⟨improper, keyed⟩ := not_or.mp refused
  rw [loadLine_eq]
  cases split : entry line with
  | none => exact ⟨_, if_neg fun blank => improper (.inl blank)⟩
  | some pair =>
    obtain ⟨name, val⟩ := pair
    have nonempty : name ≠ [] := by
      rintro rfl
      exact keyed (keyless_iff.mpr ⟨val, split⟩)
    simp only [nonempty, if_false]
    cases known : keyOf name with
    | none => exact ⟨_, assign_unknown (keyOf_eq_none known) val cfg⟩
    | some key =>
      rw [← keyOf_eq_some.mp known] at split ⊢
      rw [assign_name]
      cases read : key.read val with
      | none => exact ⟨_, rfl⟩
      | some v => exact absurd (.inr ⟨key, val, sets_iff.mpr split, by simp [read]⟩) improper

/-- A load that returns true carries out the assignments of its lines in order. -/
theorem loadLines_accepted {lines : List Bytes} (accepted : ∀ line ∈ lines, InGrammar line ∨ Keyless line)
    (lineno : Nat) (cfg : Config) :
    loadLines lineno lines cfg = (none, Settings.write Config.fields cfg (lines.flatMap assigned)) := by
  induction lines generalizing lineno cfg with
  | nil => rfl
  | cons line lines ih =>
    rw [loadLines, loadLine_accepted (accepted line List.mem_cons_self), List.flatMap_cons, Settings.write_append]
    exact ih (fun l mem => accepted l (List.mem_cons_of_mem _ mem)) _ _

theorem loadLines_eq_none {lines : List Bytes} {lineno : Nat} {cfg : Config} :
    (loadLines lineno lines cfg).1 = none ↔ ∀ line ∈ lines, InGrammar line ∨ Keyless line := by
  constructor
  · intro accepted
    induction lines generalizing lineno cfg with
    | nil => simp
    | cons line lines ih =>
      by_cases here : InGrammar line ∨ Keyless line
      · rw [loadLines, loadLine_accepted here] at accepted
        simpa [here] using ih accepted
      · obtain ⟨wrong, refused⟩ := loadLine_refused here cfg
        rw [loadLines, refused] at accepted
        cases accepted
  · intro accepted
    rw [loadLines_accepted accepted]

/-- What the contract of `load_config` comes to on the content of one file. -/
structure LoadsExactly (path content : Bytes) (cfg : Config) : Prop where
  /-- It returns true on the grammar and on nothing else. -/
  accepts : (loadConfig (some content) path cfg).1 = none ↔ ∀ line ∈ getlines content, InGrammar line
  /-- A key holds the conversion of its value on the last line that names it. -/
  last : ∀ out, loadConfig (some content) path cfg = (none, out) → ∀ before line after,
    getlines content = before ++ line :: after → ∀ key val, Sets key val line →
      (∀ later ∈ after, ∀ other, ¬ Sets key other later) → key.read val = some (out.get key)
  /-- A key that no line names keeps its value. -/
  kept : ∀ out, loadConfig (some content) path cfg = (none, out) → ∀ key,
    (∀ line ∈ getlines content, ∀ val, ¬ Sets key val line) → out.get key = cfg.get key
  /-- Lines with different keys may change places. -/
  commute : ∀ out, loadConfig (some content) path cfg = (none, out) → ∀ before line line' after,
    getlines content = before ++ line :: line' :: after → ∀ key key' val val', key ≠ key' → Sets key val line →
      Sets key' val' line' → ∀ swapped, getlines swapped = before ++ line' :: line :: after →
        loadConfig (some swapped) path cfg = (none, out)

theorem last_unnamed {key : Key} {lines : List Bytes} (unnamed : ∀ line ∈ lines, ∀ val, ¬ Sets key val line) :
    Settings.last key (lines.flatMap assigned) = none := by
  apply Settings.last_eq_none
  intro a mem same
  obtain ⟨line, inside, assigns⟩ := List.mem_flatMap.mp mem
  obtain ⟨val, sets⟩ := sets_of_mem_assigned assigns
  exact unnamed line inside val (same ▸ sets)

/-- A line that sets a key and does not end the load has a value for it. -/
theorem Sets.assigns {key : Key} {val line : Bytes} (sets : Sets key val line)
    (accepted : InGrammar line ∨ Keyless line) :
    ∃ v, key.read val = some v ∧ assigned line = [⟨key, v⟩] := by
  cases read : key.read val with
  | some v => exact ⟨v, rfl, by simp [assigned_sets sets, read]⟩
  | none =>
    have ok := loadLine_accepted accepted {}
    rw [loadLine_eq, sets_iff.mp sets] at ok
    simp only [key.name_ne_nil, if_false, assign_name, read, Option.elim_none] at ok
    cases ok

section Loaded
variable {path content : Bytes} {cfg out : Config} (loaded : loadConfig (some content) path cfg = (none, out))
  {before after : List Bytes} {line : Bytes} {key : Key} {val : Bytes}
include loaded

theorem accepted_of_loaded : ∀ line ∈ getlines content, InGrammar line ∨ Keyless line :=
  loadLines_eq_none.mp (congrArg Prod.fst loaded)

theorem loaded_eq : out = Settings.write Config.fields cfg ((getlines content).flatMap assigned) := by
  have run := loadLines_accepted (accepted_of_loaded loaded) 0 cfg
  exact (congrArg Prod.snd loaded).symm.trans (congrArg Prod.snd run)

theorem loaded_get (key : Key) :
    out.get key = (Settings.last key ((getlines content).flatMap assigned)).getD (cfg.get key) := by
  rw [loaded_eq loaded]
  exact Settings.get_write Config.fields key cfg _

theorem loaded_last (lines : getlines content = before ++ line :: after) (sets : Sets key val line)
    (final : ∀ later ∈ after, ∀ other, ¬ Sets key other later) : key.read val = some (out.get key) := by
  obtain ⟨v, read, assigns⟩ := sets.assigns (accepted_of_loaded loaded line (by simp [lines]))
  rw [read, loaded_get loaded, lines, List.flatMap_append, List.flatMap_cons, Settings.last_append,
    Settings.last_append, last_unnamed final, assigns]
  simp [Settings.last_singleton, Settings.valueOf_self]

theorem loaded_kept (unnamed : ∀ line ∈ getlines content, ∀ val, ¬ Sets key val line) :
    out.get key = cfg.get key := by
  rw [loaded_get loaded, last_unnamed unnamed]
  rfl

theorem loaded_swapped {line' : Bytes} {key' : Key} {val' : Bytes}
    (lines : getlines content = before ++ line :: line' :: after) (differ : key ≠ key') (sets : Sets key val line)
    (sets' : Sets key' val' line') {swapped : Bytes}
    (lines' : getlines swapped = before ++ line' :: line :: after) :
    loadConfig (some swapped) path cfg = (none, out) := by
  have accepted := accepted_of_loaded loaded
  obtain ⟨v, -, assigns⟩ := sets.assigns (accepted line (by simp [lines]))
  obtain ⟨v', -, assigns'⟩ := sets'.assigns (accepted line' (by simp [lines]))
  have perm : (getlines swapped).Perm (getlines content) := by
    rw [lines, lines']
    exact (List.Perm.swap line line' after).append_left before
  have same : ∀ l ∈ getlines swapped, InGrammar l ∨ Keyless l := by
    intro l mem
    exact accepted l (perm.mem_iff.mp mem)
  have swap := Settings.write_swap Config.fields cfg (before.flatMap assigned) (after.flatMap assigned)
    (a := ⟨key', v'⟩) (b := ⟨key, v⟩) (Ne.symm differ)
  rw [loadConfig, loadLines_accepted same, loaded_eq loaded, lines, lines']
  simpa [assigns, assigns'] using swap

end Loaded

/-- `load_config` keeps to its grammar unless a line without a key slips through:
one stands in the file, and no other line ends the load. -/
theorem loadsExactly_iff (path content : Bytes) (cfg : Config) :
    LoadsExactly path content cfg ↔
      (∀ line ∈ getlines content, ¬ Keyless line) ∨
        ∃ line ∈ getlines content, ¬ Keyless line ∧ ¬ InGrammar line := by
  have returns : (loadConfig (some content) path cfg).1 = none ↔
      ∀ line ∈ getlines content, InGrammar line ∨ Keyless line := loadLines_eq_none
  constructor
  · intro agrees
    by_contra slips
    simp only [not_or, not_forall, not_exists, not_and, not_not] at slips
    obtain ⟨⟨line, mem, keyless⟩, others⟩ := slips
    have accepted : ∀ line ∈ getlines content, InGrammar line ∨ Keyless line := by
      intro line mem
      by_cases keyed : Keyless line
      · exact .inr keyed
      · exact .inl (others line mem keyed)
    exact keyless.not_inGrammar (agrees.accepts.mp (returns.mpr accepted) line mem)
  · intro holds
    refine ⟨?_, fun out loaded before line after lines key val => loaded_last loaded lines,
      fun out loaded key => loaded_kept loaded,
      fun out loaded before line line' after lines key key' val val' differ sets sets' swapped =>
        loaded_swapped loaded lines differ sets sets'⟩
    rw [returns]
    constructor
    · intro accepted line mem
      rcases holds with keyed | ⟨wrong, inside, keyed, improper⟩
      · exact (accepted line mem).resolve_right (keyed line mem)
      · exact absurd (accepted wrong inside) (not_or.mpr ⟨improper, keyed⟩)
    · intro proper line mem
      exact .inl (proper line mem)

/-- A value whose key was lost is skipped without a word. -/
theorem loadsExactly_keyless : ¬ LoadsExactly (bytes "evproxy.conf") (bytes "= 9000\n") {} := by
  intro agrees
  have proper := agrees.accepts.mp (by decide +kernel) (bytes "= 9000") (by decide +kernel)
  have keyless : Keyless (bytes "= 9000") := ⟨[], bytes " 9000", by decide +kernel, List.forall_mem_nil _⟩
  exact keyless.not_inGrammar proper

end EvProxy
