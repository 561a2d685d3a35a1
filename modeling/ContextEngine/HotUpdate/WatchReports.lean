/- digest: Which changes of the file system the forwarded file events report. -/

import ContextEngine.Glob.Tokens
import ContextEngine.HotUpdate.WatchChangeQueue

set_option autoImplicit false

namespace ContextEngine

open List

namespace Notify

inductive CreateKind where
  | any | file | folder | other
  deriving DecidableEq

inductive RemoveKind where
  | any | file | folder | other
  deriving DecidableEq

inductive RenameMode where
  | any | toPath | fromPath | both | other
  deriving DecidableEq

inductive ModifyKind where
  | any | data | metadata | other
  | name (mode : RenameMode)
  deriving DecidableEq

inductive EventKind where
  | any | access | other
  | create (kind : CreateKind)
  | modify (kind : ModifyKind)
  | remove (kind : RemoveKind)
  deriving DecidableEq

structure Event where
  kind : EventKind
  paths : List PathBuf
  deriving DecidableEq

end Notify

def fileName (path : PathBuf) : Option String := (pathFileName path.toList).map String.ofList

/-- `Path::extension`: what follows the last dot of the file name, unless that dot is its first
    character. -/
def pathExtension (path : PathBuf) : Option (List Char) :=
  (pathFileName path.toList).bind fun name =>
    let fromDot := name.reverse.dropWhile (· ≠ '.')
    if fromDot.length ≤ 1 then none else some (name.drop fromDot.length)

def supportedConfigFiles : List (List String) :=
  [["Cargo.toml"],
    ["package.json", "package-lock.json"],
    ["pnpm-lock.yaml"],
    ["yarn.lock"],
    ["requirements.txt", "pyproject.toml", "Pipfile", "setup.cfg", "environment.yml"],
    ["go.mod", "go.sum"],
    ["pom.xml", "build.gradle", "build.gradle.kts", "settings.gradle", "settings.gradle.kts"],
    ["CMakeLists.txt"],
    ["composer.json"],
    ["*.csproj", "*.fsproj", "*.vbproj"],
    ["Gemfile", "Gemfile.lock"],
    ["Makefile", "makefile", "GNUmakefile", "gnumakefile"],
    ["Dockerfile", "dockerfile"]]

/-- Check a file name against the canonical build config rule set: names that start with `*.` are
    suffix patterns. -/
def isBuildConfigName (name : String) : Bool :=
  supportedConfigFiles.any fun configFiles =>
    configFiles.any fun pattern =>
      if ['*', '.'].isPrefixOf pattern.toList then pattern.toList.tail.isSuffixOf name.toList
      else decide (pattern = name)

def isConfigFile (path : PathBuf) : Bool := (fileName path).any isBuildConfigName

structure WatchConfig where
  extensions : List String
  compiledGlobs : List Glob
  watchConfigFiles : Bool

namespace WatchConfig

/-- The list is compared ignoring ASCII case. -/
def shouldWatchExtension (config : WatchConfig) (ext : List Char) : Bool :=
  config.extensions.any fun candidate =>
    decide (candidate.toList.map Char.toLower = ext.map Char.toLower)

def shouldIgnorePath (config : WatchConfig) (path : PathBuf) : Bool :=
  config.compiledGlobs.any fun glob => glob.isMatch path

end WatchConfig

inductive FileEventType where
  | created | modified | deleted | renamedFrom | renamedTo | configModified
  deriving DecidableEq

structure FileEvent where
  path : PathBuf
  eventType : FileEventType
  previousPath : Option PathBuf
  deriving DecidableEq

namespace FileEvent

variable (path : PathBuf)

def new (eventType : FileEventType) : FileEvent := ⟨path, eventType, none⟩

def created : FileEvent := new path .created

def modified : FileEvent := new path .modified

def deleted : FileEvent := new path .deleted

def configModified : FileEvent := new path .configModified

variable (path : PathBuf)

@[simp] theorem eventType_created : (created path).eventType = .created := rfl

@[simp] theorem eventType_modified : (modified path).eventType = .modified := rfl

@[simp] theorem eventType_deleted : (deleted path).eventType = .deleted := rfl

@[simp] theorem eventType_configModified :
    (configModified path).eventType = .configModified := rfl

end FileEvent

inductive WatchEvent where
  | fileCreated (path : PathBuf)
  | fileChanged (path : PathBuf)
  | fileDeleted (path : PathBuf)
  | fileRenamed (source target : PathBuf)
  | dirCreated (path : PathBuf)
  | dirDeleted (path : PathBuf)
  | configChanged (path : PathBuf)
  | any
  deriving DecidableEq

namespace WatchEvent

/-- A rename is filed under its new path. -/
def path : WatchEvent → Option PathBuf
  | fileCreated path => some path
  | fileChanged path => some path
  | fileDeleted path => some path
  | dirCreated path => some path
  | dirDeleted path => some path
  | configChanged path => some path
  | fileRenamed _ target => some target
  | any => none

def isFileEvent : WatchEvent → Bool
  | fileCreated _ => true
  | fileChanged _ => true
  | fileDeleted _ => true
  | fileRenamed _ _ => true
  | _ => false

end WatchEvent

/-- What an event becomes, given which paths are directories when it is converted. Only the first
    path is looked at, and for a rename the second. -/
def convertNotifyEvent (isDir : PathBuf → Bool) (event : Notify.Event) : Option WatchEvent :=
  event.paths.head?.bind fun path =>
    match event.kind with
    | .create kind =>
      if kind = .folder ∨ isDir path = true then some (.dirCreated path)
      else if isConfigFile path then some (.configChanged path)
      else some (.fileCreated path)
    | .modify (.name .fromPath) => some (.fileDeleted path)
    | .modify (.name .toPath) => some (.fileCreated path)
    | .modify (.name _) => event.paths[1]?.map fun target => .fileRenamed path target
    | .modify _ =>
      if isConfigFile path then some (.configChanged path) else some (.fileChanged path)
    | .remove kind =>
      if kind = .folder ∨ isDir path = true then some (.dirDeleted path)
      else some (.fileDeleted path)
    | _ => some .any

variable (config : WatchConfig)

def WatchConfig.extensionPasses (path : PathBuf) : Bool :=
  (pathExtension path).all config.shouldWatchExtension

/-- Check if an event should be processed. The last check of the source, on configuration files,
    answers what its end answers. -/
def shouldProcess (event : WatchEvent) : Bool :=
  event.path.any fun path =>
    if config.shouldIgnorePath path then false
    else if event.isFileEvent && !config.extensionPasses path then false
    else if config.watchConfigFiles && isConfigFile path then true
    else true

def fileEvents (event : WatchEvent) : List FileEvent :=
  if shouldProcess config event then
    match event with
    | .fileCreated path => [.created path]
    | .fileChanged path => [.modified path]
    | .fileDeleted path => [.deleted path]
    | .fileRenamed source target => [.deleted source, .created target]
    | .configChanged path => [.configModified path]
    | .dirCreated _ => []
    | .dirDeleted _ => []
    | .any => []
  else []

def forwardedEvents (isDir : PathBuf → Bool) (event : Notify.Event) :
    List FileEvent :=
  (convertNotifyEvent isDir event).elim [] (fileEvents config)

/-- The bounded channel, whether its receiver is gone, and the flag for a full rescan. -/
structure HotUpdateChannel where
  queue : List FileEvent
  capacity : Nat
  closed : Bool
  watchEventOverflow : Bool
  deriving DecidableEq

/-- A full channel drops the event and sets the flag; a closed one is an error. -/
def sendFileEvent (channel : HotUpdateChannel) (event : FileEvent) :
    Except String HotUpdateChannel :=
  if channel.closed then .error event.path
  else if channel.queue.length < channel.capacity then
    .ok { channel with queue := channel.queue ++ [event] }
  else .ok { channel with watchEventOverflow := true }

/-- The first error ends the handling. -/
def handleEvent (channel : HotUpdateChannel) (event : WatchEvent) :
    Except String HotUpdateChannel :=
  (fileEvents config event).foldlM sendFileEvent channel

/-- The channel between the watcher and the event loop, with what has left it. -/
structure EventPipe where
  channel : HotUpdateChannel
  received : List FileEvent
  fullRescanMarked : Bool

/-- The watcher sends; the event loop takes the flag and receives. -/
inductive PipeStep where
  | send (event : FileEvent)
  | takeFlag
  | receive

def PipeStep.sent? : PipeStep → Option FileEvent
  | .send event => some event
  | _ => none

namespace EventPipe

def step (pipe : EventPipe) : PipeStep → Except String EventPipe
  | .send event => return { pipe with channel := ← sendFileEvent pipe.channel event }
  | .takeFlag => .ok
    { pipe with
      channel := { pipe.channel with watchEventOverflow := false }
      fullRescanMarked := pipe.fullRescanMarked || pipe.channel.watchEventOverflow }
  | .receive => .ok
    { pipe with
      channel := { pipe.channel with queue := pipe.channel.queue.tail }
      received := pipe.received ++ pipe.channel.queue.head?.toList }

theorem run_handleEvent (config : WatchConfig) (pipe : EventPipe) (event : WatchEvent) :
    ((fileEvents config event).map .send).foldlM step pipe =
      (handleEvent config pipe.channel event).map fun channel => { pipe with channel } := by
  rw [handleEvent]
  generalize fileEvents config event = events
  induction events generalizing pipe with
  | nil => rfl
  | cons first events ih =>
    rw [map_cons, foldlM_cons, foldlM_cons, step]
    cases sendFileEvent pipe.channel first with
    | error path => rfl
    | ok channel => exact ih { pipe with channel }

/-- What was sent has arrived in order or waits, unless a full rescan is marked or about to be; then
some of it may be missing. -/
structure Accounted (capacity : Nat) (sent : List FileEvent) (pipe : EventPipe) : Prop where
  live : pipe.channel.closed = false
  size : pipe.channel.capacity = capacity
  bounded : pipe.channel.queue.length ≤ capacity
  ordered : (pipe.received ++ pipe.channel.queue).Sublist sent
  arrived : (pipe.fullRescanMarked || pipe.channel.watchEventOverflow) = true ∨
    pipe.received ++ pipe.channel.queue = sent

variable {sent : List FileEvent} {pipe : EventPipe} {capacity : Nat}

theorem Accounted.step
    (accounted : pipe.Accounted capacity sent) (next : PipeStep) :
    ∃ after, pipe.step next = .ok after ∧
      after.Accounted capacity (sent ++ next.sent?.toList) := by
  obtain ⟨live, size, bounded, ordered, arrived⟩ := accounted
  cases next with
  | send event =>
    rw [EventPipe.step, sendFileEvent, live, if_neg Bool.false_ne_true]
    split_ifs with room
    · refine ⟨_, rfl, rfl, size, ?_, ?_, arrived.imp_right fun queued => ?_⟩
      · rw [length_append]
        exact size ▸ room
      · rw [← append_assoc]
        exact ordered.append_right _
      · rw [← append_assoc, queued]
        rfl
    · exact ⟨_, rfl, rfl, size, bounded, ordered.trans (sublist_append_left _ _),
        Or.inl (Bool.or_true _)⟩
  | takeFlag =>
    refine ⟨_, rfl, live, size, bounded, ?_, ?_⟩
    · simpa [PipeStep.sent?] using ordered
    · simpa [PipeStep.sent?] using arrived
  | receive =>
    have moved : pipe.received ++ pipe.channel.queue.head?.toList ++ pipe.channel.queue.tail =
        pipe.received ++ pipe.channel.queue := by
      rw [append_assoc]
      cases pipe.channel.queue <;> rfl
    have none : sent ++ PipeStep.receive.sent?.toList = sent := append_nil sent
    refine ⟨_, rfl, live, size, ?_, ?_, ?_⟩
    · rw [length_tail]
      omega
    · rw [none, moved]
      exact ordered
    · rw [none, moved]
      exact arrived

theorem Accounted.run
    (accounted : pipe.Accounted capacity sent) (steps : List PipeStep) :
    ∃ after, steps.foldlM EventPipe.step pipe = .ok after ∧
      after.Accounted capacity (sent ++ steps.filterMap PipeStep.sent?) := by
  induction steps generalizing sent pipe with
  | nil => exact ⟨pipe, rfl, (append_nil sent).symm ▸ accounted⟩
  | cons next steps ih =>
    obtain ⟨middle, ok, accountedMiddle⟩ := accounted.step next
    obtain ⟨after, okAfter, accountedAfter⟩ := ih accountedMiddle
    have first : (next :: steps).filterMap PipeStep.sent? =
        next.sent?.toList ++ steps.filterMap PipeStep.sent? := by cases next <;> rfl
    refine ⟨after, ?_, ?_⟩
    · rw [foldlM_cons, ok]
      exact okAfter
    · rw [first, ← append_assoc]
      exact accountedAfter

/-- Once a rescan that was due is served, what has arrived or waits is accounted for again, and from
there on no event is lost unless the next one is due. -/
theorem accounted_of_served
    (accounted : pipe.Accounted capacity sent) :
    { pipe with
      channel := { pipe.channel with watchEventOverflow := false }
      fullRescanMarked := false }.Accounted capacity (pipe.received ++ pipe.channel.queue) :=
  ⟨accounted.live, accounted.size, accounted.bounded, Sublist.refl _, Or.inr rfl⟩

/-- In whatever order the two sides run, no event is lost unless a full rescan is due. -/
theorem run_accounted (capacity : Nat) (steps : List PipeStep) :
    ∃ pipe, steps.foldlM EventPipe.step ⟨⟨[], capacity, false, false⟩, [], false⟩ = .ok pipe ∧
      pipe.Accounted capacity (steps.filterMap PipeStep.sent?) := by
  have start : Accounted capacity [] ⟨⟨[], capacity, false, false⟩, [], false⟩ :=
    ⟨rfl, rfl, Nat.zero_le _, Sublist.refl _, Or.inr rfl⟩
  exact start.run steps

end EventPipe

/-- An event of the watcher, the files before and after it, and the directories there are when it
    is converted. -/
structure RawEvent (Contents : Type) where
  event : Notify.Event
  before : PathBuf → Option Contents
  after : PathBuf → Option Contents
  isDir : PathBuf → Bool

variable {Contents : Type}

namespace RawEvent

def Vanished (raw : RawEvent Contents) (path : PathBuf) : Prop :=
  raw.before path ≠ none ∧ raw.after path = none

/-- Newly present or changed. -/
def Written (raw : RawEvent Contents) (path : PathBuf) : Prop :=
  raw.after path ≠ none ∧ raw.before path ≠ raw.after path

def forwarded (config : WatchConfig) (raw : RawEvent Contents) : List FileEvent :=
  forwardedEvents config raw.isDir raw.event

end RawEvent

/-- A path whose file events pass the filter. -/
def WatchConfig.Watches (config : WatchConfig) (path : PathBuf) : Prop :=
  config.shouldIgnorePath path = false ∧ config.extensionPasses path = true

namespace FileEvent

variable (event : FileEvent)

def ReportsDeleted (path : PathBuf) : Prop :=
  event.path = path ∧ (event.eventType = .deleted ∨ event.eventType = .renamedFrom) ∨
    event.previousPath = some path

def ReportsWritten (path : PathBuf) : Prop :=
  event.path = path ∧ event.eventType ∈
    [FileEventType.created, .modified, .configModified, .renamedTo]

def ReportsConfig (path : PathBuf) : Prop :=
  event.path = path ∧ event.eventType = .configModified

end FileEvent

/-- No change of a watched path, and none of a configuration file, goes unreported. -/
structure AllReported (config : WatchConfig) (raw : RawEvent Contents) : Prop where
  deleted : ∀ path, config.Watches path → raw.Vanished path →
    ∃ event ∈ raw.forwarded config, event.ReportsDeleted path
  written : ∀ path, config.Watches path → raw.Written path →
    ∃ event ∈ raw.forwarded config, event.ReportsWritten path
  configured : ∀ path, isConfigFile path = true → config.shouldIgnorePath path = false →
    raw.Vanished path ∨ raw.Written path →
    ∃ event ∈ raw.forwarded config, event.ReportsConfig path

namespace RawEvent

variable (raw : RawEvent Contents)

/-- The event is about a file at its first path: neither the event nor the file system calls it a
    directory. -/
def CreatesFile (path : PathBuf) : Prop :=
  raw.event.paths.head? = some path ∧ raw.isDir path = false ∧
    ∃ kind, raw.event.kind = .create kind ∧ kind ≠ .folder

def RemovesFile (path : PathBuf) : Prop :=
  raw.event.paths.head? = some path ∧ raw.isDir path = false ∧
    ∃ kind, raw.event.kind = .remove kind ∧ kind ≠ .folder

def ModifiesFile (path : PathBuf) : Prop :=
  raw.event.paths.head? = some path ∧
    ∃ kind, raw.event.kind = .modify kind ∧ ∀ mode, kind ≠ .name mode

def RenamesOneEnd (mode : Notify.RenameMode) (path : PathBuf) : Prop :=
  raw.event.paths.head? = some path ∧ raw.event.kind = .modify (.name mode)

/-- A rename with both of its ends. -/
def Renames (source target : PathBuf) : Prop :=
  raw.event.paths.head? = some source ∧ raw.event.paths[1]? = some target ∧
    ∃ mode, raw.event.kind = .modify (.name mode) ∧ mode ≠ .fromPath ∧ mode ≠ .toPath

end RawEvent

/-- The changes are where the event can report them. -/
structure Conveyed (config : WatchConfig) (raw : RawEvent Contents) : Prop where
  vanished : ∀ path, config.Watches path → raw.Vanished path →
    raw.RemovesFile path ∨ raw.RenamesOneEnd .fromPath path ∨
      ∃ target, raw.Renames path target ∧ config.Watches target
  written : ∀ path, config.Watches path → raw.Written path →
    raw.CreatesFile path ∨ raw.ModifiesFile path ∨ raw.RenamesOneEnd .toPath path ∨
      ∃ source, raw.Renames source path
  configured : ∀ path, isConfigFile path = true → config.shouldIgnorePath path = false →
    raw.Vanished path ∨ raw.Written path → raw.CreatesFile path ∨ raw.ModifiesFile path

section Sending

variable {config : WatchConfig} {sent : FileEvent}

private theorem shouldProcess_file {event : WatchEvent} {path : PathBuf}
    (filed : event.path = some path) (file : event.isFileEvent = true) :
    shouldProcess config event = true ↔ config.Watches path := by
  rw [shouldProcess, filed, Option.any_some, file, Bool.true_and, WatchConfig.Watches, ite_self]
  cases config.shouldIgnorePath path <;> cases config.extensionPasses path <;> decide

private theorem shouldProcess_config (path : PathBuf) :
    shouldProcess config (.configChanged path) = true ↔ config.shouldIgnorePath path = false := by
  show (if config.shouldIgnorePath path then false
    else if false && !config.extensionPasses path then false
    else if config.watchConfigFiles && isConfigFile path then true else true) = true ↔ _
  rw [ite_self, Bool.false_and, if_neg Bool.false_ne_true]
  cases config.shouldIgnorePath path <;> decide

private theorem mem_fileEvents {event : WatchEvent} {events : List FileEvent} {allowed : Prop}
    (passes : shouldProcess config event = true ↔ allowed)
    (sends : shouldProcess config event = true → fileEvents config event = events) :
    sent ∈ fileEvents config event ↔ allowed ∧ sent ∈ events := by
  by_cases processed : shouldProcess config event = true
  · rw [sends processed]
    exact ⟨fun mem => ⟨passes.1 processed, mem⟩, And.right⟩
  · have nothing : fileEvents config event = [] := if_neg processed
    rw [nothing]
    exact ⟨fun mem => absurd mem not_mem_nil,
      fun ⟨pass, _⟩ => absurd (passes.2 pass) processed⟩

variable {path : PathBuf}

theorem mem_fileEvents_created :
    sent ∈ fileEvents config (.fileCreated path) ↔
      config.Watches path ∧ sent ∈ [FileEvent.created path] :=
  mem_fileEvents (shouldProcess_file rfl rfl) fun processed => if_pos processed

theorem mem_fileEvents_changed :
    sent ∈ fileEvents config (.fileChanged path) ↔
      config.Watches path ∧ sent ∈ [FileEvent.modified path] :=
  mem_fileEvents (shouldProcess_file rfl rfl) fun processed => if_pos processed

theorem mem_fileEvents_deleted :
    sent ∈ fileEvents config (.fileDeleted path) ↔
      config.Watches path ∧ sent ∈ [FileEvent.deleted path] :=
  mem_fileEvents (shouldProcess_file rfl rfl) fun processed => if_pos processed

theorem mem_fileEvents_renamed {source target : PathBuf} :
    sent ∈ fileEvents config (.fileRenamed source target) ↔
      config.Watches target ∧ sent ∈ [FileEvent.deleted source, FileEvent.created target] :=
  mem_fileEvents (shouldProcess_file rfl rfl) fun processed => if_pos processed

theorem mem_fileEvents_config :
    sent ∈ fileEvents config (.configChanged path) ↔
      config.shouldIgnorePath path = false ∧ sent ∈ [FileEvent.configModified path] :=
  mem_fileEvents (shouldProcess_config path) fun processed => if_pos processed

theorem fileEvents_dirCreated (path : PathBuf) : fileEvents config (.dirCreated path) = [] :=
  ite_self []

theorem fileEvents_dirDeleted (path : PathBuf) : fileEvents config (.dirDeleted path) = [] :=
  ite_self []

theorem fileEvents_any : fileEvents config .any = [] := ite_self []

end Sending

/-- The file events that the forms of a raw event lead to. -/
inductive Sends (config : WatchConfig) (raw : RawEvent Contents) : FileEvent → Prop
  | createdConfig {path : PathBuf} (creates : raw.CreatesFile path)
      (is_config : isConfigFile path = true) (visible : config.shouldIgnorePath path = false) :
      Sends config raw (.configModified path)
  | modifiedConfig {path : PathBuf} (modifies : raw.ModifiesFile path)
      (is_config : isConfigFile path = true) (visible : config.shouldIgnorePath path = false) :
      Sends config raw (.configModified path)
  | created {path : PathBuf} (creates : raw.CreatesFile path)
      (no_config : isConfigFile path = false) (watched : config.Watches path) :
      Sends config raw (.created path)
  | modified {path : PathBuf} (modifies : raw.ModifiesFile path)
      (no_config : isConfigFile path = false) (watched : config.Watches path) :
      Sends config raw (.modified path)
  | removed {path : PathBuf} (removes : raw.RemovesFile path) (watched : config.Watches path) :
      Sends config raw (.deleted path)
  | renamedFrom {path : PathBuf} (renames : raw.RenamesOneEnd .fromPath path)
      (watched : config.Watches path) : Sends config raw (.deleted path)
  | renamedTo {path : PathBuf} (renames : raw.RenamesOneEnd .toPath path)
      (watched : config.Watches path) : Sends config raw (.created path)
  | renameSource {source target : PathBuf} (renames : raw.Renames source target)
      (watched : config.Watches target) : Sends config raw (.deleted source)
  | renameTarget {source target : PathBuf} (renames : raw.Renames source target)
      (watched : config.Watches target) : Sends config raw (.created target)

section Conversion

variable {raw : RawEvent Contents} {path source target : PathBuf}

private theorem convert_creates (creates : raw.CreatesFile path) :
    convertNotifyEvent raw.isDir raw.event =
      some (if isConfigFile path then .configChanged path else .fileCreated path) := by
  obtain ⟨head, no_dir, kind, kind_eq, no_folder⟩ := creates
  rw [convertNotifyEvent, head, Option.bind_some, kind_eq]
  simp only [no_folder, no_dir, false_or, Bool.false_eq_true, if_false]
  split_ifs <;> rfl

private theorem convert_removes (removes : raw.RemovesFile path) :
    convertNotifyEvent raw.isDir raw.event = some (.fileDeleted path) := by
  obtain ⟨head, no_dir, kind, kind_eq, no_folder⟩ := removes
  rw [convertNotifyEvent, head, Option.bind_some, kind_eq]
  simp only [no_folder, no_dir, false_or, Bool.false_eq_true, if_false]

private theorem convert_modifies (modifies : raw.ModifiesFile path) :
    convertNotifyEvent raw.isDir raw.event =
      some (if isConfigFile path then .configChanged path else .fileChanged path) := by
  obtain ⟨head, kind, kind_eq, content⟩ := modifies
  rw [convertNotifyEvent, head, Option.bind_some, kind_eq]
  cases kind with
  | name mode => exact absurd rfl (content mode)
  | any => exact (apply_ite some _ _ _).symm
  | data => exact (apply_ite some _ _ _).symm
  | metadata => exact (apply_ite some _ _ _).symm
  | other => exact (apply_ite some _ _ _).symm

private theorem convert_renamesFrom (renames : raw.RenamesOneEnd .fromPath path) :
    convertNotifyEvent raw.isDir raw.event = some (.fileDeleted path) := by
  rw [convertNotifyEvent, renames.1, renames.2]
  rfl

private theorem convert_renamesTo (renames : raw.RenamesOneEnd .toPath path) :
    convertNotifyEvent raw.isDir raw.event = some (.fileCreated path) := by
  rw [convertNotifyEvent, renames.1, renames.2]
  rfl

private theorem convert_twoEnds (head : raw.event.paths.head? = some source)
    {mode : Notify.RenameMode} (kind_eq : raw.event.kind = .modify (.name mode))
    (no_from : mode ≠ .fromPath) (no_to : mode ≠ .toPath) :
    convertNotifyEvent raw.isDir raw.event =
      raw.event.paths[1]?.map fun target => .fileRenamed source target := by
  rw [convertNotifyEvent, head, kind_eq]
  cases mode with
  | fromPath => exact absurd rfl no_from
  | toPath => exact absurd rfl no_to
  | any => rfl
  | both => rfl
  | other => rfl

private theorem convert_renames (renames : raw.Renames source target) :
    convertNotifyEvent raw.isDir raw.event = some (.fileRenamed source target) := by
  obtain ⟨head, second, mode, kind_eq, no_from, no_to⟩ := renames
  rw [convert_twoEnds head kind_eq no_from no_to, second]
  rfl

end Conversion

section Forwarding

variable {config : WatchConfig} {raw : RawEvent Contents} {sent : FileEvent}

private theorem mem_forwarded {event : WatchEvent}
    (converted : convertNotifyEvent raw.isDir raw.event = some event) :
    sent ∈ raw.forwarded config ↔ sent ∈ fileEvents config event := by
  rw [RawEvent.forwarded, forwardedEvents, converted]
  rfl

private theorem forwarded_of_sends (sends : Sends config raw sent) :
    sent ∈ raw.forwarded config := by
  cases sends with
  | createdConfig creates is_config visible =>
    rw [mem_forwarded (convert_creates creates), if_pos is_config, mem_fileEvents_config]
    exact ⟨visible, mem_cons_self⟩
  | modifiedConfig modifies is_config visible =>
    rw [mem_forwarded (convert_modifies modifies), if_pos is_config, mem_fileEvents_config]
    exact ⟨visible, mem_cons_self⟩
  | created creates no_config watched =>
    rw [mem_forwarded (convert_creates creates), no_config, if_neg Bool.false_ne_true,
      mem_fileEvents_created]
    exact ⟨watched, mem_cons_self⟩
  | modified modifies no_config watched =>
    rw [mem_forwarded (convert_modifies modifies), no_config, if_neg Bool.false_ne_true,
      mem_fileEvents_changed]
    exact ⟨watched, mem_cons_self⟩
  | removed removes watched =>
    rw [mem_forwarded (convert_removes removes), mem_fileEvents_deleted]
    exact ⟨watched, mem_cons_self⟩
  | renamedFrom renames watched =>
    rw [mem_forwarded (convert_renamesFrom renames), mem_fileEvents_deleted]
    exact ⟨watched, mem_cons_self⟩
  | renamedTo renames watched =>
    rw [mem_forwarded (convert_renamesTo renames), mem_fileEvents_created]
    exact ⟨watched, mem_cons_self⟩
  | renameSource renames watched =>
    rw [mem_forwarded (convert_renames renames), mem_fileEvents_renamed]
    exact ⟨watched, mem_cons_self⟩
  | renameTarget renames watched =>
    rw [mem_forwarded (convert_renames renames), mem_fileEvents_renamed]
    exact ⟨watched, mem_cons_of_mem _ mem_cons_self⟩

variable {path : PathBuf}

private theorem sends_of_creates (creates : raw.CreatesFile path)
    (mem : sent ∈ raw.forwarded config) : Sends config raw sent := by
  rw [mem_forwarded (convert_creates creates)] at mem
  split_ifs at mem with is_config
  · obtain ⟨visible, same⟩ := mem_fileEvents_config.1 mem
    rw [mem_singleton.1 same]
    exact .createdConfig creates is_config visible
  · obtain ⟨watched, same⟩ := mem_fileEvents_created.1 mem
    rw [mem_singleton.1 same]
    exact .created creates (Bool.not_eq_true _ ▸ is_config) watched

private theorem sends_of_modifies (modifies : raw.ModifiesFile path)
    (mem : sent ∈ raw.forwarded config) : Sends config raw sent := by
  rw [mem_forwarded (convert_modifies modifies)] at mem
  split_ifs at mem with is_config
  · obtain ⟨visible, same⟩ := mem_fileEvents_config.1 mem
    rw [mem_singleton.1 same]
    exact .modifiedConfig modifies is_config visible
  · obtain ⟨watched, same⟩ := mem_fileEvents_changed.1 mem
    rw [mem_singleton.1 same]
    exact .modified modifies (Bool.not_eq_true _ ▸ is_config) watched

private theorem sends_of_rename {mode : Notify.RenameMode}
    (head : raw.event.paths.head? = some path) (kind_eq : raw.event.kind = .modify (.name mode))
    (mem : sent ∈ raw.forwarded config) : Sends config raw sent := by
  by_cases from_end : mode = .fromPath
  · have renames : raw.RenamesOneEnd .fromPath path := ⟨head, from_end ▸ kind_eq⟩
    rw [mem_forwarded (convert_renamesFrom renames)] at mem
    obtain ⟨watched, same⟩ := mem_fileEvents_deleted.1 mem
    rw [mem_singleton.1 same]
    exact .renamedFrom renames watched
  by_cases to_end : mode = .toPath
  · have renames : raw.RenamesOneEnd .toPath path := ⟨head, to_end ▸ kind_eq⟩
    rw [mem_forwarded (convert_renamesTo renames)] at mem
    obtain ⟨watched, same⟩ := mem_fileEvents_created.1 mem
    rw [mem_singleton.1 same]
    exact .renamedTo renames watched
  have converted := convert_twoEnds head kind_eq from_end to_end
  cases second : raw.event.paths[1]? with
  | none =>
    rw [second, Option.map_none] at converted
    rw [RawEvent.forwarded, forwardedEvents, converted] at mem
    exact absurd mem not_mem_nil
  | some target =>
    have renames : raw.Renames path target := ⟨head, second, mode, kind_eq, from_end, to_end⟩
    rw [mem_forwarded (convert_renames renames)] at mem
    obtain ⟨watched, among⟩ := mem_fileEvents_renamed.1 mem
    rcases mem_cons.1 among with rfl | last
    · exact .renameSource renames watched
    · rw [mem_singleton.1 last]
      exact .renameTarget renames watched

theorem mem_forwarded_iff : sent ∈ raw.forwarded config ↔ Sends config raw sent := by
  refine ⟨fun mem => ?_, forwarded_of_sends⟩
  cases head : raw.event.paths.head? with
  | none =>
    have nothing : convertNotifyEvent raw.isDir raw.event = none := by
      rw [convertNotifyEvent, head]
      rfl
    rw [RawEvent.forwarded, forwardedEvents, nothing] at mem
    exact absurd mem not_mem_nil
  | some path =>
    -- a watch event that sends nothing
    have silent : ∀ event, convertNotifyEvent raw.isDir raw.event = some event →
        fileEvents config event = [] → Sends config raw sent := by
      intro event converted nothing
      rw [mem_forwarded converted, nothing] at mem
      exact absurd mem not_mem_nil
    have other : (∀ kind, raw.event.kind ≠ .create kind) →
        (∀ kind, raw.event.kind ≠ .modify kind) → (∀ kind, raw.event.kind ≠ .remove kind) →
        Sends config raw sent := by
      intro no_create no_modify no_remove
      apply silent .any _ fileEvents_any
      rw [convertNotifyEvent, head, Option.bind_some]
      cases kind_eq : raw.event.kind with
      | create kind => exact absurd kind_eq (no_create kind)
      | modify kind => exact absurd kind_eq (no_modify kind)
      | remove kind => exact absurd kind_eq (no_remove kind)
      | any => rfl
      | access => rfl
      | other => rfl
    cases kind_eq : raw.event.kind with
    | any => exact other (by simp [kind_eq]) (by simp [kind_eq]) (by simp [kind_eq])
    | access => exact other (by simp [kind_eq]) (by simp [kind_eq]) (by simp [kind_eq])
    | other => exact other (by simp [kind_eq]) (by simp [kind_eq]) (by simp [kind_eq])
    | create kind =>
      by_cases dir : kind = .folder ∨ raw.isDir path = true
      · apply silent (.dirCreated path) _ (fileEvents_dirCreated path)
        rw [convertNotifyEvent, head, Option.bind_some, kind_eq]
        exact if_pos dir
      · obtain ⟨no_folder, no_dir⟩ := not_or.1 dir
        exact sends_of_creates ⟨head, Bool.not_eq_true _ ▸ no_dir, kind, kind_eq, no_folder⟩ mem
    | remove kind =>
      by_cases dir : kind = .folder ∨ raw.isDir path = true
      · apply silent (.dirDeleted path) _ (fileEvents_dirDeleted path)
        rw [convertNotifyEvent, head, Option.bind_some, kind_eq]
        exact if_pos dir
      · obtain ⟨no_folder, no_dir⟩ := not_or.1 dir
        have removes : raw.RemovesFile path :=
          ⟨head, Bool.not_eq_true _ ▸ no_dir, kind, kind_eq, no_folder⟩
        rw [mem_forwarded (convert_removes removes)] at mem
        obtain ⟨watched, same⟩ := mem_fileEvents_deleted.1 mem
        rw [mem_singleton.1 same]
        exact .removed removes watched
    | modify kind =>
      by_cases renamed : ∃ mode, kind = .name mode
      · obtain ⟨mode, rfl⟩ := renamed
        exact sends_of_rename head kind_eq mem
      · exact sends_of_modifies ⟨head, kind, kind_eq, not_exists.1 renamed⟩ mem

private theorem reportsDeleted_new {path other : PathBuf} {eventType : FileEventType}
    (reports : (FileEvent.new other eventType).ReportsDeleted path) :
    other = path ∧ (eventType = .deleted ∨ eventType = .renamedFrom) := by
  rcases reports with here | previous
  · exact here
  · exact absurd previous.symm (Option.some_ne_none path)

theorem deletionReported_iff (watched : config.Watches path) :
    (∃ event ∈ raw.forwarded config, event.ReportsDeleted path) ↔
      raw.RemovesFile path ∨ raw.RenamesOneEnd .fromPath path ∨
        ∃ target, raw.Renames path target ∧ config.Watches target := by
  constructor
  · intro ⟨event, mem, reports⟩
    obtain ⟨rfl, kind⟩ : event.path = path ∧
        (event.eventType = .deleted ∨ event.eventType = .renamedFrom) := by
      cases mem_forwarded_iff.1 mem <;> exact reportsDeleted_new reports
    cases mem_forwarded_iff.1 mem with
    | removed removes _ => exact Or.inl (removes)
    | renamedFrom renames _ => exact Or.inr (Or.inl (renames))
    | renameSource renames target_watched =>
      exact Or.inr (Or.inr ⟨_, renames, target_watched⟩)
    | createdConfig _ _ _ => exact absurd kind (by simp)
    | modifiedConfig _ _ _ => exact absurd kind (by simp)
    | created _ _ _ => exact absurd kind (by simp)
    | modified _ _ _ => exact absurd kind (by simp)
    | renamedTo _ _ => exact absurd kind (by simp)
    | renameTarget _ _ => exact absurd kind (by simp)
  · intro conveyed
    refine ⟨.deleted path, mem_forwarded_iff.2 ?_, Or.inl ⟨rfl, Or.inl rfl⟩⟩
    rcases conveyed with removes | renames | ⟨target, renames, target_watched⟩
    · exact .removed removes watched
    · exact .renamedFrom renames watched
    · exact .renameSource renames target_watched

theorem writeReported_iff (watched : config.Watches path) :
    (∃ event ∈ raw.forwarded config, event.ReportsWritten path) ↔
      raw.CreatesFile path ∨ raw.ModifiesFile path ∨ raw.RenamesOneEnd .toPath path ∨
        ∃ source, raw.Renames source path := by
  constructor
  · rintro ⟨event, mem, rfl, kind⟩
    cases mem_forwarded_iff.1 mem with
    | createdConfig creates _ _ => exact Or.inl (creates)
    | created creates _ _ => exact Or.inl (creates)
    | modifiedConfig modifies _ _ => exact Or.inr (Or.inl (modifies))
    | modified modifies _ _ => exact Or.inr (Or.inl (modifies))
    | renamedTo renames _ => exact Or.inr (Or.inr (Or.inl (renames)))
    | renameTarget renames _ => exact Or.inr (Or.inr (Or.inr ⟨_, renames⟩))
    | removed _ _ => exact absurd kind (by simp)
    | renamedFrom _ _ => exact absurd kind (by simp)
    | renameSource _ _ => exact absurd kind (by simp)
  · have reported : ∀ {eventType}, Sends config raw (.new path eventType) →
        eventType ∈ [FileEventType.created, .modified, .configModified, .renamedTo] →
        ∃ event ∈ raw.forwarded config, event.ReportsWritten path := fun sends kind =>
      ⟨_, mem_forwarded_iff.2 sends, rfl, kind⟩
    rintro (creates | modifies | renames | ⟨source, renames⟩)
    · cases is_config : isConfigFile path with
      | true => exact reported (.createdConfig creates is_config watched.1) (by decide)
      | false => exact reported (.created creates is_config watched) (by decide)
    · cases is_config : isConfigFile path with
      | true => exact reported (.modifiedConfig modifies is_config watched.1) (by decide)
      | false => exact reported (.modified modifies is_config watched) (by decide)
    · exact reported (.renamedTo renames watched) (by decide)
    · exact reported (.renameTarget renames watched) (by decide)

theorem configReported_iff (is_config : isConfigFile path = true)
    (visible : config.shouldIgnorePath path = false) :
    (∃ event ∈ raw.forwarded config, event.ReportsConfig path) ↔
      raw.CreatesFile path ∨ raw.ModifiesFile path := by
  constructor
  · rintro ⟨event, mem, rfl, kind⟩
    cases mem_forwarded_iff.1 mem with
    | createdConfig creates _ _ => exact Or.inl (creates)
    | modifiedConfig modifies _ _ => exact Or.inr (modifies)
    | created _ _ _ => exact absurd kind (by simp)
    | modified _ _ _ => exact absurd kind (by simp)
    | removed _ _ => exact absurd kind (by simp)
    | renamedFrom _ _ => exact absurd kind (by simp)
    | renamedTo _ _ => exact absurd kind (by simp)
    | renameSource _ _ => exact absurd kind (by simp)
    | renameTarget _ _ => exact absurd kind (by simp)
  · intro conveyed
    refine ⟨.configModified path, mem_forwarded_iff.2 ?_, rfl, rfl⟩
    rcases conveyed with creates | modifies
    · exact .createdConfig creates is_config visible
    · exact .modifiedConfig modifies is_config visible

end Forwarding

/-- Nothing goes unreported exactly when every change is one the event can report. -/
theorem allReported_iff_conveyed (config : WatchConfig) (raw : RawEvent Contents) :
    AllReported config raw ↔ Conveyed config raw := by
  constructor
  · intro reported
    constructor
    · intro path watched vanished
      exact (deletionReported_iff watched).1 (reported.deleted path watched vanished)
    · intro path watched written
      exact (writeReported_iff watched).1 (reported.written path watched written)
    · intro path is_config visible changed
      exact (configReported_iff is_config visible).1
        (reported.configured path is_config visible changed)
  · intro conveyed
    constructor
    · intro path watched vanished
      exact (deletionReported_iff watched).2 (conveyed.vanished path watched vanished)
    · intro path watched written
      exact (writeReported_iff watched).2 (conveyed.written path watched written)
    · intro path is_config visible changed
      exact (configReported_iff is_config visible).2
        (conveyed.configured path is_config visible changed)

def watchRust : WatchConfig := ⟨["rs"], [], true⟩

def renamedAway : RawEvent Nat where
  event := ⟨.modify (.name .both), ["/p/a.rs", "/p/a.bak"]⟩
  before path := if path = "/p/a.rs" then some 0 else none
  after path := if path = "/p/a.bak" then some 0 else none
  isDir _ := false

/-- A file renamed to an extension that is not watched is not reported deleted. -/
theorem renamedAway_unreported : ¬AllReported watchRust renamedAway := by
  intro reported
  have watched : watchRust.Watches "/p/a.rs" := ⟨rfl, by decide +kernel⟩
  have vanished : renamedAway.Vanished "/p/a.rs" := ⟨by decide, by decide⟩
  obtain ⟨event, mem, -⟩ := reported.deleted "/p/a.rs" watched vanished
  have nothing : renamedAway.forwarded watchRust = [] := by decide +kernel
  rw [nothing] at mem
  exact absurd mem not_mem_nil

end ContextEngine
