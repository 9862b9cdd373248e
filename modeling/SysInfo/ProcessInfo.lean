import SysInfo.Effects
import SysInfo.MMap
import Mathlib.Data.Rat.Defs
/-!
# ProcessInfo — the object, its readers and its getters

A `ProcessInfo` caches what its readers last took from the files of `/proc/<pid>`; each source has a flag that says the
next getter needing it reads it again.  A reader that throws leaves the members it had set already (`Cpp`: an
exception keeps the state).  The operating system is a parameter (`Sys`): what the files, links and directories hold at
the time of the call, the clock, and what uninitialised memory holds.
-/
namespace SysInfo

open IStream Re Effects

/-! ## The environment of a call -/

/-- What a `directory_iterator` delivers: file names, and whether it ends by throwing. -/
structure Dir where
  names  : List (List Char)
  failed : Bool

structure Sys where
  file    : List Char → Option (List Char)  -- contents; `none` when the file cannot be opened
  link    : List Char → List Char           -- `read_symlink(path, ec).string()`, empty on error
  dir     : List Char → Dir
  rdev    : List Char → Option UInt64       -- `st_rdev`, when `stat` succeeds
  now     : Int                             -- `system_clock::now()`, in nanoseconds
  clkTck  : UInt64
  uptime  : UInt64
  mapJunk : Nat → MMap                      -- memory under the mapping built next
  stack   : UInt64 × UInt64 × UInt64        -- memory under the locals `nice`, `system`, `idle`

def Sys.ofFiles (file : List Char → Option (List Char)) : Sys where
  file := file
  link _ := []
  dir _ := ⟨[], true⟩
  rdev _ := none
  now := 0
  clkTck := 100
  uptime := 0
  mapJunk _ := MMap.filled 0
  stack := (0, 0, 0)

/-- Code on an object: it may throw, and the object stays as the exception found it. -/
abbrev Cpp (σ : Type) := EStateM Exn σ

/-! ## The object -/

/-- The numeric fields of `/proc/<pid>/stat` after the state letter. -/
inductive StatField where
  | ppid | pgid | session | ttyNr | tpgid | flags | minflt | cminflt | majflt | cmajflt | utime | stime | cutime | cstime
  | priority | nice | numThreads | itrealvalue | starttime | vmsize | rss | rsslim | startcode | endcode | startstack
  | kstkesp | kstkeip | signal | blocked | siginore | sigcatch | wchanAddr | nswap | cnswap | exitSignal | processor
  | rtPriority | policy | delayacctBlkioTicks | guestTime | cguestTime | startData | endData | startBrk | argStart
  | argEnd | envStart | envEnd | exitCode
deriving Repr, DecidableEq

namespace StatField

def order : List StatField :=
  [.ppid, .pgid, .session, .ttyNr, .tpgid, .flags, .minflt, .cminflt, .majflt, .cmajflt, .utime, .stime, .cutime,
    .cstime, .priority, .nice, .numThreads, .itrealvalue, .starttime, .vmsize, .rss, .rsslim, .startcode, .endcode,
    .startstack, .kstkesp, .kstkeip, .signal, .blocked, .siginore, .sigcatch, .wchanAddr, .nswap, .cnswap, .exitSignal,
    .processor, .rtPriority, .policy, .delayacctBlkioTicks, .guestTime, .cguestTime, .startData, .endData, .startBrk,
    .argStart, .argEnd, .envStart, .envEnd, .exitCode]

def type : StatField → CType
  | .ppid | .pgid | .session | .ttyNr | .tpgid | .exitSignal | .processor | .exitCode => .int
  | .flags | .rtPriority | .policy => .uint
  | .priority | .nice | .numThreads | .itrealvalue | .rss | .cguestTime => .long
  | _ => .ulong

abbrev Val (f : StatField) : Type := f.type.Val

theorem mem_order (f : StatField) : f ∈ order := by cases f <;> decide

theorem nodup_order : order.Nodup := by decide

end StatField

/-- The sizes of `/proc/<pid>/status`. -/
inductive VmField where
  | peak | lck | pin | hwm | rss | data | stk | exe | lib | pte | pmd | swap
deriving Repr, DecidableEq

namespace VmField

def key : VmField → List Char
  | .peak => "VmPeak".toList
  | .lck  => "VmLck".toList
  | .pin  => "VmPin".toList
  | .hwm  => "VmHWM".toList
  | .rss  => "VmRSS".toList
  | .data => "VmData".toList
  | .stk  => "VmStk".toList
  | .exe  => "VmExe".toList
  | .lib  => "VmLib".toList
  | .pte  => "VmPTE".toList
  | .pmd  => "VmPMD".toList
  | .swap => "VmSwap".toList

def all : List VmField := [.peak, .lck, .pin, .hwm, .rss, .data, .stk, .exe, .lib, .pte, .pmd, .swap]

def ofKey (k : List Char) : Option VmField := all.find? (fun f => f.key = k)

end VmField

/-- The counters of `/proc/<pid>/io`. -/
inductive IoField where
  | rchar | wchar | syscr | syscw | readBytes | writeBytes | cancelledWriteBytes
deriving Repr, DecidableEq

namespace IoField

def key : IoField → List Char
  | .rchar               => "rchar".toList
  | .wchar               => "wchar".toList
  | .syscr               => "syscr".toList
  | .syscw               => "syscw".toList
  | .readBytes           => "read_bytes".toList
  | .writeBytes          => "write_bytes".toList
  | .cancelledWriteBytes => "cancelled_write_bytes".toList

def all : List IoField := [.rchar, .wchar, .syscr, .syscw, .readBytes, .writeBytes, .cancelledWriteBytes]

def ofKey (k : List Char) : Option IoField := all.find? (fun f => f.key = k)

theorem ofKey_key (f : IoField) : ofKey f.key = some f := by cases f <;> rfl

end IoField

/-- `io_stat`: the counters and the time they were read at. -/
structure IoStat where
  counter  : IoField → UInt64
  lastRead : Int

namespace IoStat

def readBytes (io : IoStat) : UInt64 := io.counter .readBytes
def writeBytes (io : IoStat) : UInt64 := io.counter .writeBytes

end IoStat

/-- What has a `m_need_update_` flag. -/
inductive Source where
  | stat | status | io | cwd | exe | cmdline | root | environ | fd | wchan | smaps | cpuUsage | ioReadUsage
  | ioWriteUsage
deriving Repr, DecidableEq

structure ProcessInfo where
  mProcPath             : List Char
  mNeedUpdate           : Source → Bool
  mPid                  : Int32
  mName                 : List Char
  mState                : List Char
  mStat                 : (f : StatField) → f.Val
  mCmdline              : List (List Char)
  mCwd                  : List Char
  mExe                  : List Char
  mRoot                 : List Char
  mEnviron              : List Char → Option (List Char)
  mIo                   : IoStat
  mWchanName            : List Char
  mUids                 : List Int
  mGids                 : List Int
  mVm                   : VmField → UInt64
  mFds                  : Int → Option (List Char)
  mMaps                 : List MMap
  mCpuUsage             : Int32
  mIoReadUsage          : Rat
  mIoWriteUsage         : Rat
  mLastCpuTotalTime     : UInt64
  mLastProcessTotalTime : UInt64

namespace ProcessInfo

/-- `"/proc/" + std::to_string(pid) + "/"`. -/
def procPath (pid : Int32) : List Char := "/proc/".toList ++ (decimalInt pid.toInt ++ "/".toList)

/-- `needUpdate()`. -/
def needUpdate (p : ProcessInfo) : ProcessInfo := { p with mNeedUpdate := fun _ => true }

/-- `ProcessInfo(pid_t)`, on memory that held `junk`.  Strings and containers start empty and a `time_point` starts at
the epoch; the other members are not initialised. -/
def construct (junk : ProcessInfo) (pid : Int32) : ProcessInfo :=
  needUpdate { junk with
    mProcPath := procPath pid
    mNeedUpdate := fun _ => false
    mPid := pid
    mName := []
    mState := []
    mCmdline := []
    mCwd := []
    mExe := []
    mRoot := []
    mEnviron := fun _ => none
    mIo := { junk.mIo with lastRead := 0 }
    mWchanName := []
    mUids := []
    mGids := []
    mFds := fun _ => none
    mMaps := [] }

@[simp] theorem mProcPath_needUpdate (p : ProcessInfo) : p.needUpdate.mProcPath = p.mProcPath := rfl

@[simp] theorem mProcPath_construct (junk : ProcessInfo) (pid : Int32) :
    (construct junk pid).mProcPath = procPath pid := rfl

def zeroed : ProcessInfo where
  mProcPath := []
  mNeedUpdate _ := false
  mPid := 0
  mName := []
  mState := []
  mStat f := f.type.ofInt 0
  mCmdline := []
  mCwd := []
  mExe := []
  mRoot := []
  mEnviron _ := none
  mIo := ⟨fun _ => 0, 0⟩
  mWchanName := []
  mUids := []
  mGids := []
  mVm _ := 0
  mFds _ := none
  mMaps := []
  mCpuUsage := 0
  mIoReadUsage := 0
  mIoWriteUsage := 0
  mLastCpuTotalTime := 0
  mLastProcessTotalTime := 0

/-! ## Readers -/

def stateName (s : List Char) : List Char :=
  if s = ['R'] then "Running".toList
  else if s = ['S'] then "Sleeping".toList
  else if s = ['D'] then "Disk sleep".toList
  else if s = ['Z'] then "Zombie".toList
  else if s = ['T'] then "Stopped".toList
  else if s = ['W'] then "Waking".toList
  else s

/-- `if_stat >> this->m_...` for each field of a list. -/
def extractFields (s : IStream) (v : (f : StatField) → f.Val) : List StatField → IStream × ((f : StatField) → f.Val)
  | [] => (s, v)
  | f :: fs => extractFields (s.extractNum f.type (v f)).1 (Function.update v f (s.extractNum f.type (v f)).2) fs

/-- The body of `readStat`, on the stream it opens. -/
def parseStat (s : IStream) (p : ProcessInfo) : ProcessInfo :=
  let (s, pid) := s.extractNum .int p.mPid
  let (s, name) := s.extractWord p.mName
  let (s, state) := s.extractWord []
  { p with
    mPid := pid
    mName := (name.filter (· ≠ '(')).filter (· ≠ ')')
    mState := stateName state
    mStat := (extractFields s p.mStat StatField.order).2 }

def readStat (sys : Sys) : Cpp ProcessInfo Unit :=
  modify fun p => parseStat (openFile (sys.file (p.mProcPath ++ "stat".toList))) p

/-- The key and the value of a line `key: value`, and of an environment string `key=value`. -/
def keyValue (d : Char) (line : List Char) : List Char × List Char :=
  let (s, key) := (ofText line).getline d []
  (key, (s.getline '\n' []).2)

theorem keyValue_append {d : Char} {key : List Char} (h : d ∉ key) (v : List Char) :
    keyValue d (key ++ d :: v) = (key, v.takeWhile (· ≠ '\n')) := by
  rw [keyValue, getline_ofText d h]
  dsimp only
  rw [getline_snd_ofText]

/-- `^\s+([[:digit:]]+)\s+([[:digit:]]+)\s+([[:digit:]]+)\s+([[:digit:]]+)\s*$` -/
def regexUids : Re Char :=
  cat [plus isSpace, grp digits, plus isSpace, grp digits, plus isSpace, grp digits, plus isSpace, grp digits,
    .star isSpace]

/-- `^\s+([[:digit:]]+)\skB\s*$` -/
def regexVm : Re Char := cat [plus isSpace, grp digits, blank, chr 'k', chr 'B', .star isSpace]

/-- The four ids of a `Uid` or `Gid` line, pushed one after the other. -/
def parseIds (push : Int → ProcessInfo → ProcessInfo) (value : List Char) : Cpp ProcessInfo Unit :=
  match regexUids.fullMatch value with
  | some ids => ids.forM fun m => do
    let n ← lift (stoi 10 m)
    modify (push n)
  | none => pure ()

def pushUid (n : Int) (p : ProcessInfo) : ProcessInfo := { p with mUids := p.mUids ++ [n] }
def pushGid (n : Int) (p : ProcessInfo) : ProcessInfo := { p with mGids := p.mGids ++ [n] }

/-- One line of `/proc/<pid>/status`. -/
def statusLine (line : List Char) : Cpp ProcessInfo Unit :=
  let (key, value) := keyValue ':' line
  if key = "Uid".toList then parseIds pushUid value
  else if key = "Gid".toList then parseIds pushGid value
  else match VmField.ofKey key with
    | some f =>
      match regexVm.fullMatch value with
      | some [m] => do
        let n ← lift (stoi 10 m)
        modify fun p => { p with mVm := Function.update p.mVm f (UInt64.ofInt n) }
      | _ => pure ()
    | none => pure ()

def readStatus (sys : Sys) : Cpp ProcessInfo Unit := do
  let p ← get
  (getlines '\n' (openFile (sys.file (p.mProcPath ++ "status".toList)))).forM statusLine

/-- `m_environ[key] = value` for one string of `/proc/<pid>/environ`. -/
def environEntry (m : List Char → Option (List Char)) (env : List Char) : List Char → Option (List Char) :=
  let (key, value) := keyValue '=' env
  Function.update m key (some value)

def readEnviron (sys : Sys) : Cpp ProcessInfo Unit :=
  modify fun p =>
    { p with mEnviron :=
        (getlines '\x00' (openFile (sys.file (p.mProcPath ++ "environ".toList)))).foldl environEntry p.mEnviron }

/-- One line of `/proc/<pid>/io`. -/
def ioLine (line : List Char) : Cpp ProcessInfo Unit :=
  let (key, value) := keyValue ':' line
  match IoField.ofKey key with
  | some f => do
    let n ← lift (stol 10 (MMap.trim value))
    modify fun p => { p with mIo := { p.mIo with counter := Function.update p.mIo.counter f (UInt64.ofInt n) } }
  | none => pure ()

def readIo (sys : Sys) : Cpp ProcessInfo Unit := do
  modify fun p => { p with mIo := { p.mIo with lastRead := sys.now } }
  let p ← get
  (getlines '\n' (openFile (sys.file (p.mProcPath ++ "io".toList)))).forM ioLine

def readCwd (sys : Sys) : Cpp ProcessInfo Unit := modify fun p => { p with mCwd := sys.link (p.mProcPath ++ "cwd".toList) }

def readExe (sys : Sys) : Cpp ProcessInfo Unit := modify fun p => { p with mExe := sys.link (p.mProcPath ++ "exe".toList) }

def readRoot (sys : Sys) : Cpp ProcessInfo Unit :=
  modify fun p => { p with mRoot := sys.link (p.mProcPath ++ "root".toList) }

def readCmdline (sys : Sys) : Cpp ProcessInfo Unit :=
  modify fun p => { p with mCmdline := getlines '\x00' (openFile (sys.file (p.mProcPath ++ "cmdline".toList))) }

def readWchan (sys : Sys) : Cpp ProcessInfo Unit :=
  modify fun p =>
    { p with mWchanName := ((openFile (sys.file (p.mProcPath ++ "wchan".toList))).getline '\n' p.mWchanName).2 }

/-- `m_fds[stoi(name)] = read_symlink(fd / name)`. -/
def fdEntry (sys : Sys) (name : List Char) : Cpp ProcessInfo Unit := do
  let p ← get
  let target := sys.link (p.mProcPath ++ ("fd/".toList ++ name))
  let n ← lift (stoi 10 name)
  modify fun p => { p with mFds := Function.update p.mFds n (some target) }

/-- The iteration's own `filesystem_error` is caught, so a directory that fails stops it and nothing more. -/
def readFd (sys : Sys) : Cpp ProcessInfo Unit := do
  let p ← get
  (sys.dir (p.mProcPath ++ "fd".toList)).names.forM (fdEntry sys)

def setMaps (p : ProcessInfo) (ms : List MMap) : ProcessInfo := { p with mMaps := ms }

@[simp] theorem mMaps_setMaps (p : ProcessInfo) (ms : List MMap) : (p.setMaps ms).mMaps = ms := rfl
@[simp] theorem mProcPath_setMaps (p : ProcessInfo) (ms : List MMap) : (p.setMaps ms).mProcPath = p.mProcPath := rfl
@[simp] theorem setMaps_setMaps (p : ProcessInfo) (ms ms' : List MMap) : (p.setMaps ms).setMaps ms' = p.setMaps ms' := rfl

/-- `m_maps.push_back(MMap(ss))`: the stream afterwards. -/
def pushMap (sys : Sys) (ss : StringStream) : Cpp ProcessInfo StringStream := do
  let p ← get
  let (map, ss) ← lift (MMap.construct (sys.mapJunk p.mMaps.length) ss)
  modify fun p => p.setMaps (p.mMaps ++ [map])
  return ss

/-- One line of `/proc/<pid>/smaps`; a dash starts a new mapping. -/
def smapsLine (sys : Sys) (ss : StringStream) (line : List Char) : Cpp ProcessInfo StringStream := do
  if '-' ∈ line ∧ ss.buf ≠ [] then
    let ss ← pushMap sys ss
    return ((ss.clear.setStr []).put line).put ['\n']
  else return (ss.put line).put ['\n']

def readSmaps (sys : Sys) : Cpp ProcessInfo Unit := do
  modify fun p => p.setMaps []
  let p ← get
  match sys.file (p.mProcPath ++ "/smaps".toList) with
  | some text => do
    let ss ← (getlines '\n' (ofText text)).foldlM (smapsLine sys) (StringStream.ofText [])
    let _ ← pushMap sys ss
  | none => pure ()

/-! ## Getters -/

/-- `if (m_need_update_x) { readX(); m_need_update_x = false; }` -/
def refresh (src : Source) (read : Cpp ProcessInfo Unit) : Cpp ProcessInfo Unit := do
  if (← get).mNeedUpdate src then
    read
    modify fun p => { p with mNeedUpdate := Function.update p.mNeedUpdate src false }

/-- The reader behind a file's flag; a usage flag has none here. -/
def reader (sys : Sys) : Source → Cpp ProcessInfo Unit
  | .stat => readStat sys
  | .status => readStatus sys
  | .io => readIo sys
  | .cwd => readCwd sys
  | .exe => readExe sys
  | .cmdline => readCmdline sys
  | .root => readRoot sys
  | .environ => readEnviron sys
  | .fd => readFd sys
  | .wchan => readWchan sys
  | .smaps => readSmaps sys
  | .cpuUsage | .ioReadUsage | .ioWriteUsage => pure ()

def getter {α : Type} (sys : Sys) (src : Source) (value : ProcessInfo → α) : Cpp ProcessInfo α := do
  refresh src (reader sys src)
  return value (← get)

section Getters

variable (sys : Sys)

def pid : Cpp ProcessInfo Int32 := return (← get).mPid
def name : Cpp ProcessInfo (List Char) := getter sys .stat (·.mName)
def state : Cpp ProcessInfo (List Char) := getter sys .stat (·.mState)

def statGetter (f : StatField) : Cpp ProcessInfo f.Val := getter sys .stat (·.mStat f)

def ppid := statGetter sys .ppid
def pgid := statGetter sys .pgid
def sid := statGetter sys .session
def tpgid := statGetter sys .tpgid
def flags := statGetter sys .flags
def minflt := statGetter sys .minflt
def cminflt := statGetter sys .cminflt
def majflt := statGetter sys .majflt
def cmajflt := statGetter sys .cmajflt
def utime := statGetter sys .utime
def stime := statGetter sys .stime
def cutime := statGetter sys .cutime
def cstime := statGetter sys .cstime
def priority := statGetter sys .priority
def nice := statGetter sys .nice
def numThreads := statGetter sys .numThreads
def vmSize := statGetter sys .vmsize
def startCode := statGetter sys .startcode
def endCode := statGetter sys .endcode
def startStack := statGetter sys .startstack
def kstkEsp := statGetter sys .kstkesp
def kstkEip := statGetter sys .kstkeip
def wchanAddr := statGetter sys .wchanAddr
def processor := statGetter sys .processor
def rtPriority := statGetter sys .rtPriority
def delayacctBlkioTicks := statGetter sys .delayacctBlkioTicks
def guestTime := statGetter sys .guestTime
def startData := statGetter sys .startData
def endData := statGetter sys .endData
def startBrk := statGetter sys .startBrk
def startArg := statGetter sys .argStart
def endArg := statGetter sys .argEnd
def startEnv := statGetter sys .envStart
def endEnv := statGetter sys .envEnd

/-- The member is a `long`, the result an `unsigned long`. -/
def cguestTime : Cpp ProcessInfo UInt64 := getter sys .stat fun p => (p.mStat .cguestTime : Int64).toUInt64

/-- `policy()`. -/
def policyName (n : UInt32) : List Char :=
  if n = 0 then "SCHED_NORMAL".toList
  else if n = 1 then "SCHED_FIFO".toList
  else if n = 2 then "SCHED_RR".toList
  else if n = 3 then "SCHED_BATCH".toList
  else if n = 5 then "SCHED_IDLE".toList
  else if n = 6 then "SCHED_DEADLINE".toList
  else []

def policy : Cpp ProcessInfo (List Char) := getter sys .stat fun p => policyName (p.mStat .policy)

def startTime : Cpp ProcessInfo UInt64 :=
  getter sys .stat fun p =>
    let starttime : UInt64 := p.mStat .starttime
    sys.uptime - starttime / sys.clkTck

/-- `^tty\d*$` -/
def regexTty : Re Char := cat [chr 't', chr 't', chr 'y', .star Char.isDigit]

/-- The first file of a directory whose `st_rdev` is the terminal's number, among the names `keep` lets through. -/
def findTty (dir : List Char) (keep : List Char → Bool) (tty : Int32) : Except Exn (Option (List Char)) :=
  match (sys.dir dir).names.find? fun n => keep n && (sys.rdev (dir ++ ('/' :: n)) == some (UInt64.ofInt tty.toInt)) with
  | some n => .ok (some (dir ++ ('/' :: n)))
  | none   => if (sys.dir dir).failed then .error .filesystemError else .ok none

/-- `/dev/tty*` first, then `/dev/pts`. -/
def ttyPath (tty : Int32) : Except Exn (List Char) := do
  match ← findTty sys "/dev".toList (fun n => (regexTty.fullMatch n).isSome) tty with
  | some path => return path
  | none =>
    match ← findTty sys "/dev/pts".toList (fun _ => true) tty with
    | some path => return path
    | none => return []

def ttyNr : Cpp ProcessInfo (List Char) := do
  lift (ttyPath sys (← statGetter sys .ttyNr))

def cmdline : Cpp ProcessInfo (List (List Char)) := getter sys .cmdline (·.mCmdline)
def cwd : Cpp ProcessInfo (List Char) := getter sys .cwd (·.mCwd)
def exe : Cpp ProcessInfo (List Char) := getter sys .exe (·.mExe)
def root : Cpp ProcessInfo (List Char) := getter sys .root (·.mRoot)
def environ : Cpp ProcessInfo (List Char → Option (List Char)) := getter sys .environ (·.mEnviron)
def readBytes : Cpp ProcessInfo UInt64 := getter sys .io (·.mIo.readBytes)
def writeBytes : Cpp ProcessInfo UInt64 := getter sys .io (·.mIo.writeBytes)
def uids : Cpp ProcessInfo (List Int) := getter sys .status (·.mUids)
def gids : Cpp ProcessInfo (List Int) := getter sys .status (·.mGids)
def fds : Cpp ProcessInfo (Int → Option (List Char)) := getter sys .fd (·.mFds)
def wchanName : Cpp ProcessInfo (List Char) := getter sys .wchan (·.mWchanName)
def maps : Cpp ProcessInfo (List MMap) := getter sys .smaps (·.mMaps)

def vmGetter (f : VmField) : Cpp ProcessInfo UInt64 := getter sys .status (·.mVm f)

def vmPeak := vmGetter sys .peak
def vmLck := vmGetter sys .lck
def vmPin := vmGetter sys .pin
def vmHwm := vmGetter sys .hwm
def vmRss := vmGetter sys .rss
def vmData := vmGetter sys .data
def vmStk := vmGetter sys .stk
def vmExe := vmGetter sys .exe
def vmLib := vmGetter sys .lib
def vmPte := vmGetter sys .pte
def vmPmd := vmGetter sys .pmd
def vmSwap := vmGetter sys .swap

end Getters

/-! ## Getters by name, and what they may change -/

inductive Getter where
  | name | state | field (f : StatField) | cguestTime | policy | startTime | ttyNr
  | cmdline | cwd | exe | root | environ | readBytes | writeBytes | uids | gids | vm (f : VmField) | fds | wchanName | maps

namespace Getter

abbrev Val : Getter → Type
  | .name | .state | .policy | .ttyNr | .cwd | .exe | .root | .wchanName => List Char
  | .field f => f.Val
  | .cguestTime | .startTime | .readBytes | .writeBytes | .vm _ => UInt64
  | .cmdline => List (List Char)
  | .environ => List Char → Option (List Char)
  | .uids | .gids => List Int
  | .fds => Int → Option (List Char)
  | .maps => List MMap

def call (sys : Sys) : (g : Getter) → Cpp ProcessInfo g.Val
  | .name => ProcessInfo.name sys
  | .state => ProcessInfo.state sys
  | .field f => statGetter sys f
  | .cguestTime => ProcessInfo.cguestTime sys
  | .policy => ProcessInfo.policy sys
  | .startTime => ProcessInfo.startTime sys
  | .ttyNr => ProcessInfo.ttyNr sys
  | .cmdline => ProcessInfo.cmdline sys
  | .cwd => ProcessInfo.cwd sys
  | .exe => ProcessInfo.exe sys
  | .root => ProcessInfo.root sys
  | .environ => ProcessInfo.environ sys
  | .readBytes => ProcessInfo.readBytes sys
  | .writeBytes => ProcessInfo.writeBytes sys
  | .uids => ProcessInfo.uids sys
  | .gids => ProcessInfo.gids sys
  | .vm f => vmGetter sys f
  | .fds => ProcessInfo.fds sys
  | .wchanName => ProcessInfo.wchanName sys
  | .maps => ProcessInfo.maps sys

def source : Getter → Source
  | .name | .state | .field _ | .cguestTime | .policy | .startTime | .ttyNr => .stat
  | .cmdline => .cmdline
  | .cwd => .cwd
  | .exe => .exe
  | .root => .root
  | .environ => .environ
  | .readBytes | .writeBytes => .io
  | .uids | .gids | .vm _ => .status
  | .fds => .fd
  | .wchanName => .wchan
  | .maps => .smaps

end Getter

/-- `p` with the members of a source, and its flag, as `q` has them. -/
def take (src : Source) (p q : ProcessInfo) : ProcessInfo :=
  let p := { p with mNeedUpdate := Function.update p.mNeedUpdate src (q.mNeedUpdate src) }
  match src with
  | .stat => { p with mPid := q.mPid, mName := q.mName, mState := q.mState, mStat := q.mStat }
  | .status => { p with mUids := q.mUids, mGids := q.mGids, mVm := q.mVm }
  | .io => { p with mIo := q.mIo }
  | .cwd => { p with mCwd := q.mCwd }
  | .exe => { p with mExe := q.mExe }
  | .cmdline => { p with mCmdline := q.mCmdline }
  | .root => { p with mRoot := q.mRoot }
  | .environ => { p with mEnviron := q.mEnviron }
  | .fd => { p with mFds := q.mFds }
  | .wchan => { p with mWchanName := q.mWchanName }
  | .smaps => { p with mMaps := q.mMaps }
  | .cpuUsage | .ioReadUsage | .ioWriteUsage => p

/-- `q` differs from `p` in the members of a source and its flag only. -/
def OnlyChanges (src : Source) (p q : ProcessInfo) : Prop := q = take src p q

theorem take_self (src : Source) (p : ProcessInfo) : take src p p = p := by
  cases src <;> simp [take]

theorem take_take (src : Source) (p q r : ProcessInfo) : take src (take src p q) r = take src p r := by
  cases src <;> simp [take]

instance (src : Source) : IsPreorder ProcessInfo (OnlyChanges src) where
  refl p := (take_self src p).symm
  trans p q r hq hr := by
    calc r = take src q r := hr
      _ = take src (take src p q) r := by rw [← (show q = take src p q from hq)]
      _ = take src p r := take_take src p q r

/-- **A reader sets members of its source only**, also when it throws. -/
theorem moves_reader (sys : Sys) (src : Source) : Moves (OnlyChanges src) (reader sys src) := by
  have hm : ∀ {src} {g : ProcessInfo → ProcessInfo}, (∀ p, g p = take src p (g p)) →
      Moves (OnlyChanges src) (modify g : Cpp ProcessInfo Unit) := fun h => moves_modify h
  have hids : ∀ (push : Int → ProcessInfo → ProcessInfo) (value : List Char),
      (∀ n p, push n p = take .status p (push n p)) → Moves (OnlyChanges .status) (parseIds push value) := by
    intro push value h
    unfold parseIds
    split
    · exact moves_forM fun _ _ => (moves_lift _).bind fun n => moves_modify (h n)
    · exact moves_pure _
  cases src with
  | stat => exact hm fun p => by simp [take, parseStat]
  | environ | cwd | exe | root | cmdline | wchan => exact hm fun p => by simp [take]
  | status =>
    refine moves_get_bind fun p => moves_forM fun line _ => ?_
    unfold statusLine
    dsimp only
    split
    · exact hids pushUid _ fun n p => by simp [take, pushUid]
    split
    · exact hids pushGid _ fun n p => by simp [take, pushGid]
    split
    · split
      · exact (moves_lift _).bind fun n => hm fun p => by simp [take]
      · exact moves_pure _
    · exact moves_pure _
  | io =>
    refine (hm fun p => by simp [take]).bind fun _ => moves_get_bind fun p => moves_forM fun line _ => ?_
    unfold ioLine
    dsimp only
    split
    · exact (moves_lift _).bind fun n => hm fun p => by simp [take]
    · exact moves_pure _
  | fd =>
    exact moves_get_bind fun p => moves_forM fun name _ => moves_get_bind fun q =>
      (moves_lift _).bind fun n => hm fun p => by simp [take]
  | smaps =>
    have hpush : ∀ ss, Moves (OnlyChanges .smaps) (pushMap sys ss) := fun ss =>
      moves_get_bind fun p => (moves_lift _).bind fun r => (hm fun p => by simp [take, setMaps]).bind fun _ =>
        moves_pure _
    refine (hm fun p => by simp [take, setMaps]).bind fun _ => moves_get_bind fun p => ?_
    split
    · refine (moves_foldlM (fun ss line => ?_) _ _).bind fun ss => (hpush ss).bind fun _ => moves_pure _
      unfold smapsLine
      split
      · exact (hpush ss).bind fun _ => moves_pure _
      · exact moves_pure _
    · exact moves_pure _
  | cpuUsage | ioReadUsage | ioWriteUsage => exact moves_pure _

theorem moves_refresh (sys : Sys) (src : Source) : Moves (OnlyChanges src) (refresh src (reader sys src)) := by
  refine moves_get_bind fun p => ?_
  split
  · exact (moves_reader sys src).bind fun _ => moves_modify fun p => by
      cases src <;> simp [OnlyChanges, take]
  · exact moves_pure _

/-- **A getter changes its source's members and flag only.** -/
theorem moves_call (sys : Sys) (g : Getter) : Moves (OnlyChanges g.source) (g.call sys) := by
  have h : ∀ {α : Type} (src : Source) (value : ProcessInfo → α), Moves (OnlyChanges src) (getter sys src value) :=
    fun src value => (moves_refresh sys src).bind fun _ => moves_get_bind fun p => moves_pure _
  cases g with
  | ttyNr => exact (h .stat _).bind fun n => moves_lift _
  | _ => exact h _ _

end ProcessInfo

end SysInfo
