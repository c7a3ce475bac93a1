import RocketmqProxy.Lib.Decimal
import RocketmqProxy.Lib.Gregorian
import RocketmqProxy.Request

/-!
# The logger

`ProxyLogger` and the thread that runs `loopConsumeLog`.  `step` is one action of that
thread or a `writeLog` of another one.  What the thread does with `unit`, `data` and `count`
between `try_pop` and `checkAndSendLog` is one action, and `checkAndSendLog` is its test, the
sending and the reset that follows.
-/

namespace RocketmqProxy

/-! ## Property trees -/

/-- `boost::property_tree::ptree`. -/
inductive Ptree
  | node (data : String) (children : List (String × Ptree))

namespace Ptree

def data : Ptree → String
  | node data _ => data

def children : Ptree → List (String × Ptree)
  | node _ children => children

def empty : Ptree := .node "" []

/-- The child that a path of one key leads to. -/
def child (tree : Ptree) (key : String) : Option Ptree := tree.children.lookup key

def putChild (key data : String) : List (String × Ptree) → List (String × Ptree)
  | [] => [(key, .node data [])]
  | (k, tree) :: rest =>
    if k = key then (k, .node data tree.children) :: rest
    else (k, tree) :: putChild key data rest

/-- `put` with a path of one key. -/
def put (tree : Ptree) (key data : String) : Ptree :=
  .node tree.data (putChild key data tree.children)

end Ptree

/-- What the logger finds on its host: the offset of `localtime` from UTC, in seconds, and
the functions of boost's property trees, with `none` for a call that throws. -/
structure Platform where
  zone : Int
  writeJson : Ptree → String
  readJson : String → Option Ptree
  /-- The translator of `get<bool>`. -/
  toBool : String → Option Bool

/-! ## Time stamps -/

structure Tm where
  tmYear : Int
  tmMon : Nat
  tmMday : Nat
  tmHour : Nat
  tmMin : Nat
  tmSec : Nat
deriving DecidableEq, Repr

def localtime (zone now : Int) : Tm :=
  let date := Gregorian.Date.ofDays ((now + zone) / 86400)
  let sec := ((now + zone) % 86400).toNat
  { tmYear := date.year - 1900, tmMon := date.month, tmMday := date.day, tmHour := sec / 3600,
    tmMin := sec % 3600 / 60, tmSec := sec % 60 }

/-- The size of the buffer `t` of `getTime`. -/
def timeBufferSize : Nat := 25

/-- The conversion `%02d`. -/
def twoDigits (n : Nat) : String := String.ofList (Decimal.pad 2 n)

/-- What `sprintf` writes, but for the zero at the end. -/
def timeText (ltm : Tm) : String :=
  toString (1900 + ltm.tmYear) ++ "-" ++ twoDigits (1 + ltm.tmMon) ++ "-" ++
    twoDigits ltm.tmMday ++ "T" ++ twoDigits ltm.tmHour ++ ":" ++ twoDigits ltm.tmMin ++ ":" ++
    twoDigits ltm.tmSec ++ ".000+0800"

def getTime (zone now : Int) (timeStr : String) : String :=
  timeStr ++ timeText (localtime zone (now + 28800))

/-! ## Entries -/

def LogUnit.json (unit : LogUnit) (timeStr : String) : Ptree :=
  (((((((Ptree.empty.put "type" (toString unit.type)).put "msgId" unit.msgId).put
    "topic" unit.topic).put "group" unit.group).put
    "delayLevel" (toString unit.delayLevel)).put "status" (toString unit.status)).put
    "body" unit.body).put "created_at" timeStr

/-- The `init` of `loopConsumeLog`, which goes in front of each entry. -/
def bulkHeader : String :=
  "\x7b \"index\": \x7b \"_index\": \"msg\", \"_type\": \"msg\"\x7d\x7d\n"

/-- What an entry that is taken at the time `now` adds to `data`. -/
def LogUnit.encode (unit : LogUnit) (p : Platform) (now : Int) : String :=
  bulkHeader ++ (p.writeJson (unit.json (getTime p.zone now "")) ++ "\n")

/-! ## Sending -/

/-- `CURLE_OK`. -/
def curleOk : Int := 0

/-- How a transfer ends, and the chunks of the body that came with it. -/
inductive Transfer
  /-- `curl_easy_init` has returned the null pointer. -/
  | noHandle
  | performed (res : Int) (chunks : List String)
deriving DecidableEq, Repr

def writeData (str chunk : String) : String := str ++ chunk

/-- `ret`, when `curl_easy_perform` has returned. -/
def Transfer.ret : Transfer → String
  | noHandle => ""
  | performed _ chunks => chunks.foldl writeData ""

/-- `get<bool>` with a path of one key. -/
def Platform.getBool (p : Platform) (tree : Ptree) (key : String) : Option Bool :=
  (tree.child key).bind fun c => p.toBool c.data

/-- `bulk`, or `none` if an exception leaves it. -/
def bulk (p : Platform) (transfer : Transfer) : Option Bool :=
  match transfer with
  | .noHandle => some false
  | .performed res _ =>
    if res = curleOk then do
      let jsonItem ← p.readJson transfer.ret
      match jsonItem.child "errors" with
      | some _ => do
        let hasError ← p.getBool jsonItem "errors"
        if hasError then some false else some true
      | none => some false
    else some false

/-! ## The loop -/

/-- `loopConsumeLog`.  `drained` tells the call of `checkAndSendLog` behind the inner loop
from the one inside. -/
inductive LoggerPc
  | pop
  | check (drained : Bool)
  /-- The test of `checkAndSendLog` was true. -/
  | send (drained : Bool)
  /-- `data` has been sent or written. -/
  | clear (drained : Bool)
  | sleep
  /-- An exception has left the function, which ends the process. -/
  | terminated
deriving DecidableEq, Repr

/-- Where the loop goes on after `checkAndSendLog`. -/
def LoggerPc.after (drained : Bool) : LoggerPc := if drained then .sleep else .pop

/-- What an action shows of itself. -/
inductive LoggerObs
  | pushed (unit : LogUnit)
  /-- `unit` has been taken and added to `data`, with the time `now`. -/
  | popped (unit : LogUnit) (now : Int)
  /-- A call of `bulk`, with what it has returned. -/
  | bulk (data : String) (ret : Option Bool)
  /-- `fwrite` to the log file. -/
  | written (data : String)
  /-- `data` is empty again. -/
  | flushed (data : String)
deriving DecidableEq, Repr

/-- The members of the logger and the variables of `loopConsumeLog`. -/
structure ProxyLogger where
  max : Int
  logQueue : List LogUnit
  esErrorCount : Int
  esErrorMax : Int
  logFileOpened : Bool
  /-- What has been appended to the log file. -/
  logFile : String
  count : Int
  data : String
  lastTime : Int
  pc : LoggerPc
  /-- What has happened so far.  No action reads it. -/
  trace : List LoggerObs
deriving DecidableEq, Repr

inductive LoggerEvent
  /-- Another thread calls `writeLog`. -/
  | writeLog (unit : LogUnit)
  /-- The loop goes on.  It may read the clock and make a transfer. -/
  | loop (now : Int) (transfer : Transfer)
deriving DecidableEq, Repr

namespace ProxyLogger

/-- The constructor, and the loop before its first turn. -/
def new (max : Int) (logFileOpened : Bool) (now : Int) : ProxyLogger :=
  { max := max, logQueue := [], esErrorCount := 0, esErrorMax := 10,
    logFileOpened := logFileOpened, logFile := "", count := 0, data := "", lastTime := now,
    pc := .pop, trace := [] }

def writeLog (l : ProxyLogger) (unit : LogUnit) : ProxyLogger :=
  { l with logQueue := l.logQueue ++ [unit], trace := l.trace ++ [.pushed unit] }

/-- The body of the inner loop, up to `checkAndSendLog`. -/
def append (l : ProxyLogger) (p : Platform) (unit : LogUnit) (rest : List LogUnit) (now : Int) :
    ProxyLogger :=
  { l with
    logQueue := rest
    data := l.data ++ unit.encode p now
    count := l.count + 1
    pc := .check false
    trace := l.trace ++ [.popped unit now] }

/-- The test of `checkAndSendLog`. -/
def due (l : ProxyLogger) (now : Int) : Bool :=
  l.count ≥ l.max || (now - l.lastTime > 1 && l.data ≠ "")

/-- `logFileOpened && fwrite(data.c_str(), data.size(), 1, logFile)`. -/
def writeFile (l : ProxyLogger) : ProxyLogger :=
  if l.logFileOpened then
    { l with logFile := l.logFile ++ l.data, trace := l.trace ++ [.written l.data] }
  else l

/-- The call of `bulk`, and the file as the other place for what it does not take. -/
def send (l : ProxyLogger) (p : Platform) (transfer : Transfer) (drained : Bool) :
    ProxyLogger :=
  if l.esErrorCount ≥ l.esErrorMax then { l.writeFile with pc := .clear drained }
  else
    let l' := { l with trace := l.trace ++ [LoggerObs.bulk l.data (bulk p transfer)] }
    match bulk p transfer with
    | none => { l' with pc := .terminated }
    | some true => { l' with pc := .clear drained }
    | some false =>
      { l'.writeFile with esErrorCount := l.esErrorCount + 1, pc := .clear drained }

def clear (l : ProxyLogger) (now : Int) (drained : Bool) : ProxyLogger :=
  { l with
    data := ""
    count := 0
    lastTime := now
    pc := .after drained
    trace := l.trace ++ [.flushed l.data] }

def loop (l : ProxyLogger) (p : Platform) (now : Int) (transfer : Transfer) :
    Option ProxyLogger :=
  match l.pc with
  | .pop =>
    match l.logQueue with
    | unit :: rest => some (l.append p unit rest now)
    | [] => some { l with pc := .check true }
  | .check drained =>
    if l.due now then some { l with pc := .send drained }
    else some { l with pc := .after drained }
  | .send drained => some (l.send p transfer drained)
  | .clear drained => some (l.clear now drained)
  | .sleep => some { l with pc := .pop }
  | .terminated => none

def step (p : Platform) (l : ProxyLogger) : LoggerEvent → Option ProxyLogger
  | .writeLog unit => some (l.writeLog unit)
  | .loop now transfer => l.loop p now transfer

end ProxyLogger
end RocketmqProxy
