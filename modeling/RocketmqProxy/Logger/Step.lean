import RocketmqProxy.Lib.Runs
import RocketmqProxy.Logger

/-!
# What one step of the logger can do

The steps by case, and what the trace of a run says of the entries and of the strings that
have been sent.
-/

namespace RocketmqProxy

/-! ## Views of the trace -/

namespace LoggerObs

def pushedUnit : LoggerObs → Option LogUnit
  | .pushed unit => some unit
  | _ => none

def poppedUnit : LoggerObs → Option LogUnit
  | .popped unit _ => some unit
  | _ => none

def entry (p : Platform) : LoggerObs → Option String
  | .popped unit now => some (unit.encode p now)
  | _ => none

def flushedData : LoggerObs → Option String
  | .flushed data => some data
  | _ => none

def writtenData : LoggerObs → Option String
  | .written data => some data
  | _ => none

/-- What a sink has taken: a `bulk` that has returned true, or the log file. -/
def takenData : LoggerObs → Option String
  | .bulk data (some true) => some data
  | .written data => some data
  | _ => none

/-- A call of `bulk` that has returned false. -/
def failedData : LoggerObs → Option String
  | .bulk data (some false) => some data
  | _ => none

end LoggerObs

namespace ProxyLogger

/-- The entries taken from the queue, as `data` got them. -/
def entries (p : Platform) (l : ProxyLogger) : List String := l.trace.filterMap (·.entry p)

/-- The strings that have been flushed. -/
def flushed (l : ProxyLogger) : List String := l.trace.filterMap LoggerObs.flushedData

/-- The strings that a sink has taken. -/
def taken (l : ProxyLogger) : List String := l.trace.filterMap LoggerObs.takenData

/-- The strings in the log file. -/
def written (l : ProxyLogger) : List String := l.trace.filterMap LoggerObs.writtenData

/-- The strings for which `bulk` has returned false. -/
def failed (l : ProxyLogger) : List String := l.trace.filterMap LoggerObs.failedData

/-- The entries that `writeLog` has put into the queue. -/
def pushed (l : ProxyLogger) : List LogUnit := l.trace.filterMap LoggerObs.pushedUnit

/-- The entries that the loop has taken from the queue. -/
def popped (l : ProxyLogger) : List LogUnit := l.trace.filterMap LoggerObs.poppedUnit

/-- The string that a sink has taken and that is still in `data`. -/
def inHand (l : ProxyLogger) : List String :=
  match l.pc with
  | .clear _ => [l.data]
  | _ => []

/-! ## Steps -/

inductive Step (p : Platform) (l : ProxyLogger) : LoggerEvent → ProxyLogger → Prop
  | writeLog {unit : LogUnit} : Step p l (.writeLog unit) (l.writeLog unit)
  | popped {now : Int} {transfer : Transfer} {unit : LogUnit} {rest : List LogUnit}
      (hp : l.pc = .pop) (hq : l.logQueue = unit :: rest) :
      Step p l (.loop now transfer) (l.append p unit rest now)
  | drained {now : Int} {transfer : Transfer} (hp : l.pc = .pop) (hq : l.logQueue = []) :
      Step p l (.loop now transfer) { l with pc := .check true }
  | due {now : Int} {transfer : Transfer} {drained : Bool} (hp : l.pc = .check drained)
      (hd : l.due now = true) : Step p l (.loop now transfer) { l with pc := .send drained }
  | notDue {now : Int} {transfer : Transfer} {drained : Bool} (hp : l.pc = .check drained)
      (hd : l.due now = false) : Step p l (.loop now transfer) { l with pc := .after drained }
  | switched {now : Int} {transfer : Transfer} {drained : Bool} (hp : l.pc = .send drained)
      (he : l.esErrorCount ≥ l.esErrorMax) :
      Step p l (.loop now transfer) { l.writeFile with pc := .clear drained }
  | threw {now : Int} {transfer : Transfer} {drained : Bool} (hp : l.pc = .send drained)
      (he : l.esErrorCount < l.esErrorMax) (hb : bulk p transfer = none) :
      Step p l (.loop now transfer)
        { l with pc := .terminated, trace := l.trace ++ [.bulk l.data none] }
  | accepted {now : Int} {transfer : Transfer} {drained : Bool} (hp : l.pc = .send drained)
      (he : l.esErrorCount < l.esErrorMax) (hb : bulk p transfer = some true) :
      Step p l (.loop now transfer)
        { l with pc := .clear drained, trace := l.trace ++ [.bulk l.data (some true)] }
  | refused {now : Int} {transfer : Transfer} {drained : Bool} (hp : l.pc = .send drained)
      (he : l.esErrorCount < l.esErrorMax) (hb : bulk p transfer = some false) :
      Step p l (.loop now transfer)
        { writeFile { l with trace := l.trace ++ [.bulk l.data (some false)] } with
          esErrorCount := l.esErrorCount + 1, pc := .clear drained }
  | cleared {now : Int} {transfer : Transfer} {drained : Bool} (hp : l.pc = .clear drained) :
      Step p l (.loop now transfer) (l.clear now drained)
  | slept {now : Int} {transfer : Transfer} (hp : l.pc = .sleep) :
      Step p l (.loop now transfer) { l with pc := .pop }

variable {p : Platform} {l l' : ProxyLogger}

theorem send_cases {now : Int} {transfer : Transfer} {drained : Bool}
    (hp : l.pc = .send drained) : Step p l (.loop now transfer) (l.send p transfer drained) := by
  rw [send]
  by_cases he : l.esErrorCount ≥ l.esErrorMax
  · rw [if_pos he]
    exact .switched hp he
  · rw [if_neg he]
    have he' : l.esErrorCount < l.esErrorMax := lt_of_not_ge he
    cases hb : bulk p transfer with
    | none => exact .threw hp he' hb
    | some ret =>
      cases ret with
      | false => exact .refused hp he' hb
      | true => exact .accepted hp he' hb

theorem step_cases {e : LoggerEvent} (h : step p l e = some l') : Step p l e l' := by
  cases e with
  | writeLog unit =>
    obtain rfl := Option.some.inj h
    exact .writeLog
  | loop now transfer =>
    rw [step, loop] at h
    split at h
    · rename_i hp
      split at h
      · rename_i unit rest hq
        obtain rfl := Option.some.inj h
        exact .popped hp hq
      · rename_i hq
        obtain rfl := Option.some.inj h
        exact .drained hp hq
    · rename_i drained hp
      split at h
      · rename_i hd
        obtain rfl := Option.some.inj h
        exact .due hp hd
      · rename_i hd
        obtain rfl := Option.some.inj h
        exact .notDue hp (Bool.not_eq_true _ ▸ hd)
    · rename_i drained hp
      obtain rfl := Option.some.inj h
      exact send_cases hp
    · rename_i drained hp
      obtain rfl := Option.some.inj h
      exact .cleared hp
    · rename_i hp
      obtain rfl := Option.some.inj h
      exact .slept hp
    · exact absurd h (by simp)

/-- The loop goes on unless an exception has left it. -/
theorem loop_eq_none (now : Int) (transfer : Transfer) :
    l.loop p now transfer = none ↔ l.pc = .terminated := by
  rw [loop]
  cases hp : l.pc with
  | pop => cases hq : l.logQueue <;> simp
  | check drained => cases hd : l.due now <;> simp
  | send | clear | sleep | terminated => simp

/-- States the logger reaches from its start at the time `now`. -/
abbrev Reachable (p : Platform) (max : Int) (logFileOpened : Bool) (now : Int) :
    ProxyLogger → Prop :=
  Runs.Reach (step p) (new max logFileOpened now) Runs.always

end ProxyLogger

/-- A host in UTC, on entries without characters to escape and on two answers of
Elasticsearch. -/
def plainPlatform : Platform where
  zone := 0
  writeJson tree := "\x7b" ++ ",".intercalate (tree.children.map fun c =>
    "\"" ++ c.1 ++ "\":\"" ++ c.2.data ++ "\"") ++ "\x7d\n"
  readJson body :=
    if body = "\x7b\"errors\":false\x7d" then some (.node "" [("errors", .node "false" [])])
    else if body = "\x7b\"errors\":true\x7d" then some (.node "" [("errors", .node "true" [])])
    else none
  toBool data := if data = "true" then some true else if data = "false" then some false else none

end RocketmqProxy
