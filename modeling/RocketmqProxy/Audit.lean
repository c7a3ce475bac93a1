import RocketmqProxy.Logger.Batches
import RocketmqProxy.Proxy.AuditLog
import RocketmqProxy.Server.ProduceCalls

/-!
# The server and its logger

The entries that the threads of the server write go into the queue of the logger, in the
order in which they are written, and from there to Elasticsearch or the log file.
-/

namespace RocketmqProxy

structure Audit where
  server : Server
  logger : ProxyLogger

inductive AuditEvent
  | server (e : ServerEvent)
  /-- The loop of the logger goes on. -/
  | logger (now : Int) (transfer : Transfer)
deriving DecidableEq, Repr

/-- The entries that a step from `s` to `s'` has written. -/
def Server.written (s s' : Server) : List LogUnit :=
  s'.proxy.logQueue.drop s.proxy.logQueue.length ++ s'.produceLog.drop s.produceLog.length

namespace Audit

/-- `main`, up to the threads: the log file is open, and the logger starts at `now`. -/
def init (max now : Int) : Audit := { server := .init, logger := .new max true now }

def step (p : Platform) (a : Audit) : AuditEvent → Option Audit
  | .server e => (a.server.step e).map fun server =>
    { server := server, logger := (a.server.written server).foldl ProxyLogger.writeLog a.logger }
  | .logger now transfer => (a.logger.loop p now transfer).map fun logger =>
    { a with logger := logger }

abbrev Reachable (p : Platform) (max now : Int) : Audit → Prop :=
  Runs.Reach (step p) (init max now) Runs.always

/-! ## What is written -/

theorem logQueue_grows {s s' : Proxy} {e : Event} (h : Proxy.Step s e s') :
    ∃ units, s'.logQueue = s.logQueue ++ units := by
  cases h with
  | ackStore | deliver => exact ⟨_, rfl⟩
  | _ => exact ⟨[], (List.append_nil _).symm⟩

theorem produceLog_grows {s s' : Server} (h : Server.CallsStep s s') :
    ∃ units, s'.produceLog = s.produceLog ++ units := by
  cases h with
  | none _ hl | starts _ _ _ _ hl => exact ⟨[], by rw [hl, List.append_nil]⟩
  | advance _ _ _ units _ _ _ hl => exact ⟨units, hl⟩

/-- A step writes to the two lists what `written` says. -/
theorem written_append {s s' : Server} {e : ServerEvent} (h : s.step e = some s') :
    ∃ units produced, s'.proxy.logQueue = s.proxy.logQueue ++ units ∧
      s'.produceLog = s.produceLog ++ produced ∧ s.written s' = units ++ produced := by
  have hstep := Server.step_cases h
  have hproxy : ∃ units, s'.proxy.logQueue = s.proxy.logQueue ++ units := by
    rcases hstep.proxyStep with he | ⟨e', he⟩
    · exact ⟨[], by rw [he, List.append_nil]⟩
    · exact logQueue_grows (Proxy.step_cases he)
  obtain ⟨units, hunits⟩ := hproxy
  obtain ⟨produced, hproduced⟩ := produceLog_grows hstep.calls
  refine ⟨units, produced, hunits, hproduced, ?_⟩
  rw [Server.written, hunits, hproduced, List.drop_left, List.drop_left]

theorem produceLog_type {s : Server} (h : Server.Reachable s) :
    ∀ unit ∈ s.produceLog, unit.type = proxyLoggerTypeProduce := by
  intro unit hmem
  obtain ⟨call, -, hcall⟩ := List.mem_flatMap.mp ((Server.produceInv h).log.mem_iff.mp hmem)
  rw [ProduceCallData.logged] at hcall
  split at hcall
  · rw [List.mem_singleton.mp hcall]
    rfl
  · cases hcall

/-! ## The queue of the logger -/

theorem foldl_writeLog_pushed (units : List LogUnit) (l : ProxyLogger) :
    (units.foldl ProxyLogger.writeLog l).pushed = l.pushed ++ units := by
  induction units generalizing l with
  | nil => exact (List.append_nil _).symm
  | cons unit units ih =>
    have hone : (l.writeLog unit).pushed = l.pushed ++ [unit] := History.filterMap_concat _ _ _
    rw [List.foldl_cons, ih, hone, List.append_assoc]
    rfl

theorem foldl_writeLog_reachable {p : Platform} {max now : Int} {l : ProxyLogger}
    (h : ProxyLogger.Reachable p max true now l) (units : List LogUnit) :
    ProxyLogger.Reachable p max true now (units.foldl ProxyLogger.writeLog l) := by
  induction units generalizing l with
  | nil => exact h
  | cons unit units ih => exact ih (h.step (e := .writeLog unit) trivial rfl)

/-- The two runs side by side, and what the one has written to the other. -/
structure Inv (p : Platform) (max now : Int) (a : Audit) : Prop where
  server : Server.Reachable a.server
  logger : ProxyLogger.Reachable p max true now a.logger
  proxy : a.logger.pushed.filter (fun unit => unit.type ≠ proxyLoggerTypeProduce) =
    a.server.proxy.logQueue
  produce : a.logger.pushed.filter (fun unit => unit.type = proxyLoggerTypeProduce) =
    a.server.produceLog

theorem logQueue_type {s : Server} (h : Server.Reachable s) :
    ∀ unit ∈ s.proxy.logQueue, unit.type ≠ proxyLoggerTypeProduce := by
  intro unit hmem
  rcases (Proxy.logged (Server.reachable_proxy h)).types unit hmem with ht | ht <;>
    · rw [ht]
      decide

theorem Inv.serverStep {p : Platform} {max now : Int} {a : Audit} (hi : Inv p max now a)
    {e : ServerEvent} {server : Server} (hs : a.server.step e = some server) :
    Inv p max now { server := server,
                    logger := (a.server.written server).foldl ProxyLogger.writeLog a.logger } := by
  have hreach : Server.Reachable server := hi.server.step trivial hs
  obtain ⟨units, produced, hunits, hproduced, hwritten⟩ := written_append hs
  have htype : ∀ unit ∈ units, unit.type ≠ proxyLoggerTypeProduce := fun unit hmem =>
    logQueue_type hreach unit (hunits ▸ List.mem_append_right _ hmem)
  have htype' : ∀ unit ∈ produced, unit.type = proxyLoggerTypeProduce := fun unit hmem =>
    produceLog_type hreach unit (hproduced ▸ List.mem_append_right _ hmem)
  rw [hwritten]
  refine ⟨hreach, foldl_writeLog_reachable hi.logger _, ?_, ?_⟩
  · rw [foldl_writeLog_pushed, List.filter_append, hi.proxy, hunits, List.filter_append,
      List.filter_eq_self.mpr (by simpa using htype),
      List.filter_eq_nil_iff.mpr (by simpa using htype'), List.append_nil]
  · rw [foldl_writeLog_pushed, List.filter_append, hi.produce, hproduced, List.filter_append,
      List.filter_eq_nil_iff.mpr (by simpa using htype),
      List.filter_eq_self.mpr (by simpa using htype'), List.nil_append]

theorem loop_pushed {p : Platform} {l l' : ProxyLogger} {now : Int} {transfer : Transfer}
    (h : l.loop p now transfer = some l') : l'.pushed = l.pushed := by
  have hfile : ∀ l : ProxyLogger, l.writeFile.pushed = l.pushed := fun l => by
    rw [ProxyLogger.writeFile]
    split
    · exact History.filterMap_concat_none rfl _
    · rfl
  cases ProxyLogger.step_cases (e := .loop now transfer) h with
  | popped | threw | accepted | cleared => exact History.filterMap_concat_none rfl _
  | switched => exact hfile l
  | refused => exact (hfile _).trans (History.filterMap_concat_none rfl _)
  | _ => rfl

theorem inv {p : Platform} {max now : Int} {a : Audit} (h : Reachable p max now a) :
    Inv p max now a := by
  refine h.invariant ⟨.init, .init, rfl, rfl⟩ fun a e a' _ hi _ hs => ?_
  cases e with
  | server e =>
    obtain ⟨server, hserver, rfl⟩ := Option.map_eq_some_iff.mp hs
    exact hi.serverStep hserver
  | logger now' transfer =>
    obtain ⟨logger, hlogger, rfl⟩ := Option.map_eq_some_iff.mp hs
    refine ⟨hi.server, hi.logger.step (e := .loop now' transfer) trivial hlogger, ?_, ?_⟩
    · exact (congrArg (List.filter _) (loop_pushed hlogger)).trans hi.proxy
    · exact (congrArg (List.filter _) (loop_pushed hlogger)).trans hi.produce

/-! ## From the events to the sinks -/

/-- The entries that the logger has got are those of what has happened, and it loses and
repeats none of them. -/
structure Complete (p : Platform) (max : Int) (a : Audit) : Prop where
  /-- One entry for each message delivered, in the order of the deliveries. -/
  deliveries : a.logger.pushed.filter (fun unit => unit.type = proxyLoggerTypeConsume) =
    Proxy.deliveryEntries a.server.proxy.trace
  /-- One entry for each ack accepted, in order, but for one that is yet to be written. -/
  acks : a.logger.pushed.filter (fun unit => unit.type = proxyLoggerTypeConsumeAcl) ++
      Proxy.unwritten a.server.proxy.grpc (a.server.proxy.ackCalls.map Proxy.ackEntry) =
    Proxy.ackEntries (a.server.proxy.ackCalls.map Proxy.ackEntry) a.server.proxy.trace
  /-- One entry for each Produce call whose last send has succeeded. -/
  produced : (a.logger.pushed.filter (fun unit => unit.type = proxyLoggerTypeProduce)).Perm
    (a.server.produceCalls.flatMap ProduceCallData.logged)
  types : ∀ unit ∈ a.logger.pushed, unit.type = proxyLoggerTypeProduce ∨
    unit.type = proxyLoggerTypeConsume ∨ unit.type = proxyLoggerTypeConsumeAcl
  kept : a.logger.Kept p max

/-- The entries of one kind, read off the queue of the proxy. -/
theorem Inv.filter_type {p : Platform} {max now : Int} {a : Audit} (hi : Inv p max now a)
    {type : Int} (ht : type ≠ proxyLoggerTypeProduce) :
    a.logger.pushed.filter (fun unit => unit.type = type) =
      a.server.proxy.logQueue.filter fun unit => unit.type = type := by
  rw [← hi.proxy, List.filter_filter]
  refine List.filter_congr fun unit _ => ?_
  by_cases hu : unit.type = type
  · simp [hu, ht]
  · simp [hu]

/-- However the threads of the server and the logger interleave, what has been delivered,
acked and produced is what the log gets, and each entry goes to one sink. -/
theorem audit_complete {p : Platform} {max now : Int} (hmax : 1 ≤ max) {a : Audit}
    (h : Reachable p max now a) : Complete p max a := by
  have hi := inv h
  have hlogged := Proxy.logged (Server.reachable_proxy hi.server)
  have hkept := (ProxyLogger.reachable_inv hmax hi.logger).kept
    (ProxyLogger.reachable_text hi.logger)
  rw [ProxyLogger.reachable_max hi.logger] at hkept
  refine ⟨?_, ?_, ?_, fun unit hmem => ?_, hkept⟩
  · rw [hi.filter_type (by decide)]
    exact hlogged.deliveries
  · rw [hi.filter_type (by decide)]
    exact hlogged.acks
  · rw [hi.produce]
    exact (Server.produceInv hi.server).log
  · by_cases ht : unit.type = proxyLoggerTypeProduce
    · exact .inl ht
    · refine .inr (hlogged.types unit ?_)
      rw [← hi.proxy]
      exact List.mem_filter.mpr ⟨hmem, by simpa using ht⟩

/-- A message is delivered and acked, and one of the two entries has been sent. -/
theorem audit_complete_acked : ∃ a, Reachable plainPlatform 1 0 a ∧
    a.logger.pushed.map (fun unit => unit.type) =
      [proxyLoggerTypeConsume, proxyLoggerTypeConsumeAcl] ∧
    a.logger.flushed.length = 1 ∧ Complete plainPlatform 1 a := by
  have hrun : (Runs.exec (step plainPlatform) (init 1 0)
      ([.server (.consume 1 "t" "g" 0)] ++ List.replicate 4 (.server (.proxy (.matcher 0 0 true))) ++
        [.server (.proxy (.callback 0 1 [(10, ⟨"m", "t", "b", 0⟩)])),
          .server (.proxy (.matcher 0 0 true)), .server (.consumeAck 1 "t" "g" "m" 0 0)] ++
        List.replicate 4 (.server (.proxy (.grpc 0 true))) ++
        List.replicate 4 (.logger 0 (.performed curleOk ["\x7b\"errors\":false\x7d"])))).map
        (fun a => (a.logger.pushed.map fun unit => unit.type, a.logger.flushed.length)) =
      some ([proxyLoggerTypeConsume, proxyLoggerTypeConsumeAcl], 1) := by
    decide
  obtain ⟨a, ha, hfacts⟩ := Option.map_eq_some_iff.mp hrun
  obtain ⟨htypes, hcount⟩ := Prod.mk.inj hfacts
  have hreach : Reachable plainPlatform 1 0 a := .of_exec .init ha
  exact ⟨a, hreach, htypes, hcount, audit_complete (le_refl 1) hreach⟩

end Audit
end RocketmqProxy
