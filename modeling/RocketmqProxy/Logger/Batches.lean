import RocketmqProxy.Lib.Batches
import RocketmqProxy.Lib.History
import RocketmqProxy.Logger.Step

/-!
# What the logger makes of its entries

Each entry is sent once, in order, in a batch of bounded size, and each batch reaches one
sink, whatever the clock, the queue and Elasticsearch do.
-/

namespace RocketmqProxy
namespace ProxyLogger

variable {p : Platform} {l l' : ProxyLogger} {e : LoggerEvent}

/-! ## The text -/

/-- The strings flushed so far and `data` are the entries taken, in order. -/
def TextInv (p : Platform) (l : ProxyLogger) : Prop :=
  String.join l.flushed ++ l.data = String.join (l.entries p)

/-- An action that takes no entry and flushes nothing is recorded. -/
theorem TextInv.record {o : LoggerObs} (h : TextInv p l) (ht : l'.trace = l.trace ++ [o])
    (he : o.entry p = none) (hf : o.flushedData = none) (hd : l'.data = l.data) :
    TextInv p l' := by
  rw [TextInv, flushed, entries, ht, History.filterMap_concat_none he,
    History.filterMap_concat_none hf, hd]
  exact h

theorem TextInv.writeFile (h : TextInv p l) : TextInv p l.writeFile := by
  rw [ProxyLogger.writeFile]
  split
  · exact h.record rfl rfl rfl rfl
  · exact h

theorem textInv_new {max now : Int} {logFileOpened : Bool} :
    TextInv p (new max logFileOpened now) := rfl

theorem Step.textInv (h : Step p l e l') (hi : TextInv p l) : TextInv p l' := by
  cases h with
  | writeLog => exact hi.record rfl rfl rfl rfl
  | @popped now transfer unit rest =>
    have hentries : (l.append p unit rest now).entries p =
        l.entries p ++ [unit.encode p now] :=
      History.filterMap_concat _ _ _
    have hflushed : (l.append p unit rest now).flushed = l.flushed :=
      History.filterMap_concat_none rfl _
    rw [TextInv, hentries, hflushed, String.join_append, ← hi, String.join_cons,
      String.join_nil, String.append_empty]
    exact String.append_assoc.symm
  | drained | due | notDue | slept => exact hi
  | switched => exact hi.writeFile
  | threw | accepted => exact hi.record rfl rfl rfl rfl
  | refused =>
    have hi' : TextInv p { l with trace := l.trace ++ [.bulk l.data (some false)] } :=
      hi.record rfl rfl rfl rfl
    exact hi'.writeFile
  | @cleared now transfer drained =>
    have hentries : (l.clear now drained).entries p = l.entries p :=
      History.filterMap_concat_none rfl _
    have hflushed : (l.clear now drained).flushed = l.flushed ++ [l.data] :=
      History.filterMap_concat _ _ _
    rw [TextInv, hentries, hflushed, String.join_append, ← hi, String.join_cons,
      String.join_nil, String.append_empty]
    exact String.append_empty

/-- The text is the entries, whatever `max` is. -/
theorem reachable_text {max now : Int} {logFileOpened : Bool}
    (h : Reachable p max logFileOpened now l) : TextInv p l :=
  h.invariant textInv_new fun _ _ _ _ hi _ hs => (step_cases hs).textInv hi

/-! ## The buffer -/

/-- `count` is below `max` where the next entry may come, and at most `max` elsewhere. -/
def Room (l : ProxyLogger) : Prop :=
  match l.pc with
  | .pop | .check true | .sleep => l.count < l.max
  | _ => l.count ≤ l.max

theorem Room.le (h : l.Room) : l.count ≤ l.max := by
  rw [Room] at h
  split at h
  · exact h.le
  · exact h.le
  · exact h.le
  · exact h

/-- `data` holds the entries behind the last batch, and `count` counts them. -/
structure Buffered (p : Platform) (l : ProxyLogger) (batches : List (List String))
    (waiting : List String) : Prop where
  split : Batches.Split l.max (l.entries p) batches waiting
  flushed : l.flushed = batches.map String.join
  data : l.data = String.join waiting
  count : l.count = waiting.length

structure BufferInv (p : Platform) (l : ProxyLogger) : Prop where
  max_pos : 1 ≤ l.max
  room : l.Room
  buffered : ∃ batches waiting, Buffered p l batches waiting

theorem Buffered.of_eq {batches : List (List String)} {waiting : List String}
    (h : Buffered p l batches waiting) (hm : l'.max = l.max) (ht : l'.trace = l.trace)
    (hd : l'.data = l.data) (hc : l'.count = l.count) : Buffered p l' batches waiting where
  split := by rw [hm, entries, ht]; exact h.split
  flushed := by rw [ProxyLogger.flushed, ht]; exact h.flushed
  data := hd.trans h.data
  count := hc.trans h.count

/-- An action that takes no entry and flushes nothing is recorded. -/
theorem Buffered.record {batches : List (List String)} {waiting : List String} {o : LoggerObs}
    (h : Buffered p l batches waiting) (ht : l'.trace = l.trace ++ [o])
    (he : o.entry p = none) (hf : o.flushedData = none) (hm : l'.max = l.max)
    (hd : l'.data = l.data) (hc : l'.count = l.count) : Buffered p l' batches waiting where
  split := by
    rw [hm, entries, ht, History.filterMap_concat_none he]
    exact h.split
  flushed := by
    rw [ProxyLogger.flushed, ht, History.filterMap_concat_none hf]
    exact h.flushed
  data := hd.trans h.data
  count := hc.trans h.count

theorem Buffered.append {batches : List (List String)} {waiting : List String}
    (h : Buffered p l batches waiting) (unit : LogUnit) (rest : List LogUnit) (now : Int) :
    Buffered p (l.append p unit rest now) batches (waiting ++ [unit.encode p now]) where
  split := by
    have hentries : (l.append p unit rest now).entries p =
        l.entries p ++ [unit.encode p now] :=
      History.filterMap_concat _ _ _
    rw [hentries]
    exact h.split.add _
  flushed := by
    have hflushed : (l.append p unit rest now).flushed = l.flushed :=
      History.filterMap_concat_none rfl _
    rw [hflushed]
    exact h.flushed
  data := by
    show l.data ++ _ = _
    rw [h.data, String.join_append, String.join_cons, String.join_nil, String.append_empty]
  count := by
    show l.count + 1 = _
    rw [h.count, List.length_append]
    rfl

theorem Buffered.clear {batches : List (List String)} {waiting : List String}
    (h : Buffered p l batches waiting) (hle : l.count ≤ l.max) (now : Int) (drained : Bool) :
    Buffered p (l.clear now drained) (batches ++ [waiting]) [] where
  split := by
    have hentries : (l.clear now drained).entries p = l.entries p :=
      History.filterMap_concat_none rfl _
    rw [hentries]
    exact h.split.send (h.count ▸ hle)
  flushed := by
    have hflushed : (l.clear now drained).flushed = l.flushed ++ [l.data] :=
      History.filterMap_concat _ _ _
    rw [hflushed, List.map_append, h.flushed, h.data]
    rfl
  data := rfl
  count := rfl

theorem Buffered.writeFile {batches : List (List String)} {waiting : List String}
    (h : Buffered p l batches waiting) : Buffered p l.writeFile batches waiting := by
  rw [ProxyLogger.writeFile]
  split
  · exact h.record rfl rfl rfl rfl rfl rfl
  · exact h

@[simp] theorem writeFile_max (l : ProxyLogger) : l.writeFile.max = l.max := by
  rw [writeFile]; split <;> rfl

@[simp] theorem writeFile_count (l : ProxyLogger) : l.writeFile.count = l.count := by
  rw [writeFile]; split <;> rfl

theorem Step.bufferInv (h : Step p l e l') (hi : BufferInv p l) : BufferInv p l' := by
  obtain ⟨hpos, hroom, batches, waiting, hb⟩ := hi
  have hle := hroom.le
  cases h with
  | writeLog => exact ⟨hpos, hroom, batches, waiting, hb.record rfl rfl rfl rfl rfl rfl⟩
  | popped hp hq =>
    refine ⟨hpos, ?_, batches, _, hb.append _ _ _⟩
    rw [Room, hp] at hroom
    exact hroom
  | drained hp hq =>
    rw [Room, hp] at hroom
    exact ⟨hpos, hroom, batches, waiting, hb.of_eq rfl rfl rfl rfl⟩
  | due hp hd => exact ⟨hpos, hle, batches, waiting, hb.of_eq rfl rfl rfl rfl⟩
  | notDue hp hd =>
    have hlt : l.count < l.max := by
      rw [ProxyLogger.due, Bool.or_eq_false_iff] at hd
      exact not_le.mp (of_decide_eq_false hd.1)
    refine ⟨hpos, ?_, batches, waiting, hb.of_eq rfl rfl rfl rfl⟩
    rw [Room, LoggerPc.after]
    split <;> simp_all
  | switched hp he =>
    refine ⟨by simpa using hpos, by simpa [Room] using hle, batches, waiting, ?_⟩
    exact hb.writeFile.of_eq rfl rfl rfl rfl
  | threw hp he | accepted hp he =>
    exact ⟨hpos, hle, batches, waiting, hb.record rfl rfl rfl rfl rfl rfl⟩
  | refused hp he =>
    have hb' : Buffered p { l with trace := l.trace ++ [.bulk l.data (some false)] }
        batches waiting := hb.record rfl rfl rfl rfl rfl rfl
    refine ⟨by simpa using hpos, by simpa [Room] using hle, batches, waiting, ?_⟩
    exact hb'.writeFile.of_eq rfl rfl rfl rfl
  | cleared hp =>
    refine ⟨hpos, ?_, _, _, hb.clear hle _ _⟩
    have hlt : (0 : Int) < l.max := by omega
    rw [Room, ProxyLogger.clear, LoggerPc.after]
    split <;> simp_all
  | slept hp =>
    rw [Room, hp] at hroom
    exact ⟨hpos, hroom, batches, waiting, hb.of_eq rfl rfl rfl rfl⟩

/-! ## The sinks -/

/-- Each string that has been flushed was taken by one sink, in the same order. -/
structure SinkInv (l : ProxyLogger) : Prop where
  opened : l.logFileOpened = true
  sinks : l.taken = l.flushed ++ l.inHand
  file : l.logFile = String.join l.written

theorem writeFile_opened (h : l.logFileOpened = true) : l.writeFile =
    { l with logFile := l.logFile ++ l.data, trace := l.trace ++ [.written l.data] } :=
  if_pos h

theorem SinkInv.of_eq (h : SinkInv l) (ho : l'.logFileOpened = l.logFileOpened)
    (ht : l'.trace = l.trace) (hh : l'.inHand = l.inHand) (hl : l'.logFile = l.logFile) :
    SinkInv l' where
  opened := ho.trans h.opened
  sinks := by rw [taken, flushed, ht, hh]; exact h.sinks
  file := by rw [hl, written, ht]; exact h.file

/-- An action that no sink has part in is recorded. -/
theorem SinkInv.record {o : LoggerObs} (h : SinkInv l) (ht : l'.trace = l.trace ++ [o])
    (htaken : o.takenData = none) (hflushed : o.flushedData = none)
    (hwritten : o.writtenData = none) (ho : l'.logFileOpened = l.logFileOpened)
    (hh : l'.inHand = l.inHand) (hl : l'.logFile = l.logFile) : SinkInv l' where
  opened := ho.trans h.opened
  sinks := by
    rw [taken, flushed, ht, History.filterMap_concat_none htaken,
      History.filterMap_concat_none hflushed, hh]
    exact h.sinks
  file := by
    rw [hl, written, ht, History.filterMap_concat_none hwritten]
    exact h.file

/-- A sink takes `data`, and nothing of it has been taken before. -/
theorem SinkInv.take {o : LoggerObs} (h : SinkInv l) (ht : l'.trace = l.trace ++ [o])
    (htaken : o.takenData = some l.data) (hflushed : o.flushedData = none)
    (hnone : l.inHand = []) (hhand : l'.inHand = [l.data]) :
    l'.taken = l'.flushed ++ l'.inHand := by
  have hs := h.sinks
  rw [hnone, List.append_nil] at hs
  rw [hhand, taken, flushed, ht, History.filterMap_concat, htaken,
    History.filterMap_concat_none hflushed]
  exact congrArg (· ++ [l.data]) hs

theorem SinkInv.write {drained : Bool} {count : Int} (h : SinkInv l)
    (hp : l.pc = .send drained) :
    SinkInv { l.writeFile with esErrorCount := count, pc := .clear drained } := by
  have hnone : l.inHand = [] := by rw [inHand, hp]
  rw [writeFile_opened h.opened]
  refine ⟨h.opened, h.take rfl rfl rfl hnone rfl, ?_⟩
  rw [written, History.filterMap_concat, String.join_append]
  show l.logFile ++ l.data = String.join l.written ++ String.join [l.data]
  rw [← h.file, String.join_cons, String.join_nil, String.append_empty]

theorem Step.sinkInv (h : Step p l e l') (hi : SinkInv l) : SinkInv l' := by
  cases h with
  | writeLog => exact hi.record rfl rfl rfl rfl rfl rfl rfl
  | popped hp hq =>
    refine hi.record rfl rfl rfl rfl rfl ?_ rfl
    rw [inHand, inHand, hp]
    rfl
  | drained hp | due hp | slept hp =>
    refine hi.of_eq rfl rfl ?_ rfl
    rw [inHand, inHand, hp]
  | @notDue now transfer drained hp hd =>
    refine hi.of_eq rfl rfl ?_ rfl
    rw [inHand, inHand, hp]
    cases drained <;> rfl
  | switched hp he => exact hi.write hp
  | threw hp he =>
    refine hi.record rfl rfl rfl rfl rfl ?_ rfl
    rw [inHand, inHand, hp]
  | accepted hp he =>
    have hnone : l.inHand = [] := by rw [inHand, hp]
    refine ⟨hi.opened, hi.take rfl rfl rfl hnone rfl, ?_⟩
    rw [written, History.filterMap_concat_none rfl]
    exact hi.file
  | refused hp he =>
    have hi' : SinkInv { l with trace := l.trace ++ [.bulk l.data (some false)] } :=
      hi.record rfl rfl rfl rfl rfl rfl rfl
    exact hi'.write hp
  | @cleared now transfer drained hp =>
    have hs := hi.sinks
    have hhand : l.inHand = [l.data] := by rw [inHand, hp]
    have hnone : (l.clear now drained).inHand = [] := by cases drained <;> rfl
    have htaken : (l.clear now drained).taken = l.taken := History.filterMap_concat_none rfl _
    have hflushed : (l.clear now drained).flushed = l.flushed ++ [l.data] :=
      History.filterMap_concat _ _ _
    have hwritten : (l.clear now drained).written = l.written :=
      History.filterMap_concat_none rfl _
    refine ⟨hi.opened, ?_, ?_⟩
    · rw [htaken, hflushed, hnone, List.append_nil, hs, hhand]
    · rw [hwritten]
      exact hi.file

/-! ## The queue -/

/-- The entries leave the queue in the order in which they have come. -/
def QueueInv (l : ProxyLogger) : Prop := l.pushed = l.popped ++ l.logQueue

/-- An action that leaves the queue alone is recorded. -/
theorem QueueInv.record {o : LoggerObs} (h : QueueInv l) (ht : l'.trace = l.trace ++ [o])
    (hpushed : o.pushedUnit = none) (hpopped : o.poppedUnit = none)
    (hq : l'.logQueue = l.logQueue) : QueueInv l' := by
  rw [QueueInv, pushed, popped, ht, History.filterMap_concat_none hpushed,
    History.filterMap_concat_none hpopped, hq]
  exact h

theorem QueueInv.writeFile (h : QueueInv l) : QueueInv l.writeFile := by
  rw [ProxyLogger.writeFile]
  split
  · exact h.record rfl rfl rfl rfl
  · exact h

theorem Step.queueInv (h : Step p l e l') (hi : QueueInv l) : QueueInv l' := by
  cases h with
  | @writeLog unit =>
    have hpushed : (l.writeLog unit).pushed = l.pushed ++ [unit] := History.filterMap_concat _ _ _
    have hpopped : (l.writeLog unit).popped = l.popped := History.filterMap_concat_none rfl _
    rw [QueueInv, hpushed, hpopped, hi]
    exact List.append_assoc _ _ _
  | @popped now transfer unit rest hp hq =>
    have hpushed : (l.append p unit rest now).pushed = l.pushed :=
      History.filterMap_concat_none rfl _
    have hpopped : (l.append p unit rest now).popped = l.popped ++ [unit] :=
      History.filterMap_concat _ _ _
    rw [QueueInv, hpushed, hpopped, hi, hq]
    exact List.append_cons _ _ _
  | drained | due | notDue | slept => exact hi
  | switched => exact hi.writeFile
  | threw | accepted | cleared => exact hi.record rfl rfl rfl rfl
  | refused hp he =>
    have hi' : QueueInv { l with trace := l.trace ++ [.bulk l.data (some false)] } :=
      hi.record rfl rfl rfl rfl
    exact hi'.writeFile

/-! ## The calls of `bulk` -/

/-- `esErrorCount` counts the calls that have failed, and each call was made while fewer
than `esErrorMax` calls had failed. -/
structure CallInv (l : ProxyLogger) : Prop where
  errors : l.esErrorCount = l.failed.length
  calls : ∀ h₁ data ret h₂, l.trace = h₁ ++ .bulk data ret :: h₂ →
    ((h₁.filterMap LoggerObs.failedData).length : Int) < l.esErrorMax

/-- An action that is no call of `bulk` is recorded. -/
theorem CallInv.record (h : CallInv l) {o : LoggerObs} (ho : ∀ data ret, o ≠ .bulk data ret)
    (he : l'.esErrorCount = l.esErrorCount) (hm : l'.esErrorMax = l.esErrorMax)
    (ht : l'.trace = l.trace ++ [o]) : CallInv l' where
  errors := by
    have hnone : o.failedData = none := by
      cases o with
      | bulk data ret => exact absurd rfl (ho data ret)
      | _ => rfl
    rw [he, h.errors, failed, failed, ht, History.filterMap_concat_none hnone]
  calls := by
    intro h₁ data ret h₂ heq
    rw [ht] at heq
    rw [hm]
    rcases History.concat_eq_append_cons heq with ⟨h₂', -, heq'⟩ | ⟨-, -, rfl⟩
    · exact h.calls h₁ data ret h₂' heq'
    · exact absurd rfl (ho data ret)

/-- A call of `bulk` is recorded, made while the errors allow it. -/
theorem CallInv.call (h : CallInv l) (hlt : l.esErrorCount < l.esErrorMax) {data : String}
    {ret : Option Bool}
    (he : l'.esErrorCount = l.esErrorCount + (if ret = some false then 1 else 0))
    (hm : l'.esErrorMax = l.esErrorMax) (ht : l'.trace = l.trace ++ [.bulk data ret]) :
    CallInv l' where
  errors := by
    rw [he, h.errors, failed, failed, ht, History.filterMap_concat]
    rcases ret with _ | ret
    · simp [LoggerObs.failedData]
    · cases ret <;> simp [LoggerObs.failedData]
  calls := by
    intro h₁ data' ret' h₂ heq
    rw [ht] at heq
    rw [hm]
    rcases History.concat_eq_append_cons heq with ⟨h₂', -, heq'⟩ | ⟨-, rfl, -⟩
    · exact h.calls h₁ data' ret' h₂' heq'
    · have hcount := h.errors
      rw [failed] at hcount
      omega

theorem CallInv.of_eq (h : CallInv l) (he : l'.esErrorCount = l.esErrorCount)
    (hm : l'.esErrorMax = l.esErrorMax) (ht : l'.trace = l.trace) : CallInv l' where
  errors := by rw [he, failed, ht]; exact h.errors
  calls := by rw [hm, ht]; exact h.calls

theorem CallInv.writeFile (h : CallInv l) : CallInv l.writeFile := by
  rw [ProxyLogger.writeFile]
  split
  · exact h.record (fun _ _ => by simp) rfl rfl rfl
  · exact h

theorem Step.callInv (h : Step p l e l') (hi : CallInv l) : CallInv l' := by
  cases h with
  | writeLog | popped | cleared => exact hi.record (fun _ _ => by simp) rfl rfl rfl
  | drained | due | notDue | slept => exact hi.of_eq rfl rfl rfl
  | switched => exact hi.writeFile.of_eq rfl rfl rfl
  | threw hp he | accepted hp he => exact hi.call he (by simp) rfl rfl
  | refused hp he =>
    have hi' : CallInv { l with
        esErrorCount := l.esErrorCount + 1
        trace := l.trace ++ [.bulk l.data (some false)] } :=
      hi.call he (by simp) rfl rfl
    have hw := hi'.writeFile
    refine hw.of_eq ?_ ?_ ?_ <;> rw [ProxyLogger.writeFile, ProxyLogger.writeFile] <;>
      split <;> rfl

/-! ## Runs -/

/-- What holds of the logger at every point of its loop. -/
structure Kept (p : Platform) (max : Int) (l : ProxyLogger) : Prop where
  /-- The entries written so far are those taken from the queue, and those in it. -/
  queue : l.pushed = l.popped ++ l.logQueue
  /-- The strings flushed so far and `data` are the entries taken, in order. -/
  order : String.join l.flushed ++ l.data = String.join (l.entries p)
  /-- Each string flushed is a batch of at most `max` entries, and `data` holds `count`. -/
  batches : ∃ batches waiting, Batches.Split max (l.entries p) batches waiting ∧
    l.flushed = batches.map String.join ∧ l.data = String.join waiting ∧
    l.count = waiting.length
  /-- Each string was taken by one sink. -/
  sinks : l.taken = l.flushed ++ l.inHand
  file : l.logFile = String.join l.written
  /-- No call of `bulk` was made when `esErrorMax` calls had failed. -/
  calls : ∀ h₁ data ret h₂, l.trace = h₁ ++ .bulk data ret :: h₂ →
    ((h₁.filterMap LoggerObs.failedData).length : Int) < l.esErrorMax

structure Inv (p : Platform) (l : ProxyLogger) : Prop where
  buffer : BufferInv p l
  sink : SinkInv l
  queue : QueueInv l
  call : CallInv l

theorem Step.inv (h : Step p l e l') (hi : Inv p l) : Inv p l' :=
  ⟨h.bufferInv hi.buffer, h.sinkInv hi.sink, h.queueInv hi.queue, h.callInv hi.call⟩

theorem inv_new {max now : Int} (hmax : 1 ≤ max) : Inv p (new max true now) where
  buffer := ⟨hmax, Int.lt_of_lt_of_le Int.one_pos hmax, [], [], .nil max, rfl, rfl, rfl⟩
  sink := ⟨rfl, rfl, rfl⟩
  queue := rfl
  call := ⟨rfl, fun h₁ _ _ _ heq => absurd heq (by simp [new])⟩

theorem step_max (h : Step p l e l') : l'.max = l.max := by
  cases h with
  | switched => exact writeFile_max l
  | refused => exact writeFile_max _
  | _ => rfl

theorem reachable_inv {max now : Int} (hmax : 1 ≤ max) (h : Reachable p max true now l) :
    Inv p l :=
  h.invariant (inv_new hmax) fun _ _ _ _ hi _ hs => (step_cases hs).inv hi

theorem reachable_max {max now : Int} {logFileOpened : Bool}
    (h : Reachable p max logFileOpened now l) : l.max = max :=
  h.invariant (I := fun l => l.max = max) rfl fun _ _ _ _ hm _ hs =>
    (step_max (step_cases hs)).trans hm

theorem Inv.kept (hi : Inv p l) (ht : TextInv p l) : Kept p l.max l := by
  obtain ⟨-, -, batches, waiting, hb⟩ := hi.buffer
  exact ⟨hi.queue, ht, ⟨batches, waiting, hb.split, hb.flushed, hb.data, hb.count⟩,
    hi.sink.sinks, hi.sink.file, hi.call.calls⟩

/-- Whatever is written to the logger, whatever its clock reads and however its transfers
end, no entry is lost or sent twice. -/
theorem nothing_lost {max now : Int} (hmax : 1 ≤ max) (h : Reachable p max true now l) :
    Kept p max l :=
  reachable_max h ▸ (reachable_inv hmax h).kept (reachable_text h)

/-- Elasticsearch takes the first of two entries, and the log file the second. -/
theorem nothing_lost_two : ∃ l, Reachable plainPlatform 1 true 0 l ∧ l.pc = .clear false ∧
    l.esErrorCount = 1 ∧ Kept plainPlatform 1 l := by
  have hrun : (Runs.exec (step plainPlatform) (new 1 true 0)
      [.writeLog ⟨1, "m", "t", "g", "b", 0, 0⟩, .writeLog ⟨2, "n", "t", "g", "b", 0, 0⟩,
        .loop 0 .noHandle, .loop 0 .noHandle,
        .loop 0 (.performed curleOk ["\x7b\"errors\":", "false\x7d"]), .loop 1 .noHandle,
        .loop 1 .noHandle, .loop 1 .noHandle, .loop 1 .noHandle]).map
        (fun l => (l.pc, l.esErrorCount)) = some (.clear false, 1) := by
    decide
  obtain ⟨l, hl, hfacts⟩ := Option.map_eq_some_iff.mp hrun
  obtain ⟨hpc, hcount⟩ := Prod.mk.inj hfacts
  have hreach : Reachable plainPlatform 1 true 0 l := .of_exec .init hl
  exact ⟨l, hreach, hpc, hcount, nothing_lost (le_refl 1) hreach⟩

end ProxyLogger
end RocketmqProxy
