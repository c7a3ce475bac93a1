import RocketmqProxy.Logger.Step

/-!
# Answers of Elasticsearch

`bulk` tells the answers that report no errors from the others, but an answer that
`read_json` or `get<bool>` does not take leaves it as an exception, and the loop with it.
-/

namespace RocketmqProxy

namespace Transfer

variable (p : Platform) (transfer : Transfer)

/-- The transfer has succeeded. -/
def Ok : Transfer → Prop
  | noHandle => False
  | performed res _ => res = curleOk

/-- The body is JSON, and its `errors` is false. -/
def NoErrors : Prop := ∃ tree child, p.readJson transfer.ret = some tree ∧
  tree.child "errors" = some child ∧ p.toBool child.data = some false

/-- The body is JSON, and its `errors` is a boolean if it has one. -/
def Readable : Prop := ∃ tree, p.readJson transfer.ret = some tree ∧
  ∀ child, tree.child "errors" = some child → ∃ hasError, p.toBool child.data = some hasError

end Transfer

variable {p : Platform} {transfer : Transfer}

theorem bulk_of_not_ok (h : ¬ transfer.Ok) : bulk p transfer = some false := by
  cases transfer with
  | noHandle => rfl
  | performed res chunks => exact if_neg h

theorem bulk_of_ok (h : transfer.Ok) : bulk p transfer = (p.readJson transfer.ret).bind
    fun tree => match tree.child "errors" with
      | some child => (p.toBool child.data).map not
      | none => some false := by
  cases transfer with
  | noHandle => exact absurd h id
  | performed res chunks =>
    have hres : res = curleOk := h
    rw [bulk, if_pos hres]
    refine congrArg _ (funext fun tree => ?_)
    cases hchild : tree.child "errors" with
    | none => rfl
    | some child =>
      rw [Platform.getBool, hchild, Option.bind_some]
      show (p.toBool child.data).bind _ = (p.toBool child.data).map not
      cases p.toBool child.data with
      | none => rfl
      | some hasError => cases hasError <;> rfl

theorem bulk_eq_none_iff : bulk p transfer = none ↔ transfer.Ok ∧ ¬ transfer.Readable p := by
  by_cases hok : transfer.Ok
  · rw [bulk_of_ok hok, Transfer.Readable]
    cases htree : p.readJson transfer.ret with
    | none => simp [hok]
    | some tree =>
      cases hchild : tree.child "errors" with
      | none => simp [hchild]
      | some child => cases hbool : p.toBool child.data <;> simp [hok, hchild, hbool]
  · simp [bulk_of_not_ok hok, hok]

theorem bulk_eq_true_iff : bulk p transfer = some true ↔ transfer.Ok ∧ transfer.NoErrors p := by
  by_cases hok : transfer.Ok
  · rw [bulk_of_ok hok, Transfer.NoErrors]
    cases htree : p.readJson transfer.ret with
    | none => simp
    | some tree =>
      cases hchild : tree.child "errors" with
      | none => simp [hchild]
      | some child => cases hbool : p.toBool child.data <;> simp [hok, hchild, hbool]
  · simp [bulk_of_not_ok hok, hok]

namespace ProxyLogger

variable {l : ProxyLogger} {drained : Bool}

/-- `checkAndSendLog` calls `bulk` and gets the answer of `transfer`: `bulk` returns what the
answer says, and if that is false the entries are written to the log file and the error is
counted.  The loop goes on in either case. -/
structure Survives (p : Platform) (l : ProxyLogger) (transfer : Transfer) (drained : Bool) :
    Prop where
  returns : ∃ ret, bulk p transfer = some ret ∧
    (ret = true ↔ transfer.Ok ∧ transfer.NoErrors p)
  falls_back : bulk p transfer = some false →
    (l.send p transfer drained).written = l.written ++ [l.data] ∧
      (l.send p transfer drained).logFile = l.logFile ++ l.data ∧
        (l.send p transfer drained).esErrorCount = l.esErrorCount + 1
  goes_on : (l.send p transfer drained).pc = .clear drained

theorem send_true (he : l.esErrorCount < l.esErrorMax) (hb : bulk p transfer = some true) :
    (l.send p transfer drained).pc = .clear drained := by
  rw [send, if_neg (not_le_of_gt he), hb]

theorem send_false (he : l.esErrorCount < l.esErrorMax) (hb : bulk p transfer = some false) :
    l.send p transfer drained =
      { writeFile { l with trace := l.trace ++ [.bulk l.data (some false)] } with
        esErrorCount := l.esErrorCount + 1, pc := .clear drained } := by
  rw [send, if_neg (not_le_of_gt he), hb]

theorem written_send_false (he : l.esErrorCount < l.esErrorMax)
    (hb : bulk p transfer = some false) : (l.send p transfer drained).written =
      if l.logFileOpened then l.written ++ [l.data] else l.written := by
  rw [send_false he hb, writeFile]
  split <;> simp [written, List.filterMap_cons, LoggerObs.writtenData]

theorem survives_iff (he : l.esErrorCount < l.esErrorMax) :
    Survives p l transfer drained ↔ (transfer.Ok → transfer.Readable p) ∧
      (l.logFileOpened = true ∨ transfer.Ok ∧ transfer.NoErrors p) := by
  constructor
  · rintro ⟨⟨ret, hb, hret⟩, hfall, -⟩
    refine ⟨fun hok => ?_, ?_⟩
    · by_contra hread
      rw [bulk_eq_none_iff.mpr ⟨hok, hread⟩] at hb
      exact absurd hb (by simp)
    · cases ret with
      | true => exact .inr (hret.mp rfl)
      | false =>
        by_contra hnot
        have hclosed : l.logFileOpened = false := by
          simpa using fun hopen => hnot (.inl hopen)
        have hwritten := (hfall hb).1
        rw [written_send_false he hb, hclosed] at hwritten
        exact absurd hwritten (by simp)
  · rintro ⟨hread, hsink⟩
    cases hb : bulk p transfer with
    | none =>
      obtain ⟨hok, hnot⟩ := bulk_eq_none_iff.mp hb
      exact absurd (hread hok) hnot
    | some ret =>
      cases ret with
      | true =>
        exact ⟨⟨true, hb, iff_of_true rfl (bulk_eq_true_iff.mp hb)⟩,
          fun hfalse => absurd (hb.symm.trans hfalse) (by simp), send_true he hb⟩
      | false =>
        have hnot : ¬ (transfer.Ok ∧ transfer.NoErrors p) := fun h =>
          absurd (hb.symm.trans (bulk_eq_true_iff.mpr h)) (by simp)
        have hopen := hsink.resolve_right hnot
        refine ⟨⟨false, hb, iff_of_false Bool.false_ne_true hnot⟩, fun _ => ⟨?_, ?_, ?_⟩, ?_⟩
        · rw [written_send_false he hb, if_pos hopen]
        · rw [send_false he hb, writeFile, if_pos hopen]
        · rw [send_false he hb]
        · rw [send_false he hb]

/-- An answer with errors, and a log file. -/
theorem survives_errors :
    let l : ProxyLogger := { new 1 true 0 with count := 1, data := "x", pc := .send false }
    let transfer : Transfer := .performed curleOk ["\x7b\"errors\":", "true\x7d"]
    bulk plainPlatform transfer = some false ∧ Survives plainPlatform l transfer false := by
  intro l transfer
  have hread : transfer.Readable plainPlatform := by
    refine ⟨.node "" [("errors", .node "true" [])], rfl, fun child hchild => ⟨true, ?_⟩⟩
    obtain rfl := Option.some.inj hchild
    rfl
  exact ⟨by decide, (survives_iff (by decide)).mpr ⟨fun _ => hread, .inl rfl⟩⟩

/-- A page of a web server between the logger and Elasticsearch, in answer to the first
entry. -/
theorem page_not_survived : ¬ ∀ p max now l transfer drained, 1 ≤ max →
    Reachable p max true now l → l.pc = .send drained → l.esErrorCount < l.esErrorMax →
      Survives p l transfer drained := by
  have hrun : (Runs.exec (step plainPlatform) (new 1 true 0)
      [.writeLog ⟨1, "m", "t", "g", "b", 0, 0⟩, .loop 0 .noHandle, .loop 0 .noHandle]).map
        (fun l => (l.pc, l.esErrorCount, l.esErrorMax)) = some (.send false, 0, 10) := by
    decide
  obtain ⟨l, hl, hfacts⟩ := Option.map_eq_some_iff.mp hrun
  simp only [Prod.mk.injEq] at hfacts
  obtain ⟨hpc, hcount, hmax⟩ := hfacts
  intro hall
  have hs := hall plainPlatform 1 0 l (.performed curleOk ["<html>"]) false (le_refl 1)
    (.of_exec .init hl) hpc (by rw [hcount, hmax]; decide)
  obtain ⟨ret, hret, -⟩ := hs.returns
  exact absurd hret (by decide +revert)

/-! ## Runs -/

/-- The answer to this step, if it gets one, can be read. -/
def AnswerReadable (p : Platform) (_ : ProxyLogger) (e : LoggerEvent) : Prop :=
  ∀ now transfer, e = .loop now transfer → transfer.Ok → transfer.Readable p

theorem Step.not_terminated {l' : ProxyLogger} {e : LoggerEvent} (h : Step p l e l')
    (hP : AnswerReadable p l e) (hl : l.pc ≠ .terminated) : l'.pc ≠ .terminated := by
  cases h with
  | writeLog => exact hl
  | @threw now transfer drained hp he hb =>
    obtain ⟨hok, hnot⟩ := bulk_eq_none_iff.mp hb
    exact absurd (hP now transfer rfl hok) hnot
  | @notDue now transfer drained | @cleared now transfer drained =>
    cases drained <;> exact fun h => LoggerPc.noConfusion h
  | _ => exact fun h => LoggerPc.noConfusion h

/-- The loop goes on for ever when each answer can be read. -/
theorem not_terminated {max now : Int} {logFileOpened : Bool}
    (h : Runs.Reach (step p) (new max logFileOpened now) (AnswerReadable p) l) :
    l.pc ≠ .terminated :=
  h.invariant (I := fun l => l.pc ≠ .terminated) (fun h => LoggerPc.noConfusion h)
    fun _ _ _ _ hl hP hs => (step_cases hs).not_terminated hP hl

end ProxyLogger
end RocketmqProxy
