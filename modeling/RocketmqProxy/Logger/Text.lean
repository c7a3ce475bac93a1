import RocketmqProxy.Lib.Lines
import RocketmqProxy.Logger.Batches

/-!
# The text of the log tells its entries

Each entry is three lines: the action of the bulk request, the entry itself and an empty
one.  So the text that goes to the sinks tells the entries, whatever batches they came in.
-/

namespace RocketmqProxy

/-- The tree is written on one line, and read back from it. -/
structure Platform.RoundTrips (p : Platform) (tree : Ptree) : Prop where
  line : ∃ line, p.writeJson tree = line ++ "\n" ∧ '\n' ∉ line.toList
  read : p.readJson (p.writeJson tree) = some tree

/-! ## Trees -/

theorem LogUnit.json_children (unit : LogUnit) (timeStr : String) :
    unit.json timeStr = .node "" [("type", .node (toString unit.type) []),
      ("msgId", .node unit.msgId []), ("topic", .node unit.topic []),
      ("group", .node unit.group []), ("delayLevel", .node (toString unit.delayLevel) []),
      ("status", .node (toString unit.status) []), ("body", .node unit.body []),
      ("created_at", .node timeStr [])] := by
  simp [json, Ptree.put, Ptree.putChild, Ptree.empty, Ptree.data, Ptree.children]

theorem LogUnit.json_injective {unit unit' : LogUnit} {timeStr timeStr' : String}
    (h : unit.json timeStr = unit'.json timeStr') : unit = unit' ∧ timeStr = timeStr' := by
  rw [json_children, json_children] at h
  simp only [Ptree.node.injEq, List.cons.injEq, Prod.mk.injEq, true_and, and_true] at h
  obtain ⟨htype, hmsgId, htopic, hgroup, hdelay, hstatus, hbody, htime⟩ := h
  obtain ⟨type, msgId, topic, group, body, delayLevel, status⟩ := unit
  obtain ⟨type', msgId', topic', group', body', delayLevel', status'⟩ := unit'
  have htype' : type = type' := Int.repr_injective htype
  have hdelay' : delayLevel = delayLevel' := Int.repr_injective hdelay
  have hstatus' : status = status' := Int.repr_injective hstatus
  exact ⟨by simp_all, htime⟩

/-! ## Lines -/

/-- An entry that is taken from the queue, and when. -/
abbrev StampedUnit := LogUnit × Int

namespace StampedUnit

variable {p : Platform} {e e' : StampedUnit} {es es' : List StampedUnit}

def tree (p : Platform) (e : StampedUnit) : Ptree := e.1.json (getTime p.zone e.2 "")

def encode (p : Platform) (e : StampedUnit) : String := e.1.encode p e.2

/-- The entry with the text of its time stamp. -/
def content (p : Platform) (e : StampedUnit) : LogUnit × String := (e.1, getTime p.zone e.2 "")

def headerLine : List Char := bulkHeader.toList.dropLast

/-- What `write_json` writes, without the line feed. -/
def line (p : Platform) (e : StampedUnit) : List Char :=
  (p.writeJson (e.tree p)).toList.dropLast

def lines (p : Platform) (e : StampedUnit) : List (List Char) := [headerLine, e.line p, []]

theorem toList_writeJson (h : p.RoundTrips (e.tree p)) :
    (p.writeJson (e.tree p)).toList = e.line p ++ ['\n'] ∧ '\n' ∉ e.line p := by
  obtain ⟨line, hline, hno⟩ := h.line
  have hlist : (p.writeJson (e.tree p)).toList = line.toList ++ ['\n'] := by
    rw [hline, String.toList_append]
    rfl
  rw [StampedUnit.line, hlist, List.dropLast_concat]
  exact ⟨rfl, hno⟩

theorem toList_encode (h : p.RoundTrips (e.tree p)) :
    (e.encode p).toList = Lines.text '\n' (e.lines p) := by
  have hheader : bulkHeader.toList = headerLine ++ ['\n'] := by decide
  have hencode : e.encode p = bulkHeader ++ (p.writeJson (e.tree p) ++ "\n") := rfl
  rw [hencode, String.toList_append, String.toList_append, hheader, (toList_writeJson h).1]
  simp [Lines.text, lines]

theorem no_newline (h : p.RoundTrips (e.tree p)) : ∀ l ∈ e.lines p, '\n' ∉ l := by
  intro l hl
  simp only [lines, List.mem_cons, List.not_mem_nil, or_false] at hl
  rcases hl with rfl | rfl | rfl
  · decide
  · exact (toList_writeJson h).2
  · exact List.not_mem_nil

theorem toList_join (h : ∀ e ∈ es, p.RoundTrips (e.tree p)) :
    (String.join (es.map (encode p))).toList = Lines.text '\n' (es.flatMap (lines p)) := by
  induction es with
  | nil => rfl
  | cons e es ih =>
    obtain ⟨he, hes⟩ := List.forall_mem_cons.mp h
    rw [List.map_cons, String.join_cons, String.toList_append, toList_encode he, ih hes,
      List.flatMap_cons, Lines.text_append]

/-! ## Entries -/

theorem line_injective (h : p.RoundTrips (e.tree p)) (h' : p.RoundTrips (e'.tree p))
    (he : e.line p = e'.line p) : e.content p = e'.content p := by
  have hwrite : p.writeJson (e.tree p) = p.writeJson (e'.tree p) := by
    rw [← String.toList_inj, (toList_writeJson h).1, (toList_writeJson h').1, he]
  have htree : e.tree p = e'.tree p := by
    rw [← Option.some_inj, ← h.read, ← h'.read, hwrite]
  obtain ⟨hunit, htime⟩ := LogUnit.json_injective htree
  exact Prod.ext hunit htime

theorem content_eq (h : ∀ e ∈ es, p.RoundTrips (e.tree p))
    (h' : ∀ e ∈ es', p.RoundTrips (e.tree p))
    (he : es.flatMap (lines p) = es'.flatMap (lines p)) :
    es.map (content p) = es'.map (content p) := by
  induction es generalizing es' with
  | nil =>
    cases es' with
    | nil => rfl
    | cons e' es' => simp [lines] at he
  | cons e es ih =>
    cases es' with
    | nil => simp [lines] at he
    | cons e' es' =>
      obtain ⟨hhead, hes⟩ := List.forall_mem_cons.mp h
      obtain ⟨hhead', hes'⟩ := List.forall_mem_cons.mp h'
      simp only [List.flatMap_cons, lines, List.cons_append, List.nil_append, List.cons.injEq,
        true_and] at he
      rw [List.map_cons, List.map_cons, line_injective hhead hhead' he.1, ih hes hes' he.2]

/-- The text of entries tells the entries, with their time stamps. -/
theorem content_eq_of_join (h : ∀ e ∈ es, p.RoundTrips (e.tree p))
    (h' : ∀ e ∈ es', p.RoundTrips (e.tree p))
    (he : String.join (es.map (encode p)) = String.join (es'.map (encode p))) :
    es.map (content p) = es'.map (content p) := by
  have hno : ∀ {es : List StampedUnit}, (∀ e ∈ es, p.RoundTrips (e.tree p)) →
      ∀ l ∈ es.flatMap (lines p), '\n' ∉ l := by
    intro es h l hl
    obtain ⟨e, hmem, hl⟩ := List.mem_flatMap.mp hl
    exact no_newline (h e hmem) l hl
  have htext : Lines.text '\n' (es.flatMap (lines p)) = Lines.text '\n' (es'.flatMap (lines p)) := by
    rw [← toList_join h, ← toList_join h', he]
  exact content_eq h h' (Lines.text_injective (hno h) (hno h') htext)

end StampedUnit

/-! ## Runs -/

namespace ProxyLogger

variable {p : Platform} {l l' : ProxyLogger}

/-- The entries taken from the queue, and when. -/
def stamped (l : ProxyLogger) : List StampedUnit :=
  l.trace.filterMap fun o =>
    match o with
    | .popped unit now => some (unit, now)
    | _ => none

theorem entries_eq (p : Platform) (l : ProxyLogger) :
    l.entries p = l.stamped.map (StampedUnit.encode p) := by
  rw [entries, stamped, List.map_filterMap]
  refine List.filterMap_congr fun o _ => ?_
  cases o <;> rfl

/-- Two runs of which the flushed strings and `data` have the same text have taken the same
entries with the same time stamps, in the same order, whatever their batches and transfers. -/
theorem text_tells_entries {max max' now now' : Int} {logFileOpened logFileOpened' : Bool}
    (h : Reachable p max logFileOpened now l) (h' : Reachable p max' logFileOpened' now' l')
    (hround : ∀ e ∈ l.stamped ++ l'.stamped, p.RoundTrips (e.tree p))
    (htext : String.join l.flushed ++ l.data = String.join l'.flushed ++ l'.data) :
    l.stamped.map (StampedUnit.content p) = l'.stamped.map (StampedUnit.content p) := by
  have hjoin : String.join (l.stamped.map (StampedUnit.encode p)) =
      String.join (l'.stamped.map (StampedUnit.encode p)) := by
    rw [← entries_eq, ← entries_eq, ← reachable_text h, ← reachable_text h', htext]
  exact StampedUnit.content_eq_of_join (fun e he => hround e (List.mem_append_left _ he))
    (fun e he => hround e (List.mem_append_right _ he)) hjoin

/-- The entry of a Produce call, taken at the time 0. -/
def producedEntry : StampedUnit := (⟨proxyLoggerTypeProduce, "m", "t", "g", "b", 0, 0⟩, 0)

/-- The entry of a Consume call, taken a second later. -/
def consumedEntry : StampedUnit := (⟨proxyLoggerTypeConsume, "n", "t", "g", "c", 0, 0⟩, 1)

/-- What boost does with those entries. -/
def twoEntriesPlatform : Platform :=
  { plainPlatform with
    readJson := fun text =>
      [producedEntry.tree plainPlatform, consumedEntry.tree plainPlatform].find? fun tree =>
        plainPlatform.writeJson tree = text }

theorem find?_two {α : Type} {f : α → String} {a b : α} (h : f a ≠ f b) :
    ∀ c ∈ [a, b], [a, b].find? (fun x => f x = f c) = some c := by
  simp [h]

set_option maxRecDepth 8000 in
theorem twoEntries_roundTrip : ∀ e ∈ [producedEntry, consumedEntry],
    twoEntriesPlatform.RoundTrips (e.tree twoEntriesPlatform) := by
  intro e he
  refine ⟨⟨"\x7b" ++ ",".intercalate ((e.tree plainPlatform).children.map fun c =>
    "\"" ++ c.1 ++ "\":\"" ++ c.2.data ++ "\"") ++ "\x7d", ?_, ?_⟩, ?_⟩
  · rw [String.append_assoc]
    rfl
  · revert e
    decide
  · have hne : plainPlatform.writeJson (producedEntry.tree plainPlatform) ≠
        plainPlatform.writeJson (consumedEntry.tree plainPlatform) := by
      decide
    have hmem : e.tree plainPlatform ∈
        [producedEntry.tree plainPlatform, consumedEntry.tree plainPlatform] := by
      simpa using List.mem_map_of_mem (f := StampedUnit.tree plainPlatform) he
    have htree : e.tree twoEntriesPlatform = e.tree plainPlatform := rfl
    rw [htree]
    simp only [twoEntriesPlatform]
    exact find?_two hne _ hmem

/-- The entries are sent one by one in one run, and wait in `data` in the other. -/
theorem text_tells_entries_waiting : ∃ l l', Reachable twoEntriesPlatform 0 true 0 l ∧
    Reachable twoEntriesPlatform 3 true 0 l' ∧ l.flushed.length = 2 ∧ l'.flushed.length = 0 ∧
    l.stamped.map (StampedUnit.content twoEntriesPlatform) =
      l'.stamped.map (StampedUnit.content twoEntriesPlatform) := by
  have hrun : (Runs.exec (step twoEntriesPlatform) (new 0 true 0)
      ([.writeLog producedEntry.1, .writeLog consumedEntry.1] ++
        List.replicate 4 (.loop 0 .noHandle) ++ List.replicate 4 (.loop 1 .noHandle))).map
        (fun l => (l.stamped, l.flushed.length)) = some ([producedEntry, consumedEntry], 2) := by
    decide
  have hrun' : (Runs.exec (step twoEntriesPlatform) (new 3 true 0)
      ([.writeLog producedEntry.1, .writeLog consumedEntry.1] ++
        List.replicate 2 (.loop 0 .noHandle) ++ List.replicate 2 (.loop 1 .noHandle))).map
        (fun l => (l.stamped, l.flushed.length)) = some ([producedEntry, consumedEntry], 0) := by
    decide
  obtain ⟨l, hl, hfacts⟩ := Option.map_eq_some_iff.mp hrun
  obtain ⟨l', hl', hfacts'⟩ := Option.map_eq_some_iff.mp hrun'
  obtain ⟨hstamped, hflushed⟩ := Prod.mk.inj hfacts
  obtain ⟨hstamped', hflushed'⟩ := Prod.mk.inj hfacts'
  have hreach : Reachable twoEntriesPlatform 0 true 0 l := .of_exec .init hl
  have hreach' : Reachable twoEntriesPlatform 3 true 0 l' := .of_exec .init hl'
  refine ⟨l, l', hreach, hreach', hflushed, hflushed',
    text_tells_entries hreach hreach' (fun e he => ?_) ?_⟩
  · rw [hstamped, hstamped'] at he
    exact twoEntries_roundTrip e ((List.mem_append.mp he).elim id id)
  · rw [reachable_text hreach, reachable_text hreach', entries_eq, entries_eq, hstamped, hstamped']

end ProxyLogger
end RocketmqProxy
