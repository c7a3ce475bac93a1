import RocketmqProxy.Threads.Handshake

/-!
# Data races

What each step reads and writes of the memory that the threads share.  `lockersMtx` protects
the map and keeps `unlockAll` apart from the other calls, and `mtx` keeps two fetches apart.
Two calls of `setMsgAck`, the first test of `triggerCheck` and the predicate of `cv.wait` have
no lock in common with the writes that they meet.
-/

namespace RocketmqProxy

/-! ## Reads and writes -/

/-- The members of a batch that are written once it is shared. -/
inductive Member
  | fetchedArr
  | clientStatusMap
  | statusMap
  | reconsumeMap
  | status
  | clientStatus
deriving DecidableEq, Repr

/-- The member has the same value in both. -/
def Member.Agrees (l l' : ConsumerUnitLocker) : Member → Prop
  | .fetchedArr => l.fetchedArr = l'.fetchedArr
  | .clientStatusMap => l.clientStatusMap = l'.clientStatusMap
  | .statusMap => l.statusMap = l'.statusMap
  | .reconsumeMap => l.reconsumeMap = l'.reconsumeMap
  | .status => l.status = l'.status
  | .clientStatus => l.clientStatus = l'.clientStatus

theorem Member.Agrees.refl (m : Member) (l : ConsumerUnitLocker) : m.Agrees l l := by
  cases m <;> rfl

def RecordWrite.member : RecordWrite → Member
  | .statusMap _ _ => .statusMap
  | .clientStatusMap _ _ => .clientStatusMap
  | .reconsumeMap _ => .reconsumeMap
  | .status _ => .status
  | .clientStatus _ => .clientStatus

def Action.writes : Action → Option Member
  | .write w => some w.member
  | .pop => some .fetchedArr
  | .none | .found | .lockMtx | .unlockMtx | .notify => Option.none

/-- An iterator that moves reads its map. -/
def BodyPc.reads : BodyPc → List Member
  | .unlockBegin | .unlockTest _ | .unlockStatus _ | .check true => [.clientStatusMap]
  | .check false => [.fetchedArr, .clientStatusMap]
  | .scan _ _ => [.clientStatusMap, .statusMap]
  | .pop => [.fetchedArr]
  | .find _ _ | .setStatus _ _ _ | .setClientStatus _ _ _ | .setReconsume _ _ _ | .found
  | .unlockClientStatus _ | .release _ | .releaseClient | .notify | .lockMtx | .unlockMtx _
  | .iterNext | .break => []

/-- The next step touches the member. -/
def BodyPc.Touches (pc : BodyPc) (m : Member) : Prop :=
  pc.action.writes = some m ∨ m ∈ pc.reads

def CallbackPc.reads : CallbackPc → List Member
  | .test => [.clientStatus]
  | .readStatus | .readResult _ => [.status]
  | .readReconsume _ _ => [.reconsumeMap]
  | .lock | .insert | .lockMtx | .unlock | .sleep | .asleep | .woken | .unlockMtx | .lockErase
  | .erase | .unlockErase | .returned _ _ => []

/-- A write changes its own member only. -/
theorem ConsumerUnitLocker.write_agrees (l : ConsumerUnitLocker) {w : RecordWrite} {m : Member}
    (h : m ≠ w.member) : m.Agrees l (l.write w) := by
  cases w <;> cases m <;> first | rfl | exact absurd rfl h

theorem ConsumerUnitLocker.getMsg_agrees {l l' : ConsumerUnitLocker} {msg : MsgPtr} {m : Member}
    (hg : l.getMsg = some (msg, l')) (h : m ≠ .fetchedArr) : m.Agrees l l' := by
  unfold getMsg at hg
  split at hg
  · cases hg
  · obtain ⟨-, rfl⟩ := Prod.mk.inj (Option.some.inj hg)
    cases m <;> first | rfl | exact absurd rfl h

/-- Where a thread goes on depends on what it reads, and on the index, which is not written. -/
theorem BodyPc.next_congr {l l' : ConsumerUnitLocker} {pc : BodyPc}
    (hid : l'.idMsgMap = l.idMsgMap) (h : ∀ m ∈ pc.reads, m.Agrees l l') :
    pc.next l' = pc.next l := by
  cases pc with
  | find | setClientStatus | setReconsume => simp only [next, setNext, hid]
  | unlockBegin | unlockTest | unlockStatus =>
    have hmap : l.clientStatusMap = l'.clientStatusMap := h .clientStatusMap (by simp [reads])
    simp only [next, unlockNext, hmap]
  | check forced =>
    cases forced with
    | true =>
      have hmap : l.clientStatusMap = l'.clientStatusMap := h .clientStatusMap (by simp [reads])
      simp only [next, hmap, Bool.not_true, Bool.false_and]
    | false =>
      have hmap : l.clientStatusMap = l'.clientStatusMap := h .clientStatusMap (by simp [reads])
      have harr : l.fetchedArr = l'.fetchedArr := h .fetchedArr (by simp [reads])
      simp only [next, hmap, harr]
  | scan =>
    have hmap : l.clientStatusMap = l'.clientStatusMap := h .clientStatusMap (by simp [reads])
    have hstatus : l.statusMap = l'.statusMap := h .statusMap (by simp [reads])
    simp only [next, hmap, hstatus]
  | pop =>
    have harr : l.fetchedArr = l'.fetchedArr := h .fetchedArr (by simp [reads])
    simp only [next, harr]
  | setStatus | found | unlockClientStatus | release | releaseClient | notify | lockMtx
  | unlockMtx | iterNext | «break» => rfl

/-! ## The calls and the parts of the body -/

/-- The functions that the call runs. -/
def Phase.Fits (op : Op) : Phase → Prop
  | .setting | .checking false => ∃ msgId st, op = .setMsgAck msgId st
  | .unlocking | .checking true => op = .unlockAll
  | .releasing => op ≠ .fetchAndConsume
  | .fetching => op = .fetchAndConsume
  | .leaving => True

theorem Phase.Fits.leads {op : Op} {l : ConsumerUnitLocker} {p p' : Phase} (h : p.Fits op)
    (hl : Phase.Leads l p p') : p'.Fits op := by
  cases hl with
  | stay => exact h
  | set | unlock => exact h
  | leave => exact trivial
  | @release forced =>
    cases forced with
    | true => exact fun he => by cases he.symm.trans h
    | false =>
      obtain ⟨msgId, st, h⟩ := h
      exact fun he => by cases he.symm.trans h

namespace UnitThreads

open Mutexes (Owned)

theorem Step.fits {s s' : UnitThreads} {e : ThreadEvent} (h : Step s e s') (hr : Registry s)
    (hv : s.Visits fun _ _ _ _ op pc => pc.phase.Fits op) :
    s'.Visits fun _ _ _ _ op pc => pc.phase.Fits op := by
  refine h.visits (fun _ _ _ _ op => ?_) (fun _ _ _ _ pc _ _ x _ _ _ hp => hp.leads (pc.leads _))
    (fun _ _ _ _ _ _ _ _ _ _ hp => hp) hr hv
  cases op with
  | setMsgAck msgId st => exact ⟨msgId, st, rfl⟩
  | fetchAndConsume | unlockAll => exact rfl

theorem fits {group : String} {s : UnitThreads} (h : Reachable group s) :
    s.Visits fun _ _ _ _ op pc => pc.phase.Fits op :=
  h.invariant (fun c w a b pc batch hc => by cases hc) fun _ _ _ hr hv _ hs =>
    (step_cases hs).fits (registry hr) hv

/-! ## Races -/

/-- What the threads share. -/
inductive Loc
  | lockers
  | member (b : BatchRef) (m : Member)
deriving DecidableEq, Repr

def workWrites (w : Work) : Option Loc :=
  match w.pc with
  | .visit _ b pc => pc.action.writes.map (.member b)
  | .lock | .begin | .unlock | .done => none

def callbackWrites (batch : Batch) : Option Loc :=
  if batch.pc = .insert ∨ batch.pc = .erase then some .lockers else none

/-- What the next step of a thread writes. -/
def writes (s : UnitThreads) : Tid → Option Loc := s.view workWrites fun _ => callbackWrites

def workReads (w : Work) : List Loc :=
  match w.pc with
  | .begin | .visit _ _ .iterNext => [.lockers]
  | .visit _ b pc => pc.reads.map (.member b)
  | .lock | .unlock | .done => []

def callbackReads (b : BatchRef) (batch : Batch) : List Loc := batch.pc.reads.map (.member b)

/-- What the next step of a thread may read. -/
def reads (s : UnitThreads) (t : Tid) : List Loc :=
  (s.view (fun w => some (workReads w)) (fun b batch => some (callbackReads b batch)) t).getD []

def Accesses (s : UnitThreads) (t : Tid) (loc : Loc) : Prop :=
  s.writes t = some loc ∨ loc ∈ s.reads t

/-- The next steps of two threads are at one place, and the first writes there. -/
def Race (s : UnitThreads) (t t' : Tid) (loc : Loc) : Prop :=
  t ≠ t' ∧ s.writes t = some loc ∧ s.Accesses t' loc

instance (s : UnitThreads) (t : Tid) (loc : Loc) : Decidable (s.Accesses t loc) :=
  inferInstanceAs (Decidable (_ ∨ _))

instance (s : UnitThreads) (t t' : Tid) (loc : Loc) : Decidable (s.Race t t' loc) :=
  inferInstanceAs (Decidable (_ ∧ _))

/-- The call is in the body of its loop, at a batch in the map. -/
structure At (s : UnitThreads) (c : WorkRef) (op : Op) (b : BatchRef) (pc : BodyPc) : Prop where
  work : ∃ w a, s.works[c]? = some w ∧ w.op = op ∧ w.pc = .visit a b pc
  registered : ∃ batch, s.batches[b]? = some batch ∧ batch.pc.Registered

/-- The races that the locks leave. -/
inductive Unprotected (s : UnitThreads) : Tid → Tid → Loc → Prop
  /-- Two calls of `setMsgAck` at one batch. -/
  | acks {c c' : WorkRef} {msgId msgId' : String} {st st' : ConsumeStatus} {b : BatchRef}
      {pc pc' : BodyPc} {m : Member} (hne : c ≠ c') (hc : s.At c (.setMsgAck msgId st) b pc)
      (hc' : s.At c' (.setMsgAck msgId' st') b pc') (hm : m ≠ .fetchedArr)
      (hwrite : pc.action.writes = some m) (htouch : pc'.Touches m) :
      Unprotected s (.worker c) (.worker c') (.member b m)
  /-- `triggerCheck` reads `fetchedArr.size()` while `getMsg` pops. -/
  | fetch {c c' : WorkRef} {msgId : String} {st : ConsumeStatus} {b : BatchRef}
      (hc : s.At c .fetchAndConsume b .pop)
      (hc' : s.At c' (.setMsgAck msgId st) b (.check false)) :
      Unprotected s (.worker c) (.worker c') (.member b .fetchedArr)
  /-- The callback tests its predicate while its batch is released. -/
  | release {c : WorkRef} {op : Op} {b : BatchRef} {batch : Batch} (hop : op ≠ .fetchAndConsume)
      (hc : s.At c op b .releaseClient) (hb : s.batches[b]? = some batch)
      (htest : batch.pc = .test) :
      Unprotected s (.worker c) (.callback b) (.member b .clientStatus)

section Races

variable {group : String} {s : UnitThreads} {t t' : Tid} {loc : Loc} {b b' : BatchRef}
  {c c' : WorkRef} {w w' : Work} {op : Op} {a : Addr} {pc : BodyPc} {batch : Batch} {m : Member}

/-! ## Where the accesses are -/

theorem writes_worker (h : s.writes (.worker c) = some loc) : ∃ w a b pc m,
    s.works[c]? = some w ∧ w.pc = .visit a b pc ∧ pc.action.writes = some m ∧
      loc = .member b m := by
  obtain ⟨w, hc, hw⟩ := Option.bind_eq_some_iff.mp h
  unfold workWrites at hw
  split at hw
  · next a b pc hpc =>
    obtain ⟨m, hm, rfl⟩ := Option.map_eq_some_iff.mp hw
    exact ⟨w, a, b, pc, m, hc, hpc, hm, rfl⟩
  all_goals cases hw

theorem writes_callback (h : s.writes (.callback b) = some loc) : ∃ batch,
    s.batches[b]? = some batch ∧ batch.pc.Inside ∧ loc = .lockers := by
  obtain ⟨batch, hb, hw⟩ := Option.bind_eq_some_iff.mp h
  change callbackWrites batch = some loc at hw
  unfold callbackWrites at hw
  split at hw
  · next hpc =>
    refine ⟨batch, hb, ?_, (Option.some.inj hw).symm⟩
    rcases hpc with hpc | hpc <;> exact hpc ▸ trivial
  · cases hw

theorem mem_reads : loc ∈ s.reads t ↔
    (∃ c w, t = .worker c ∧ s.works[c]? = some w ∧ loc ∈ workReads w) ∨
      ∃ b batch, t = .callback b ∧ s.batches[b]? = some batch ∧ loc ∈ callbackReads b batch := by
  cases t with
  | worker c => cases hc : s.works[c]? <;> simp [reads, view, hc]
  | callback b => cases hb : s.batches[b]? <;> simp [reads, view, hb]

theorem accesses_worker (h : s.Accesses (.worker c) (.member b m)) : ∃ w a pc,
    s.works[c]? = some w ∧ w.pc = .visit a b pc ∧ pc.Touches m := by
  rcases h with h | h
  · obtain ⟨w, a, b', pc, m', hc, hpc, hm, he⟩ := writes_worker h
    obtain ⟨rfl, rfl⟩ := Loc.member.inj he
    exact ⟨w, a, pc, hc, hpc, .inl hm⟩
  · rcases mem_reads.mp h with ⟨c', w, he, hc, hw⟩ | ⟨b', batch, he, -⟩
    · obtain rfl := Tid.worker.inj he
      unfold workReads at hw
      split at hw
      · cases List.mem_singleton.mp hw
      · cases List.mem_singleton.mp hw
      · next a b' pc _ hpc =>
        obtain ⟨m', hm', he⟩ := List.mem_map.mp hw
        obtain ⟨rfl, rfl⟩ := Loc.member.inj he
        exact ⟨w, a, pc, hc, hpc, .inr hm'⟩
      all_goals cases hw
    · cases he

theorem accesses_callback (h : s.Accesses (.callback b') (.member b m)) : b' = b ∧ ∃ batch,
    s.batches[b]? = some batch ∧ m ∈ batch.pc.reads := by
  rcases h with h | h
  · obtain ⟨_, -, -, he⟩ := writes_callback h
    cases he
  · rcases mem_reads.mp h with ⟨c, w, he, -⟩ | ⟨b₁, batch, he, hb, hread⟩
    · cases he
    · obtain rfl := Tid.callback.inj he
      obtain ⟨m', hm', he⟩ := List.mem_map.mp hread
      obtain ⟨rfl, rfl⟩ := Loc.member.inj he
      exact ⟨rfl, batch, hb, hm'⟩

/-- Who reads or writes the map is inside its lock. -/
theorem mode_of_lockers (h : s.Accesses t .lockers) : ∃ md, s.mode t = some md := by
  cases t with
  | worker c =>
    rcases h with h | h
    · obtain ⟨w, a, b, pc, m, -, -, -, he⟩ := writes_worker h
      cases he
    · rcases mem_reads.mp h with ⟨c', w, he, hc, hw⟩ | ⟨b, batch, he, -⟩
      · obtain rfl := Tid.worker.inj he
        have hin : w.pc.Inside := by
          unfold workReads at hw
          split at hw
          · next hpc => exact hpc ▸ trivial
          · next hpc => exact hpc ▸ trivial
          · simp at hw
          all_goals cases hw
        exact ⟨w.op.mode, by rw [mode_worker hc, workMode, if_pos hin]⟩
      · cases he
  | callback b =>
    rcases h with h | h
    · obtain ⟨batch, hb, hin, -⟩ := writes_callback h
      exact ⟨.exclusive, by rw [mode_callback hb, callbackMode, if_pos hin]⟩
    · rcases mem_reads.mp h with ⟨c, w, he, -⟩ | ⟨b', batch, he, hb, hread⟩
      · cases he
      · simp [callbackReads] at hread

theorem mode_visit (hc : s.works[c]? = some w) (hpc : w.pc = .visit a b pc) :
    s.mode (.worker c) = some w.op.mode := by
  rw [mode_worker hc, workMode, if_pos (hpc ▸ trivial)]

/-- A batch that is visited is in the map. -/
theorem visited_registered (hr : Registry s) (hc : s.works[c]? = some w)
    (hpc : w.pc = .visit a b pc) : ∃ batch, s.batches[b]? = some batch ∧ batch.pc.Registered := by
  obtain ⟨batch, hb, -, hreg⟩ := hr.registered a b (hr.visits c w a b pc hc hpc)
  exact ⟨batch, hb, hreg⟩

theorem at_visit (hr : Registry s) (hc : s.works[c]? = some w) (hpc : w.pc = .visit a b pc) :
    s.At c w.op b pc :=
  ⟨⟨w, a, hc, rfl, hpc⟩, visited_registered hr hc hpc⟩

theorem fits_visit (h : Reachable group s) (hc : s.works[c]? = some w)
    (hpc : w.pc = .visit a b pc) : pc.phase.Fits w.op := by
  obtain ⟨batch, hb, -⟩ := visited_registered (registry h) hc hpc
  exact fits h c w a b pc batch hc hpc hb

/-! ## What the parts of the body touch -/

theorem of_fetching (hphase : pc.phase = .fetching) (hm : pc.Touches m) :
    pc = .pop ∧ m = .fetchedArr := by
  cases pc with
  | pop =>
    rcases hm with hm | hm
    · exact ⟨rfl, (Option.some.inj hm).symm⟩
    · exact ⟨rfl, List.mem_singleton.mp hm⟩
  | lockMtx | unlockMtx => simp [BodyPc.Touches, BodyPc.action, Action.writes, BodyPc.reads] at hm
  | _ => cases hphase

/-- What `fetchAndConsume` touches of a batch. -/
theorem of_fits_fetch (h : pc.phase.Fits .fetchAndConsume) (hm : pc.Touches m) :
    pc = .pop ∧ m = .fetchedArr := by
  refine of_fetching ?_ hm
  cases pc with
  | check forced =>
    cases forced with
    | true => cases h
    | false =>
      obtain ⟨_, _, he⟩ := h
      cases he
  | iterNext | «break» => simp [BodyPc.Touches, BodyPc.action, Action.writes, BodyPc.reads] at hm
  | lockMtx | pop | unlockMtx => rfl
  | scan | release | releaseClient | notify => exact absurd rfl h
  | unlockBegin | unlockTest | unlockClientStatus | unlockStatus => cases h
  | find | setStatus | setClientStatus | setReconsume | found =>
    obtain ⟨_, _, he⟩ := h
    cases he

/-- The other calls write the other members. -/
theorem writes_ne_fetchedArr (h : pc.phase.Fits w.op) (hop : w.op ≠ .fetchAndConsume)
    (hm : pc.action.writes = some m) : m ≠ .fetchedArr := by
  rintro rfl
  cases pc with
  | pop => exact hop h
  | _ => cases hm

theorem reads_fetchedArr (h : pc.phase.Fits w.op) (hop : w.op ≠ .fetchAndConsume)
    (hm : pc.Touches .fetchedArr) : pc = .check false := by
  rcases hm with hm | hm
  · exact absurd rfl (writes_ne_fetchedArr h hop hm)
  · cases pc with
    | check forced =>
      cases forced with
      | true => simp [BodyPc.reads] at hm
      | false => rfl
    | pop => exact absurd h hop
    | _ => simp [BodyPc.reads] at hm

/-- The callback of a batch in the map reads of it its predicate only. -/
theorem of_registered {pc : CallbackPc} (h : pc.Registered) (hm : m ∈ pc.reads) :
    pc = .test ∧ m = .clientStatus := by
  cases pc with
  | test => exact ⟨rfl, List.mem_singleton.mp hm⟩
  | readStatus | readReconsume | readResult => exact h.elim
  | _ => cases hm

theorem of_writes_clientStatus (hm : pc.action.writes = some .clientStatus) :
    pc = .releaseClient := by
  cases pc <;> first | rfl | cases hm

/-! ## The races -/

/-- Two threads at one batch with `mtx` held are one. -/
theorem eq_of_pop (h : Reachable group s) (hc : s.works[c]? = some w)
    (hpc : w.pc = .visit a b .pop) {a' : Addr} (hc' : s.works[c']? = some w')
    (hpc' : w'.pc = .visit a' b .pop) : c = c' := by
  have hheld : s.heldMtx (.worker c) = some b := by
    rw [heldMtx, view_worker hc, workMtx_visit hpc]
    rfl
  have hheld' : s.heldMtx (.worker c') = some b := by
    rw [heldMtx, view_worker hc', workMtx_visit hpc']
    rfl
  have howner := (owned h b _).mpr hheld
  exact Tid.worker.inj (Option.some.inj (howner.symm.trans ((owned h b _).mpr hheld')))

/-- No race is at the map. -/
theorem Race.ne_lockers (h : Reachable group s) (hrace : s.Race t t' loc) : loc ≠ .lockers := by
  rintro rfl
  obtain ⟨hne, hwrites, haccess⟩ := hrace
  obtain ⟨md, hmd⟩ := mode_of_lockers haccess
  cases t with
  | worker c =>
    obtain ⟨w, a, b, pc, m, -, -, -, he⟩ := writes_worker hwrites
    cases he
  | callback b =>
    obtain ⟨batch, hb, hin, -⟩ := writes_callback hwrites
    have hmode : s.mode (.callback b) = some .exclusive := by
      rw [mode_callback hb, callbackMode, if_pos hin]
    exact hne ((respects h).eq_of_exclusive hmode hmd).symm

/-- Two calls that race hold `lockersMtx` shared. -/
theorem Race.shared (h : Reachable group s) (hrace : s.Race (.worker c) (.worker c') loc)
    (hc : s.works[c]? = some w) (hpc : w.pc = .visit a b pc) {a' : Addr} {pc' : BodyPc}
    (hc' : s.works[c']? = some w') (hpc' : w'.pc = .visit a' b' pc') :
    w.op ≠ .unlockAll ∧ w'.op ≠ .unlockAll := by
  have hmode := mode_visit hc hpc
  have hmode' := mode_visit hc' hpc'
  constructor
  · intro hop
    rw [hop] at hmode
    exact hrace.1 ((respects h).eq_of_exclusive hmode hmode').symm
  · intro hop
    rw [hop] at hmode'
    exact hrace.1 ((respects h).eq_of_exclusive hmode' hmode)

/-- The races of two calls. -/
theorem Race.workers (h : Reachable group s)
    (hrace : s.Race (.worker c) (.worker c') (.member b m)) :
    Unprotected s (.worker c) (.worker c') (.member b m) := by
  obtain ⟨w, a, b₀, pc, m₀, hc, hpc, hm, he⟩ := writes_worker hrace.2.1
  obtain ⟨rfl, rfl⟩ := Loc.member.inj he
  obtain ⟨w', a', pc', hc', hpc', hm'⟩ := accesses_worker hrace.2.2
  obtain ⟨hall, hall'⟩ := hrace.shared h hc hpc hc' hpc'
  have hfits := fits_visit h hc hpc
  have hfits' := fits_visit h hc' hpc'
  have hat := at_visit (registry h) hc hpc
  have hat' := at_visit (registry h) hc' hpc'
  cases hop : w.op with
  | unlockAll => exact absurd hop hall
  | setMsgAck msgId st =>
    have hne := writes_ne_fetchedArr hfits (by simp [hop]) hm
    cases hop' : w'.op with
    | unlockAll => exact absurd hop' hall'
    | setMsgAck msgId' st' =>
      have hcalls : c ≠ c' := fun he => hrace.1 (congrArg Tid.worker he)
      exact .acks hcalls (hop ▸ hat) (hop' ▸ hat') hne hm hm'
    | fetchAndConsume => exact absurd (of_fits_fetch (hop' ▸ hfits') hm').2 hne
  | fetchAndConsume =>
    obtain ⟨rfl, rfl⟩ := of_fits_fetch (hop ▸ hfits) (.inl hm)
    cases hop' : w'.op with
    | unlockAll => exact absurd hop' hall'
    | setMsgAck msgId' st' =>
      obtain rfl := reads_fetchedArr hfits' (by simp [hop']) hm'
      exact .fetch (hop ▸ hat) (hop' ▸ hat')
    | fetchAndConsume =>
      obtain ⟨rfl, -⟩ := of_fits_fetch (hop' ▸ hfits') hm'
      exact absurd (congrArg Tid.worker (eq_of_pop h hc hpc hc' hpc')) hrace.1

/-- The races of a call and a callback. -/
theorem Race.callback (h : Reachable group s)
    (hrace : s.Race (.worker c) (.callback b') (.member b m)) :
    Unprotected s (.worker c) (.callback b') (.member b m) := by
  obtain ⟨w, a, b₀, pc, m₀, hc, hpc, hm, he⟩ := writes_worker hrace.2.1
  obtain ⟨rfl, rfl⟩ := Loc.member.inj he
  obtain ⟨rfl, batch, hb, hread⟩ := accesses_callback hrace.2.2
  obtain ⟨x, hx, hreg⟩ := visited_registered (registry h) hc hpc
  obtain rfl := Option.some.inj (hb.symm.trans hx)
  obtain ⟨htest, rfl⟩ := of_registered hreg hread
  have hfits := fits_visit h hc hpc
  obtain rfl := of_writes_clientStatus hm
  exact .release hfits (at_visit (registry h) hc hpc) hb htest

theorem Race.unprotected (h : Reachable group s) (hrace : s.Race t t' loc) :
    Unprotected s t t' loc := by
  cases loc with
  | lockers => exact absurd rfl (hrace.ne_lockers h)
  | member b m =>
    cases t with
    | callback b' =>
      obtain ⟨_, -, -, he⟩ := writes_callback hrace.2.1
      cases he
    | worker c =>
      cases t' with
      | worker c' => exact hrace.workers h
      | callback b' => exact hrace.callback h

/-! ## The kinds are races -/

theorem writes_visit (hc : s.works[c]? = some w) (hpc : w.pc = .visit a b pc)
    (hm : pc.action.writes = some m) : s.writes (.worker c) = some (.member b m) := by
  rw [writes, view_worker hc, workWrites, hpc]
  exact congrArg (Option.map (Loc.member b)) hm

theorem reads_visit (hc : s.works[c]? = some w) (hpc : w.pc = .visit a b pc)
    (hm : m ∈ pc.reads) : .member b m ∈ s.reads (.worker c) := by
  refine mem_reads.mpr (.inl ⟨c, w, rfl, hc, ?_⟩)
  unfold workReads
  cases pc with
  | iterNext => cases hm
  | _ => simpa [hpc] using hm

theorem At.writes (h : s.At c op b pc) (hm : pc.action.writes = some m) :
    s.writes (.worker c) = some (.member b m) := by
  obtain ⟨w, a, hc, -, hpc⟩ := h.work
  exact writes_visit hc hpc hm

theorem At.accesses (h : s.At c op b pc) (hm : pc.Touches m) :
    s.Accesses (.worker c) (.member b m) := by
  obtain ⟨w, a, hc, -, hpc⟩ := h.work
  exact hm.imp (writes_visit hc hpc) (reads_visit hc hpc)

theorem At.op_eq {op' : Op} {b' : BatchRef} {pc' : BodyPc} (h : s.At c op b pc)
    (h' : s.At c op' b' pc') : op = op' := by
  obtain ⟨w, a, hc, rfl, -⟩ := h.work
  obtain ⟨w', a', hc', rfl, -⟩ := h'.work
  rw [Option.some.inj (hc.symm.trans hc')]

theorem Unprotected.race (h : Unprotected s t t' loc) : s.Race t t' loc := by
  cases h with
  | acks hne hc hc' _ hwrite htouch =>
    exact ⟨fun he => hne (Tid.worker.inj he), hc.writes hwrite, hc'.accesses htouch⟩
  | fetch hc hc' =>
    refine ⟨fun he => ?_, hc.writes rfl, hc'.accesses (.inr List.mem_cons_self)⟩
    obtain rfl := Tid.worker.inj he
    cases hc.op_eq hc'
  | @release c op b batch _ hc hb htest =>
    refine ⟨Tid.noConfusion, hc.writes rfl, .inr (mem_reads.mpr (.inr ⟨b, batch, rfl, hb, ?_⟩))⟩
    simp [callbackReads, htest, CallbackPc.reads]

/-! ## Without a race -/

/-- What a thread is about to read is left alone by a thread that does not race with it. -/
theorem Step.agrees {s' : UnitThreads} (h : Step s (.turn t) s') (hne : t ≠ t')
    (hrace : ∀ loc, ¬ s.Race t t' loc) (hread : .member b m ∈ s.reads t') {x y : Batch}
    (hx : s.batches[b]? = some x) (hy : s'.batches[b]? = some y) :
    m.Agrees x.record y.record := by
  cases h.batch_cases hy with
  | same hb =>
    obtain rfl := Option.some.inj (hx.symm.trans hb)
    exact .refl m _
  | new _ _ _ hb => rw [hb] at hx; cases hx
  | woken he => cases he
  | walked hb _ hwalk =>
    obtain rfl := Option.some.inj (hx.symm.trans hb)
    exact hwalk ▸ .refl m _
  | moved hb hm =>
    obtain rfl := Option.some.inj (hx.symm.trans hb)
    exact hm.record ▸ .refl m _
  | @acted _ c w w' a pc _ he hc hpc hb ha =>
    obtain rfl := Option.some.inj (hx.symm.trans hb)
    obtain rfl := ThreadEvent.turn.inj he
    have hother : pc.action.writes ≠ some m := fun hm =>
      hrace _ ⟨hne, writes_visit hc hpc hm, .inr hread⟩
    revert ha hother
    generalize pc.action = action
    intro ha hother
    cases ha with
    | none | found | lockMtx | unlockMtx | popNone => exact .refl m _
    | write r => exact ConsumerUnitLocker.write_agrees _ fun he => hother (congrArg some he.symm)
    | pop hg => exact ConsumerUnitLocker.getMsg_agrees hg fun he => hother (congrArg some he.symm)
    | notify => exact (wake_record x).symm ▸ .refl m _

/-- A call goes on as if the other thread had not been there. -/
theorem Step.next_eq {s' : UnitThreads} (h : Step s (.turn t) s') (hne : t ≠ .worker c)
    (hrace : ∀ loc, ¬ s.Race t (.worker c) loc) (hc : s.works[c]? = some w)
    (hpc : w.pc = .visit a b pc) {x : Batch} (hx : s.batches[b]? = some x) :
    ∃ y, s'.batches[b]? = some y ∧ pc.next y.record = pc.next x.record := by
  obtain ⟨y, hy, hages⟩ := h.ages hx
  exact ⟨y, hy, BodyPc.next_congr hages.idMsgMap fun m hm =>
    h.agrees hne hrace (reads_visit hc hpc hm) hx hy⟩

/-- Two threads race exactly in one of the three ways, and where there is no race a step does
not show to the next step of another call. -/
theorem data_races (h : Reachable group s) :
    (∀ t t' loc, s.Race t t' loc ↔ Unprotected s t t' loc) ∧
    ∀ t s', s.step (.turn t) = some s' → ∀ c w a b pc x, s.works[c]? = some w →
      w.pc = .visit a b pc → s.batches[b]? = some x → t ≠ .worker c →
        (∀ loc, ¬ s.Race t (.worker c) loc) →
          ∃ y, s'.batches[b]? = some y ∧ pc.next y.record = pc.next x.record :=
  ⟨fun _ _ _ => ⟨fun hrace => hrace.unprotected h, Unprotected.race⟩,
    fun _ _ hs _ _ _ _ _ _ hc hpc hx hne hrace => (step_cases hs).next_eq hne hrace hc hpc hx⟩

/-- A batch of one message that has been fetched, and two acks of it at the same entry. -/
def ackedTwice : List ThreadEvent :=
  [[.callback 5 [(10, ⟨"m1", "t", "b", 0⟩)]], List.replicate 6 (.turn (.callback 0)),
    [.call .fetchAndConsume], List.replicate 7 (.turn (.worker 0)),
    [.call (.setMsgAck "m1" .consumeSuccess), .call (.setMsgAck "m1" .reconsumeLater)],
    List.replicate 3 (.turn (.worker 1)), List.replicate 3 (.turn (.worker 2))].flatten

/-- An ack asks for the size of the queue that a fetch is about to pop. -/
def ackedFetching : List ThreadEvent :=
  [[.callback 5 [(10, ⟨"m1", "t", "b", 0⟩)]], List.replicate 6 (.turn (.callback 0)),
    [.call .fetchAndConsume, .call (.setMsgAck "m2" .consumeSuccess)],
    List.replicate 3 (.turn (.worker 0)), List.replicate 3 (.turn (.worker 1))].flatten

/-- A batch is about to be released while its callback looks whether it is. -/
def ackedTesting : List ThreadEvent :=
  [[.callback 5 [(10, ⟨"m1", "t", "b", 0⟩)]], List.replicate 6 (.turn (.callback 0)),
    [.call .fetchAndConsume], List.replicate 7 (.turn (.worker 0)),
    [.call (.setMsgAck "m1" .consumeSuccess)], List.replicate 9 (.turn (.worker 1)),
    [.wake 0, .turn (.callback 0)]].flatten

/-- There are races of each kind. -/
theorem data_races_each_kind :
    (∃ s, Reachable "g" s ∧ s.Race (.worker 1) (.worker 2) (.member 0 .statusMap) ∧
      Unprotected s (.worker 1) (.worker 2) (.member 0 .statusMap)) ∧
    (∃ s, Reachable "g" s ∧ s.Race (.worker 0) (.worker 1) (.member 0 .fetchedArr) ∧
      Unprotected s (.worker 0) (.worker 1) (.member 0 .fetchedArr)) ∧
    ∃ s, Reachable "g" s ∧ s.Race (.worker 1) (.callback 0) (.member 0 .clientStatus) ∧
      Unprotected s (.worker 1) (.callback 0) (.member 0 .clientStatus) := by
  have hraces (es : List ThreadEvent) {t t' : Tid} {loc : Loc}
      (hrun : (Runs.exec step (init "g") es).map (fun s => decide (s.Race t t' loc)) =
        some true) : ∃ s, Reachable "g" s ∧ s.Race t t' loc ∧ Unprotected s t t' loc := by
    obtain ⟨s, hs, hdec⟩ := Option.map_eq_some_iff.mp hrun
    have hreach : Reachable "g" s := Runs.Reach.init.of_exec hs
    have hrace := of_decide_eq_true hdec
    exact ⟨s, hreach, hrace, ((data_races hreach).1 _ _ _).mp hrace⟩
  exact ⟨hraces ackedTwice (by decide), hraces ackedFetching (by decide),
    hraces ackedTesting (by decide)⟩

end Races

end UnitThreads
end RocketmqProxy
