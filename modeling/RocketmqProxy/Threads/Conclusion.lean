import RocketmqProxy.Threads.Races

/-!
# What a callback returns

A callback goes on once it has found its batch released, and computes from the record of the
batch, which nobody visits any more, what it returns.
-/

namespace RocketmqProxy
namespace UnitThreads

open ConsumerUnitLocker

/-- The callback has found its batch released. -/
def Past : CallbackPc → Prop
  | .unlockMtx | .lockErase | .erase | .unlockErase | .readStatus | .readReconsume _ _
  | .readResult _ | .returned _ _ => True
  | _ => False

/-- What the callback has computed so far. -/
def Computed (l : ConsumerUnitLocker) (msgs : List MQMessageExt) : CallbackPc → Prop
  | .readReconsume i vec => l.status = .reconsumeLater ∧ vec = (l.verdict msgs).2.take i
  | .readResult vec => vec = (l.verdict msgs).2
  | .returned status vec => (status, vec) = l.verdict msgs
  | _ => True

structure Concluded (x : Batch) : Prop where
  released : Past x.pc → x.record.clientStatus = .msgConsumeAck
  computed : Computed x.record x.msgs x.pc

theorem computed_of_registered {pc : CallbackPc} (h : pc.Registered) (l : ConsumerUnitLocker)
    (msgs : List MQMessageExt) : Computed l msgs pc := by
  cases pc <;> trivial

theorem Moves.concluded {b : BatchRef} {x y : Batch} {obs : List ThreadObs}
    (h : Moves b x y obs) (hx : Concluded x) : Concluded y := by
  have hreleased := hx.released
  have hcomputed := hx.computed
  cases h with
  | lockMtx | sleep | relock => exact ⟨fun hp => hp.elim, trivial⟩
  | test =>
    by_cases hack : x.record.clientStatus = .msgConsumeAck
    · exact ⟨fun _ => hack, by rw [if_pos hack]; trivial⟩
    · exact ⟨fun hp => by rw [if_neg hack] at hp; exact hp.elim, by rw [if_neg hack]; trivial⟩
  | unlockMtx hpc => exact ⟨fun _ => hreleased (hpc ▸ trivial), trivial⟩
  | readStatus hpc =>
    refine ⟨fun _ => hreleased (hpc ▸ trivial), ?_⟩
    by_cases hst : x.record.status = .reconsumeLater
    · rw [if_pos hst]
      exact ⟨hst, rfl⟩
    · rw [if_neg hst]
      show [] = (x.record.verdict x.msgs).2
      rw [verdict, if_neg hst]
  | @readReconsume i vec msg hpc hi =>
    rw [hpc] at hcomputed
    obtain ⟨hst, hvec⟩ := hcomputed
    refine ⟨fun _ => hreleased (hpc ▸ trivial), hst, ?_⟩
    rw [verdict, if_pos hst] at hvec ⊢
    rw [List.take_add_one, List.getElem?_map, hi, hvec]
    rfl
  | @readEnd i vec hpc hi =>
    rw [hpc] at hcomputed
    obtain ⟨hst, hvec⟩ := hcomputed
    refine ⟨fun _ => hreleased (hpc ▸ trivial), ?_⟩
    show vec = (x.record.verdict x.msgs).2
    rw [verdict, if_pos hst] at hvec ⊢
    rw [hvec, List.take_of_length_le (by simpa using List.getElem?_eq_none_iff.mp hi)]
  | @readResult vec hpc =>
    rw [hpc] at hcomputed
    refine ⟨fun _ => hreleased (hpc ▸ trivial), ?_⟩
    show (x.record.status, vec) = x.record.verdict x.msgs
    rw [show vec = (x.record.verdict x.msgs).2 from hcomputed]
    rfl

theorem Step.concluded {s s' : UnitThreads} {e : ThreadEvent} {b : BatchRef} {y : Batch}
    (h : Step s e s') (hr : Registry s)
    (hall : ∀ (b : BatchRef) (x : Batch), s.batches[b]? = some x → Concluded x)
    (hy : s'.batches[b]? = some y) : Concluded y := by
  cases h.batch_cases hy with
  | same hb => exact hall b y hb
  | new _ _ _ _ hy => exact hy ▸ ⟨fun hp => hp.elim, trivial⟩
  | woken _ hb ha hy =>
    rw [hy, Batch.wake, if_pos ha]
    exact ⟨fun hp => hp.elim, trivial⟩
  | @walked x pc hb hpc hy =>
    have hreleased := (hall b x hb).released
    rw [hy]
    generalize x.pc = xpc at hpc hreleased
    cases hpc with
    | lock | insert | unlock => exact ⟨fun hp => hp.elim, trivial⟩
    | lockErase | erase | unlockErase => exact ⟨fun _ => hreleased trivial, trivial⟩
  | moved hb hm => exact hm.concluded (hall b _ hb)
  | @acted x c w w' a pc obs _ hc hpc hb ha =>
    -- a batch that is visited is in the map
    obtain ⟨x', hx', hreg⟩ := visited_registered hr hc hpc
    obtain rfl := Option.some.inj (hb.symm.trans hx')
    refine ⟨fun hp => ha.ages.clientStatus ((hall b x hb).released ?_),
      computed_of_registered (registered_of_pc ha.stays.2.2 hreg) _ _⟩
    rcases ha.stays.2.2 with hsame | ⟨-, hwoken⟩
    · exact hsame ▸ hp
    · rw [hwoken] at hp
      exact hp.elim

theorem concluded {group : String} {s : UnitThreads} (h : Reachable group s) {b : BatchRef}
    {x : Batch} (hb : s.batches[b]? = some x) : Concluded x := by
  have hall : ∀ (b : BatchRef) (x : Batch), s.batches[b]? = some x → Concluded x :=
    h.invariant (I := fun s => ∀ (b : BatchRef) (x : Batch), s.batches[b]? = some x →
      Concluded x) (fun b x hb => by cases hb) fun _ _ _ hr hall _ hs _ _ hy =>
        (step_cases hs).concluded (registry hr) hall hy
  exact hall b x hb

end UnitThreads
end RocketmqProxy
