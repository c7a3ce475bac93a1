import RocketmqProxy.Lib.Record
import RocketmqProxy.Lib.TreeMap
import RocketmqProxy.Proxy.Step

/-!
# The keys of an inactivity sweep

`shutdownConsumer` collects the keys of `consumers` in one vector for all its sweeps.
`getAllKeys` means to empty it and does not, so a sweep looks at the keys of the earlier
ones as well.
-/

namespace RocketmqProxy
namespace Proxy

open Std

/-! ## Sweeps -/

/-- A call of `getAllKeys`, with the keys that are registered. -/
def collects (s : Proxy) : Event → List (List String)
  | .shutdown _ =>
    match s.shutdown with
    | .sweep => [s.consumers.keys]
    | _ => []
  | _ => []

/-- A turn of the loop over `keys`, with what `try_get` finds under the key. -/
def looks (s : Proxy) : Event → List (String × Option ConsumerRef)
  | .shutdown _ =>
    match s.shutdown with
    | .examine i => s.keys[i]?.toList.map fun key => (key, s.consumers[key]?)
    | _ => []
  | _ => []

/-- The proxy, whose registry may also be changed at will between two sweeps. -/
def changing (s : Proxy) : Event ⊕ TreeMap String ConsumerRef → Option Proxy
  | .inl e => s.step e
  | .inr consumers =>
    if s.shutdown = .sweep then some { s with consumers := consumers } else none

/-- A run from the start of the proxy, and the keys that were registered at each call of
`getAllKeys`. -/
abbrev Collected (s : Proxy) (collected : List (List String)) : Prop :=
  Runs.Reach (Record.step (fun s => Sum.elim s.collects fun _ => []) changing) (init, [])
    Runs.always (s, collected)

/-- A run without a call of `getAllKeys`, and the turns of the loop in it. -/
abbrev Examined (s : Proxy) (looked : List (String × Option ConsumerRef)) (s' : Proxy) : Prop :=
  Runs.Reach (Record.step looks step) (s, []) (fun p e => p.1.collects e = []) (s', looked)

/-- The sweep that begins now collects the keys that are registered, in the order of the
map, and looks at each of them once, while it has a consumer. -/
structure LooksOnce (s : Proxy) : Prop where
  keys : ∀ now s₁, s.step (.shutdown now) = some s₁ → s₁.keys = s.consumers.keys ∧
    s₁.keys.Pairwise (fun a b => compare a b = .lt) ∧ s₁.keys.length ≤ s.consumers.size
  turns : ∀ now s₁ looked s₂, s.step (.shutdown now) = some s₁ → Examined s₁ looked s₂ →
    looked.map Prod.fst <+: s.consumers.keys ∧ (∀ look ∈ looked, look.2.isSome) ∧
      (s₂.shutdown = .sweep → looked.map Prod.fst = s.consumers.keys)

/-! ## The vector -/

variable {s s' : Proxy} {e : Event}

theorem Step.keys (h : Step s e s') : s'.keys = s.keys ++ (s.collects e).flatten := by
  cases h with
  | sweep hp => simp [collects, hp]
  | sweepEnd hp | skip hp | select hp | shutdownBegin hp | shutdownEnd hp | erase hp =>
    simp [collects, hp]
  | _ => exact (List.append_nil _).symm

/-- The vector holds the keys of all calls of `getAllKeys`. -/
theorem keys_eq {collected : List (List String)} (h : Collected s collected) :
    s.keys = collected.flatten := by
  refine Record.invariant (I := fun s collected => s.keys = collected.flatten) rfl ?_ h
  intro s collected e s' hi _ hs
  rw [List.flatten_append, ← hi]
  cases e with
  | inl e => exact (step_cases hs).keys
  | inr consumers =>
    obtain ⟨-, hs⟩ := Option.ite_none_right_eq_some.mp hs
    obtain rfl := Option.some.inj hs
    exact (List.append_nil _).symm

/-! ## The loop -/

/-- How many turns of the loop over `ks` have been taken. -/
def turns (ks : List String) : ShutdownPc → Nat
  | .sweep => ks.length
  | .examine i => i
  | .select i _ _ | .shutdown i _ _ | .erase i _ => i + 1

/-- The key of the turn at hand. -/
def keyInHand : ShutdownPc → Option (Nat × String)
  | .select i key _ | .shutdown i key _ | .erase i key => some (i, key)
  | _ => none

/-- A sweep over the keys `ks`, after the turns `looked`. -/
structure Sweeping (ks : List String) (s : Proxy)
    (looked : List (String × Option ConsumerRef)) : Prop where
  keys : s.keys = ks
  taken : looked.map Prod.fst = ks.take (turns ks s.shutdown)
  found : ∀ look ∈ looked, look.2.isSome
  ahead : ∀ key ∈ ks.drop (turns ks s.shutdown), s.consumers[key]?.isSome
  hand : ∀ i key, keyInHand s.shutdown = some (i, key) → ks[i]? = some key

theorem GetStep.registered {topic group : String} {now : Int} {get get' : GetConsumer}
    {consumers : TreeMap String ConsumerRef} {msgPool : TreeMap String (List MsgUnit)}
    {units : List ConsumerUnit}
    (h : GetStep s topic group now get consumers msgPool units get') {key : String}
    (hk : s.consumers[key]?.isSome) : consumers[key]?.isSome := by
  cases h with
  | found | created | started | failed => exact hk
  | inserted c =>
    rw [TreeMapLoop.getElem?_insertIfNew]
    split
    · rfl
    · exact hk

/-- The steps of the other threads, and those of the shutdown thread that take no turn and
erase no key. -/
theorem Sweeping.frame {ks : List String} {looked : List (String × Option ConsumerRef)}
    (hi : Sweeping ks s looked) (hkeys : s'.keys = s.keys)
    (hturns : turns ks s'.shutdown = turns ks s.shutdown)
    (hhand : keyInHand s'.shutdown = keyInHand s.shutdown)
    (hreg : ∀ key : String, s.consumers[key]?.isSome → s'.consumers[key]?.isSome) :
    Sweeping ks s' (looked ++ []) where
  keys := hkeys.trans hi.keys
  taken := by rw [List.append_nil, hturns]; exact hi.taken
  found := by rw [List.append_nil]; exact hi.found
  ahead := by rw [hturns]; exact fun key hk => hreg key (hi.ahead key hk)
  hand := by rw [hhand]; exact hi.hand

/-- A turn of the loop, which finds its key registered. -/
theorem Sweeping.turn {ks : List String} {looked : List (String × Option ConsumerRef)} {i : Nat}
    {key : String} (hi : Sweeping ks s looked) (hp : s.shutdown = .examine i)
    (hkey : s.keys[i]? = some key) (now : Int) {pc : ShutdownPc} (hpc : turns ks pc = i + 1)
    (hhand : ∀ j key', keyInHand pc = some (j, key') → j = i ∧ key' = key) :
    Sweeping ks { s with shutdown := pc } (looked ++ s.looks (.shutdown now)) := by
  have hlooks : s.looks (.shutdown now) = [(key, s.consumers[key]?)] := by
    simp [looks, hp, hkey]
  have hks : ks[i]? = some key := hi.keys ▸ hkey
  have htaken := hi.taken
  have hahead := hi.ahead
  rw [hp] at htaken hahead
  have hdrop : ks.drop i = key :: ks.drop (i + 1) := by
    rw [List.drop_eq_getElem?_toList_append, hks]
    rfl
  have hreg : s.consumers[key]?.isSome := hahead key (by
    show key ∈ ks.drop i
    rw [hdrop]
    exact List.mem_cons_self)
  rw [hlooks]
  refine ⟨hi.keys, ?_, ?_, ?_, ?_⟩
  · rw [List.map_append, htaken, hpc, List.take_add_one, hks]
    rfl
  · intro look hmem
    rcases List.mem_append.mp hmem with hmem | hmem
    · exact hi.found look hmem
    · rw [List.mem_singleton.mp hmem]
      exact hreg
  · rw [hpc]
    intro key' hmem
    refine hahead key' ?_
    show key' ∈ ks.drop i
    rw [hdrop]
    exact List.mem_cons_of_mem key hmem
  · intro j key' h
    obtain ⟨rfl, rfl⟩ := hhand j key' h
    exact hks

theorem Step.sweeping {ks : List String} {looked : List (String × Option ConsumerRef)}
    (h : Step s e s') (hn : ks.Nodup) (hi : Sweeping ks s looked) (hc : s.collects e = []) :
    Sweeping ks s' (looked ++ s.looks e) := by
  cases h with
  | sweep hp => exact absurd hc (by simp [collects, hp])
  | @sweepEnd i now hp hend =>
    have hlooks : s.looks (.shutdown now) = [] := by simp [looks, hp, hend]
    have hle : ks.length ≤ i := by
      rw [← hi.keys]
      exact List.getElem?_eq_none_iff.mp hend
    have htaken := hi.taken
    rw [hp] at htaken
    rw [hlooks, List.append_nil]
    refine ⟨hi.keys, ?_, hi.found, ?_, fun _ _ h => absurd h (by simp [keyInHand])⟩
    · rw [htaken]
      exact (List.take_of_length_le hle).trans (List.take_length).symm
    · intro key hmem
      exact absurd hmem (by simp [turns])
  | @skip i key now hp hkey =>
    exact hi.turn hp hkey now rfl fun _ _ h => absurd h (by simp [keyInHand])
  | @select i key c unit now hp hkey =>
    refine hi.turn hp hkey now rfl fun j key' h => ?_
    obtain ⟨rfl, rfl⟩ := Prod.mk.inj (Option.some.inj h)
    exact ⟨rfl, rfl⟩
  | @shutdownBegin i key c now hp | @shutdownEnd i key c unit now hp =>
    have hlooks : s.looks (.shutdown now) = [] := by simp [looks, hp]
    rw [hlooks]
    exact hi.frame rfl (by rw [hp]; rfl) (by rw [hp]; rfl) fun _ h => h
  | @erase i key now hp =>
    have hlooks : s.looks (.shutdown now) = [] := by simp [looks, hp]
    have htaken := hi.taken
    have hahead := hi.ahead
    have hhand := hi.hand i key (by rw [hp]; rfl)
    rw [hp] at htaken hahead
    rw [hlooks, List.append_nil]
    refine ⟨hi.keys, htaken, hi.found, fun key' hmem => ?_, fun _ _ h =>
      absurd h (by simp [keyInHand])⟩
    -- the key that is erased is not among those ahead
    have hne : key ≠ key' := by
      rintro rfl
      have hdrop : (ks.drop i).Nodup := hn.sublist (List.drop_sublist i ks)
      rw [List.drop_eq_getElem?_toList_append, hhand] at hdrop
      exact (List.nodup_cons.mp hdrop).1 hmem
    show (s.consumers.erase key)[key']?.isSome
    rw [TreeMap.getElem?_erase, if_neg (mt Std.compare_eq_iff_eq.mp hne)]
    exact hahead key' hmem
  | cancelGet _ _ hget | ackGet _ _ hget | matcherGet _ _ hget =>
    exact hi.frame rfl rfl rfl fun _ => hget.registered
  | _ => exact hi.frame rfl rfl rfl fun _ h => h

theorem sweeping {ks : List String} {looked : List (String × Option ConsumerRef)}
    (hn : ks.Nodup) (hi : Sweeping ks s []) (h : Examined s looked s') :
    Sweeping ks s' looked :=
  Record.invariant hi (fun _ _ _ _ hi hc hs => (step_cases hs).sweeping hn hi hc) h

/-! ## Sweeps that look once -/

theorem step_sweep (hp : s.shutdown = .sweep) (now : Int) : s.step (.shutdown now) =
    some { s with keys := s.keys ++ s.consumers.keys, shutdown := .examine 0 } := by
  rw [step, shutdownStep, hp]

theorem looksOnce_of_empty (hp : s.shutdown = .sweep) (hk : s.keys = []) : LooksOnce s := by
  have hstep := step_sweep hp
  rw [hk, List.nil_append] at hstep
  refine ⟨fun now s₁ hs => ?_, fun now s₁ looked s₂ hs hrun => ?_⟩
  · obtain rfl := Option.some.inj ((hstep now).symm.trans hs)
    exact ⟨rfl, TreeMap.ordered_keys, TreeMap.length_keys.le⟩
  · obtain rfl := Option.some.inj ((hstep now).symm.trans hs)
    have hstart : Sweeping s.consumers.keys
        { s with keys := s.consumers.keys, shutdown := .examine 0 } [] :=
      ⟨rfl, rfl, fun _ h => absurd h List.not_mem_nil, fun key hmem => by
        rw [← TreeMap.mem_iff_isSome_getElem?]
        exact TreeMap.mem_keys.mp (List.mem_of_mem_drop hmem),
        fun _ _ h => absurd h (by simp [keyInHand])⟩
    have hend := sweeping TreeMap.nodup_keys hstart hrun
    refine ⟨?_, hend.found, fun hp₂ => ?_⟩
    · rw [hend.taken]
      exact List.take_prefix _ _
    · rw [hend.taken, hp₂]
      exact List.take_length

theorem LooksOnce.empty (h : LooksOnce s) (hp : s.shutdown = .sweep) : s.keys = [] := by
  have hkeys := (h.keys 0 _ (step_sweep hp 0)).1
  exact List.append_cancel_right (hkeys.trans (List.nil_append _).symm)

/-- A sweep looks once at each registered consumer exactly if no consumer was registered at
any of the sweeps before. -/
theorem looksOnce_iff {collected : List (List String)} (h : Collected s collected)
    (hp : s.shutdown = .sweep) : LooksOnce s ↔ ∀ ks ∈ collected, ks = [] := by
  rw [← List.flatten_eq_nil_iff, ← keys_eq h]
  exact ⟨fun hl => hl.empty hp, looksOnce_of_empty hp⟩

/-- A request whose consumer is registered, at the time 0. -/
def registeredOnce : List Event :=
  [.consume "t" "g" 0, .matcher 0 0 true, .matcher 0 0 true, .matcher 0 0 true,
    .matcher 0 0 true]

/-- The first sweep has come before the consumer. -/
theorem looksOnce_second : ∃ s, Collected s [[]] ∧ s.shutdown = .sweep ∧
    s.consumers.keys = ["tg"] ∧ LooksOnce s := by
  have hrun : (Runs.exec (Record.step (fun s => Sum.elim s.collects fun _ => []) changing)
      (init, []) (([Event.shutdown 0, .shutdown 0] ++ registeredOnce).map Sum.inl)).map
        (fun p => (p.1.shutdown, p.1.consumers.keys, p.2)) = some (.sweep, ["tg"], [[]]) := by
    decide
  obtain ⟨⟨s, collected⟩, hs, hfacts⟩ := Option.map_eq_some_iff.mp hrun
  simp only [Prod.mk.injEq] at hfacts
  obtain ⟨hp, hkeys, rfl⟩ := hfacts
  have hcollected : Collected s [[]] := .of_exec .init hs
  exact ⟨s, hcollected, hp, hkeys, (looksOnce_iff hcollected hp).mpr (by simp)⟩

/-- One consumer is registered at the first sweep and at the second, which looks at it
twice. -/
theorem second_sweep_looks_twice : ¬ ∀ s, Reachable s → s.shutdown = .sweep → LooksOnce s := by
  have hrun : (run (registeredOnce ++ [.shutdown 0, .shutdown 0, .shutdown 0])).map
      (fun s => (s.shutdown, s.keys)) = some (.sweep, ["tg"]) := by
    decide
  obtain ⟨s, hs, hfacts⟩ := Option.map_eq_some_iff.mp hrun
  obtain ⟨hp, hkeys⟩ := Prod.mk.inj hfacts
  intro hall
  have hempty := (hall s (reachable_run hs) hp).empty hp
  rw [hkeys] at hempty
  exact absurd hempty (by simp)

end Proxy
end RocketmqProxy
