import CraftecCore.Aggregator.Loop

/-!
# Restarts — processes of the aggregator one after the other

A process makes a service with `new`, registers its pools and enters the loop.  It may end at any
point, and what the collector held is gone: the disk is not read by the next process, which starts
with an empty collector and an empty seen set in the epoch of its clock.  A receipt that was handed
over is still older than every window that opens later, unless it was late, since an epoch is only
ended when its time is over (`Timely`).
-/

namespace CraftecCore
namespace Aggregator

open Settlement FileSystem Prover Transition
open scoped List

/-! ## The machine -/

def Drain.remaining : Drain → ℕ
  | .poll remaining => remaining
  | .final => 0

def AggregatorService.registerPools (s : AggregatorService)
    (registered : List (Bytes 32 × Bytes 32)) : AggregatorService :=
  { s with
    collector := registered.foldl (fun c entry => c.registerPool entry.1 entry.2) s.collector }

/-- The receipts that wait for the batch builder, pool by pool. -/
def ReceiptCollector.receipts (c : ReceiptCollector) : List StorageReceipt :=
  c.pools.flatMap c.stored

/-- A machine on which processes of the aggregator run.  While one does, clock, disk and history are
those of its loop. -/
structure AggregatorHost (D : Type) where
  clock : ℕ
  disk : D
  history : History
  /-- What the processes that have ended had accepted. -/
  accepted : List (Bytes 32 × StorageReceipt)
  /-- What their collectors held in the end. -/
  lost : List StorageReceipt
  process : Option (LoopState D)

inductive HostEvent (D : Type)
  | start (now : UInt64) (registered : List (Bytes 32 × Bytes 32))
  | loop (e : LoopEvent)
  /-- The process ends, and leaves the disk in some state. -/
  | die (disk : D)
  | idle (nanos : ℕ)

section Host

variable {D : Type}

def AggregatorHost.enter (h : AggregatorHost D) (service : AggregatorService) : LoopState D :=
  { base :=
      { service := service
        disk := h.disk
        history := h.history }
    clock := h.clock
    queue := []
    phase := .turn
    log :=
      { enqueued := []
        duplicates := []
        accepted := []
        taken := []
        waiting := []
        settled := [] } }

def AggregatorHost.died (h : AggregatorHost D) (s : LoopState D) (disk : D) : AggregatorHost D :=
  { clock := s.clock
    disk := disk
    history := { s.base.history with accepted := [] }
    accepted := h.accepted ++ s.log.accepted
    lost := h.lost ++ s.base.service.collector.receipts
    process := none }

inductive HostNext [FileSystem D] (x : Packages) (config : AggregatorConfig) :
    AggregatorHost D → HostEvent D → AggregatorHost D → Prop
  | start {h : AggregatorHost D} {now : UInt64} {service : AggregatorService}
      (registered : List (Bytes 32 × Bytes 32)) :
      h.process = none → now.toNat = h.clock / 10 ^ 9 →
        AggregatorService.new config now = .ok service →
        HostNext x config h (.start now registered)
          { h with process := some (h.enter (service.registerPools registered)) }
  | loop {h : AggregatorHost D} {s s' : LoopState D} {e : LoopEvent} :
      h.process = some s → LoopNext x s e s' →
        HostNext x config h (.loop e) { h with process := some s' }
  | die {h : AggregatorHost D} {s : LoopState D} (disk : D) :
      h.process = some s → HostNext x config h (.die disk) (h.died s disk)
  | idle {h : AggregatorHost D} (nanos : ℕ) :
      h.process = none →
        HostNext x config h (.idle nanos) { h with clock := h.clock + nanos }

def HostStarted (h : AggregatorHost D) : Prop :=
  h.history = History.empty ∧ h.accepted = [] ∧ h.lost = [] ∧ h.process = none

/-- Receipts that any process has handed to the batch builder. -/
def AggregatorHost.settled (h : AggregatorHost D) : List StorageReceipt :=
  match h.process with
  | some s => s.base.history.settled
  | none => h.history.settled

/-- Receipts that any process has accepted. -/
def AggregatorHost.allAccepted (h : AggregatorHost D) : List (Bytes 32 × StorageReceipt) :=
  match h.process with
  | some s => h.accepted ++ s.log.accepted
  | none => h.accepted

def AggregatorHost.held (h : AggregatorHost D) : List StorageReceipt :=
  match h.process with
  | some s => s.base.service.collector.receipts
  | none => []

/-! ## Epochs end in time -/

def LoopState.epochEnd (s : LoopState D) : ℕ :=
  (s.currentEpoch + 1) * s.base.service.config.epochDurationSecs.toNat

/-- The epoch has begun, and the loop does not come to its final drain before it is over. -/
structure Timely (s : LoopState D) : Prop where
  begun : s.currentEpoch * s.base.service.config.epochDurationSecs.toNat ≤ s.seconds
  asleep : ∀ wakeAt drain, s.phase = .sleeping wakeAt drain →
    s.epochEnd * 10 ^ 9 ≤ wakeAt + drain.remaining * 10 ^ 9
  awake : ∀ drain, s.phase = .draining drain →
    s.epochEnd * 10 ^ 9 ≤ s.clock + drain.remaining * 10 ^ 9

/-- Who waits as long as the source says waits for the end of the epoch. -/
theorem epochEnd_le_of_waitSecs {s : LoopState D} {remaining : ℕ}
    (h : waitSecs s.base.service s.seconds = .ok remaining) :
    s.epochEnd ≤ s.seconds + remaining := by
  simp only [waitSecs, Outcome.bind_eq_ok, UInt64.checkedAdd_eq_ok, UInt64.checkedMul_eq_ok] at h
  obtain ⟨epoch, hepoch, epochEnd, hend, hremaining⟩ := h
  have hone : (1 : UInt64).toNat = 1 := rfl
  have hsame : s.epochEnd = epochEnd.toNat := by
    rw [LoopState.epochEnd, LoopState.currentEpoch, ← hend, ← hepoch, hone]
  rw [hsame]
  split at hremaining <;> cases hremaining <;> omega

theorem Timely.sleep {s : LoopState D} (h : Timely s) {remaining : ℕ}
    (hdue : s.epochEnd * 10 ^ 9 ≤ s.clock + remaining * 10 ^ 9) : Timely (s.sleep remaining) where
  begun := h.begun
  asleep := by
    intro wakeAt drain hphase
    have hend : (s.sleep remaining).epochEnd = s.epochEnd := rfl
    rw [hend]
    simp only [LoopState.sleep, nextSleep] at hphase
    by_cases hwait : 0 < remaining
    · rw [if_pos hwait] at hphase
      cases hphase
      simp only [Drain.remaining]
      have hle : min remaining pollInterval ≤ remaining := Nat.min_le_left _ _
      calc s.epochEnd * 10 ^ 9
          ≤ s.clock + remaining * 10 ^ 9 := hdue
        _ = s.clock + min remaining pollInterval * 10 ^ 9 +
              (remaining - min remaining pollInterval) * 10 ^ 9 := by
            rw [Nat.add_assoc, ← Nat.add_mul, Nat.add_sub_cancel' hle]
    · rw [if_neg hwait] at hphase
      cases hphase
      have hzero : remaining = 0 := Nat.eq_zero_of_not_pos hwait
      rw [hzero] at hdue
      simp only [Drain.remaining]
      omega
  awake := by
    rintro drain ⟨⟩

/-! ## What a process starts with -/

theorem registerPools_eq (s : AggregatorService) (registered : List (Bytes 32 × Bytes 32)) :
    ∃ cidToPool, s.registerPools registered =
      { s with collector := { s.collector with cidToPool := cidToPool } } := by
  have hfold : ∀ (entries : List (Bytes 32 × Bytes 32)) (c : ReceiptCollector),
      ∃ cidToPool, entries.foldl (fun c entry => c.registerPool entry.1 entry.2) c =
        { c with cidToPool := cidToPool } := by
    intro entries
    induction entries with
    | nil => exact fun c => ⟨c.cidToPool, rfl⟩
    | cons entry entries ih =>
        intro c
        obtain ⟨cidToPool, h⟩ := ih (c.registerPool entry.1 entry.2)
        exact ⟨cidToPool, h⟩
  obtain ⟨cidToPool, h⟩ := hfold registered s.collector
  exact ⟨cidToPool, by rw [AggregatorService.registerPools, h]⟩

/-- The epoch of a new service is that of the clock. -/
theorem new_currentEpoch {config : AggregatorConfig} {now : UInt64} {s : AggregatorService}
    (h : AggregatorService.new config now = .ok s) :
    s.currentEpoch.toNat = now.toNat / config.epochDurationSecs.toNat := by
  simp only [AggregatorService.new, alignToEpoch, Outcome.bind_eq_ok, UInt64.checkedDiv_eq_ok,
    UInt64.checkedMul_eq_ok, UInt64.checkedAdd_eq_ok, Outcome.pure_eq, Outcome.ok.injEq] at h
  obtain ⟨epochStart, ⟨quotient, ⟨hpos, hquotient⟩, hmul⟩, epochEnd, -, epoch, ⟨-, hepoch⟩, hs⟩ := h
  subst hs
  rw [← hepoch, ← hmul, Nat.mul_div_cancel _ hpos, hquotient]

theorem Timely.enter {h : AggregatorHost D} {config : AggregatorConfig} {now : UInt64}
    {service : AggregatorService} (hnow : now.toNat = h.clock / 10 ^ 9)
    (hnew : AggregatorService.new config now = .ok service)
    (registered : List (Bytes 32 × Bytes 32)) :
    Timely (h.enter (service.registerPools registered)) := by
  obtain ⟨-, hconfig, -⟩ := new_cases hnew
  obtain ⟨cidToPool, hservice⟩ := registerPools_eq service registered
  rw [hservice]
  refine ⟨?_, ?_, ?_⟩
  · show service.currentEpoch.toNat * service.config.epochDurationSecs.toNat ≤ h.clock / 10 ^ 9
    rw [new_currentEpoch hnew, hconfig, ← hnow]
    exact Nat.div_mul_le_self _ _
  · rintro wakeAt drain ⟨⟩
  · rintro drain ⟨⟩

/-- What was handed over is older than the given epoch, or was late before it. -/
def Past (duration epoch : ℕ) (history : History) : Prop :=
  ∀ r ∈ history.settled, r.timestamp.toNat < epoch * duration ∨
    ∃ offer ∈ history.late, offer.2 = r.key ∧ offer.1.toNat < epoch

/-- Between two processes, what was handed over lies before the clock; in a process, the accounting
is that of its loop. -/
structure AggregatorHost.Accounted (x : Packages) (config : AggregatorConfig)
    (h : AggregatorHost D) : Prop where
  down : h.process = none → h.history.accepted = [] ∧
    (h.history.settled.map StorageReceipt.key).Nodup ∧
    ∃ epoch, epoch * config.epochDurationSecs.toNat ≤ h.clock / 10 ^ 9 ∧
      Past config.epochDurationSecs.toNat epoch h.history
  up : ∀ s, h.process = some s →
    Aggregator.Accounted x s.base ∧ Timely s ∧ s.base.service.config = config

theorem enter_consistent {x : Packages} {config : AggregatorConfig} {h : AggregatorHost D}
    (hnone : h.history.accepted = []) {now : UInt64} {service : AggregatorService}
    (hnew : AggregatorService.new config now = .ok service)
    (registered : List (Bytes 32 × Bytes 32)) :
    Consistent x (h.enter (service.registerPools registered)).base := by
  obtain ⟨haligned, -, hpools⟩ := new_cases hnew
  obtain ⟨cidToPool, hservice⟩ := registerPools_eq service registered
  rw [hservice]
  refine { aligned := ⟨haligned.pos, haligned.epochStart, haligned.epochEnd⟩, holds := ?_ }
  show Holds x _ h.history.accepted
  rw [hnone]
  exact Holds.of_empty x hpools

theorem AggregatorHost.Accounted.start {x : Packages} {config : AggregatorConfig}
    {h : AggregatorHost D} (hacc : h.Accounted x config) (hdown : h.process = none) {now : UInt64}
    {service : AggregatorService} (hnow : now.toNat = h.clock / 10 ^ 9)
    (hnew : AggregatorService.new config now = .ok service)
    (registered : List (Bytes 32 × Bytes 32)) :
    Aggregator.Accounted x (h.enter (service.registerPools registered)).base := by
  obtain ⟨hnone, hnodup, epoch, hepoch, hpast⟩ := hacc.down hdown
  obtain ⟨haligned, hconfig, -⟩ := new_cases hnew
  obtain ⟨cidToPool, hservice⟩ := registerPools_eq service registered
  have hlater : epoch ≤ service.currentEpoch.toNat := by
    rw [new_currentEpoch hnew, hnow]
    exact (Nat.le_div_iff_mul_le (hconfig ▸ haligned.pos)).2 hepoch
  have hempty := enter_consistent (x := x) hnone hnew registered
  rw [hservice] at hempty ⊢
  refine
    { consistent := hempty
      distinct := ?_
      settled := ?_
      accepted := ?_ }
  · show (h.history.settled.map StorageReceipt.key ++ h.history.accepted.map _).Nodup
    rw [hnone, List.map_nil, List.append_nil]
    exact hnodup
  · intro r hr
    rcases hpast r hr with hold | ⟨offer, hmem, hkey, hlt⟩
    · left
      show r.timestamp.toNat < service.collector.epochStart.toNat
      rw [haligned.epochStart, hconfig]
      exact hold.trans_le (Nat.mul_le_mul_right _ hlater)
    · exact Or.inr ⟨offer, hmem, hkey, hlt.trans_le hlater⟩
  · intro a ha
    rw [show (h.enter _).base.history.accepted = [] from hnone] at ha
    cases ha

/-! ## At most once over all processes -/

variable [FileSystem D]

theorem Timely.next {x : Packages} {s s' : LoopState D} {e : LoopEvent} (h : Timely s)
    (hnext : LoopNext x s e s') : Timely s' := by
  have hwhole : s.clock / 10 ^ 9 * 10 ^ 9 ≤ s.clock := Nat.div_mul_le_self _ _
  cases hnext with
  | enqueue data => exact ⟨h.begun, h.asleep, h.awake⟩
  | tick nanos =>
      have hlater : s.seconds ≤ (s.clock + nanos) / 10 ^ 9 :=
        Nat.div_le_div_right (Nat.le_add_right _ _)
      refine ⟨h.begun.trans hlater, h.asleep, ?_⟩
      intro drain hphase
      exact (h.awake drain hphase).trans (Nat.add_le_add_right (Nat.le_add_right _ nanos) _)
  | turn hphase hwait =>
      refine h.sleep ?_
      have hdue := epochEnd_le_of_waitSecs hwait
      calc s.epochEnd * 10 ^ 9
          ≤ (s.seconds + _) * 10 ^ 9 := Nat.mul_le_mul_right _ hdue
        _ = s.seconds * 10 ^ 9 + _ * 10 ^ 9 := Nat.add_mul _ _ _
        _ ≤ s.clock + _ * 10 ^ 9 := Nat.add_le_add_right hwhole _
  | wake hphase htime =>
      rename_i wakeAt drain
      have hdue : s.epochEnd * 10 ^ 9 ≤ s.clock + drain.remaining * 10 ^ 9 :=
        (h.asleep wakeAt drain hphase).trans (Nat.add_le_add_right htime _)
      refine ⟨h.begun, ?_, ?_⟩
      · rintro wakeAt drain ⟨⟩
      · rintro drain ⟨⟩
        exact hdue
  | receive hphase hqueue hrun => exact ⟨h.begun, h.asleep, h.awake⟩
  | sleepAgain hphase hqueue =>
      have hdue := h.awake _ hphase
      simp only [Drain.remaining] at hdue
      exact h.sleep hdue
  | epochEnd hphase hqueue hperm hrun =>
      rename_i pools results service'
      obtain ⟨hconfig, hepoch, -⟩ := advanceEpoch_cases (processEpochEnd_cases hrun)
      have hdue := h.awake _ hphase
      simp only [Drain.remaining, Nat.zero_mul, Nat.add_zero] at hdue
      refine ⟨?_, ?_, ?_⟩
      · show service'.currentEpoch.toNat * service'.config.epochDurationSecs.toNat ≤ s.seconds
        rw [hconfig, hepoch]
        exact (Nat.le_div_iff_mul_le (by decide)).2 hdue
      · rintro wakeAt drain ⟨⟩
      · rintro drain ⟨⟩
  -- the loop neither sleeps nor drains, and the epoch is the same
  | submitted _ _ | refused _ _ | batchFailed _ | again _ =>
      refine ⟨h.begun, ?_, ?_⟩
      · rintro wakeAt drain ⟨⟩
      · rintro drain ⟨⟩

/-- No receipt that passed the checks in the grace period of an earlier epoch, in any process,
passes them again when it is received. -/
def NoLateReplay (x : Packages) (h : AggregatorHost D) : HostEvent D → Prop
  | .loop .receive => ∀ s, h.process = some s → ∀ data queue, s.queue = data :: queue →
      NoGraceReplay x s.base (.message data)
  | _ => True

/-- The accounting goes on in the loop. -/
theorem Accounted.loop {x : Packages} {s s' : LoopState D} {e : LoopEvent}
    (h : Accounted x s.base) (hnext : LoopNext x s e s')
    (hallowed : e = .receive → ∀ data queue, s.queue = data :: queue →
      NoGraceReplay x s.base (.message data)) : Accounted x s'.base := by
  rcases loopNext_cases hnext with
    ⟨data, rfl⟩ | ⟨hbase, -, -, -⟩ | ⟨data, queue, accepted, c', disk', rfl, -, hqueue, hrun, rfl⟩ |
      ⟨pools, results, service', -, -, -, hperm, hrun, rfl⟩ | ⟨results, fate, -, rfl⟩
  · exact h
  · exact hbase ▸ h
  · exact h.deliver (hallowed rfl data queue hqueue) hrun (h.consistent.deliver hrun)
  · have hadv := processEpochEnd_cases hrun
    exact h.close hperm hadv (h.consistent.close hadv)
  · exact h

theorem loopNext_config {x : Packages} {s s' : LoopState D} {e : LoopEvent}
    (hnext : LoopNext x s e s') : s'.base.service.config = s.base.service.config := by
  rcases loopNext_cases hnext with
    ⟨data, rfl⟩ | ⟨hbase, -, -, -⟩ | ⟨data, queue, accepted, c', disk', -, -, -, -, rfl⟩ |
      ⟨pools, results, service', -, -, -, -, hrun, rfl⟩ | ⟨results, fate, -, rfl⟩
  · rfl
  · rw [hbase]
  · rfl
  · exact (advanceEpoch_cases (processEpochEnd_cases hrun)).1
  · rfl

theorem AggregatorHost.Accounted.next {x : Packages} {config : AggregatorConfig}
    {h h' : AggregatorHost D} {e : HostEvent D} (hacc : h.Accounted x config)
    (hallowed : NoLateReplay x h e) (hnext : HostNext x config h e h') :
    h'.Accounted x config := by
  cases hnext with
  | start registered hdown hnow hnew =>
      refine { down := by rintro ⟨⟩, up := ?_ }
      rintro _ ⟨⟩
      refine ⟨hacc.start hdown hnow hnew registered, Timely.enter hnow hnew registered, ?_⟩
      obtain ⟨cidToPool, hservice⟩ := registerPools_eq _ registered
      rw [hservice]
      exact (new_cases hnew).2.1
  | loop hup hloop =>
      obtain ⟨hbase, htimely, hconfig⟩ := hacc.up _ hup
      refine { down := by rintro ⟨⟩, up := ?_ }
      rintro _ ⟨⟩
      refine ⟨hbase.loop hloop ?_, htimely.next hloop, (loopNext_config hloop).trans hconfig⟩
      rintro rfl
      exact hallowed _ hup
  | die disk hup =>
      obtain ⟨hbase, htimely, hconfig⟩ := hacc.up _ hup
      have hnodup := (List.nodup_append'.1 hbase.distinct).1
      refine { down := fun _ => ⟨rfl, hnodup, _, hconfig ▸ htimely.begun, ?_⟩, up := ?_ }
      swap
      · rintro _ ⟨⟩
      intro r hr
      rcases hbase.settled r hr with hold | hlate
      · left
        rw [hbase.consistent.aligned.epochStart, hconfig] at hold
        exact hold
      · exact Or.inr hlate
  | idle nanos hdown =>
      obtain ⟨hnone, hnodup, epoch, hepoch, hpast⟩ := hacc.down hdown
      refine { down := fun _ => ⟨hnone, hnodup, epoch, ?_, hpast⟩, up := ?_ }
      · exact hepoch.trans (Nat.div_le_div_right (Nat.le_add_right _ _))
      · intro s hup
        rw [show h.process = some s from hup] at hdown
        cases hdown

/-- Over all processes of a machine, which may end and start again at any time of a clock that does
not go back: in a run without replays of late receipts, no dedup key is handed to the batch builder
twice. -/
theorem settled_once_across_restarts (x : Packages) (config : AggregatorConfig)
    {h : AggregatorHost D} (hrun : Run HostStarted (HostNext x config) (NoLateReplay x) h) :
    (h.settled.map StorageReceipt.key).Nodup := by
  have hacc : h.Accounted x config := by
    refine Run.invariant (I := AggregatorHost.Accounted x config) ?_ ?_ hrun
    · rintro h ⟨hhistory, -, -, hdown⟩
      refine { down := fun _ => ?_, up := ?_ }
      · rw [hhistory]
        exact ⟨rfl, List.nodup_nil, 0, by simp, by rintro r ⟨⟩⟩
      · intro s hup
        rw [hdown] at hup
        cases hup
    · exact fun _ _ _ hacc hallowed hnext => hacc.next hallowed hnext
  unfold AggregatorHost.settled
  cases hprocess : h.process with
  | none => exact (hacc.down hprocess).2.1
  | some s => exact (List.nodup_append'.1 (hacc.up s hprocess).1.distinct).1

/-! ## Every accepted receipt is settled, lost or held -/

/-- What a collector holds is what was accepted in its epoch. -/
theorem Holds.receipts {x : Packages} {c : ReceiptCollector}
    {accepted : List (Bytes 32 × StorageReceipt)} (h : Holds x c accepted) :
    c.receipts ~ accepted.map Prod.snd := by
  have hall : ∀ a ∈ accepted, a.1 ∈ c.pools := by
    intro a ha
    rw [h.pools]
    exact ⟨a, ha, rfl⟩
  rw [ReceiptCollector.receipts, funext h.stored]
  exact perm_flatMap_ofPool c.nodup_pools hall

omit [FileSystem D] in
/-- A collector that accepted nothing in its epoch holds nothing. -/
theorem receipts_of_accepted_eq_nil {x : Packages} {s : State D} (h : Consistent x s)
    (hnone : s.history.accepted = []) : s.service.collector.receipts = [] := by
  have hperm := h.holds.receipts
  rw [hnone] at hperm
  exact hperm.eq_nil

omit [FileSystem D] in
/-- The end of an epoch settles what the collector holds. -/
theorem settled_close {s : State D} {pools : List (Bytes 32)}
    (hperm : pools.Perm s.service.collector.pools) (service' : AggregatorService) :
    (s.close pools service').history.settled ~
      s.history.settled ++ s.service.collector.receipts := by
  have hsettled : (s.close pools service').history.settled =
      s.history.settled ++ pools.flatMap s.service.collector.stored := by
    simp only [State.close, History.settled, List.flatMap_append, List.flatMap_map]
  rw [hsettled]
  exact (hperm.flatMap_right _).append_left _

/-- The receipts accepted are those settled, lost and held. -/
structure AggregatorHost.Balanced (x : Packages) (h : AggregatorHost D) : Prop where
  consistent : ∀ s, h.process = some s → Consistent x s.base
  down : h.process = none → h.history.accepted = []
  balance : h.allAccepted.map Prod.snd ~ h.settled ++ (h.lost ++ h.held)

theorem AggregatorHost.Balanced.loop {x : Packages} {h : AggregatorHost D} {s s' : LoopState D}
    {e : LoopEvent} (hbal : h.Balanced x) (hup : h.process = some s) (hnext : LoopNext x s e s') :
    AggregatorHost.Balanced x { h with process := some s' } := by
  have hcons := hbal.consistent s hup
  have hbalance := hbal.balance
  simp only [AggregatorHost.allAccepted, AggregatorHost.settled, AggregatorHost.held, hup]
    at hbalance
  rcases loopNext_cases hnext with
    ⟨data, rfl⟩ | ⟨hbase, -, hlog, -⟩ | ⟨data, queue, accepted, c', disk', -, -, -, hrun, rfl⟩ |
      ⟨pools, results, service', -, -, -, hperm, hrun, rfl⟩ | ⟨results, fate, -, rfl⟩
  · exact { consistent := by rintro _ ⟨⟩; exact hcons, down := by rintro ⟨⟩, balance := hbalance }
  · refine { consistent := ?_, down := by rintro ⟨⟩, balance := ?_ }
    · rintro _ ⟨⟩
      exact hbase ▸ hcons
    · simp only [AggregatorHost.allAccepted, AggregatorHost.settled, AggregatorHost.held, hbase,
        hlog]
      exact hbalance
  · have hafter := hcons.deliver hrun
    refine { consistent := ?_, down := by rintro ⟨⟩, balance := ?_ }
    · rintro _ ⟨⟩
      exact hafter
    · -- what is accepted now is held
      have hheld : c'.receipts ~ s.base.service.collector.receipts ++
          (acceptedBy x (decoded x [data]) s.base.service.collector s.base.disk).map Prod.snd := by
        refine hafter.holds.receipts.trans ?_
        rw [State.deliver, List.map_append]
        exact hcons.holds.receipts.symm.append_right _
      have hnew := hbalance.append_right
        ((acceptedBy x (decoded x [data]) s.base.service.collector s.base.disk).map Prod.snd)
      simp only [AggregatorHost.allAccepted, AggregatorHost.settled, AggregatorHost.held,
        LoopState.receive, State.deliver, History.settled]
      simp only [History.settled, List.map_append, List.append_assoc] at hnew ⊢
      exact hnew.trans (((hheld.symm.append_left _).append_left _))
  · have hadv := processEpochEnd_cases hrun
    have hafter := @Consistent.close _ _ _ hcons pools _ hadv
    refine { consistent := ?_, down := by rintro ⟨⟩, balance := ?_ }
    · rintro _ ⟨⟩
      exact hafter
    · -- what was held is settled, and nothing is held
      have hsettled := settled_close hperm service'
      have hheld : service'.collector.receipts = [] := receipts_of_accepted_eq_nil hafter rfl
      simp only [AggregatorHost.allAccepted, AggregatorHost.settled, AggregatorHost.held,
        LoopState.close]
      calc (h.accepted ++ s.log.accepted).map Prod.snd
          ~ s.base.history.settled ++ (h.lost ++ s.base.service.collector.receipts) := hbalance
        _ ~ s.base.history.settled ++ (s.base.service.collector.receipts ++ h.lost) :=
            List.perm_append_comm.append_left _
        _ = s.base.history.settled ++ s.base.service.collector.receipts ++ h.lost :=
            (List.append_assoc _ _ _).symm
        _ ~ (s.base.close pools service').history.settled ++ h.lost :=
            hsettled.symm.append_right _
        _ = (s.base.close pools service').history.settled ++
              (h.lost ++ (s.base.close pools service').service.collector.receipts) := by
            rw [State.close, hheld, List.append_nil]
  · exact { consistent := by rintro _ ⟨⟩; exact hcons, down := by rintro ⟨⟩, balance := hbalance }

theorem AggregatorHost.Balanced.next {x : Packages} {config : AggregatorConfig}
    {h h' : AggregatorHost D} {e : HostEvent D} (hbal : h.Balanced x)
    (hnext : HostNext x config h e h') : h'.Balanced x := by
  cases hnext with
  | start registered hdown hnow hnew =>
      have hnone := hbal.down hdown
      have hbalance := hbal.balance
      simp only [AggregatorHost.allAccepted, AggregatorHost.settled, AggregatorHost.held, hdown]
        at hbalance
      have hempty := enter_consistent (x := x) hnone hnew registered
      refine { consistent := ?_, down := by rintro ⟨⟩, balance := ?_ }
      · rintro _ ⟨⟩
        exact hempty
      · have hheld := receipts_of_accepted_eq_nil hempty hnone
        simp only [AggregatorHost.allAccepted, AggregatorHost.settled, AggregatorHost.held, hheld]
        simpa [AggregatorHost.enter] using hbalance
  | loop hup hloop => exact hbal.loop hup hloop
  | die disk hup =>
      have hbalance := hbal.balance
      simp only [AggregatorHost.allAccepted, AggregatorHost.settled, AggregatorHost.held, hup]
        at hbalance
      refine { consistent := by rintro _ ⟨⟩, down := fun _ => rfl, balance := ?_ }
      simp only [AggregatorHost.allAccepted, AggregatorHost.settled, AggregatorHost.held,
        AggregatorHost.died, List.append_nil]
      exact hbalance
  | idle nanos hdown =>
      have hbalance := hbal.balance
      simp only [AggregatorHost.allAccepted, AggregatorHost.settled, AggregatorHost.held, hdown]
        at hbalance
      refine { consistent := ?_, down := fun _ => hbal.down hdown, balance := ?_ }
      · intro s hup
        rw [show h.process = some s from hup] at hdown
        cases hdown
      · simp only [AggregatorHost.allAccepted, AggregatorHost.settled, AggregatorHost.held, hdown]
        exact hbalance

/-- In every run, the receipts that any process has accepted are, one for one, those handed to the
batch builder, those in the collectors of the processes that have ended, and those in the collector
of the process that runs. -/
theorem accepted_settled_or_lost (x : Packages) (config : AggregatorConfig) {h : AggregatorHost D}
    (hrun : Run HostStarted (HostNext x config) (fun _ _ => True) h) :
    h.allAccepted.map Prod.snd ~ h.settled ++ (h.lost ++ h.held) := by
  have hbal : h.Balanced x := by
    refine Run.invariant (I := AggregatorHost.Balanced x) ?_ ?_ hrun
    · rintro h ⟨hhistory, haccepted, hlost, hdown⟩
      refine { consistent := ?_, down := fun _ => by rw [hhistory]; rfl, balance := ?_ }
      · intro s hup
        rw [hdown] at hup
        cases hup
      · simp only [AggregatorHost.allAccepted, AggregatorHost.settled, AggregatorHost.held, hdown,
          hhistory, haccepted, hlost]
        exact List.Perm.refl _
    · exact fun _ _ _ hbal _ hnext => hbal.next hnext
  exact hbal.balance

end Host

/-! ## Processes with ten-second epochs -/

def shortHost : AggregatorHost FileTree :=
  { clock := 7203 * 10 ^ 9
    disk := FileTree.empty
    history := History.empty
    accepted := []
    lost := []
    process := none }

def shortReceived : LoopState FileTree :=
  shortPolled.receive receiptPackages lateReceipt.bincode [] (shortLate 720) FileTree.empty

theorem run_shortReceived
    {allowed : AggregatorHost FileTree → HostEvent FileTree → Prop}
    (hother : ∀ h e, e ≠ .loop .receive → allowed h e)
    (hreceive : allowed { shortHost with process := some shortPolled } (.loop .receive)) :
    Run HostStarted (HostNext receiptPackages (shortService 720).config) allowed
      { shortHost with process := some shortReceived } := by
  have hwait : waitSecs (shortService 720) 7203 = .ok 7 := by decide +kernel
  have hlate : processReceiptMessage receiptPackages lateReceipt.bincode
      (shortService 720).collector FileTree.empty =
        .ok (.ok (), shortLate 720, FileTree.empty) := by
    decide +kernel
  have hnew : AggregatorService.new (shortService 720).config 7203 =
      .ok { shortService 720 with collector := ReceiptCollector.new 7200 7210 5 } := by
    decide +kernel
  have hempty : Run HostStarted (HostNext receiptPackages (shortService 720).config) allowed
      shortHost := Run.start ⟨rfl, rfl, rfl, rfl⟩
  have hstart : Run HostStarted (HostNext receiptPackages (shortService 720).config) allowed
      { shortHost with process := some (shortStart 720 7203) } :=
    hempty.step (hother _ _ (by simp))
      (HostNext.start [(someContent, somePool)] rfl (by decide) hnew)
  have hasleep := hstart.step (hother _ _ (by simp)) (HostNext.loop rfl (LoopNext.turn rfl hwait))
  have hlater := hasleep.step (hother _ _ (by simp))
    (HostNext.loop rfl (LoopNext.tick _ (2 * 10 ^ 9)))
  have harrived := hlater.step (hother _ _ (by simp))
    (HostNext.loop rfl (LoopNext.enqueue _ lateReceipt.bincode))
  have hdue := harrived.step (hother _ _ (by simp))
    (HostNext.loop rfl (LoopNext.tick _ (5 * 10 ^ 9)))
  have hawake : Run HostStarted (HostNext receiptPackages (shortService 720).config) allowed
      { shortHost with process := some shortPolled } :=
    hdue.step (hother _ _ (by simp)) (HostNext.loop rfl (LoopNext.wake rfl (by decide)))
  exact hawake.step hreceive (HostNext.loop rfl (LoopNext.receive rfl rfl hlate))

/-- The process ends the epoch and dies before it submits; the next one starts in the next epoch. -/
theorem settled_once_across_restarts_short :
    ∃ h : AggregatorHost FileTree, h.process.isSome ∧ h.settled = [lateReceipt] ∧
      (h.settled.map StorageReceipt.key).Nodup := by
  have hother : ∀ (h : AggregatorHost FileTree) e, e ≠ .loop .receive →
      NoLateReplay receiptPackages h e := by
    rintro h (_ | e | _ | _) hne
    · trivial
    · cases e <;> trivial
    · trivial
    · trivial
  have hreceived := run_shortReceived hother (by
    rintro s ⟨⟩ data queue - receipt - - offer hmem
    exact absurd hmem List.not_mem_nil)
  have hend : processEpochEnd receiptPackages [somePool]
      { shortService 720 with collector := shortLate 720 } =
        .ok ([.ok lateTransaction], shortService 721) :=
    processEpochEnd_late (by decide +kernel) (by decide +kernel)
  have hnew : AggregatorService.new (shortService 720).config 7215 =
      .ok { shortService 721 with collector := ReceiptCollector.new 7210 7220 5 } := by
    decide +kernel
  have hgrace := hreceived.step (hother _ _ (by simp))
    (HostNext.loop rfl (LoopNext.sleepAgain rfl rfl))
  have hover := hgrace.step (hother _ _ (by simp))
    (HostNext.loop rfl (LoopNext.tick _ (5 * 10 ^ 9)))
  have hfinal : Run HostStarted (HostNext receiptPackages (shortService 720).config)
      (NoLateReplay receiptPackages) { shortHost with process := some shortDrained } :=
    hover.step (hother _ _ (by simp)) (HostNext.loop rfl (LoopNext.wake rfl (by decide)))
  have hclosed : Run HostStarted (HostNext receiptPackages (shortService 720).config)
      (NoLateReplay receiptPackages) { shortHost with process := some shortSubmitting } :=
    hfinal.step (hother _ _ (by simp))
      (HostNext.loop rfl (LoopNext.epochEnd rfl rfl (by decide +kernel) hend))
  have hdied := hclosed.step (hother _ _ (by simp)) (HostNext.die FileTree.empty rfl)
  have hagain := hdied.step (hother _ _ (by simp))
    (HostNext.start [(someContent, somePool)] rfl (by decide) hnew)
  exact ⟨_, rfl, by decide +kernel,
    settled_once_across_restarts receiptPackages (shortService 720).config hagain⟩

/-- The process dies in its grace period. -/
theorem accepted_settled_or_lost_short :
    ∃ h : AggregatorHost FileTree, h.lost = [lateReceipt] ∧
      h.allAccepted.map Prod.snd ~ h.settled ++ (h.lost ++ h.held) := by
  have hreceived := run_shortReceived (fun _ _ _ => trivial) trivial
  have hdied := hreceived.step trivial (HostNext.die FileTree.empty rfl)
  exact ⟨_, by decide +kernel,
    accepted_settled_or_lost receiptPackages (shortService 720).config hdied⟩

end Aggregator
end CraftecCore
