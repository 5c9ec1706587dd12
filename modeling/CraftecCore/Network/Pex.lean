import CraftecCore.Library.Outcome
import CraftecCore.Library.SortedMap
import Mathlib.Data.List.Induction

/-!
# Pex — which peers a cleanup keeps

The manager keeps the addresses of the peers it knows, and the time of the last message that it sent
to each.  Cleaning up stale peers goes by the times of sending, and no time of an announcement is
kept.  So a cleanup keeps the peers that were announced recently exactly when, for every known peer,
the last message to it is stale if and only if its last announcement is.

Instants and durations are numbers of one unit, and an operation is given the time it is made at.
-/

namespace CraftecCore
namespace Network

/-! ## The source functions -/

structure PexManager (Peer Addr : Type) [LinearOrder Peer] where
  /-- Known peers with their addresses. -/
  knownPeers : SortedMap Peer (List Addr)
  /-- When we last sent PEX to each peer. -/
  lastSent : SortedMap Peer ℕ
  /-- Interval between PEX exchanges. -/
  interval : ℕ
  /-- Max peers to share per exchange. -/
  maxShare : ℕ
  deriving DecidableEq

variable {Peer Addr : Type} [LinearOrder Peer]

namespace PexManager

/-- `new` is this with 60 seconds and 20 peers. -/
def withConfig (interval maxShare : ℕ) : PexManager Peer Addr :=
  { knownPeers := SortedMap.empty
    lastSent := SortedMap.empty
    interval := interval
    maxShare := maxShare }

def addPeer (m : PexManager Peer Addr) (peer : Peer) (addrs : List Addr) : PexManager Peer Addr :=
  if addrs.isEmpty then
    m
  else
    { m with knownPeers := m.knownPeers.insert peer addrs }

def removePeer (m : PexManager Peer Addr) (peer : Peer) : PexManager Peer Addr :=
  { m with
    knownPeers := m.knownPeers.erase peer
    lastSent := m.lastSent.erase peer }

/-- Process received PEX data: the new peers we should try connecting to. -/
def receivePex (m : PexManager Peer Addr) :
    List (Peer × List Addr) → List (Peer × List Addr) × PexManager Peer Addr
  | [] => ([], m)
  | (peer, addrs) :: peers =>
      if addrs.isEmpty then
        receivePex m peers
      else
        let rest := receivePex (m.addPeer peer addrs) peers
        if (m.knownPeers.get? peer).isNone then
          ((peer, addrs) :: rest.1, rest.2)
        else
          rest

def markSent (m : PexManager Peer Addr) (now : ℕ) (peer : Peer) : PexManager Peer Addr :=
  { m with lastSent := m.lastSent.insert peer now }

/-- Clean up old peers; an age that reaches behind the origin of the clock panics. -/
def cleanupStalePeers (m : PexManager Peer Addr) (now maxAge : ℕ) :
    Outcome (PexManager Peer Addr) :=
  if maxAge ≤ now then
    let cutoff := now - maxAge
    let stalePeers := (m.lastSent.entries.filter fun e => e.2 < cutoff).map Prod.fst
    pure (stalePeers.foldl removePeer m)
  else
    .panic .underflow

def Known (m : PexManager Peer Addr) (peer : Peer) : Prop :=
  ∃ addrs, m.knownPeers.get? peer = some addrs

end PexManager

inductive PexOp (Peer Addr : Type)
  | addPeer (peer : Peer) (addrs : List Addr)
  | receivePex (sender : Peer) (peers : List (Peer × List Addr))
  | markSent (peer : Peer)
  | removePeer (peer : Peer)
  | cleanupStalePeers (maxAge : ℕ)

def PexOp.apply (now : ℕ) (m : PexManager Peer Addr) :
    PexOp Peer Addr → Outcome (PexManager Peer Addr)
  | .addPeer peer addrs => pure (m.addPeer peer addrs)
  | .receivePex _ peers => pure (m.receivePex peers).2
  | .markSent peer => pure (m.markSent now peer)
  | .removePeer peer => pure (m.removePeer peer)
  | .cleanupStalePeers maxAge => m.cleanupStalePeers now maxAge

def runOps (m : PexManager Peer Addr) (history : List (ℕ × PexOp Peer Addr)) :
    Outcome (PexManager Peer Addr) :=
  history.foldlM (fun m e => e.2.apply e.1 m) m

theorem runOps_append (m : PexManager Peer Addr) (history : List (ℕ × PexOp Peer Addr)) (now : ℕ)
    (op : PexOp Peer Addr) :
    runOps m (history ++ [(now, op)]) = runOps m history >>= fun m => op.apply now m := by
  simp only [runOps, List.foldlM_append, List.foldlM_cons, List.foldlM_nil, bind_pure]

/-! ## Announcements -/

/-- The operation announces the peer, with at least one address. -/
def PexOp.announces (peer : Peer) : PexOp Peer Addr → Bool
  | .addPeer peer' addrs => decide (peer' = peer) && !addrs.isEmpty
  | .receivePex _ peers => peers.any fun e => decide (e.1 = peer) && !e.2.isEmpty
  | _ => false

def lastAnnounced (peer : Peer) (history : List (ℕ × PexOp Peer Addr)) : Option ℕ :=
  ((history.filter fun e => e.2.announces peer).getLast?).map Prod.fst

theorem lastAnnounced_append (peer : Peer) (history : List (ℕ × PexOp Peer Addr)) (time : ℕ)
    (op : PexOp Peer Addr) :
    lastAnnounced peer (history ++ [(time, op)]) =
      if op.announces peer then some time else lastAnnounced peer history := by
  cases hop : op.announces peer <;> simp [lastAnnounced, hop]

/-! ## Which peers are known -/

namespace PexManager

theorem known_addPeer {m : PexManager Peer Addr} {peer peer' : Peer} {addrs : List Addr} :
    (m.addPeer peer' addrs).Known peer ↔ (peer' = peer ∧ addrs ≠ []) ∨ m.Known peer := by
  cases addrs with
  | nil => simp [addPeer]
  | cons a addrs =>
      by_cases h : peer = peer'
      · simp [addPeer, Known, h]
      · simp [addPeer, Known, SortedMap.get?_insert, h, Ne.symm h]

theorem known_removePeer {m : PexManager Peer Addr} {peer peer' : Peer} :
    (m.removePeer peer').Known peer ↔ peer ≠ peer' ∧ m.Known peer := by
  by_cases h : peer = peer' <;> simp [removePeer, Known, SortedMap.get?_erase, h]

/-- Received peers are known if they have an address. -/
theorem known_receivePex {peer : Peer} : ∀ (peers : List (Peer × List Addr))
    (m : PexManager Peer Addr), (m.receivePex peers).2.Known peer ↔
      (∃ addrs, (peer, addrs) ∈ peers ∧ addrs ≠ []) ∨ m.Known peer
  | [], m => by simp [receivePex]
  | (peer', addrs) :: peers, m => by
      cases addrs with
      | nil =>
          -- an entry without an address is passed over
          have hrest : m.receivePex ((peer', []) :: peers) = m.receivePex peers := by
            simp [receivePex]
          rw [hrest, known_receivePex peers m]
          simp [or_and_right, exists_or]
      | cons a addrs =>
          have hrest : (m.receivePex ((peer', a :: addrs) :: peers)).2 =
              ((m.addPeer peer' (a :: addrs)).receivePex peers).2 := by
            simp only [receivePex, List.isEmpty_cons, Bool.false_eq_true, if_false]
            split <;> rfl
          rw [hrest, known_receivePex peers, known_addPeer]
          constructor
          · rintro (⟨more, hmem, hne⟩ | ⟨rfl, hne⟩ | hknown)
            · exact Or.inl ⟨more, List.mem_cons_of_mem _ hmem, hne⟩
            · exact Or.inl ⟨a :: addrs, List.mem_cons_self, hne⟩
            · exact Or.inr hknown
          · rintro (⟨more, hmem, hne⟩ | hknown)
            · rcases List.mem_cons.1 hmem with heq | hmem
              · exact Or.inr (Or.inl ⟨(congrArg Prod.fst heq).symm, List.cons_ne_nil a addrs⟩)
              · exact Or.inl ⟨more, hmem, hne⟩
            · exact Or.inr (Or.inr hknown)

theorem known_removePeers {peer : Peer} : ∀ {peers : List Peer} {m : PexManager Peer Addr},
    (peers.foldl removePeer m).Known peer ↔ peer ∉ peers ∧ m.Known peer
  | [], m => by simp
  | peer' :: peers, m => by
      rw [List.foldl_cons, known_removePeers, known_removePeer, List.mem_cons, not_or]
      exact ⟨fun h => ⟨⟨h.2.1, h.1⟩, h.2.2⟩, fun h => ⟨h.1.2, h.1.1, h.2⟩⟩

/-- The last message to the peer is older than the age. -/
def StaleSent (m : PexManager Peer Addr) (now maxAge : ℕ) (peer : Peer) : Prop :=
  ∃ sent, m.lastSent.get? peer = some sent ∧ sent + maxAge < now

/-- A cleanup removes the peers whose last message is stale, and no others. -/
theorem cleanupStalePeers_spec {m : PexManager Peer Addr} {now maxAge : ℕ} (h : maxAge ≤ now) :
    ∃ m', m.cleanupStalePeers now maxAge = .ok m' ∧
      ∀ peer, m'.Known peer ↔ ¬ m.StaleSent now maxAge peer ∧ m.Known peer := by
  refine ⟨_, by rw [cleanupStalePeers, if_pos h]; rfl, ?_⟩
  intro peer
  rw [known_removePeers]
  have hstale : peer ∈ (m.lastSent.entries.filter fun e => e.2 < now - maxAge).map Prod.fst ↔
      m.StaleSent now maxAge peer := by
    simp only [StaleSent, List.mem_map, List.mem_filter, decide_eq_true_eq, Prod.exists,
      exists_and_right, exists_eq_right, SortedMap.mem_entries]
    constructor
    · rintro ⟨sent, hsent, hlt⟩
      exact ⟨sent, hsent, by omega⟩
    · rintro ⟨sent, hsent, hlt⟩
      exact ⟨sent, hsent, by omega⟩
  rw [hstale]

end PexManager

open PexManager

/-- After an operation only peers are known that it announced or that were known. -/
theorem PexOp.known_of_apply {now : ℕ} {op : PexOp Peer Addr} {m m' : PexManager Peer Addr}
    (hrun : op.apply now m = .ok m') {peer : Peer} (h : m'.Known peer) :
    op.announces peer = true ∨ m.Known peer := by
  cases op with
  | addPeer peer' addrs =>
      rw [← Outcome.ok.inj hrun, known_addPeer] at h
      simpa [PexOp.announces] using h
  | receivePex sender peers =>
      rw [← Outcome.ok.inj hrun, known_receivePex] at h
      simpa [PexOp.announces] using h
  | markSent peer' =>
      rw [← Outcome.ok.inj hrun] at h
      exact Or.inr h
  | removePeer peer' =>
      rw [← Outcome.ok.inj hrun, known_removePeer] at h
      exact Or.inr h.2
  | cleanupStalePeers maxAge =>
      by_cases hage : maxAge ≤ now
      · rcases cleanupStalePeers_spec (m := m) hage with ⟨m₁, hclean, hknown⟩
        have heq : m₁ = m' := Outcome.ok.inj (hclean.symm.trans hrun)
        exact Or.inr ((hknown peer).1 (heq ▸ h)).2
      · simp [PexOp.apply, PexManager.cleanupStalePeers, hage] at hrun

/-- In every run, a peer that is known has been announced. -/
theorem exists_lastAnnounced {interval maxShare : ℕ} {history : List (ℕ × PexOp Peer Addr)}
    {m : PexManager Peer Addr} (hrun : runOps (withConfig interval maxShare) history = .ok m)
    {peer : Peer} (h : m.Known peer) : ∃ time, lastAnnounced peer history = some time := by
  induction history using List.reverseRecOn generalizing m with
  | nil =>
      rw [runOps, List.foldlM_nil] at hrun
      rw [← Outcome.ok.inj hrun] at h
      rcases h with ⟨addrs, haddrs⟩
      simp [withConfig] at haddrs
  | append_singleton history e ih =>
      rcases e with ⟨now, op⟩
      rw [runOps_append, Outcome.bind_eq_ok] at hrun
      rcases hrun with ⟨m₁, hbefore, hlast⟩
      rw [lastAnnounced_append]
      by_cases hnew : op.announces peer = true
      · exact ⟨now, by rw [if_pos hnew]⟩
      · rw [if_neg hnew]
        exact ih hbefore ((PexOp.known_of_apply hlast h).resolve_left hnew)

/-! ## Cleanups and sightings -/

/-- The last announcement of the peer is within the age. -/
def Sighted (history : List (ℕ × PexOp Peer Addr)) (now maxAge : ℕ) (peer : Peer) : Prop :=
  ∃ time, lastAnnounced peer history = some time ∧ now ≤ time + maxAge

/-- In every run, a cleanup keeps exactly the known peers that were last announced within the age,
if and only if for each of them the last message to it is older than the age exactly when its last
announcement is. -/
theorem cleanup_follows_sighting_iff {interval maxShare : ℕ} {history : List (ℕ × PexOp Peer Addr)}
    {m : PexManager Peer Addr} (hrun : runOps (withConfig interval maxShare) history = .ok m)
    {now maxAge : ℕ} (hage : maxAge ≤ now) :
    ∃ m', runOps (withConfig interval maxShare) (history ++ [(now, .cleanupStalePeers maxAge)]) =
        .ok m' ∧
      ((∀ peer, m.Known peer → (m'.Known peer ↔ Sighted history now maxAge peer)) ↔
        ∀ peer time, m.Known peer → lastAnnounced peer history = some time →
          (m.StaleSent now maxAge peer ↔ time + maxAge < now)) := by
  rcases cleanupStalePeers_spec (m := m) hage with ⟨m', hclean, hknown⟩
  have hwhole : runOps (withConfig interval maxShare)
      (history ++ [(now, .cleanupStalePeers maxAge)]) = .ok m' := by
    rw [runOps_append, hrun]
    exact hclean
  refine ⟨m', hwhole, ?_⟩
  have hsighted : ∀ {peer : Peer} {time : ℕ}, lastAnnounced peer history = some time →
      (Sighted history now maxAge peer ↔ ¬ time + maxAge < now) := by
    intro peer time htime
    rw [Sighted, htime, Nat.not_lt]
    constructor
    · rintro ⟨time', heq, hle⟩
      rw [Option.some.inj heq]
      exact hle
    · exact fun hle => ⟨time, rfl, hle⟩
  constructor
  · intro hall peer time hpeer htime
    have hiff := hall peer hpeer
    rw [hknown, hsighted htime, and_iff_left hpeer, not_iff_not] at hiff
    exact hiff
  · intro hall peer hpeer
    rcases exists_lastAnnounced hrun hpeer with ⟨time, htime⟩
    rw [hknown, hsighted htime, and_iff_left hpeer, not_iff_not]
    exact hall peer time hpeer htime

def unsentHistory : List (ℕ × PexOp ℕ ℕ) :=
  [(0, .addPeer 7 [1])]

/-- A peer that was sent to at time 0, and announced again at time 95. -/
def resightedHistory : List (ℕ × PexOp ℕ ℕ) :=
  [(0, .addPeer 7 [1]), (0, .markSent 7), (95, .receivePex 3 [(7, [2])])]

def knowsSeven (lastSent : SortedMap ℕ ℕ) (addr : ℕ) : PexManager ℕ ℕ :=
  { knownPeers := SortedMap.empty.insert 7 [addr]
    lastSent := lastSent
    interval := 60
    maxShare := 20 }

theorem runOps_resighted : runOps (withConfig 60 20) resightedHistory =
    .ok (knowsSeven (SortedMap.empty.insert 7 0) 2) := by
  decide +kernel

theorem cleanup_follows_sighting_iff_resighted :
    ∃ m', runOps (withConfig 60 20)
        (resightedHistory ++ [(100, .cleanupStalePeers 10)]) = .ok m' ∧
      ((∀ peer, (knowsSeven (SortedMap.empty.insert 7 0) 2).Known peer →
          (m'.Known peer ↔ Sighted resightedHistory 100 10 peer)) ↔
        ∀ peer time, (knowsSeven (SortedMap.empty.insert 7 0) 2).Known peer →
          lastAnnounced peer resightedHistory = some time →
            ((knowsSeven (SortedMap.empty.insert 7 0) 2).StaleSent 100 10 peer ↔
              time + 10 < 100)) :=
  cleanup_follows_sighting_iff runOps_resighted (by decide)

/-- A peer that was never sent to stays for ever, and one that was just announced again is removed,
because the last message to it is old. -/
theorem cleanup_ignores_sightings :
    (∃ m', runOps (withConfig 60 20) (unsentHistory ++ [(100, .cleanupStalePeers 10)]) = .ok m' ∧
      m'.Known 7 ∧ ¬ Sighted unsentHistory 100 10 7) ∧
    ∃ m', runOps (withConfig 60 20) (resightedHistory ++ [(100, .cleanupStalePeers 10)]) =
        .ok m' ∧ ¬ m'.Known 7 ∧ Sighted resightedHistory 100 10 7 := by
  refine ⟨⟨knowsSeven SortedMap.empty 1, by decide +kernel, ⟨[1], by decide⟩, ?_⟩,
    ⟨withConfig 60 20, by decide +kernel, ?_, ⟨95, by decide, by decide⟩⟩⟩
  · rintro ⟨time, htime, hle⟩
    have hzero : some 0 = some time := htime
    rw [← Option.some.inj hzero] at hle
    exact absurd hle (by decide)
  · rintro ⟨addrs, haddrs⟩
    simp [withConfig] at haddrs

end Network
end CraftecCore
