import CraftecCore.Network.Exchange

/-!
# Pacing — how often a node sends to a peer

`should_send` looks at the last time a peer was marked as sent to, and forgets it with the peer.  So
two messages to a peer are an interval apart unless the peer is removed in between, by its name or
by a cleanup with a shorter age; cleanups with an age of an interval or more never make a node send
early.
-/

namespace CraftecCore
namespace Network

open PexManager

variable {Peer Addr : Type}

/-- An operation that forgets a peer who was last sent to at this time. -/
def Forgets (peer : Peer) (sent : ℕ) (e : ℕ × PexOp Peer Addr) : Prop :=
  e.2 = .removePeer peer ∨ ∃ maxAge, e.2 = .cleanupStalePeers maxAge ∧ sent + maxAge < e.1

/-- The earlier the last message, the more operations forget it. -/
theorem Forgets.mono {peer : Peer} {sent sent' : ℕ} {e : ℕ × PexOp Peer Addr} (h : sent ≤ sent')
    (hforgets : Forgets peer sent' e) : Forgets peer sent e := by
  rcases hforgets with hremove | ⟨maxAge, hcleanup, hlt⟩
  · exact Or.inl hremove
  · exact Or.inr ⟨maxAge, hcleanup, by omega⟩

variable [LinearOrder Peer]

/-! ## One operation -/

section Step

variable {m m' : PexManager Peer Addr} {peer : Peer} {now : ℕ} {op : PexOp Peer Addr}

theorem lastSent_receivePex : ∀ (peers : List (Peer × List Addr)) (m : PexManager Peer Addr),
    (m.receivePex peers).2.lastSent = m.lastSent ∧ (m.receivePex peers).2.interval = m.interval
  | [], m => ⟨rfl, rfl⟩
  | (peer, addrs) :: peers, m => by
      have hadd : (m.addPeer peer addrs).lastSent = m.lastSent ∧
          (m.addPeer peer addrs).interval = m.interval := by
        rw [addPeer]
        split <;> exact ⟨rfl, rfl⟩
      have hrest := lastSent_receivePex peers (m.addPeer peer addrs)
      rw [hadd.1, hadd.2] at hrest
      rw [receivePex]
      split
      · exact lastSent_receivePex peers m
      · simp only
        split <;> exact hrest

theorem lastSent_removePeers (peer : Peer) : ∀ (peers : List Peer) (m : PexManager Peer Addr),
    (peers.foldl removePeer m).lastSent.get? peer =
      if peer ∈ peers then none else m.lastSent.get? peer
  | [], m => by simp
  | other :: peers, m => by
      rw [List.foldl_cons, lastSent_removePeers peer peers, removePeer, SortedMap.get?_erase]
      by_cases heq : peer = other <;> simp [heq]

theorem interval_removePeers : ∀ (peers : List Peer) (m : PexManager Peer Addr),
    (peers.foldl removePeer m).interval = m.interval
  | [], _ => rfl
  | other :: peers, m => interval_removePeers peers (m.removePeer other)

theorem interval_apply (hrun : op.apply now m = .ok m') : m'.interval = m.interval := by
  cases op with
  | addPeer peer' addrs =>
      rw [← Outcome.ok.inj hrun, addPeer]
      split <;> rfl
  | receivePex sender peers =>
      rw [← Outcome.ok.inj hrun]
      exact (lastSent_receivePex peers m).2
  | markSent peer' =>
      rw [← Outcome.ok.inj hrun]
      rfl
  | removePeer peer' =>
      rw [← Outcome.ok.inj hrun]
      rfl
  | cleanupStalePeers maxAge =>
      by_cases hage : maxAge ≤ now
      · rw [PexOp.apply, PexManager.cleanupStalePeers, if_pos hage] at hrun
        rw [← Outcome.ok.inj hrun]
        exact interval_removePeers _ m
      · simp [PexOp.apply, PexManager.cleanupStalePeers, hage] at hrun

/-- Only marking and forgetting change when a peer was last sent to. -/
theorem lastSent_apply (hrun : op.apply now m = .ok m') (hmark : op ≠ .markSent peer) :
    (m.lastSent.get? peer = none → m'.lastSent.get? peer = none) ∧
      ∀ sent, m.lastSent.get? peer = some sent →
        (Forgets peer sent (now, op) → m'.lastSent.get? peer = none) ∧
          (¬ Forgets peer sent (now, op) → m'.lastSent.get? peer = some sent) := by
  have hkept : m'.lastSent.get? peer = m.lastSent.get? peer →
      (∀ sent, ¬ Forgets peer sent (now, op)) →
        (m.lastSent.get? peer = none → m'.lastSent.get? peer = none) ∧
          ∀ sent, m.lastSent.get? peer = some sent →
            (Forgets peer sent (now, op) → m'.lastSent.get? peer = none) ∧
              (¬ Forgets peer sent (now, op) → m'.lastSent.get? peer = some sent) := by
    intro heq hnot
    exact ⟨fun h => heq.trans h,
      fun sent h => ⟨fun hforgets => absurd hforgets (hnot sent), fun _ => heq.trans h⟩⟩
  cases op with
  | addPeer peer' addrs =>
      refine hkept ?_ (by simp [Forgets])
      rw [← Outcome.ok.inj hrun, addPeer]
      split <;> rfl
  | receivePex sender peers =>
      refine hkept ?_ (by simp [Forgets])
      rw [← Outcome.ok.inj hrun, (lastSent_receivePex peers m).1]
  | markSent peer' =>
      refine hkept ?_ (by simp [Forgets])
      have hne : peer ≠ peer' := fun heq => hmark (by rw [heq])
      rw [← Outcome.ok.inj hrun, markSent, SortedMap.get?_insert_of_ne _ _ hne]
  | removePeer peer' =>
      by_cases heq : peer = peer'
      · subst heq
        have hnone : m'.lastSent.get? peer = none := by
          rw [← Outcome.ok.inj hrun, removePeer, SortedMap.get?_erase, if_pos rfl]
        exact ⟨fun _ => hnone, fun sent _ => ⟨fun _ => hnone, fun h => absurd (Or.inl rfl) h⟩⟩
      · refine hkept ?_ ?_
        · rw [← Outcome.ok.inj hrun, removePeer, SortedMap.get?_erase, if_neg heq]
        · rintro sent (h | ⟨maxAge, h, -⟩)
          · exact heq (PexOp.removePeer.inj h).symm
          · cases h
  | cleanupStalePeers maxAge =>
      by_cases hage : maxAge ≤ now
      · rw [PexOp.apply, PexManager.cleanupStalePeers, if_pos hage] at hrun
        have hget := lastSent_removePeers peer
          ((m.lastSent.entries.filter fun e => e.2 < now - maxAge).map Prod.fst) m
        rw [Outcome.ok.inj hrun] at hget
        have hstale : peer ∈ (m.lastSent.entries.filter fun e => e.2 < now - maxAge).map Prod.fst ↔
            ∃ sent, m.lastSent.get? peer = some sent ∧ sent < now - maxAge := by
          simp only [List.mem_map, List.mem_filter, decide_eq_true_eq, Prod.exists,
            exists_and_right, exists_eq_right, SortedMap.mem_entries]
        constructor
        · intro hnone
          rw [hget, hnone, ite_self]
        · intro sent hsome
          have hforgets : Forgets peer sent (now, (.cleanupStalePeers maxAge : PexOp Peer Addr)) ↔
              sent < now - maxAge := by
            constructor
            · rintro (h | ⟨age, h, hlt⟩)
              · cases h
              · cases h
                change sent + maxAge < now at hlt
                omega
            · intro hlt
              exact Or.inr ⟨maxAge, rfl, show sent + maxAge < now by omega⟩
          have hmem : peer ∈ (m.lastSent.entries.filter fun e => e.2 < now - maxAge).map Prod.fst ↔
              sent < now - maxAge := hstale.trans (by simp [hsome])
          rw [hforgets, hget, hsome]
          exact ⟨fun hlt => if_pos (hmem.2 hlt), fun hfresh => if_neg fun h => hfresh (hmem.1 h)⟩
      · simp [PexOp.apply, PexManager.cleanupStalePeers, hage] at hrun

end Step

/-! ## Runs -/

section Runs

variable {m m' : PexManager Peer Addr} {peer : Peer} {sent : ℕ}

theorem interval_runOps {history : List (ℕ × PexOp Peer Addr)} :
    ∀ {m m' : PexManager Peer Addr}, runOps m history = .ok m' → m'.interval = m.interval := by
  induction history using List.reverseRecOn with
  | nil =>
      intro m m' hrun
      rw [← Outcome.ok.inj hrun]
  | append_singleton history e ih =>
      intro m m' hrun
      rw [runOps_append, Outcome.bind_eq_ok] at hrun
      rcases hrun with ⟨m₁, hbefore, hlast⟩
      exact (interval_apply hlast).trans (ih hbefore)

/-- While a peer is not marked again, the time of the mark stays until an operation forgets it. -/
theorem lastSent_runOps (hsent : m.lastSent.get? peer = some sent)
    {history : List (ℕ × PexOp Peer Addr)} (hmark : ∀ e ∈ history, e.2 ≠ .markSent peer) :
    ∀ {m' : PexManager Peer Addr}, runOps m history = .ok m' →
      ((∃ e ∈ history, Forgets peer sent e) ∧ m'.lastSent.get? peer = none) ∨
        ((∀ e ∈ history, ¬ Forgets peer sent e) ∧ m'.lastSent.get? peer = some sent) := by
  induction history using List.reverseRecOn with
  | nil =>
      intro m' hrun
      right
      exact ⟨by simp, by rw [← Outcome.ok.inj hrun]; exact hsent⟩
  | append_singleton history e ih =>
      intro m' hrun
      rw [runOps_append, Outcome.bind_eq_ok] at hrun
      rcases hrun with ⟨m₁, hbefore, hlast⟩
      have hstep := lastSent_apply hlast (hmark e (by simp))
      rcases ih (fun e' he' => hmark e' (List.mem_append_left _ he')) hbefore with
        ⟨⟨e', he', hforgets⟩, hnone⟩ | ⟨hkept, hsome⟩
      · exact Or.inl ⟨⟨e', List.mem_append_left _ he', hforgets⟩, hstep.1 hnone⟩
      · by_cases hforgets : Forgets peer sent e
        · exact Or.inl ⟨⟨e, by simp, hforgets⟩, (hstep.2 sent hsome).1 hforgets⟩
        · refine Or.inr ⟨?_, (hstep.2 sent hsome).2 hforgets⟩
          intro e' he'
          rcases List.mem_append.1 he' with he' | he'
          · exact hkept e' he'
          · rw [List.mem_singleton.1 he']
            exact hforgets

/-- Until an operation forgets the peer, the last message is no earlier than the mark. -/
theorem le_lastSent_runOps (hsent : m.lastSent.get? peer = some sent)
    {history : List (ℕ × PexOp Peer Addr)} (hclock : ∀ e ∈ history, sent ≤ e.1) :
    ∀ {m' : PexManager Peer Addr}, runOps m history = .ok m' →
      (∃ e ∈ history, Forgets peer sent e) ∨
        ∃ sent' ≥ sent, m'.lastSent.get? peer = some sent' := by
  induction history using List.reverseRecOn with
  | nil =>
      intro m' hrun
      rw [← Outcome.ok.inj hrun]
      exact Or.inr ⟨sent, le_rfl, hsent⟩
  | append_singleton history e ih =>
      intro m' hrun
      rw [runOps_append, Outcome.bind_eq_ok] at hrun
      rcases hrun with ⟨m₁, hbefore, hlast⟩
      rcases e with ⟨now, op⟩
      by_cases hmark : op = .markSent peer
      · subst hmark
        refine Or.inr ⟨now, hclock (now, .markSent peer) (by simp), ?_⟩
        rw [← Outcome.ok.inj hlast, markSent, SortedMap.get?_insert_self]
      rcases ih (fun e' he' => hclock e' (List.mem_append_left _ he')) hbefore with
        ⟨e', he', hforgets⟩ | ⟨sent', hle, hsome⟩
      · exact Or.inl ⟨e', List.mem_append_left _ he', hforgets⟩
      · by_cases hforgets : Forgets peer sent' (now, op)
        · exact Or.inl ⟨(now, op), by simp, hforgets.mono hle⟩
        · exact Or.inr ⟨sent', hle, ((lastSent_apply hlast hmark).2 sent' hsome).2 hforgets⟩

/-- Whatever was done since a peer was sent to: `should_send` says no before an interval has passed
as long as the peer was not forgotten, and this exactly if the peer was not marked again.  If the
peer is not removed by its name and no cleanup has an age below the interval, it says yes only after
an interval. -/
theorem sends_paced {history : List (ℕ × PexOp Peer Addr)} (now : ℕ)
    (hrun : runOps m ((sent, .markSent peer) :: history) = .ok m')
    (hclock : ∀ e ∈ history, sent ≤ e.1 ∧ e.1 ≤ now) :
    (m'.shouldSend now peer = true →
      m.interval ≤ now - sent ∨ ∃ e ∈ history, Forgets peer sent e) ∧
    ((∀ e ∈ history, e.2 ≠ .markSent peer) →
      (m'.shouldSend now peer = true ↔
        m.interval ≤ now - sent ∨ ∃ e ∈ history, Forgets peer sent e)) ∧
    ((∀ e ∈ history, e.2 ≠ .removePeer peer ∧
        ∀ maxAge, e.2 = .cleanupStalePeers maxAge → m.interval ≤ maxAge) →
      m'.shouldSend now peer = true → m.interval ≤ now - sent) := by
  have hrest : runOps (m.markSent sent peer) history = .ok m' := by
    rw [runOps, List.foldlM_cons, Outcome.bind_eq_ok] at hrun
    rcases hrun with ⟨m₁, hfirst, hrest⟩
    rw [← Outcome.ok.inj hfirst] at hrest
    exact hrest
  have hmarked : (m.markSent sent peer).lastSent.get? peer = some sent :=
    SortedMap.get?_insert_self _ _ _
  have hinterval : m'.interval = (m.markSent sent peer).interval := interval_runOps hrest
  change m'.interval = m.interval at hinterval
  have hearly : m'.shouldSend now peer = true →
      m.interval ≤ now - sent ∨ ∃ e ∈ history, Forgets peer sent e := by
    intro hsend
    rcases le_lastSent_runOps hmarked (fun e he => (hclock e he).1) hrest with
      hforgets | ⟨sent', hle, hlast⟩
    · exact Or.inr hforgets
    · have hpassed : m'.interval ≤ now - sent' := by simpa [shouldSend, hlast] using hsend
      exact Or.inl (by omega)
  refine ⟨hearly, ?_, ?_⟩
  · intro hunmarked
    refine ⟨hearly, ?_⟩
    intro hallowed
    rcases lastSent_runOps hmarked hunmarked hrest with ⟨-, hnone⟩ | ⟨hkept, hsome⟩
    · simp [shouldSend, hnone]
    · rcases hallowed with hpassed | ⟨e, he, hforgets⟩
      · simpa [shouldSend, hsome, hinterval] using hpassed
      · exact absurd hforgets (hkept e he)
  · intro hcareful hsend
    rcases hearly hsend with hpassed | ⟨e, he, hremove | ⟨maxAge, hcleanup, hlt⟩⟩
    · exact hpassed
    · exact absurd hremove (hcareful e he).1
    · have hage := (hcareful e he).2 maxAge hcleanup
      have hnow := (hclock e he).2
      omega

end Runs

/-- Within a minute of sending, `should_send` says no; then it says yes. -/
theorem sends_paced_minute :
    ∃ m' : PexManager ℕ ℕ,
      runOps (withConfig 60 20) [(0, .markSent 7), (30, .addPeer 8 [1])] = .ok m' ∧
        m'.shouldSend 59 7 = false ∧ m'.shouldSend 60 7 = true := by
  have hrun : runOps (withConfig 60 20) [(0, .markSent 7), (30, .addPeer 8 [1])] =
      .ok (((withConfig 60 20 : PexManager ℕ ℕ).markSent 0 7).addPeer 8 [1]) := rfl
  have hearly := sends_paced 59 hrun (by simp)
  have hlater := sends_paced 60 hrun (by simp)
  refine ⟨_, hrun, ?_, ?_⟩
  · rw [Bool.eq_false_iff]
    intro hsend
    exact absurd (hearly.2.2 (by simp) hsend) (by decide)
  · exact (hlater.2.1 (by simp)).2 (Or.inl le_rfl)

end Network
end CraftecCore
