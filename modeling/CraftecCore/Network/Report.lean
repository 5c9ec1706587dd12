import CraftecCore.Network.Pex

/-!
# Report — a new peer is reported once

The loop over a received message asks for every entry whether the peer is known, and makes it known.
What it reports are the first entries of the peers that were not known before the message, in their
order.  A peer that was reported is reported again only after it was removed.
-/

namespace CraftecCore
namespace Network

variable {Peer Addr : Type} [LinearOrder Peer]

/-! ## The source function -/

/-- Get peers to share with a given peer, which is left out.  A hash map is iterated in an order
that it does not promise: any arrangement of its entries. -/
def PexManager.peersToShare (m : PexManager Peer Addr)
    (iter : {entries : List (Peer × List Addr) // entries.Perm m.knownPeers.entries})
    (exclude : Peer) : List (Peer × List Addr) :=
  (iter.val.filter fun e => e.1 ≠ exclude).take m.maxShare

/-! ## What one message reports -/

/-- The first entries with addresses of the peers that are not known. -/
def PexManager.newPeers (m : PexManager Peer Addr) (peers : List (Peer × List Addr)) :
    List (Peer × List Addr) :=
  (peers.filter fun e => !e.2.isEmpty && (m.knownPeers.get? e.1).isNone).eraseDupsBy
    fun a b => decide (a.1 = b.1)

/-- The addresses in the last entry of a peer that has some. -/
def lastAddrs (peer : Peer) (peers : List (Peer × List Addr)) : Option (List Addr) :=
  ((peers.filter fun e => decide (e.1 = peer) && !e.2.isEmpty).getLast?).map Prod.snd

section Keys

variable {K V : Type} [DecidableEq K]

theorem mem_keys_eraseDupsBy {k : K} :
    ∀ {l : List (K × V)},
      k ∈ (l.eraseDupsBy fun a b => decide (a.1 = b.1)).map Prod.fst ↔ k ∈ l.map Prod.fst
  | [] => by simp
  | e :: l => by
      have hshort : (l.filter fun b => !decide (b.1 = e.1)).length < l.length + 1 :=
        Nat.lt_succ_of_le (List.length_filter_le _ _)
      rw [List.eraseDupsBy_cons, List.map_cons, List.mem_cons, mem_keys_eraseDupsBy, List.map_cons,
        List.mem_cons]
      by_cases hk : k = e.1
      · simp [hk]
      · simp only [hk, false_or, List.mem_map, List.mem_filter]
        constructor
        · rintro ⟨a, ⟨ha, -⟩, rfl⟩
          exact ⟨a, ha, rfl⟩
        · rintro ⟨a, ha, rfl⟩
          exact ⟨a, ⟨ha, by simp [hk]⟩, rfl⟩
termination_by l => l.length

theorem nodup_keys_eraseDupsBy :
    ∀ {l : List (K × V)}, ((l.eraseDupsBy fun a b => decide (a.1 = b.1)).map Prod.fst).Nodup
  | [] => by simp
  | e :: l => by
      have hshort : (l.filter fun b => !decide (b.1 = e.1)).length < l.length + 1 :=
        Nat.lt_succ_of_le (List.length_filter_le _ _)
      rw [List.eraseDupsBy_cons, List.map_cons, List.nodup_cons, mem_keys_eraseDupsBy]
      refine ⟨?_, nodup_keys_eraseDupsBy⟩
      -- what follows the first entry has other keys
      simp
termination_by l => l.length

end Keys

namespace PexManager

theorem not_known_iff {m : PexManager Peer Addr} {peer : Peer} :
    ¬ m.Known peer ↔ m.knownPeers.get? peer = none := by
  rw [Known, ← Option.isSome_iff_exists, Option.not_isSome_iff_eq_none]

/-- The message without its first entry is received by the manager that knows that peer. -/
theorem receivePex_cons (m : PexManager Peer Addr) (peer : Peer) {addrs : List Addr}
    (hne : addrs ≠ []) (peers : List (Peer × List Addr)) :
    m.receivePex ((peer, addrs) :: peers) =
      ((if (m.knownPeers.get? peer).isNone then [(peer, addrs)] else []) ++
          ((m.addPeer peer addrs).receivePex peers).1,
        ((m.addPeer peer addrs).receivePex peers).2) := by
  have hempty : addrs.isEmpty = false := by simpa using hne
  rw [receivePex, if_neg (by simp [hempty])]
  split <;> simp

theorem get?_addPeer (m : PexManager Peer Addr) (peer other : Peer) {addrs : List Addr}
    (hne : addrs ≠ []) :
    (m.addPeer peer addrs).knownPeers.get? other =
      if other = peer then some addrs else m.knownPeers.get? other := by
  have hempty : addrs.isEmpty = false := by simpa using hne
  simp [addPeer, hempty, SortedMap.get?_insert]

/-- Once a peer is known, its entries are not first entries any more. -/
theorem filter_new_addPeer (m : PexManager Peer Addr) (peer : Peer) {addrs : List Addr}
    (hne : addrs ≠ []) (peers : List (Peer × List Addr)) :
    (peers.filter fun e =>
        !e.2.isEmpty && ((m.addPeer peer addrs).knownPeers.get? e.1).isNone) =
      (peers.filter fun e => !e.2.isEmpty && (m.knownPeers.get? e.1).isNone).filter
        fun e => decide (decide (e.1 = peer) = false) := by
  rw [List.filter_filter]
  apply List.filter_congr
  intro e _
  rw [get?_addPeer m peer e.1 hne]
  by_cases he : e.1 = peer <;> simp [he]

/-- The loop reports the first entries of the unknown peers. -/
theorem receivePex_fst (peers : List (Peer × List Addr)) :
    ∀ m : PexManager Peer Addr, (m.receivePex peers).1 = m.newPeers peers := by
  induction peers with
  | nil =>
      intro m
      rfl
  | cons e peers ih =>
      intro m
      rcases e with ⟨peer, addrs⟩
      by_cases hne : addrs = []
      · have hskip : m.receivePex ((peer, addrs) :: peers) = m.receivePex peers := by
          simp [receivePex, hne]
        rw [hskip, ih, newPeers, newPeers, hne]
        simp
      · rw [receivePex_cons m peer hne, ih, newPeers, newPeers, filter_new_addPeer m peer hne]
        cases hknown : m.knownPeers.get? peer with
        | none => simp [hne, hknown, List.eraseDupsBy_cons]
        | some known =>
            -- entries of a known peer were filtered out already
            have hother : ∀ e ∈ peers.filter fun e =>
                !e.2.isEmpty && (m.knownPeers.get? e.1).isNone,
                decide (decide (e.1 = peer) = false) = true := by
              intro e he
              have hunknown := (List.mem_filter.1 he).2
              by_contra hsame
              have heq : e.1 = peer := by simpa using hsame
              simp [heq, hknown] at hunknown
            rw [List.filter_eq_self.2 hother]
            simp [hknown]

/-- Exactly the unknown peers with addresses are reported. -/
theorem mem_receivePex_fst {m : PexManager Peer Addr} {peers : List (Peer × List Addr)}
    {peer : Peer} :
    peer ∈ (m.receivePex peers).1.map Prod.fst ↔
      (∃ addrs, (peer, addrs) ∈ peers ∧ addrs ≠ []) ∧ ¬ m.Known peer := by
  rw [receivePex_fst, newPeers, mem_keys_eraseDupsBy, not_known_iff]
  simp only [List.mem_map, List.mem_filter, Prod.exists, exists_and_right, exists_eq_right,
    Bool.and_eq_true, Bool.not_eq_true', List.isEmpty_eq_false_iff, Option.isNone_iff_eq_none]
  constructor
  · rintro ⟨addrs, hmem, hne, hnone⟩
    exact ⟨⟨addrs, hmem, hne⟩, hnone⟩
  · rintro ⟨⟨addrs, hmem, hne⟩, hnone⟩
    exact ⟨addrs, hmem, hne, hnone⟩

/-- After a message, a peer has the addresses of its last entry that has some. -/
theorem get?_receivePex (peer : Peer) (peers : List (Peer × List Addr)) :
    ∀ m : PexManager Peer Addr, (m.receivePex peers).2.knownPeers.get? peer =
      (lastAddrs peer peers).or (m.knownPeers.get? peer) := by
  induction peers with
  | nil =>
      intro m
      rfl
  | cons e peers ih =>
      intro m
      rcases e with ⟨peer', addrs⟩
      by_cases hne : addrs = []
      · have hskip : m.receivePex ((peer', addrs) :: peers) = m.receivePex peers := by
          simp [receivePex, hne]
        rw [hskip, ih]
        simp [lastAddrs, hne]
      · rw [receivePex_cons m peer' hne, ih, get?_addPeer m peer' peer hne]
        by_cases hpeer : peer = peer'
        · -- this entry counts if no later one does
          cases hlast : (peers.filter fun e => decide (e.1 = peer') && !e.2.isEmpty).getLast? with
          | none => simp [lastAddrs, hpeer, hne, hlast, List.getLast?_cons]
          | some last => simp [lastAddrs, hpeer, hne, hlast, List.getLast?_cons]
        · simp [lastAddrs, hpeer, Ne.symm hpeer]

/-- What is known after removals was known before. -/
theorem get?_removePeers {peer : Peer} {addrs : List Addr} :
    ∀ {peers : List Peer} {m : PexManager Peer Addr},
      (peers.foldl removePeer m).knownPeers.get? peer = some addrs →
        m.knownPeers.get? peer = some addrs
  | [], _, h => h
  | other :: peers, m, h => by
      have hget : (m.removePeer other).knownPeers.get? peer = some addrs := get?_removePeers h
      by_cases heq : peer = other
      · simp [removePeer, SortedMap.get?_erase, heq] at hget
      · simpa [removePeer, SortedMap.get?_erase, heq] using hget

/-- What is shared are known peers with their addresses, other than the one that is left out. -/
theorem peersToShare_spec (m : PexManager Peer Addr)
    (iter : {entries : List (Peer × List Addr) // entries.Perm m.knownPeers.entries})
    (exclude : Peer) :
    ((m.peersToShare iter exclude).map Prod.fst).Nodup ∧
      (∀ e ∈ m.peersToShare iter exclude,
        m.knownPeers.get? e.1 = some e.2 ∧ e.1 ≠ exclude) ∧
      (m.peersToShare iter exclude).length ≤ m.maxShare := by
  have hsub : (m.peersToShare iter exclude).Sublist iter.val :=
    (List.take_sublist _ _).trans List.filter_sublist
  refine ⟨?_, ?_, List.length_take_le _ _⟩
  · have hkeys : (iter.val.map Prod.fst).Nodup :=
      (iter.property.map Prod.fst).nodup_iff.2 m.knownPeers.nodup_keys
    exact hkeys.sublist (hsub.map Prod.fst)
  · intro e he
    have hmem : e ∈ m.knownPeers.entries := iter.property.mem_iff.1 (hsub.subset he)
    have hother := (List.mem_filter.1 (List.mem_of_mem_take he)).2
    exact ⟨SortedMap.mem_entries.1 hmem, by simpa using hother⟩

end PexManager

open PexManager

/-! ## Runs -/

section Runs

/-- An operation gives a peer addresses, or leaves it those that it has. -/
theorem PexOp.get?_of_apply {now : ℕ} {op : PexOp Peer Addr} {m m' : PexManager Peer Addr}
    (hrun : op.apply now m = .ok m') {peer : Peer} {addrs : List Addr}
    (h : m'.knownPeers.get? peer = some addrs) :
    addrs ≠ [] ∨ m.knownPeers.get? peer = some addrs := by
  cases op with
  | addPeer peer' addrs' =>
      rw [← Outcome.ok.inj hrun] at h
      by_cases hne : addrs' = []
      · exact Or.inr (by simpa [PexManager.addPeer, hne] using h)
      · rw [get?_addPeer m peer' peer hne] at h
        split at h
        · exact Or.inl (Option.some.inj h ▸ hne)
        · exact Or.inr h
  | receivePex sender peers =>
      rw [← Outcome.ok.inj hrun, get?_receivePex] at h
      cases hlast : lastAddrs peer peers with
      | none => exact Or.inr (by simpa [hlast] using h)
      | some last =>
          have heq : last = addrs := by simpa [hlast] using h
          rcases Option.map_eq_some_iff.1 hlast with ⟨e, he, rfl⟩
          have hmem := List.mem_of_getLast? he
          have hprop := (List.mem_filter.1 hmem).2
          rw [heq, Bool.and_eq_true] at hprop
          exact Or.inl (by simpa using hprop.2)
  | markSent peer' =>
      rw [← Outcome.ok.inj hrun] at h
      exact Or.inr h
  | removePeer peer' =>
      rw [← Outcome.ok.inj hrun] at h
      have hfold : ([peer'].foldl PexManager.removePeer m).knownPeers.get? peer = some addrs := h
      exact Or.inr (get?_removePeers hfold)
  | cleanupStalePeers maxAge =>
      by_cases hage : maxAge ≤ now
      · rw [PexOp.apply, PexManager.cleanupStalePeers, if_pos hage] at hrun
        rw [← Outcome.ok.inj hrun] at h
        exact Or.inr (get?_removePeers h)
      · simp [PexOp.apply, PexManager.cleanupStalePeers, hage] at hrun

/-- In every run, a known peer has an address. -/
theorem addrs_ne_nil_of_runOps {interval maxShare : ℕ} {history : List (ℕ × PexOp Peer Addr)} :
    ∀ {m : PexManager Peer Addr}, runOps (withConfig interval maxShare) history = .ok m →
      ∀ {peer : Peer} {addrs : List Addr}, m.knownPeers.get? peer = some addrs → addrs ≠ [] := by
  induction history using List.reverseRecOn with
  | nil =>
      intro m hrun peer addrs h
      rw [runOps, List.foldlM_nil] at hrun
      rw [← Outcome.ok.inj hrun] at h
      simp [withConfig] at h
  | append_singleton history e ih =>
      intro m hrun peer addrs h
      rcases e with ⟨now, op⟩
      rw [runOps_append, Outcome.bind_eq_ok] at hrun
      rcases hrun with ⟨m₁, hbefore, hlast⟩
      exact (PexOp.get?_of_apply hlast h).elim id (ih hbefore)

/-- The operation removes the peer: by its name, or because it is stale. -/
structure Removal (m : PexManager Peer Addr) (now : ℕ) (op : PexOp Peer Addr)
    (m' : PexManager Peer Addr) (peer : Peer) : Prop where
  op_eq : op = .removePeer peer ∨
    ∃ maxAge, op = .cleanupStalePeers maxAge ∧ m.StaleSent now maxAge peer
  run : op.apply now m = .ok m'
  known : m.Known peer
  forgotten : ¬ m'.Known peer

/-- Only a removal makes a known peer unknown. -/
theorem PexOp.removal_of_apply {now : ℕ} {op : PexOp Peer Addr} {m m' : PexManager Peer Addr}
    (hrun : op.apply now m = .ok m') {peer : Peer} (hknown : m.Known peer)
    (hforgotten : ¬ m'.Known peer) : Removal m now op m' peer := by
  refine ⟨?_, hrun, hknown, hforgotten⟩
  cases op with
  | addPeer peer' addrs =>
      rw [← Outcome.ok.inj hrun, known_addPeer] at hforgotten
      exact absurd (Or.inr hknown) hforgotten
  | receivePex sender peers =>
      rw [← Outcome.ok.inj hrun, known_receivePex] at hforgotten
      exact absurd (Or.inr hknown) hforgotten
  | markSent peer' =>
      rw [← Outcome.ok.inj hrun] at hforgotten
      exact absurd hknown hforgotten
  | removePeer peer' =>
      rw [← Outcome.ok.inj hrun, known_removePeer] at hforgotten
      by_cases heq : peer = peer'
      · exact Or.inl (by rw [heq])
      · exact absurd ⟨heq, hknown⟩ hforgotten
  | cleanupStalePeers maxAge =>
      right
      refine ⟨maxAge, rfl, ?_⟩
      by_cases hage : maxAge ≤ now
      · rcases cleanupStalePeers_spec (m := m) hage with ⟨m₁, hclean, hkept⟩
        have heq : m₁ = m' := Outcome.ok.inj (hclean.symm.trans hrun)
        rw [← heq, hkept] at hforgotten
        by_contra hfresh
        exact hforgotten ⟨hfresh, hknown⟩
      · simp [PexOp.apply, PexManager.cleanupStalePeers, hage] at hrun

/-- A run that forgets a peer has removed it. -/
theorem exists_removal {peer : Peer} {history : List (ℕ × PexOp Peer Addr)} :
    ∀ {m m' : PexManager Peer Addr}, runOps m history = .ok m' → m.Known peer → ¬ m'.Known peer →
      ∃ before now op after m₁ m₂, history = before ++ (now, op) :: after ∧
        runOps m before = .ok m₁ ∧ Removal m₁ now op m₂ peer := by
  induction history with
  | nil =>
      intro m m' hrun hknown hforgotten
      exact absurd (Outcome.ok.inj hrun ▸ hknown) hforgotten
  | cons e history ih =>
      intro m m' hrun hknown hforgotten
      rcases e with ⟨now, op⟩
      rw [runOps, List.foldlM_cons, Outcome.bind_eq_ok] at hrun
      rcases hrun with ⟨m₁, hfirst, hrest⟩
      by_cases hstill : m₁.Known peer
      · rcases ih hrest hstill hforgotten with ⟨before, now', op', after, m₂, m₃, rfl, hrun, hrem⟩
        refine ⟨(now, op) :: before, now', op', after, m₂, m₃, rfl, ?_, hrem⟩
        rw [runOps, List.foldlM_cons, Outcome.bind_eq_ok]
        exact ⟨m₁, hfirst, hrun⟩
      · exact ⟨[], now, op, history, m, m₁, rfl, rfl, PexOp.removal_of_apply hfirst hknown hstill⟩

end Runs

/-- In every run: a message reports the first entries of the unknown peers, each once, and leaves
every peer that it mentions with its last addresses; no known peer is without addresses; between two
reports of a peer it is removed; and what is shared are known peers, not too many. -/
theorem new_peers_reported_once {interval maxShare : ℕ} {history : List (ℕ × PexOp Peer Addr)}
    {m : PexManager Peer Addr} (hrun : runOps (withConfig interval maxShare) history = .ok m) :
    (∀ peers, (m.receivePex peers).1 = m.newPeers peers ∧
      ((m.receivePex peers).1.map Prod.fst).Nodup ∧
      (∀ peer, peer ∈ (m.receivePex peers).1.map Prod.fst ↔
        (∃ addrs, (peer, addrs) ∈ peers ∧ addrs ≠ []) ∧ ¬ m.Known peer) ∧
      ∀ peer, (m.receivePex peers).2.knownPeers.get? peer =
        (lastAddrs peer peers).or (m.knownPeers.get? peer)) ∧
    (∀ peer addrs, m.knownPeers.get? peer = some addrs → addrs ≠ []) ∧
    (∀ peers between m' peers' peer, peer ∈ (m.receivePex peers).1.map Prod.fst →
      runOps (m.receivePex peers).2 between = .ok m' →
      peer ∈ (m'.receivePex peers').1.map Prod.fst →
        ∃ before now op after m₁ m₂, between = before ++ (now, op) :: after ∧
          runOps (m.receivePex peers).2 before = .ok m₁ ∧ Removal m₁ now op m₂ peer) ∧
    ∀ iter exclude, ((m.peersToShare iter exclude).map Prod.fst).Nodup ∧
      (∀ e ∈ m.peersToShare iter exclude,
        m.knownPeers.get? e.1 = some e.2 ∧ e.1 ≠ exclude) ∧
      (m.peersToShare iter exclude).length ≤ m.maxShare := by
  refine ⟨?_, fun peer addrs => addrs_ne_nil_of_runOps hrun, ?_, m.peersToShare_spec⟩
  · intro peers
    have hfirst := receivePex_fst peers m
    refine ⟨hfirst, ?_, fun peer => mem_receivePex_fst, fun peer => get?_receivePex peer peers m⟩
    rw [hfirst]
    exact nodup_keys_eraseDupsBy
  · intro peers between m' peers' peer hreport hbetween hagain
    -- reported, it is known; reported again, it is not
    have hknown : (m.receivePex peers).2.Known peer :=
      (known_receivePex peers m).2 (Or.inl (mem_receivePex_fst.1 hreport).1)
    exact exists_removal hbetween hknown (mem_receivePex_fst.1 hagain).2

/-- Seven is announced twice in one message and reported once, with its first addresses; it is known
with its last. -/
theorem new_peers_reported_once_repeated :
    let m : PexManager ℕ ℕ := withConfig 60 20
    (m.receivePex [(7, []), (7, [1]), (3, [4]), (7, [2]), (7, [])]).1 = [(7, [1]), (3, [4])] ∧
      (m.receivePex [(7, []), (7, [1]), (3, [4]), (7, [2]), (7, [])]).2.knownPeers.get? 7 =
        some [2] := by
  have hrun : runOps (withConfig 60 20 : PexManager ℕ ℕ) [] = .ok (withConfig 60 20) := rfl
  have hall := new_peers_reported_once hrun
  rcases hall.1 [(7, []), (7, [1]), (3, [4]), (7, [2]), (7, [])] with ⟨hfirst, -, -, hlast⟩
  exact ⟨hfirst.trans (by decide), (hlast 7).trans (by decide)⟩

end Network
end CraftecCore
