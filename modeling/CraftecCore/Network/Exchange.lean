import CraftecCore.Library.Bytes
import CraftecCore.Library.Run
import CraftecCore.Library.Text
import CraftecCore.Network.PexWire

/-!
# Exchange — nodes that tell each other of their peers

Every node has a manager of its own, discovers peers, forgets them, and sends what it knows to
others as messages that are delivered in any order, any number of times or never.  A message leaves
out the node that it goes to.  So in every run, as long as no node discovers itself, no node ever
lists itself, and every list of addresses that a node holds was discovered, as it stands, by some
node.  How often a node may send to another is left to the caller, who asks `should_send`.
-/

namespace CraftecCore
namespace Network

open Transition

variable {Peer Addr : Type} [LinearOrder Peer]

/-! ## When to send -/

def PexManager.shouldSend (m : PexManager Peer Addr) (now : ℕ) (peer : Peer) : Bool :=
  match m.lastSent.get? peer with
  | some lastTime => decide (m.interval ≤ now - lastTime)
  | none => true

/-! ## A network of managers -/

/-- The managers of all nodes, and the messages between them. -/
structure PexNetwork (Peer Addr : Type) [LinearOrder Peer] where
  managers : Peer → PexManager Peer Addr
  /-- Every message sent so far, with the node it goes to. -/
  sent : List (Peer × List UInt8)
  /-- What nodes have discovered by themselves so far. -/
  discovered : List (Peer × List Addr)

def PexNetwork.Started (s : PexNetwork Peer Addr) : Prop :=
  (∀ n, ∃ interval maxShare, s.managers n = PexManager.withConfig interval maxShare) ∧
    s.sent = [] ∧ s.discovered = []

inductive ExchangeEvent (Peer Addr : Type)
  | discover (node peer : Peer) (addrs : List Addr)
  | forget (node peer : Peer)
  | cleanup (node : Peer) (maxAge : ℕ)
  | share (node dest : Peer) (peers : List (Peer × List Addr))
  | deliver (dest : Peer) (bytes : List UInt8)

/-- One step.  A message that was sent can be delivered at any time, and again. -/
inductive Exchange (x : WirePackage Peer Addr) :
    PexNetwork Peer Addr → ExchangeEvent Peer Addr → PexNetwork Peer Addr → Prop
  | discover (s : PexNetwork Peer Addr) (node peer : Peer) (addrs : List Addr) :
      Exchange x s (.discover node peer addrs)
        { s with
          managers := Function.update s.managers node ((s.managers node).addPeer peer addrs)
          discovered := s.discovered ++ [(peer, addrs)] }
  | forget (s : PexNetwork Peer Addr) (node peer : Peer) :
      Exchange x s (.forget node peer)
        { s with managers := Function.update s.managers node ((s.managers node).removePeer peer) }
  | cleanup {s : PexNetwork Peer Addr} {node : Peer} {now maxAge : ℕ} {m : PexManager Peer Addr} :
      (s.managers node).cleanupStalePeers now maxAge = .ok m →
        Exchange x s (.cleanup node maxAge)
          { s with managers := Function.update s.managers node m }
  | share {s : PexNetwork Peer Addr} {node dest : Peer} {now : ℕ} {bytes : List UInt8}
      (iter : {entries : List (Peer × List Addr) //
        entries.Perm (s.managers node).knownPeers.entries}) :
      (s.managers node).shouldSend now dest = true →
        (PexMessage.fromPeers x ((s.managers node).peersToShare iter dest)).toBytes x = .ok bytes →
          Exchange x s (.share node dest ((s.managers node).peersToShare iter dest))
            { s with
              managers := Function.update s.managers node ((s.managers node).markSent now dest)
              sent := s.sent ++ [(dest, bytes)] }
  | deliver {s : PexNetwork Peer Addr} {dest : Peer} {bytes : List UInt8}
      {peers : List (Peer × List Addr)} :
      (dest, bytes) ∈ s.sent → receiveBytes x bytes = .ok peers →
        Exchange x s (.deliver dest bytes)
          { s with
            managers := Function.update s.managers dest ((s.managers dest).receivePex peers).2 }

/-- No node discovers itself, and the packages read back what is sent. -/
def Sound (x : WirePackage Peer Addr) (_ : PexNetwork Peer Addr) : ExchangeEvent Peer Addr → Prop
  | .discover node peer _ => peer ≠ node
  | .share _ _ peers => x.ReadsBack peers
  | _ => True

/-! ## What every operation does to the known addresses -/

namespace PexManager

theorem get?_addPeer_cases {m : PexManager Peer Addr} {peer other : Peer} {addrs found : List Addr}
    (h : (m.addPeer peer addrs).knownPeers.get? other = some found) :
    (other = peer ∧ found = addrs ∧ addrs ≠ []) ∨ m.knownPeers.get? other = some found := by
  by_cases hne : addrs = []
  · exact Or.inr (by simpa [addPeer, hne] using h)
  · rw [get?_addPeer m peer other hne] at h
    split at h
    · rename_i heq
      exact Or.inl ⟨heq, (Option.some.inj h).symm, hne⟩
    · exact Or.inr h

theorem get?_receivePex_cases {m : PexManager Peer Addr} {peers : List (Peer × List Addr)}
    {peer : Peer} {found : List Addr}
    (h : (m.receivePex peers).2.knownPeers.get? peer = some found) :
    ((peer, found) ∈ peers ∧ found ≠ []) ∨ m.knownPeers.get? peer = some found := by
  rw [get?_receivePex] at h
  cases hlast : lastAddrs peer peers with
  | none => exact Or.inr (by simpa [hlast] using h)
  | some last =>
      have heq : last = found := by simpa [hlast] using h
      rcases Option.map_eq_some_iff.1 hlast with ⟨e, he, hsnd⟩
      have hmem := List.mem_filter.1 (List.mem_of_getLast? he)
      have hcond := Bool.and_eq_true_iff.1 hmem.2
      have hfst : e.1 = peer := by simpa using hcond.1
      have hpair : e = (peer, found) := Prod.ext hfst (hsnd.trans heq)
      rw [hpair] at hmem hcond
      exact Or.inl ⟨hmem.1, by simpa using hcond.2⟩

theorem get?_removePeer {m : PexManager Peer Addr} {peer other : Peer} {found : List Addr}
    (h : (m.removePeer peer).knownPeers.get? other = some found) :
    m.knownPeers.get? other = some found := by
  have hfold : ([peer].foldl removePeer m).knownPeers.get? other = some found := h
  exact get?_removePeers hfold

theorem get?_cleanup {m m' : PexManager Peer Addr} {now maxAge : ℕ} {peer : Peer}
    {found : List Addr} (hclean : m.cleanupStalePeers now maxAge = .ok m')
    (h : m'.knownPeers.get? peer = some found) : m.knownPeers.get? peer = some found := by
  by_cases hage : maxAge ≤ now
  · rw [cleanupStalePeers, if_pos hage] at hclean
    rw [← Outcome.ok.inj hclean] at h
    exact get?_removePeers h
  · simp [cleanupStalePeers, hage] at hclean

end PexManager

/-! ## Every run -/

/-- What holds of the network at any time. -/
structure PexNetwork.Consistent (x : WirePackage Peer Addr) (s : PexNetwork Peer Addr) : Prop where
  known : ∀ n peer addrs, (s.managers n).knownPeers.get? peer = some addrs →
    peer ≠ n ∧ addrs ≠ [] ∧ (peer, addrs) ∈ s.discovered
  messages : ∀ dest bytes, (dest, bytes) ∈ s.sent → ∃ peers, receiveBytes x bytes = .ok peers ∧
    (peers.map Prod.fst).Nodup ∧ ∀ e ∈ peers, e.1 ≠ dest ∧ e.2 ≠ [] ∧ e ∈ s.discovered

section Runs

variable {x : WirePackage Peer Addr} {s s' : PexNetwork Peer Addr} {e : ExchangeEvent Peer Addr}

/-- A manager that knows what it did before keeps the network consistent. -/
theorem PexNetwork.Consistent.update (h : s.Consistent x) {node : Peer}
    {m : PexManager Peer Addr}
    (hm : ∀ peer addrs, m.knownPeers.get? peer = some addrs →
      peer ≠ node ∧ addrs ≠ [] ∧ (peer, addrs) ∈ s.discovered) :
    ({ s with managers := Function.update s.managers node m } :
      PexNetwork Peer Addr).Consistent x where
  known := by
    intro n peer addrs hget
    by_cases hn : n = node
    · subst hn
      simp only [Function.update_self] at hget
      exact hm peer addrs hget
    · simp only [Function.update_of_ne hn] at hget
      exact h.known n peer addrs hget
  messages := h.messages

theorem PexNetwork.Consistent.step (h : s.Consistent x) (hsound : Sound x s e)
    (hstep : Exchange x s e s') : s'.Consistent x := by
  cases hstep with
  | discover node peer addrs =>
      have hgrow : ({ s with discovered := s.discovered ++ [(peer, addrs)] } :
          PexNetwork Peer Addr).Consistent x :=
        { known := by
            intro n other found hget
            rcases h.known n other found hget with ⟨hother, hne, hmem⟩
            exact ⟨hother, hne, List.mem_append_left _ hmem⟩
          messages := by
            intro dest bytes hsent
            rcases h.messages dest bytes hsent with ⟨peers, hread, hnodup, hall⟩
            refine ⟨peers, hread, hnodup, ?_⟩
            intro entry hentry
            rcases hall entry hentry with ⟨hother, hne, hmem⟩
            exact ⟨hother, hne, List.mem_append_left _ hmem⟩ }
      refine hgrow.update fun other found hget => ?_
      rcases PexManager.get?_addPeer_cases hget with ⟨rfl, rfl, hne⟩ | hold
      · exact ⟨hsound, hne, List.mem_append_right _ (List.mem_singleton_self _)⟩
      · exact hgrow.known node other found hold
  | forget node peer =>
      exact h.update fun other found hget =>
        h.known node other found (PexManager.get?_removePeer hget)
  | cleanup hclean =>
      exact h.update fun other found hget =>
        h.known _ other found (PexManager.get?_cleanup hclean hget)
  | @share node dest now bytes iter hdue hbytes =>
      rcases (s.managers node).peersToShare_spec iter dest with ⟨hnodup, hshared, -⟩
      have hgrow : ({ s with sent := s.sent ++ [(dest, bytes)] } :
          PexNetwork Peer Addr).Consistent x :=
        { known := h.known
          messages := by
            intro dest' bytes' hsent
            rcases List.mem_append.1 hsent with hsent | hnew
            · exact h.messages dest' bytes' hsent
            · cases List.mem_singleton.1 hnew
              refine ⟨_, receiveBytes_of_toBytes hsound hbytes, hnodup, ?_⟩
              -- what is shared is known to the sender
              intro entry hentry
              rcases hshared entry hentry with ⟨hget, hother⟩
              rcases h.known node entry.1 entry.2 hget with ⟨-, hne, hmem⟩
              exact ⟨hother, hne, hmem⟩ }
      exact hgrow.update fun other found hget => h.known node other found hget
  | @deliver dest bytes peers hsent hread =>
      refine h.update fun other found hget => ?_
      rcases PexManager.get?_receivePex_cases hget with ⟨hmem, hne⟩ | hold
      · rcases h.messages dest bytes hsent with ⟨peers', hread', -, hall⟩
        have heq : peers' = peers := Except.ok.inj (hread'.symm.trans hread)
        rw [heq] at hall
        rcases hall (other, found) hmem with ⟨hother, -, hdiscovered⟩
        exact ⟨hother, hne, hdiscovered⟩
      · exact h.known dest other found hold

theorem PexNetwork.Started.consistent (h : s.Started) : s.Consistent x where
  known := by
    intro n peer addrs hget
    rcases h.1 n with ⟨interval, maxShare, hmanager⟩
    rw [hmanager] at hget
    simp [PexManager.withConfig] at hget
  messages := by
    intro dest bytes hsent
    rw [h.2.1] at hsent
    cases hsent

/-- An entry of a message without repetitions is what its peer is known with afterwards. -/
theorem lastAddrs_of_nodup {peers : List (Peer × List Addr)} (hnodup : (peers.map Prod.fst).Nodup)
    {entry : Peer × List Addr} (hmem : entry ∈ peers) (hne : entry.2 ≠ []) :
    lastAddrs entry.1 peers = some entry.2 := by
  rcases List.append_of_mem hmem with ⟨before, after, rfl⟩
  rw [List.map_append, List.map_cons, List.nodup_middle, List.nodup_cons, ← List.map_append]
    at hnodup
  have hskip : ∀ e ∈ before ++ after, (decide (e.1 = entry.1) && !e.2.isEmpty) = false := by
    intro e he
    have hkey : e.1 ≠ entry.1 := fun heq => hnodup.1 (heq ▸ List.mem_map_of_mem he)
    simp [hkey]
  have hbefore : (before.filter fun e => decide (e.1 = entry.1) && !e.2.isEmpty) = [] := by
    rw [List.filter_eq_nil_iff]
    intro e he
    simp [hskip e (List.mem_append_left _ he)]
  have hafter : (after.filter fun e => decide (e.1 = entry.1) && !e.2.isEmpty) = [] := by
    rw [List.filter_eq_nil_iff]
    intro e he
    simp [hskip e (List.mem_append_right _ he)]
  have hentry : (decide (entry.1 = entry.1) && !entry.2.isEmpty) = true := by
    simp [hne]
  rw [lastAddrs, List.filter_append, List.filter_cons, if_pos hentry, hbefore, hafter]
  rfl

/-- In every run in which no node discovers itself, whatever is lost, repeated or reordered: no node
knows itself, what a node knows some node has discovered as it stands, and a message that was sent
can be read and, delivered, leaves its recipient with just these addresses of the peers in it. -/
theorem exchange_consistent (hrun : Run PexNetwork.Started (Exchange x) (Sound x) s) :
    (∀ n peer addrs, (s.managers n).knownPeers.get? peer = some addrs →
      peer ≠ n ∧ addrs ≠ [] ∧ (peer, addrs) ∈ s.discovered) ∧
    ∀ dest bytes, (dest, bytes) ∈ s.sent → ∃ peers, receiveBytes x bytes = .ok peers ∧
      ∀ entry ∈ peers, entry.1 ≠ dest ∧ entry ∈ s.discovered ∧
        ((s.managers dest).receivePex peers).2.knownPeers.get? entry.1 = some entry.2 := by
  have h : s.Consistent x := by
    refine Run.invariant (I := fun s => s.Consistent x) ?_ ?_ hrun
    · intro s hs
      exact hs.consistent
    · intro s e s' h hsound hstep
      exact h.step hsound hstep
  refine ⟨h.known, ?_⟩
  intro dest bytes hsent
  rcases h.messages dest bytes hsent with ⟨peers, hread, hnodup, hall⟩
  refine ⟨peers, hread, ?_⟩
  intro entry hentry
  rcases hall entry hentry with ⟨hother, hne, hmem⟩
  refine ⟨hother, hmem, ?_⟩
  rw [PexManager.get?_receivePex, lastAddrs_of_nodup hnodup hentry hne, Option.some_or]

end Runs

/-! ## One message, delivered twice -/

/-- The id of an Ed25519 key: an identity multihash of the key behind its type. -/
def firstNode : Bytes 38 :=
  Bytes.ofNat 38 0x0024080112203b6a27bcceb6a42d62a3a8d02a6f0d73653215771de243a63ac048a18b59da29

def secondNode : Bytes 38 :=
  Bytes.ofNat 38 0x002408011220d75a980182b10ab7d54bfed3c964073a0ee172f3daa62325af021a68f707511a

def thirdNode : Bytes 38 :=
  Bytes.ofNat 38 0x0024080112203d4017c3e843895a92b70aa74d1b7ebc9c982ccf2ec4968cc0cd55f12af4660c

/-- `/ip4/192.168.1.100/tcp/4001`. -/
def someAddr : List UInt8 :=
  [4, 192, 168, 1, 100, 6, 15, 161]

def secondMessage : PexMessage :=
  { peers := [{ peerIdBytes := secondNode.bytes, addrs := [someAddr] }] }

def secondMessageText : List UInt8 :=
  Text.utf8 ("\x7b\"peers\":[\x7b\"peer_id_bytes\":[0,36,8,1,18,32,215,90,152,1,130,177,10,183," ++
    "213,75,254,211,201,100,7,58,14,225,114,243,218,166,35,37,175,2,26,104,247,7,81,26]," ++
    "\"addrs\":[[4,192,168,1,100,6,15,161]]\x7d]\x7d")

/-- Ids of Ed25519 keys, addresses of an IPv4 address and a port, and `serde_json` on the text of
this message. -/
def keyWire : WirePackage (Bytes 38) (List UInt8) :=
  { peerToBytes := Bytes.bytes
    peerFromBytes := fun data =>
      if h : data.length = 38 then
        if data.take 6 = [0, 36, 8, 1, 18, 32] then
          .ok { bytes := data, length_eq := h }
        else
          .error "invalid multihash"
      else
        .error "invalid multihash"
    addrToVec := id
    addrTryFrom := fun data =>
      match data with
      | [4, _, _, _, _, 6, _, _] => .ok data
      | _ => .error "invalid multiaddr"
    jsonToVec := fun m => if m = secondMessage then .ok secondMessageText else .error "unsupported"
    jsonFromSlice := fun data =>
      if data = secondMessageText then .ok secondMessage else .error "expected value" }

theorem readsBack_second : keyWire.ReadsBack [(secondNode, [someAddr])] where
  peer := by
    intro e he
    cases List.mem_singleton.1 he
    decide +kernel
  addr := by
    intro e he a ha
    cases List.mem_singleton.1 he
    cases List.mem_singleton.1 ha
    rfl
  json := by
    intro bytes hbytes
    have hwrite : keyWire.jsonToVec (PexMessage.fromPeers keyWire [(secondNode, [someAddr])]) =
        .ok secondMessageText := by
      decide +kernel
    have hread : keyWire.jsonFromSlice secondMessageText =
        .ok (PexMessage.fromPeers keyWire [(secondNode, [someAddr])]) := by
      decide +kernel
    have htext : secondMessageText = bytes := Except.ok.inj (hwrite.symm.trans hbytes)
    rw [← htext, hread]

theorem pex_message_roundTrip_second :
    receiveBytes keyWire secondMessageText = .ok [(secondNode, [someAddr])] :=
  (pex_message_roundTrip keyWire).1 _ _ readsBack_second (by decide +kernel)

def nobodyKnown : PexNetwork (Bytes 38) (List UInt8) :=
  { managers := fun _ => PexManager.withConfig 60 20, sent := [], discovered := [] }

def PexNetwork.found (s : PexNetwork Peer Addr) (node peer : Peer) (addrs : List Addr) :
    PexNetwork Peer Addr :=
  { s with
    managers := Function.update s.managers node ((s.managers node).addPeer peer addrs)
    discovered := s.discovered ++ [(peer, addrs)] }

def foundSecond : PexNetwork (Bytes 38) (List UInt8) :=
  nobodyKnown.found firstNode secondNode [someAddr]

theorem perm_foundSecond :
    [(secondNode, [someAddr])].Perm (foundSecond.managers firstNode).knownPeers.entries := by
  decide +kernel

theorem peersToShare_foundSecond :
    (foundSecond.managers firstNode).peersToShare ⟨_, perm_foundSecond⟩ thirdNode =
      [(secondNode, [someAddr])] := by
  decide +kernel

/-- The first node tells the third of the second, which hears it twice. -/
theorem exchange_consistent_second :
    ∃ s : PexNetwork (Bytes 38) (List UInt8),
      (s.managers thirdNode).knownPeers.get? secondNode = some [someAddr] ∧
      s.discovered = [(secondNode, [someAddr])] ∧
      ∀ n peer addrs, (s.managers n).knownPeers.get? peer = some addrs →
        peer ≠ n ∧ addrs ≠ [] ∧ (peer, addrs) ∈ s.discovered := by
  have hstart : Run PexNetwork.Started (Exchange keyWire) (Sound keyWire) nobodyKnown :=
    Run.start ⟨fun _ => ⟨60, 20, rfl⟩, rfl, rfl⟩
  have hother : secondNode ≠ firstNode := by
    decide +kernel
  have hfound : Run PexNetwork.Started (Exchange keyWire) (Sound keyWire) foundSecond :=
    hstart.step (e := ExchangeEvent.discover firstNode secondNode [someAddr]) hother
      (Exchange.discover nobodyKnown firstNode secondNode [someAddr])
  have hshared := peersToShare_foundSecond
  have hbytes : (PexMessage.fromPeers keyWire ((foundSecond.managers firstNode).peersToShare
      ⟨_, perm_foundSecond⟩ thirdNode)).toBytes keyWire = .ok secondMessageText := by
    rw [hshared]
    decide +kernel
  have hsound : keyWire.ReadsBack ((foundSecond.managers firstNode).peersToShare
      ⟨_, perm_foundSecond⟩ thirdNode) := by
    rw [hshared]
    exact readsBack_second
  have hdue : (foundSecond.managers firstNode).shouldSend 100 thirdNode = true := by
    decide +kernel
  have htold := hfound.step (e := ExchangeEvent.share firstNode thirdNode _) hsound
    (Exchange.share _ hdue hbytes)
  have hread : receiveBytes keyWire secondMessageText = .ok [(secondNode, [someAddr])] := by
    decide +kernel
  have hheard := htold.step (e := ExchangeEvent.deliver thirdNode secondMessageText) trivial
    (Exchange.deliver (List.mem_singleton_self _) hread)
  have hagain := hheard.step (e := ExchangeEvent.deliver thirdNode secondMessageText) trivial
    (Exchange.deliver (List.mem_singleton_self _) hread)
  exact ⟨_, by decide +kernel, rfl, (exchange_consistent hagain).1⟩

end Network
end CraftecCore
