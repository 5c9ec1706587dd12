import CraftecCore.Library.PathText

/-!
# Bootstrap — the peer and the dial address of a bootstrap address

The peer of a bootstrap address is its first `p2p` component, and the dial address is the address
without any of them.  Putting the peer back behind the dial address gives the address again exactly
when it has one such component, at its end.  A relayed address names two peers: the relay is
returned in place of the target, and dialled without its name.
-/

namespace CraftecCore
namespace Network

/-! ## Multiaddresses -/

/-- A component of a multiaddress; other protocols than those the code is about are left open. -/
inductive Protocol (Ip Peer Other : Type)
  | ip4 (addr : Ip)
  | tcp (port : UInt16)
  | p2p (peer : Peer)
  | p2pCircuit
  | other (proto : Other)
  deriving DecidableEq

def Protocol.peer? {Ip Peer Other : Type} : Protocol Ip Peer Other → Option Peer
  | .p2p peer => some peer
  | _ => none

/-- What is used of the texts of multiaddresses: the text of an address is that of its components,
one after another. -/
structure MultiaddrText (Ip Peer Other : Type) where
  parse : String → Option (List (Protocol Ip Peer Other))
  component : String → Option (Protocol Ip Peer Other)
  ip4 : String → Option Ip
  peer : String → Option Peer
  parse_join : ∀ {texts : List String} {addr : List (Protocol Ip Peer Other)},
    List.Forall₂ (fun text proto => component text = some proto) texts addr →
      parse (String.join texts) = some addr
  component_ip4 : ∀ {text : String} {addr : Ip}, ip4 text = some addr →
    component ("/ip4/" ++ text) = some (.ip4 addr)
  component_tcp : ∀ port : UInt16, component ("/tcp/" ++ toString port.toNat) = some (.tcp port)
  component_p2p : ∀ {text : String} {id : Peer}, peer text = some id →
    component ("/p2p/" ++ text) = some (.p2p id)

section Bootstrap

variable {Ip Peer Other : Type} (ma : MultiaddrText Ip Peer Other)

/-! ## The source functions -/

/-- Parse a single bootstrap address: the peer, and the address without `/p2p/...`. -/
def parseBootstrapAddr (addrStr : String) : Option (Peer × List (Protocol Ip Peer Other)) := do
  let addr ← ma.parse addrStr
  let peerId ← addr.findSome? Protocol.peer?
  let dialAddr := addr.filter fun proto => proto.peer?.isNone
  some (peerId, dialAddr)

/-- Parse multiple bootstrap addresses, skipping any that fail to parse. -/
def parseBootstrapNodes (addrs : List String) : List (Peer × List (Protocol Ip Peer Other)) :=
  addrs.filterMap (parseBootstrapAddr ma)

def makeBootstrapAddr (ip : String) (port : UInt16) (peerId : String) : String :=
  "/ip4/" ++ ip ++ "/tcp/" ++ toString port.toNat ++ "/p2p/" ++ peerId

/-! ## Putting the peer back -/

def lastPeer (addr : List (Protocol Ip Peer Other)) : Option Peer :=
  (addr.filterMap Protocol.peer?).getLast?

/-- The address has one `p2p` component, at its end. -/
def SinglePeerSuffix (addr : List (Protocol Ip Peer Other)) : Prop :=
  ∃ front peer, addr = front ++ [.p2p peer] ∧ ∀ proto ∈ front, proto.peer? = none

theorem rejoin_eq_iff {addr : List (Protocol Ip Peer Other)} {peer : Peer}
    (hfirst : addr.findSome? Protocol.peer? = some peer) :
    (addr.filter fun proto => proto.peer?.isNone) ++ [.p2p peer] = addr ↔
      SinglePeerSuffix addr := by
  constructor
  · intro heq
    refine ⟨_, peer, heq.symm, ?_⟩
    intro proto hproto
    simpa using (List.mem_filter.1 hproto).2
  · rintro ⟨front, last, rfl, hfront⟩
    -- the first peer is the last one, and only it is filtered out
    have hnone : front.findSome? Protocol.peer? = none := List.findSome?_eq_none_iff.2 hfront
    have hpeer : last = peer := by
      simpa [List.findSome?_append, hnone, Protocol.peer?] using hfirst
    have hkept : front.filter (fun proto => proto.peer?.isNone) = front :=
      List.filter_eq_self.2 fun proto hproto => by simp [hfront proto hproto]
    rw [List.filter_append, hkept, hpeer]
    simp [Protocol.peer?]

theorem lastPeer_of_suffix {front : List (Protocol Ip Peer Other)} (peer : Peer) :
    lastPeer (front ++ [.p2p peer]) = some peer := by
  simp [lastPeer, Protocol.peer?, List.filterMap_append]

/-- A constructed text is that of its three components. -/
theorem makeBootstrapAddr_eq_join (ip : String) (port : UInt16) (peerId : String) :
    makeBootstrapAddr ip port peerId =
      String.join ["/ip4/" ++ ip, "/tcp/" ++ toString port.toNat, "/p2p/" ++ peerId] := by
  apply String.toList_inj.1
  simp [makeBootstrapAddr, String.join]

theorem parse_makeBootstrapAddr {ipText peerText : String} {ip : Ip} {id : Peer}
    (hip : ma.ip4 ipText = some ip) (hpeer : ma.peer peerText = some id) (port : UInt16) :
    ma.parse (makeBootstrapAddr ipText port peerText) = some [.ip4 ip, .tcp port, .p2p id] := by
  rw [makeBootstrapAddr_eq_join]
  apply ma.parse_join
  exact .cons (ma.component_ip4 hip) (.cons (ma.component_tcp port)
    (.cons (ma.component_p2p hpeer) .nil))

/-- Of an accepted address, the peer and the dial address make up the whole exactly when the peer is
its only one and stands at the end; then it is the one that the address points to.  A constructed
text always is of this kind, and gives back its parts. -/
theorem parse_loses_nothing_iff :
    (∀ text addr peer dial, ma.parse text = some addr →
      parseBootstrapAddr ma text = some (peer, dial) →
        (dial ++ [.p2p peer] = addr ∧ lastPeer addr = some peer ↔ SinglePeerSuffix addr)) ∧
    (∀ ipText port peerText ip id, ma.ip4 ipText = some ip → ma.peer peerText = some id →
      parseBootstrapAddr ma (makeBootstrapAddr ipText port peerText) =
        some (id, [.ip4 ip, .tcp port])) ∧
    ∀ addrs node, node ∈ parseBootstrapNodes ma addrs ↔
      ∃ text ∈ addrs, parseBootstrapAddr ma text = some node := by
  refine ⟨?_, ?_, fun addrs node => List.mem_filterMap⟩
  · intro text addr peer dial hparse hres
    simp only [parseBootstrapAddr, hparse, Option.bind_eq_bind, Option.bind_some,
      Option.bind_eq_some_iff] at hres
    rcases hres with ⟨first, hfirst, heq⟩
    cases heq
    rw [rejoin_eq_iff hfirst]
    constructor
    · exact fun h => h.1
    · intro hsuffix
      refine ⟨hsuffix, ?_⟩
      -- put back, the peer is the last component
      have hwhole := (rejoin_eq_iff hfirst).2 hsuffix
      rw [← hwhole]
      exact lastPeer_of_suffix peer
  · intro ipText port peerText ip id hip hpeer
    rw [parseBootstrapAddr, parse_makeBootstrapAddr ma hip hpeer port]
    rfl

end Bootstrap

/-! ## A reader of slash-separated texts -/

section Slashes

/-- Components with their values as texts. -/
abbrev TextProtocol : Type :=
  Protocol (List Char) (List Char) Empty

/-- The port of a decimal number without leading zeros. -/
def readPort (value : List Char) : Option UInt16 :=
  let n := Nat.ofDigitChars 10 value 0
  if n < 65536 ∧ Nat.toDigits 10 n = value then some (UInt16.ofNat n) else none

def readParts : List (List Char) → Option (List TextProtocol)
  | [] => some []
  | [name] => if name = "p2p-circuit".toList then some [.p2pCircuit] else none
  | name :: value :: parts =>
      if name = "p2p-circuit".toList then
        (readParts (value :: parts)).map (.p2pCircuit :: ·)
      else if name = "ip4".toList then
        (readParts parts).map (.ip4 value :: ·)
      else if name = "tcp".toList then do
        let port ← readPort value
        let addr ← readParts parts
        some (.tcp port :: addr)
      else if name = "p2p".toList then
        (readParts parts).map (.p2p value :: ·)
      else
        none

def readText (text : String) : Option (List TextProtocol) :=
  match PathText.components text with
  | [] :: parts => readParts parts
  | _ => none

def readComponent (text : String) : Option TextProtocol :=
  match readText text with
  | some [proto] => some proto
  | _ => none

def readValue (text : String) : Option (List Char) :=
  if '/' ∈ text.toList then none else some text.toList

theorem readPort_toDigits (port : UInt16) :
    readPort (Nat.toDigits 10 port.toNat) = some port := by
  have hlt : port.toNat < 65536 := port.toNat_lt
  simp only [readPort, Nat.ofDigitChars_ten_toDigits]
  rw [if_pos ⟨hlt, trivial⟩, UInt16.ofNat_toNat]

theorem readParts_append (parts' : List (List Char)) :
    ∀ {parts : List (List Char)} {addr : List TextProtocol}, readParts parts = some addr →
      readParts (parts ++ parts') = (readParts parts').map (addr ++ ·)
  | [], addr, h => by
      have heq : [] = addr := by simpa [readParts] using h
      cases hrest : readParts parts' <;> simp [← heq, hrest]
  | [name], addr, h => by
      rw [readParts] at h
      split at h
      · rename_i hname
        rw [← Option.some.inj h, hname]
        cases parts' with
        | nil => rfl
        | cons value parts' =>
            rw [List.singleton_append, readParts, if_pos rfl]
            rfl
      · cases h
  | name :: value :: parts, addr, h => by
      rw [readParts] at h
      rw [List.cons_append, List.cons_append, readParts]
      split at h
      · rcases Option.map_eq_some_iff.1 h with ⟨rest, hrest, rfl⟩
        have ih := readParts_append parts' hrest
        rw [if_pos ‹_›, ← List.cons_append, ih, Option.map_map]
        rfl
      rw [if_neg ‹_›]
      split at h
      · rcases Option.map_eq_some_iff.1 h with ⟨rest, hrest, rfl⟩
        rw [if_pos ‹_›, readParts_append parts' hrest, Option.map_map]
        rfl
      rw [if_neg ‹_›]
      split at h
      · rcases Option.bind_eq_some_iff.1 h with ⟨port, hport, h⟩
        rcases Option.bind_eq_some_iff.1 h with ⟨rest, hrest, h⟩
        rw [if_pos ‹_›, hport, readParts_append parts' hrest, ← Option.some.inj h]
        cases readParts parts' <;> rfl
      rw [if_neg ‹_›]
      split at h
      · rcases Option.map_eq_some_iff.1 h with ⟨rest, hrest, rfl⟩
        rw [if_pos ‹_›, readParts_append parts' hrest, Option.map_map]
        rfl
      · cases h

/-- What is read starts at a slash, and nothing is read of an empty text. -/
theorem readText_eq_some {text : String} {addr : List TextProtocol}
    (h : readText text = some addr) :
    (text.toList = [] ∧ addr = []) ∨
      ∃ cs, text.toList = '/' :: cs ∧ readParts (cs.splitOn '/') = some addr := by
  unfold readText PathText.components at h
  cases htext : text.toList with
  | nil =>
      left
      rw [htext] at h
      exact ⟨rfl, (Option.some.inj h).symm⟩
  | cons c cs =>
      right
      rw [htext, List.splitOn_cons_eq_if_modifyHead] at h
      by_cases hc : c = '/'
      · exact ⟨cs, by rw [hc], by simpa [hc] using h⟩
      · -- a first part that is not empty
        rcases List.exists_cons_of_ne_nil (List.splitOn_ne_nil '/' cs) with ⟨part, parts, hparts⟩
        simp [hc, hparts] at h

theorem readText_append {text text' : String} {addr addr' : List TextProtocol}
    (h : readText text = some addr) (h' : readText text' = some addr') :
    readText (text ++ text') = some (addr ++ addr') := by
  rcases readText_eq_some h with ⟨hempty, rfl⟩ | ⟨cs, hcs, hread⟩
  · have htext : text = "" := String.toList_inj.1 hempty
    rw [htext, String.empty_append, h', List.nil_append]
  rcases readText_eq_some h' with ⟨hempty, rfl⟩ | ⟨cs', hcs', hread'⟩
  · have htext : text' = "" := String.toList_inj.1 hempty
    rw [htext, String.append_empty, h, List.append_nil]
  · have hsplit : PathText.components (text ++ text') =
        [] :: (cs.splitOn '/' ++ cs'.splitOn '/') := by
      rw [PathText.components, String.toList_append, hcs, hcs', List.cons_append,
        List.splitOn_cons_eq_if_modifyHead, List.splitOn_append_cons_self]
      rfl
    simp only [readText, hsplit]
    rw [readParts_append _ hread, hread']
    rfl

/-- One component and its value. -/
theorem readComponent_pair {text : String} {name value : List Char} {proto : TextProtocol}
    (htext : text.toList = '/' :: (name ++ '/' :: value)) (hname : '/' ∉ name)
    (hvalue : '/' ∉ value) (hread : readParts [name, value] = some [proto]) :
    readComponent text = some proto := by
  have hsplit : PathText.components text = [[], name, value] := by
    rw [PathText.components, htext, List.splitOn_cons_eq_if_modifyHead,
      List.splitOn_append_cons_self, List.splitOn_eq_singleton hname,
      List.splitOn_eq_singleton hvalue]
    rfl
  simp only [readComponent, readText, hsplit, hread]

theorem readValue_eq_some {text : String} {value : List Char} (h : readValue text = some value) :
    '/' ∉ text.toList ∧ text.toList = value := by
  unfold readValue at h
  split at h
  · cases h
  · exact ⟨‹_›, Option.some.inj h⟩

def slashText : MultiaddrText (List Char) (List Char) Empty where
  parse := readText
  component := readComponent
  ip4 := readValue
  peer := readValue
  parse_join := by
    intro texts addr hall
    induction hall with
    | nil => rfl
    | @cons text proto texts addr hfirst _ ih =>
        have hone : readText text = some [proto] := by
          unfold readComponent at hfirst
          split at hfirst
          · rename_i one hread
            rw [hread, Option.some.inj hfirst]
          · cases hfirst
        rw [String.join_cons]
        exact readText_append hone ih
  component_ip4 := by
    intro text addr h
    rcases readValue_eq_some h with ⟨hslash, rfl⟩
    have hread : readParts ["ip4".toList, text.toList] = some [.ip4 text.toList] := by
      simp [readParts]
    exact readComponent_pair (by simp) (by decide) hslash hread
  component_tcp := by
    intro port
    have hslash : '/' ∉ Nat.toDigits 10 port.toNat := by
      intro hmem
      exact absurd (Nat.isDigit_of_mem_toDigits (by decide) (by decide) hmem) (by decide)
    have hread : readParts ["tcp".toList, Nat.toDigits 10 port.toNat] = some [.tcp port] := by
      simp [readParts, readPort_toDigits]
    exact readComponent_pair (by simp) (by decide) hslash hread
  component_p2p := by
    intro text id h
    rcases readValue_eq_some h with ⟨hslash, rfl⟩
    have hread : readParts ["p2p".toList, text.toList] = some [.p2p text.toList] := by
      simp [readParts]
    exact readComponent_pair (by simp) (by decide) hslash hread

/-- The name of the key of thirty-two zero bytes. -/
def targetId : String :=
  "12D3KooWDpJ7As7BWAwRMfu1VU2WCqNjvq387JEYKDBj4kx6nXTN"

def relayId : String :=
  "12D3KooWQK1wnefoLrcVHbbnf5tLzbopUd3K3bFAoJpA7YJgL5pV"

/-- A constructed text gives back its parts. -/
theorem parse_loses_nothing_local :
    parseBootstrapAddr slashText (makeBootstrapAddr "127.0.0.1" 9000 targetId) =
      some (targetId.toList, [.ip4 "127.0.0.1".toList, .tcp 9000]) :=
  (parse_loses_nothing_iff slashText).2.1 _ _ _ _ _ (by decide +kernel) (by decide +kernel)

/-- The address of a peer behind a relay: the relay is returned, and is dialled without its name. -/
theorem relayed_address_loses_target :
    let text := "/ip4/127.0.0.1/tcp/9000/p2p/" ++ relayId ++ "/p2p-circuit/p2p/" ++ targetId
    let dial : List TextProtocol := [.ip4 "127.0.0.1".toList, .tcp 9000, .p2pCircuit]
    ∃ addr, slashText.parse text = some addr ∧
      parseBootstrapAddr slashText text = some (relayId.toList, dial) ∧
      dial ++ [.p2p relayId.toList] ≠ addr ∧ lastPeer addr = some targetId.toList := by
  refine ⟨[.ip4 "127.0.0.1".toList, .tcp 9000, .p2p relayId.toList, .p2pCircuit,
    .p2p targetId.toList], by decide +kernel, by decide +kernel, by decide +kernel,
    by decide +kernel⟩

end Slashes

end Network
end CraftecCore
