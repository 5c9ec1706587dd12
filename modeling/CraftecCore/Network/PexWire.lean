import CraftecCore.Network.Report

/-!
# PexWire — messages of the peer exchange

A message is a list of peers, each with the bytes of its id and of its addresses.  Reading ids and
addresses from bytes is a function of another package, as is the JSON text of a message.  What was
made of a list of peers is read back as this list; of a message that is not, the first entry that
cannot be read gives the error.
-/

namespace CraftecCore
namespace Network

/-! ## Wire types -/

structure PexPeer where
  /-- Peer id as raw bytes. -/
  peerIdBytes : List UInt8
  /-- Addresses as raw bytes. -/
  addrs : List (List UInt8)
  deriving DecidableEq, Repr

structure PexMessage where
  peers : List PexPeer
  deriving DecidableEq, Repr

inductive PexWireError
  | serializationError (text : String)
  | deserializationError (text : String)
  | invalidPeerId (text : String)
  | invalidAddress (text : String)
  deriving DecidableEq, Repr

/-- The functions of the packages: ids and addresses as bytes, and messages as JSON texts. -/
structure WirePackage (Peer Addr : Type) where
  peerToBytes : Peer → List UInt8
  peerFromBytes : List UInt8 → Except String Peer
  addrToVec : Addr → List UInt8
  addrTryFrom : List UInt8 → Except String Addr
  jsonToVec : PexMessage → Except String (List UInt8)
  jsonFromSlice : List UInt8 → Except String PexMessage

section Convert

variable {Peer Addr : Type} (x : WirePackage Peer Addr)

def PexPeer.fromPeer (p : Peer × List Addr) : PexPeer :=
  { peerIdBytes := x.peerToBytes p.1
    addrs := p.2.map x.addrToVec }

def PexMessage.fromPeers (peers : List (Peer × List Addr)) : PexMessage :=
  { peers := peers.map (PexPeer.fromPeer x) }

def readAddrs : List (List UInt8) → Except PexWireError (List Addr)
  | [] => .ok []
  | bytes :: rest =>
      match x.addrTryFrom bytes with
      | .error e => .error (.invalidAddress e)
      | .ok addr =>
          match readAddrs rest with
          | .error e => .error e
          | .ok addrs => .ok (addr :: addrs)

def PexPeer.toPeer (p : PexPeer) : Except PexWireError (Peer × List Addr) :=
  match x.peerFromBytes p.peerIdBytes with
  | .error e => .error (.invalidPeerId e)
  | .ok peer =>
      match readAddrs x p.addrs with
      | .error e => .error e
      | .ok addrs => .ok (peer, addrs)

/-- Collecting results stops at the first error. -/
def readPeers : List PexPeer → Except PexWireError (List (Peer × List Addr))
  | [] => .ok []
  | p :: rest =>
      match p.toPeer x with
      | .error e => .error e
      | .ok peer =>
          match readPeers rest with
          | .error e => .error e
          | .ok peers => .ok (peer :: peers)

def PexMessage.toPeers (m : PexMessage) : Except PexWireError (List (Peer × List Addr)) :=
  readPeers x m.peers

def PexMessage.toBytes (m : PexMessage) : Except PexWireError (List UInt8) :=
  match x.jsonToVec m with
  | .error e => .error (.serializationError e)
  | .ok bytes => .ok bytes

def PexMessage.fromBytes (data : List UInt8) : Except PexWireError PexMessage :=
  match x.jsonFromSlice data with
  | .error e => .error (.deserializationError e)
  | .ok m => .ok m

end Convert

/-! ## What is read back -/

/-- The packages read back what they write of a list of peers. -/
structure WirePackage.ReadsBack {Peer Addr : Type} (x : WirePackage Peer Addr)
    (peers : List (Peer × List Addr)) : Prop where
  peer : ∀ e ∈ peers, x.peerFromBytes (x.peerToBytes e.1) = .ok e.1
  addr : ∀ e ∈ peers, ∀ a ∈ e.2, x.addrTryFrom (x.addrToVec a) = .ok a
  json : ∀ bytes, x.jsonToVec (PexMessage.fromPeers x peers) = .ok bytes →
    x.jsonFromSlice bytes = .ok (PexMessage.fromPeers x peers)

section ReadBack

variable {Peer Addr : Type} {x : WirePackage Peer Addr}

theorem readAddrs_map {addrs : List Addr}
    (h : ∀ a ∈ addrs, x.addrTryFrom (x.addrToVec a) = .ok a) :
    readAddrs x (addrs.map x.addrToVec) = .ok addrs := by
  induction addrs with
  | nil => rfl
  | cons addr addrs ih =>
      have hrest := ih fun a ha => h a (List.mem_cons_of_mem _ ha)
      simp [readAddrs, h addr List.mem_cons_self, hrest]

theorem toPeers_fromPeers {peers : List (Peer × List Addr)}
    (hpeer : ∀ e ∈ peers, x.peerFromBytes (x.peerToBytes e.1) = .ok e.1)
    (haddr : ∀ e ∈ peers, ∀ a ∈ e.2, x.addrTryFrom (x.addrToVec a) = .ok a) :
    (PexMessage.fromPeers x peers).toPeers x = .ok peers := by
  rw [PexMessage.toPeers, PexMessage.fromPeers]
  induction peers with
  | nil => rfl
  | cons p peers ih =>
      have hhead : (PexPeer.fromPeer x p).toPeer x = .ok p := by
        simp [PexPeer.toPeer, PexPeer.fromPeer, hpeer p List.mem_cons_self,
          readAddrs_map (haddr p List.mem_cons_self)]
      have hrest := ih (fun e he => hpeer e (List.mem_cons_of_mem _ he))
        (fun e he => haddr e (List.mem_cons_of_mem _ he))
      rw [List.map_cons, readPeers, hhead]
      simp only at hrest ⊢
      rw [hrest]

theorem fromBytes_of_toBytes {m : PexMessage} {bytes : List UInt8}
    (h : ∀ bytes, x.jsonToVec m = .ok bytes → x.jsonFromSlice bytes = .ok m)
    (hbytes : m.toBytes x = .ok bytes) : PexMessage.fromBytes x bytes = .ok m := by
  unfold PexMessage.toBytes at hbytes
  cases hjson : x.jsonToVec m with
  | error e => simp [hjson] at hbytes
  | ok written =>
      simp only [hjson, Except.ok.injEq] at hbytes
      subst hbytes
      simp [PexMessage.fromBytes, h written hjson]

def receiveBytes (x : WirePackage Peer Addr) (data : List UInt8) :
    Except PexWireError (List (Peer × List Addr)) :=
  match PexMessage.fromBytes x data with
  | .error e => .error e
  | .ok m => m.toPeers x

theorem receiveBytes_of_toBytes {peers : List (Peer × List Addr)} (h : x.ReadsBack peers)
    {bytes : List UInt8} (hbytes : (PexMessage.fromPeers x peers).toBytes x = .ok bytes) :
    receiveBytes x bytes = .ok peers := by
  rw [receiveBytes, fromBytes_of_toBytes h.json hbytes]
  exact toPeers_fromPeers h.peer h.addr

/-- The first entry that cannot be read gives the error. -/
theorem toPeers_eq_error_iff {m : PexMessage} {e : PexWireError} :
    m.toPeers x = .error e ↔
      ∃ before p after, m.peers = before ++ p :: after ∧
        (∀ q ∈ before, ∃ peer, q.toPeer x = .ok peer) ∧ p.toPeer x = .error e := by
  rw [PexMessage.toPeers]
  induction m.peers with
  | nil => simp [readPeers]
  | cons p rest ih =>
      cases hp : p.toPeer x with
      | error e' =>
          simp only [readPeers, hp, Except.error.injEq]
          constructor
          · rintro rfl
            exact ⟨[], p, rest, rfl, by simp, hp⟩
          · rintro ⟨before, q, after, heq, hbefore, hq⟩
            cases before with
            | nil =>
                cases heq
                rw [hp] at hq
                exact Except.error.inj hq
            | cons b before =>
                -- the entry itself would have been read
                cases heq
                rcases hbefore p List.mem_cons_self with ⟨peer, hpeer⟩
                rw [hp] at hpeer
                cases hpeer
      | ok peer =>
          have hrest : readPeers x (p :: rest) = .error e ↔ readPeers x rest = .error e := by
            cases hread : readPeers x rest <;> simp [readPeers, hp, hread]
          rw [hrest, ih]
          constructor
          · rintro ⟨before, q, after, rfl, hbefore, hq⟩
            refine ⟨p :: before, q, after, rfl, ?_, hq⟩
            intro r hr
            rcases List.mem_cons.1 hr with rfl | hr
            · exact ⟨peer, hp⟩
            · exact hbefore r hr
          · rintro ⟨before, q, after, heq, hbefore, hq⟩
            cases before with
            | nil =>
                cases heq
                rw [hp] at hq
                cases hq
            | cons b before =>
                cases heq
                exact ⟨before, q, after, rfl,
                  fun r hr => hbefore r (List.mem_cons_of_mem _ hr), hq⟩

/-- A list of peers that is sent is received as it was; a message that is refused is refused for the
first of its entries that cannot be read. -/
theorem pex_message_roundTrip (x : WirePackage Peer Addr) :
    (∀ (peers : List (Peer × List Addr)) (bytes : List UInt8), x.ReadsBack peers →
      (PexMessage.fromPeers x peers).toBytes x = .ok bytes →
        receiveBytes x bytes = .ok peers) ∧
    ∀ (m : PexMessage) (e : PexWireError), m.toPeers x = .error e ↔
      ∃ before p after, m.peers = before ++ p :: after ∧
        (∀ q ∈ before, ∃ peer, q.toPeer x = .ok peer) ∧ p.toPeer x = .error e :=
  ⟨fun _ _ h hbytes => receiveBytes_of_toBytes h hbytes, fun _ _ => toPeers_eq_error_iff⟩

end ReadBack

end Network
end CraftecCore
