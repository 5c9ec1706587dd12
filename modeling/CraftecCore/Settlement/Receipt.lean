import CraftecCore.Library.Bytes

/-!
# Receipt — storage receipts and the distribution instruction

A storage receipt is the record of one passed storage challenge.  Its dedup hash covers five of its
fields; the encoding of these fields is injective, so two receipts with the same dedup hash agree on
them unless SHA-256 collides.

The module also holds the settlement instruction that posts a distribution.  Serialization by the
`bincode` package is an arbitrary function.
-/

namespace CraftecCore
namespace Settlement

/-- What the settlement layer reads of any contribution receipt. -/
class ContributionReceipt (R : Type) where
  /-- The weight of this contribution. -/
  weight : R → UInt64
  /-- Public key of the operator who earned this receipt. -/
  operator : R → Bytes 32
  /-- Timestamp of the contribution. -/
  timestamp : R → UInt64

structure StorageReceipt where
  contentId : Bytes 32
  storageNode : Bytes 32
  challenger : Bytes 32
  shardIndex : UInt32
  timestamp : UInt64
  nonce : Bytes 32
  proofHash : Bytes 32
  signature : List UInt8
  deriving DecidableEq, Repr

instance : ContributionReceipt StorageReceipt where
  weight _ := 1
  operator r := r.storageNode
  timestamp r := r.timestamp

namespace StorageReceipt

/-! ## Encodings -/

def dedupPreimage (r : StorageReceipt) : List UInt8 :=
  r.contentId.bytes ++ r.shardIndex.leBytes ++ r.storageNode.bytes ++ r.challenger.bytes ++
    r.timestamp.leBytes

def dedupHash (sha256 : List UInt8 → Bytes 32) (r : StorageReceipt) : Bytes 32 :=
  sha256 r.dedupPreimage

/-- Canonical bytes for signature verification. -/
def signableBytes (r : StorageReceipt) : List UInt8 :=
  r.contentId.bytes ++ r.storageNode.bytes ++ r.challenger.bytes ++ r.shardIndex.leBytes ++
    r.timestamp.leBytes ++ r.nonce.bytes ++ r.proofHash.bytes

/-! ## Dedup keys -/

structure DedupKey where
  contentId : Bytes 32
  shardIndex : UInt32
  storageNode : Bytes 32
  challenger : Bytes 32
  timestamp : UInt64
  deriving DecidableEq, Repr

def key (r : StorageReceipt) : DedupKey :=
  { contentId := r.contentId
    shardIndex := r.shardIndex
    storageNode := r.storageNode
    challenger := r.challenger
    timestamp := r.timestamp }

/-- The message of the dedup hash, from the key alone. -/
def DedupKey.encode (k : DedupKey) : List UInt8 :=
  k.contentId.bytes ++ k.shardIndex.leBytes ++ k.storageNode.bytes ++ k.challenger.bytes ++
    k.timestamp.leBytes

theorem dedupPreimage_eq (r : StorageReceipt) : r.dedupPreimage = r.key.encode := rfl

/-- Fields of fixed width can be read back: different keys have different messages. -/
theorem DedupKey.encode_injective : Function.Injective DedupKey.encode := by
  intro a b h
  -- cut the five fields off the message from the right, each by its width
  rcases List.append_inj' h (by simp) with ⟨h, htime⟩
  rcases List.append_inj' h (by simp) with ⟨h, hchallenger⟩
  rcases List.append_inj' h (by simp) with ⟨h, hnode⟩
  rcases List.append_inj' h (by simp) with ⟨hcontent, hshard⟩
  cases a
  cases b
  simp only [DedupKey.mk.injEq]
  exact ⟨Bytes.ext hcontent, UInt32.leBytes_injective hshard, Bytes.ext hnode,
    Bytes.ext hchallenger, UInt64.leBytes_injective htime⟩

/-- Two keys whose messages differ and have the same hash. -/
def KeyCollision (sha256 : List UInt8 → Bytes 32) (a b : DedupKey) : Prop :=
  a.encode ≠ b.encode ∧ sha256 a.encode = sha256 b.encode

/-- Equal dedup hashes mean equal keys, or a collision of two different messages. -/
theorem key_eq_or_collision {sha256 : List UInt8 → Bytes 32} {r s : StorageReceipt}
    (h : r.dedupHash sha256 = s.dedupHash sha256) :
    r.key = s.key ∨ KeyCollision sha256 r.key s.key := by
  by_cases hkey : r.key = s.key
  · exact Or.inl hkey
  · exact Or.inr ⟨fun hmessage => hkey (DedupKey.encode_injective hmessage), h⟩

theorem dedupHash_eq_of_key_eq (sha256 : List UInt8 → Bytes 32) {r s : StorageReceipt}
    (h : r.key = s.key) : r.dedupHash sha256 = s.dedupHash sha256 := by
  simp only [dedupHash, dedupPreimage_eq, h]

end StorageReceipt

/-! ## The distribution instruction -/

structure PostDistribution where
  poolPubkey : Bytes 32
  distributionRoot : Bytes 32
  totalWeight : UInt64
  groth16Proof : List UInt8
  publicInputs : List UInt8
  deriving DecidableEq, Repr

/-- `InstructionType::PostDistribution as u8`. -/
def postDistributionDiscriminator : UInt8 := 8

/-- Instruction data: the discriminator, then the serialized payload. -/
def postDistribution (serialize : PostDistribution → List UInt8) (payload : PostDistribution) :
    List UInt8 :=
  postDistributionDiscriminator :: serialize payload

/-! ## The claim instruction -/

structure ClaimPayout where
  poolPubkey : Bytes 32
  operatorPubkey : Bytes 32
  operatorWeight : UInt64
  merkleProof : List (Bytes 32)
  leafIndex : UInt32
  deriving DecidableEq, Repr

def claimDiscriminator : UInt8 := 9

def claimPayout (serialize : ClaimPayout → List UInt8) (payload : ClaimPayout) : List UInt8 :=
  claimDiscriminator :: serialize payload

end Settlement
end CraftecCore
