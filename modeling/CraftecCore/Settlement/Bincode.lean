import CraftecCore.Settlement.Receipt

/-!
# Bincode — the byte layout of receipts and payloads

Arrays are written as they are, integers in little endian, and a vector behind its length as a
`u64`.  Reading a receipt back gives the receipt that was written.
-/

namespace CraftecCore
namespace Settlement

def bincodeVec (bytes : List UInt8) : List UInt8 :=
  (UInt64.ofNat bytes.length).leBytes ++ bytes

def StorageReceipt.bincode (r : StorageReceipt) : List UInt8 :=
  r.contentId.bytes ++ (r.storageNode.bytes ++ (r.challenger.bytes ++ (r.shardIndex.leBytes ++
    (r.timestamp.leBytes ++ (r.nonce.bytes ++ (r.proofHash.bytes ++ bincodeVec r.signature))))))

def PostDistribution.bincode (payload : PostDistribution) : List UInt8 :=
  payload.poolPubkey.bytes ++ (payload.distributionRoot.bytes ++ (payload.totalWeight.leBytes ++
    (bincodeVec payload.groth16Proof ++ bincodeVec payload.publicInputs)))

def ClaimPayout.bincode (payload : ClaimPayout) : List UInt8 :=
  payload.poolPubkey.bytes ++ (payload.operatorPubkey.bytes ++ (payload.operatorWeight.leBytes ++
    ((UInt64.ofNat payload.merkleProof.length).leBytes ++
      (payload.merkleProof.flatMap Bytes.bytes ++ payload.leafIndex.leBytes))))

/-- Read a vector of bytes, and what follows it. -/
def splitVec? (data : List UInt8) : Option (List UInt8 × List UInt8) := do
  let (len, data) ← Bytes.split? 8 data
  let len := (UInt64.ofLeBytes len.bytes).toNat
  -- a length that promises more bytes than are left is an error
  if data.length < len then
    none
  else
    some (data.take len, data.drop len)

def StorageReceipt.split? (data : List UInt8) : Option (StorageReceipt × List UInt8) := do
  let (contentId, data) ← Bytes.split? 32 data
  let (storageNode, data) ← Bytes.split? 32 data
  let (challenger, data) ← Bytes.split? 32 data
  let (shardIndex, data) ← Bytes.split? 4 data
  let (timestamp, data) ← Bytes.split? 8 data
  let (nonce, data) ← Bytes.split? 32 data
  let (proofHash, data) ← Bytes.split? 32 data
  let (signature, data) ← splitVec? data
  some
    ({ contentId := contentId
       storageNode := storageNode
       challenger := challenger
       shardIndex := UInt32.ofLeBytes shardIndex.bytes
       timestamp := UInt64.ofLeBytes timestamp.bytes
       nonce := nonce
       proofHash := proofHash
       signature := signature },
      data)

def splitReceipts? : ℕ → List UInt8 → Option (List StorageReceipt)
  | 0, _ => some []
  | count + 1, data => do
      let (receipt, data) ← StorageReceipt.split? data
      let receipts ← splitReceipts? count data
      some (receipt :: receipts)

def unexpectedEnd : String := "io error: unexpected end of file"

/-- Read one receipt; bytes behind it are ignored. -/
def StorageReceipt.ofBincode (data : List UInt8) : Except String StorageReceipt :=
  match StorageReceipt.split? data with
  | none => .error unexpectedEnd
  | some (receipt, _) => .ok receipt

def receiptsOfBincode (data : List UInt8) : Except String (List StorageReceipt) :=
  match Bytes.split? 8 data with
  | none => .error unexpectedEnd
  | some (count, data) =>
      match splitReceipts? (UInt64.ofLeBytes count.bytes).toNat data with
      | none => .error unexpectedEnd
      | some receipts => .ok receipts

theorem split?_leBytes32 (w : UInt32) (rest : List UInt8) :
    Bytes.split? 4 (w.leBytes ++ rest) =
      some ({ bytes := w.leBytes, length_eq := by simp }, rest) :=
  Bytes.split?_append { bytes := w.leBytes, length_eq := by simp } rest

theorem split?_leBytes64 (w : UInt64) (rest : List UInt8) :
    Bytes.split? 8 (w.leBytes ++ rest) =
      some ({ bytes := w.leBytes, length_eq := by simp }, rest) :=
  Bytes.split?_append { bytes := w.leBytes, length_eq := by simp } rest

theorem splitVec?_append {bytes : List UInt8} (hlen : bytes.length < 2 ^ 64) (rest : List UInt8) :
    splitVec? (bincodeVec bytes ++ rest) = some (bytes, rest) := by
  have hcount : (UInt64.ofNat bytes.length).toNat = bytes.length := UInt64.toNat_ofNat_of_lt' hlen
  simp [splitVec?, bincodeVec, List.append_assoc, split?_leBytes64, hcount]

/-- Round trip of a receipt, whatever follows it. -/
theorem StorageReceipt.split?_append {r : StorageReceipt} (hlen : r.signature.length < 2 ^ 64)
    (rest : List UInt8) : StorageReceipt.split? (r.bincode ++ rest) = some (r, rest) := by
  simp [StorageReceipt.split?, StorageReceipt.bincode, List.append_assoc, split?_leBytes32,
    split?_leBytes64, splitVec?_append hlen]

theorem StorageReceipt.ofBincode_bincode {r : StorageReceipt}
    (hlen : r.signature.length < 2 ^ 64) : StorageReceipt.ofBincode r.bincode = .ok r := by
  have h := StorageReceipt.split?_append hlen []
  rw [List.append_nil] at h
  simp [StorageReceipt.ofBincode, h]

end Settlement
end CraftecCore
