import CraftecCore.Library.Base58
import CraftecCore.Library.Bytes
import CraftecCore.Library.Outcome
import CraftecCore.Library.Text

/-!
# Did — identifiers and the keys they stand for

A DID is a prefix and the base58 text of a 32-byte key.  Parsing checks that; making one from a key
cannot fail; but deserializing takes any string.  A DID stands for a key exactly when it was not
deserialized from a string that parsing refuses.
-/

namespace CraftecCore
namespace Identity

open Text

/-! ## The source functions -/

def didPrefix : String := "did:craftec:"

structure Packages where
  bs58Encode : List UInt8 → String
  /-- `bs58::decode(..).into_vec()`; the error is the text of the decoder's. -/
  bs58Decode : String → Except String (List UInt8)
  /-- Whether `VerifyingKey::from_bytes` accepts the bytes. -/
  verifyingKey : Bytes 32 → Bool
  /-- `verify`: key, message and signature. -/
  verifySignature : Bytes 32 → List UInt8 → Bytes 64 → Bool

inductive DidError
  | invalidFormat (message : String)
  | invalidBase58 (error : String)
  | invalidKeyLength (len : ℕ)
  deriving DecidableEq, Repr

structure Did where
  text : String
  deriving DecidableEq, Repr

/-- `&s[start..]`. -/
def sliceFrom (s : String) (start : ℕ) : Outcome String :=
  match sliceFrom? s start with
  | none => .panic .indexOutOfBounds
  | some t => .ok t

namespace Did

variable (x : Packages)

def fromPubkey (pubkey : Bytes 32) : Did :=
  { text := didPrefix ++ x.bs58Encode pubkey.bytes }

def toPubkey (did : Did) : Outcome (Bytes 32) := do
  let encoded ← sliceFrom did.text didPrefix.utf8ByteSize
  match x.bs58Decode encoded with
  | .error _ => .panic .assertion
  | .ok bytes =>
      -- `copy_from_slice` asserts that the lengths agree
      match Bytes.ofList? 32 bytes with
      | none => .panic .assertion
      | some key => pure key

def fromStr (s : String) : Outcome (Except DidError Did) :=
  if didPrefix.toList.isPrefixOf s.toList = false then
    pure (.error (.invalidFormat ("must start with '" ++ didPrefix ++ "'")))
  else do
    let encoded ← sliceFrom s didPrefix.utf8ByteSize
    if encoded = "" then
      pure (.error (.invalidFormat "missing key portion"))
    else
      match x.bs58Decode encoded with
      | .error err => pure (.error (.invalidBase58 err))
      | .ok bytes =>
          if bytes.length ≠ 32 then
            pure (.error (.invalidKeyLength bytes.length))
          else
            pure (.ok { text := s })

/-- The derived `Deserialize` of a newtype: the string as it is. -/
def deserialize (s : String) : Did :=
  { text := s }

end Did

def verify (x : Packages) (pubkey : Bytes 32) (data : List UInt8) (signature : Bytes 64) : Bool :=
  x.verifyingKey pubkey && x.verifySignature pubkey data signature

def verifyWithDid (x : Packages) (did : Did) (data : List UInt8) (signature : Bytes 64) :
    Outcome Bool := do
  let pubkey ← did.toPubkey x
  pure (verify x pubkey data signature)

/-! ## Texts of DIDs -/

/-- Standard base58: decoding is the inverse of encoding. -/
structure StandardBase58 (x : Packages) : Prop where
  decode_encode : ∀ bytes, x.bs58Decode (x.bs58Encode bytes) = .ok bytes
  encode_decode : ∀ s bytes, x.bs58Decode s = .ok bytes → x.bs58Encode bytes = s
  decode_empty : x.bs58Decode "" = .ok []

theorem sliceFrom_encoded (encoded : String) :
    sliceFrom (didPrefix ++ encoded) didPrefix.utf8ByteSize = .ok encoded := by
  have hsize : didPrefix.utf8ByteSize = (didPrefix.toList.map Char.utf8Size).sum := by
    decide +kernel
  rw [sliceFrom, hsize, sliceFrom?_append]

theorem isPrefixOf_iff {s : String} :
    didPrefix.toList.isPrefixOf s.toList = true ↔ ∃ encoded, s = didPrefix ++ encoded := by
  rw [List.isPrefixOf_iff_prefix]
  constructor
  · rintro ⟨cs, hcs⟩
    refine ⟨String.ofList cs, String.toList_inj.1 ?_⟩
    rw [String.toList_append, String.toList_ofList, hcs]
  · rintro ⟨encoded, rfl⟩
    rw [String.toList_append]
    exact List.prefix_append _ _

namespace Did

variable {x : Packages}

/-- The key is read back. -/
theorem toPubkey_fromPubkey (hx : StandardBase58 x) (key : Bytes 32) :
    (fromPubkey x key).toPubkey x = .ok key := by
  simp [toPubkey, fromPubkey, sliceFrom_encoded, hx.decode_encode]

/-- Parsing accepts exactly the texts of keys. -/
theorem fromStr_eq_ok_iff (hx : StandardBase58 x) {s : String} {did : Did} :
    fromStr x s = .ok (.ok did) ↔ did.text = s ∧ ∃ key, did = fromPubkey x key := by
  constructor
  · intro h
    unfold fromStr at h
    split at h
    · simp at h
    rename_i hstart
    rcases isPrefixOf_iff.1 (by simpa using hstart) with ⟨encoded, rfl⟩
    rw [sliceFrom_encoded, Outcome.ok_bind] at h
    split at h
    · simp at h
    split at h
    · simp at h
    rename_i bytes hdecode
    split at h
    · simp at h
    rename_i hlen
    rw [Outcome.pure_eq, Outcome.ok.injEq, Except.ok.injEq] at h
    refine ⟨by rw [← h], { bytes := bytes, length_eq := not_not.1 hlen }, ?_⟩
    rw [← h, fromPubkey, hx.encode_decode _ _ hdecode]
  · rintro ⟨rfl, key, rfl⟩
    have hne : x.bs58Encode key.bytes ≠ "" := by
      -- the empty text stands for no bytes
      intro hempty
      have hdecode := hx.decode_encode key.bytes
      rw [hempty, hx.decode_empty, Except.ok.injEq] at hdecode
      have hlen := key.length_eq
      rw [← hdecode] at hlen
      simp at hlen
    simp [fromStr, fromPubkey, sliceFrom_encoded, hne, hx.decode_encode]

end Did

/-! ## Where a DID comes from -/

inductive Origin
  | fromPubkey (pubkey : Bytes 32)
  | fromStr (s : String)
  | deserialize (s : String)
  | clone (origin : Origin)

/-- The DID that is obtained; none from a string that parsing refuses. -/
def Origin.did (x : Packages) : Origin → Option Did
  | .fromPubkey pubkey => some (Did.fromPubkey x pubkey)
  | .fromStr s =>
      match Did.fromStr x s with
      | .ok (.ok did) => some did
      | _ => none
  | .deserialize s => some (Did.deserialize s)
  | .clone origin => origin.did x

/-- It was not deserialized from a string that parsing refuses. -/
def Origin.Checked (x : Packages) : Origin → Prop
  | .fromPubkey _ => True
  | .fromStr _ => True
  | .deserialize s => ∃ did, Did.fromStr x s = .ok (.ok did)
  | .clone origin => origin.Checked x

/-- The DID stands for a key: neither function panics on it, and it is the DID of its key. -/
structure WellFormed (x : Packages) (did : Did) : Prop where
  toPubkey : ∃ key, did.toPubkey x = .ok key ∧ Did.fromPubkey x key = did
  verifyWithDid : ∀ data signature, ∃ valid, verifyWithDid x did data signature = .ok valid

theorem wellFormed_iff_fromPubkey {x : Packages} (hx : StandardBase58 x) {did : Did} :
    WellFormed x did ↔ ∃ key, did = Did.fromPubkey x key := by
  constructor
  · rintro ⟨⟨key, -, heq⟩, -⟩
    exact ⟨key, heq.symm⟩
  · rintro ⟨key, rfl⟩
    have hkey := Did.toPubkey_fromPubkey hx key
    exact
      { toPubkey := ⟨key, hkey, rfl⟩
        verifyWithDid := fun data signature => ⟨_, by rw [verifyWithDid, hkey]; rfl⟩ }

/-- A DID, wherever it comes from, is well formed exactly when it was not deserialized from a string
that parsing refuses; and every key is the key of its DID. -/
theorem did_wellFormed_iff {x : Packages} (hx : StandardBase58 x) :
    (∀ (origin : Origin) (did : Did), origin.did x = some did →
      (WellFormed x did ↔ origin.Checked x)) ∧
    ∀ key, (Did.fromPubkey x key).toPubkey x = .ok key := by
  refine ⟨?_, Did.toPubkey_fromPubkey hx⟩
  intro origin
  induction origin with
  | fromPubkey key =>
      intro did h
      rw [wellFormed_iff_fromPubkey hx]
      exact iff_of_true ⟨key, (Option.some.inj h).symm⟩ trivial
  | fromStr s =>
      intro did h
      rw [wellFormed_iff_fromPubkey hx]
      unfold Origin.did at h
      split at h
      · rename_i did' hrun
        rw [← Option.some.inj h]
        exact iff_of_true ((Did.fromStr_eq_ok_iff hx).1 hrun).2 trivial
      · simp at h
  | deserialize s =>
      intro did h
      rw [wellFormed_iff_fromPubkey hx, ← Option.some.inj h]
      constructor
      · intro hkey
        exact ⟨Did.deserialize s, (Did.fromStr_eq_ok_iff hx).2 ⟨rfl, hkey⟩⟩
      · rintro ⟨did', hrun⟩
        rcases (Did.fromStr_eq_ok_iff hx).1 hrun with ⟨rfl, key, hkey⟩
        exact ⟨key, hkey⟩
  | clone origin ih => exact ih

def base58Packages : Packages :=
  { bs58Encode := Base58.encode
    bs58Decode := fun s =>
      match Base58.decode s with
      | none => .error "provided string contained invalid character"
      | some bytes => .ok bytes
    verifyingKey := fun _ => true
    verifySignature := fun _ _ _ => false }

theorem standardBase58_base58Packages : StandardBase58 base58Packages :=
  { decode_encode := fun bytes => by
      simp [base58Packages, Base58.decode_encode]
    encode_decode := fun s bytes h => by
      simp only [base58Packages] at h ⊢
      split at h
      · simp at h
      · rename_i hdecode
        exact Base58.encode_decode (Except.ok.inj h ▸ hdecode)
    decode_empty := by decide +kernel }

theorem did_wellFormed_iff_zero :
    WellFormed base58Packages (Did.fromPubkey base58Packages (Bytes.zero 32)) :=
  ((did_wellFormed_iff standardBase58_base58Packages).1 (.clone (.fromPubkey (Bytes.zero 32))) _
    rfl).2 trivial

/-- Deserialized strings on which `to_pubkey` panics at the slice, at the decoder and at the copy;
and one without the prefix that stands for a key but is not its DID. -/
theorem deserialize_ill_formed :
    (Origin.deserialize "abc").did base58Packages = some (Did.deserialize "abc") ∧
      (Did.deserialize "abc").toPubkey base58Packages = .panic .indexOutOfBounds ∧
      (Did.deserialize "did:craftec:0OIl").toPubkey base58Packages = .panic .assertion ∧
      (Did.deserialize "did:craftec:11").toPubkey base58Packages = .panic .assertion ∧
      (Did.deserialize "did:another:11111111111111111111111111111111").toPubkey base58Packages =
        .ok (Bytes.zero 32) ∧
      Did.fromPubkey base58Packages (Bytes.zero 32) ≠
        Did.deserialize "did:another:11111111111111111111111111111111" ∧
      ¬ WellFormed base58Packages (Did.deserialize "abc") := by
  have hpanic : (Did.deserialize "abc").toPubkey base58Packages = .panic .indexOutOfBounds := by
    decide +kernel
  refine ⟨rfl, hpanic, by decide +kernel, by decide +kernel, by decide +kernel,
    by decide +kernel, ?_⟩
  rintro ⟨⟨key, hkey, -⟩, -⟩
  rw [hpanic] at hkey
  simp at hkey

end Identity
end CraftecCore
