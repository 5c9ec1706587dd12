import CraftecCore.Library.Bytes
import CraftecCore.Library.Text

/-!
# Pda — derived addresses

An address is the SHA-256 hash of seeds, the program and a suffix, put together without separators
or lengths.  Still no two calls hash the same bytes: program and suffix have fixed widths, and the
seven functions differ in the total length of their seeds.
-/

namespace CraftecCore
namespace Settlement

open Text

/-! ## The source functions -/

/-- Seed prefixes matching the on-chain program. -/
def configSeed : List UInt8 := utf8 "config"

def planSeed : List UInt8 := utf8 "plan"

def poolSeed : List UInt8 := utf8 "pool"

def creatorPoolSeed : List UInt8 := utf8 "creator_pool"

def claimReceiptSeed : List UInt8 := utf8 "claim_receipt"

def treasurySeed : List UInt8 := utf8 "treasury"

def paymentChannelSeed : List UInt8 := utf8 "payment_channel"

def pdaMessage (programId : Bytes 32) (seeds : List (List UInt8)) : List UInt8 :=
  seeds.flatten ++ programId.bytes ++ utf8 "ProgramDerivedAddress"

section Pda

variable (sha256 : List UInt8 → Bytes 32)

def derivePda (programId : Bytes 32) (seeds : List (List UInt8)) : Bytes 32 :=
  sha256 (pdaMessage programId seeds)

def configPda (programId : Bytes 32) : Bytes 32 :=
  derivePda sha256 programId [configSeed]

def treasuryPda (programId : Bytes 32) : Bytes 32 :=
  derivePda sha256 programId [treasurySeed]

def creatorPoolPda (programId creatorPubkey : Bytes 32) : Bytes 32 :=
  derivePda sha256 programId [creatorPoolSeed, creatorPubkey.bytes]

def poolPda (programId poolPubkey : Bytes 32) : Bytes 32 :=
  derivePda sha256 programId [poolSeed, poolPubkey.bytes]

def planPda (programId : Bytes 32) (service tier billingPeriod : UInt8) : Bytes 32 :=
  derivePda sha256 programId [planSeed, [service], [tier], [billingPeriod]]

def claimReceiptPda (programId poolPubkey operatorPubkey : Bytes 32) : Bytes 32 :=
  derivePda sha256 programId [claimReceiptSeed, poolPubkey.bytes, operatorPubkey.bytes]

def paymentChannelPda (programId userPubkey nodePubkey : Bytes 32) : Bytes 32 :=
  derivePda sha256 programId [paymentChannelSeed, userPubkey.bytes, nodePubkey.bytes]

end Pda

/-! ## Calls -/

/-- A call of one of the seven functions. -/
inductive PdaCall
  | config (programId : Bytes 32)
  | treasury (programId : Bytes 32)
  | creatorPool (programId creatorPubkey : Bytes 32)
  | pool (programId poolPubkey : Bytes 32)
  | plan (programId : Bytes 32) (service tier billingPeriod : UInt8)
  | claimReceipt (programId poolPubkey operatorPubkey : Bytes 32)
  | paymentChannel (programId userPubkey nodePubkey : Bytes 32)
  deriving DecidableEq

namespace PdaCall

def address (sha256 : List UInt8 → Bytes 32) : PdaCall → Bytes 32
  | config programId => configPda sha256 programId
  | treasury programId => treasuryPda sha256 programId
  | creatorPool programId creatorPubkey => creatorPoolPda sha256 programId creatorPubkey
  | pool programId poolPubkey => poolPda sha256 programId poolPubkey
  | plan programId service tier billingPeriod =>
      planPda sha256 programId service tier billingPeriod
  | claimReceipt programId poolPubkey operatorPubkey =>
      claimReceiptPda sha256 programId poolPubkey operatorPubkey
  | paymentChannel programId userPubkey nodePubkey =>
      paymentChannelPda sha256 programId userPubkey nodePubkey

def programId : PdaCall → Bytes 32
  | config programId => programId
  | treasury programId => programId
  | creatorPool programId _ => programId
  | pool programId _ => programId
  | plan programId _ _ _ => programId
  | claimReceipt programId _ _ => programId
  | paymentChannel programId _ _ => programId

def seeds : PdaCall → List (List UInt8)
  | config _ => [configSeed]
  | treasury _ => [treasurySeed]
  | creatorPool _ creatorPubkey => [creatorPoolSeed, creatorPubkey.bytes]
  | pool _ poolPubkey => [poolSeed, poolPubkey.bytes]
  | plan _ service tier billingPeriod => [planSeed, [service], [tier], [billingPeriod]]
  | claimReceipt _ poolPubkey operatorPubkey =>
      [claimReceiptSeed, poolPubkey.bytes, operatorPubkey.bytes]
  | paymentChannel _ userPubkey nodePubkey =>
      [paymentChannelSeed, userPubkey.bytes, nodePubkey.bytes]

def message (call : PdaCall) : List UInt8 :=
  pdaMessage call.programId call.seeds

theorem address_eq (sha256 : List UInt8 → Bytes 32) (call : PdaCall) :
    call.address sha256 = sha256 call.message := by
  cases call <;> rfl

/-- The bytes of the seeds, by function: no two functions have the same. -/
theorem length_flatten_seeds (call : PdaCall) :
    call.seeds.flatten.length =
      match call with
      | config _ => 6
      | treasury _ => 8
      | creatorPool _ _ => 44
      | pool _ _ => 36
      | plan _ _ _ _ => 7
      | claimReceipt _ _ _ => 77
      | paymentChannel _ _ _ => 79 := by
  cases call <;> simp [seeds] <;> rfl

/-- Two fields of one width can be read back. -/
theorem two_fields_inj {n : ℕ} {a b a' b' : Bytes n}
    (h : a.bytes ++ b.bytes = a'.bytes ++ b'.bytes) : a = a' ∧ b = b' := by
  rcases List.append_inj h (by simp) with ⟨hfirst, hsecond⟩
  exact ⟨Bytes.ext hfirst, Bytes.ext hsecond⟩

/-- The program and the seeds together determine the call. -/
theorem eq_of_seeds_eq {a b : PdaCall} (hprogram : a.programId = b.programId)
    (hseeds : a.seeds.flatten = b.seeds.flatten) : a = b := by
  have hlen := congrArg List.length hseeds
  rw [length_flatten_seeds, length_flatten_seeds] at hlen
  cases a with
  | config p =>
      cases b with
      | config q => exact congrArg config hprogram
      | _ => simp at hlen
  | treasury p =>
      cases b with
      | treasury q => exact congrArg treasury hprogram
      | _ => simp at hlen
  | creatorPool p creator =>
      cases b with
      | creatorPool q creator' =>
          have hkey : creator = creator' := Bytes.ext (by simpa [seeds] using hseeds)
          exact congrArg₂ creatorPool hprogram hkey
      | _ => simp at hlen
  | pool p key =>
      cases b with
      | pool q key' =>
          have hkey : key = key' := Bytes.ext (by simpa [seeds] using hseeds)
          exact congrArg₂ pool hprogram hkey
      | _ => simp at hlen
  | plan p service tier billing =>
      cases b with
      | plan q service' tier' billing' =>
          have hprogram' : p = q := hprogram
          have hbytes : service = service' ∧ tier = tier' ∧ billing = billing' := by
            simpa [seeds] using hseeds
          rw [hprogram', hbytes.1, hbytes.2.1, hbytes.2.2]
      | _ => simp at hlen
  | claimReceipt p key operator =>
      cases b with
      | claimReceipt q key' operator' =>
          have hprogram' : p = q := hprogram
          have hkeys : key = key' ∧ operator = operator' :=
            two_fields_inj (by simpa [seeds] using hseeds)
          rw [hprogram', hkeys.1, hkeys.2]
      | _ => simp at hlen
  | paymentChannel p user node =>
      cases b with
      | paymentChannel q user' node' =>
          have hprogram' : p = q := hprogram
          have hkeys : user = user' ∧ node = node' :=
            two_fields_inj (by simpa [seeds] using hseeds)
          rw [hprogram', hkeys.1, hkeys.2]
      | _ => simp at hlen

/-- No two calls hash the same bytes. -/
theorem message_injective : Function.Injective message := by
  intro a b h
  -- the suffix and the program are cut off from the right, each by its width
  rcases List.append_inj' h rfl with ⟨hfront, -⟩
  rcases List.append_inj' hfront (by simp) with ⟨hseeds, hprogram⟩
  exact eq_of_seeds_eq (Bytes.ext hprogram) hseeds

end PdaCall

/-- Equal addresses come from the same call, or from two messages that collide. -/
theorem pda_eq_or_collision (sha256 : List UInt8 → Bytes 32) {a b : PdaCall}
    (h : a.address sha256 = b.address sha256) :
    a = b ∨ a.message ≠ b.message ∧ sha256 a.message = sha256 b.message := by
  rw [PdaCall.address_eq, PdaCall.address_eq] at h
  by_cases hcall : a = b
  · exact Or.inl hcall
  · exact Or.inr ⟨fun hmessage => hcall (PdaCall.message_injective hmessage), h⟩

/-- SHA-256 on the message of the configuration of the placeholder program. -/
def configDigest : List UInt8 → Bytes 32 :=
  Bytes.ofTable
    [((PdaCall.config (Bytes.zero 32)).message,
        Bytes.ofNat 32 0x8bc47557f664ffff4dfa4d1cf2ca8a3941ed38ba1c366a9ba621e5cc266b27c7)]

/-- The address of a configuration, derived twice. -/
theorem pda_config_twice :
    configPda configDigest (Bytes.zero 32) =
      Bytes.ofNat 32 0x8bc47557f664ffff4dfa4d1cf2ca8a3941ed38ba1c366a9ba621e5cc266b27c7 ∧
    (PdaCall.config (Bytes.zero 32) = PdaCall.config (Bytes.zero 32) ∨
      (PdaCall.config (Bytes.zero 32)).message ≠ (PdaCall.config (Bytes.zero 32)).message ∧
        configDigest (PdaCall.config (Bytes.zero 32)).message =
          configDigest (PdaCall.config (Bytes.zero 32)).message) :=
  ⟨by decide +kernel, pda_eq_or_collision configDigest rfl⟩

end Settlement
end CraftecCore
