import CraftecCore.Prover.Aggregation

/-!
# Binding — one root, one payout list

Two sorted entry lists with the same distribution root are the same list, unless the two
computations hash two different messages to one digest or some message to the zero digest.  Lists of
different lengths are compared through the heights of their trees: padding could only be mistaken
for a zero digest, and a leaf for a node only through a collision of a 40-byte with a 64-byte
message.
-/

namespace CraftecCore
namespace Prover

open MerkleTree

variable (sha256 : List UInt8 → Bytes 32)

/-! ## Hashed messages -/

def nodeMessage (children : Bytes 32 × Bytes 32) : List UInt8 :=
  children.1.bytes ++ children.2.bytes

/-- All messages that the computation of a root hashes: one for each entry, and one for each pair of
neighbours on each level of the padded tree. -/
def hashedMessages (entries : List (Bytes 32 × UInt64)) : List (List UInt8) :=
  entries.map leafMessage ++
    (allPairs (hashNode sha256) (treeHeight entries.length)
      (padLeaves (entries.map (leafHash sha256)))).map nodeMessage

/-- Two different messages, one of each computation, with the same digest. -/
def MessageCollision (entries entries' : List (Bytes 32 × UInt64)) : Prop :=
  Clash sha256 (hashedMessages sha256 entries) (hashedMessages sha256 entries')

def ZeroDigest (entries : List (Bytes 32 × UInt64)) : Prop :=
  ∃ message ∈ hashedMessages sha256 entries, sha256 message = Bytes.zero 32

theorem MessageCollision.symm {entries entries' : List (Bytes 32 × UInt64)}
    (h : MessageCollision sha256 entries entries') : MessageCollision sha256 entries' entries := by
  rcases h with ⟨m, hm, m', hm', hne, heq⟩
  exact ⟨m', hm', m, hm, hne.symm, heq.symm⟩

theorem leafMessage_mem {entries : List (Bytes 32 × UInt64)} {entry : Bytes 32 × UInt64}
    (h : entry ∈ entries) : leafMessage entry ∈ hashedMessages sha256 entries :=
  List.mem_append_left _ (List.mem_map_of_mem h)

theorem nodeMessage_mem {entries : List (Bytes 32 × UInt64)} {children : Bytes 32 × Bytes 32}
    (h : children ∈ allPairs (hashNode sha256) (treeHeight entries.length)
      (padLeaves (entries.map (leafHash sha256)))) :
    nodeMessage children ∈ hashedMessages sha256 entries :=
  List.mem_append_right _ (List.mem_map_of_mem h)

/-! ## Messages can be told apart -/

@[simp] theorem length_leafMessage (entry : Bytes 32 × UInt64) :
    (leafMessage entry).length = 40 := by
  simp [leafMessage]

@[simp] theorem length_nodeMessage (children : Bytes 32 × Bytes 32) :
    (nodeMessage children).length = 64 := by
  simp [nodeMessage]

theorem leafMessage_injective : Function.Injective leafMessage := by
  rintro ⟨op, w⟩ ⟨op', w'⟩ h
  rcases List.append_inj h (by simp) with ⟨hop, hw⟩
  simp only [Prod.mk.injEq]
  exact ⟨Bytes.ext hop, UInt64.leBytes_injective hw⟩

theorem nodeMessage_injective : Function.Injective nodeMessage := by
  rintro ⟨l, r⟩ ⟨l', r'⟩ h
  rcases List.append_inj h (by simp) with ⟨hl, hr⟩
  simp only [Prod.mk.injEq]
  exact ⟨Bytes.ext hl, Bytes.ext hr⟩

theorem leafMessage_ne_nodeMessage (entry : Bytes 32 × UInt64) (children : Bytes 32 × Bytes 32) :
    leafMessage entry ≠ nodeMessage children := by
  intro h
  have hlen := congrArg List.length h
  simp at hlen

/-! ## Padding -/

/-- Two lists that agree once padded with `z` are equal, or one of them contains `z`. -/
theorem eq_or_mem_of_append_replicate {A : Type} {z : A} {m n : ℕ} :
    ∀ {xs ys : List A}, xs ++ List.replicate m z = ys ++ List.replicate n z →
      xs = ys ∨ z ∈ xs ∨ z ∈ ys
  | [], [], _ => Or.inl rfl
  | [], y :: ys, h => by
      have hy : y ∈ List.replicate m z := by
        rw [List.nil_append] at h
        rw [h]
        exact List.mem_cons_self
      exact Or.inr (Or.inr (by rw [List.eq_of_mem_replicate hy]; exact List.mem_cons_self))
  | x :: xs, [], h => by
      have hx : x ∈ List.replicate n z := by
        rw [List.nil_append] at h
        rw [← h]
        exact List.mem_cons_self
      exact Or.inr (Or.inl (by rw [List.eq_of_mem_replicate hx]; exact List.mem_cons_self))
  | x :: xs, y :: ys, h => by
      -- peel equal heads off both lists until one is used up
      rw [List.cons_append, List.cons_append, List.cons.injEq] at h
      rcases eq_or_mem_of_append_replicate h.2 with heq | hx | hy
      · exact Or.inl (by rw [h.1, heq])
      · exact Or.inr (Or.inl (List.mem_cons_of_mem x hx))
      · exact Or.inr (Or.inr (List.mem_cons_of_mem y hy))

/-- Leaf lists that agree once padded come from equal entries, unless messages collide or a leaf has
the zero digest. -/
theorem entries_eq_of_padLeaves_eq {entries entries' : List (Bytes 32 × UInt64)}
    (h : padLeaves (entries.map (leafHash sha256)) = padLeaves (entries'.map (leafHash sha256))) :
    entries = entries' ∨ MessageCollision sha256 entries entries' ∨
      ZeroDigest sha256 entries ∨ ZeroDigest sha256 entries' := by
  -- a leaf that equals the padding has the zero digest
  have hzero : ∀ {entries : List (Bytes 32 × UInt64)},
      Bytes.zero 32 ∈ entries.map (leafHash sha256) → ZeroDigest sha256 entries := by
    intro entries hmem
    rcases List.mem_map.1 hmem with ⟨entry, hentry, hdigest⟩
    exact ⟨leafMessage entry, leafMessage_mem sha256 hentry, hdigest⟩
  rcases eq_or_mem_of_append_replicate h with hleaves | hmem | hmem
  · rcases eq_or_clash (leafHash sha256) hleaves with heq | ⟨e, he, e', he', hne, hdigest⟩
    · exact Or.inl heq
    · exact Or.inr (Or.inl ⟨leafMessage e, leafMessage_mem sha256 he, leafMessage e',
        leafMessage_mem sha256 he', leafMessage_injective.ne hne, hdigest⟩)
  · exact Or.inr (Or.inr (Or.inl (hzero hmem)))
  · exact Or.inr (Or.inr (Or.inr (hzero hmem)))

/-! ## Comparing two trees -/

/-- What climbing the padded leaves of an entry list to the top reaches. -/
def RootOf (entries : List (Bytes 32 × UInt64)) (root : Bytes 32) : Prop :=
  climb (hashNode sha256) (treeHeight entries.length)
    (padLeaves (entries.map (leafHash sha256))) = [root]

/-- Binding, with the lower tree on the left. -/
theorem RootOf.binding_of_le {entries entries' : List (Bytes 32 × UInt64)} {root : Bytes 32}
    (h : RootOf sha256 entries root) (h' : RootOf sha256 entries' root) (hne : entries ≠ [])
    (hle : treeHeight entries.length ≤ treeHeight entries'.length) :
    entries = entries' ∨ MessageCollision sha256 entries entries' ∨
      ZeroDigest sha256 entries ∨ ZeroDigest sha256 entries' := by
  -- the higher tree is `k` levels higher
  rcases Nat.exists_eq_add_of_le hle with ⟨k, hk⟩
  have hx := length_padLeaves (entries.map (leafHash sha256))
  have hy := length_padLeaves (entries'.map (leafHash sha256))
  rw [List.length_map] at hx hy
  rw [hk] at hy
  have htop := h.trans h'.symm
  rw [hk] at htop
  rcases binding (hashNode sha256) hx hy htop with ⟨-, hleaves⟩ | hclash | hnode
  · exact entries_eq_of_padLeaves_eq sha256 hleaves
  · -- two pairs of neighbours with one digest: their messages collide
    rcases hclash with ⟨p, hp, q, hq, hpq, hdigest⟩
    rw [← hk] at hq
    exact Or.inr (Or.inl ⟨nodeMessage p, nodeMessage_mem sha256 hp, nodeMessage q,
      nodeMessage_mem sha256 hq, nodeMessage_injective.ne hpq, hdigest⟩)
  · -- the first leaf of the lower tree is a node of the higher one
    rcases List.exists_mem_of_ne_nil entries hne with ⟨entry, hentry⟩
    have hleaf : leafHash sha256 entry ∈ padLeaves (entries.map (leafHash sha256)) :=
      List.mem_append_left _ (List.mem_map_of_mem hentry)
    rcases hnode (leafHash sha256 entry) hleaf with ⟨q, hq, hdigest⟩
    rw [← hk] at hq
    exact Or.inr (Or.inl ⟨leafMessage entry, leafMessage_mem sha256 hentry, nodeMessage q,
      nodeMessage_mem sha256 hq, leafMessage_ne_nodeMessage entry q, hdigest⟩)

theorem RootOf.binding {entries entries' : List (Bytes 32 × UInt64)} {root : Bytes 32}
    (h : RootOf sha256 entries root) (h' : RootOf sha256 entries' root) (hne : entries ≠ [])
    (hne' : entries' ≠ []) :
    entries = entries' ∨ MessageCollision sha256 entries entries' ∨
      ZeroDigest sha256 entries ∨ ZeroDigest sha256 entries' := by
  -- the statement is symmetric in the two lists
  rcases le_total (treeHeight entries.length) (treeHeight entries'.length) with hle | hle
  · exact RootOf.binding_of_le sha256 h h' hne hle
  · rcases RootOf.binding_of_le sha256 h' h hne' hle with heq | hcollision | hzero | hzero
    · exact Or.inl heq.symm
    · exact Or.inr (Or.inl (hcollision.symm sha256))
    · exact Or.inr (Or.inr (Or.inr hzero))
    · exact Or.inr (Or.inr (Or.inl hzero))

/-! ## The guest logic -/

/-- The root that the guest logic returns on sorted entries. -/
theorem rootOf_of_executeGuestLogic {entries : List (Bytes 32 × UInt64)} {poolId : Bytes 32}
    {out : DistributionOutput} (hne : entries ≠ [])
    (hsorted : entries.Pairwise fun a b => a.1 ≤ b.1)
    (hrun : executeGuestLogic sha256 { entries := entries, poolId := poolId } = .ok out) :
    RootOf sha256 entries out.root := by
  have hleaves : entries.map (leafHash sha256) ≠ [] := by simpa using hne
  rcases computeMerkleRoot_eq_ok sha256 hleaves with ⟨root, hroot, hclimb⟩
  rw [executeGuestLogic_of_sorted sha256 poolId hsorted, hroot] at hrun
  simp only [Outcome.bind_eq_ok, Outcome.ok_bind, Outcome.pure_eq, Outcome.ok.injEq] at hrun
  rcases hrun with ⟨totalWeight, -, rfl⟩
  simpa [RootOf] using hclimb

/-- One root stands for one sorted list of entries, unless SHA-256 collides on two of the messages
hashed or gives one of them the zero digest. -/
theorem executeGuestLogic_root_binding {entries entries' : List (Bytes 32 × UInt64)}
    {poolId poolId' : Bytes 32} {out out' : DistributionOutput} (hne : entries ≠ [])
    (hne' : entries' ≠ []) (hsorted : entries.Pairwise fun a b => a.1 ≤ b.1)
    (hsorted' : entries'.Pairwise fun a b => a.1 ≤ b.1)
    (hrun : executeGuestLogic sha256 { entries := entries, poolId := poolId } = .ok out)
    (hrun' : executeGuestLogic sha256 { entries := entries', poolId := poolId' } = .ok out')
    (hroot : out.root = out'.root) :
    entries = entries' ∨ MessageCollision sha256 entries entries' ∨
      ZeroDigest sha256 entries ∨ ZeroDigest sha256 entries' := by
  have h := rootOf_of_executeGuestLogic sha256 hne hsorted hrun
  have h' := rootOf_of_executeGuestLogic sha256 hne' hsorted' hrun'
  rw [hroot] at h
  exact RootOf.binding sha256 h h' hne hne'

def firstPayout : Bytes 32 × UInt64 :=
  (Bytes.ofNat 32 0x0101010101010101010101010101010101010101010101010101010101010101, 3)

def secondPayout : Bytes 32 × UInt64 :=
  (Bytes.ofNat 32 0x0202020202020202020202020202020202020202020202020202020202020202, 5)

/-- SHA-256 on the three messages hashed for the two payouts. -/
def payoutDigest : List UInt8 → Bytes 32 :=
  let first := Bytes.ofNat 32 0xf3c9438c19d994e892d4ca11c38a6916b2288242e16b45218b9ab2c7345d6aa3
  let second := Bytes.ofNat 32 0xa73a95c56684f96044dc4a0c0a5c661094f3ae51625cb24d68545c98eb6bfe57
  let root := Bytes.ofNat 32 0x1d37cfa1faa08dae784ef1fe65596c2ccc0c94d50f230bccab62b12292679ca4
  Bytes.ofTable [(leafMessage firstPayout, first), (leafMessage secondPayout, second),
    (nodeMessage (first, second), root)]

def twoPayouts : DistributionOutput :=
  { root := Bytes.ofNat 32 0x1d37cfa1faa08dae784ef1fe65596c2ccc0c94d50f230bccab62b12292679ca4
    totalWeight := 8
    entryCount := 2
    poolId := Bytes.zero 32 }

theorem executeGuestLogic_payouts :
    executeGuestLogic payoutDigest
      { entries := [firstPayout, secondPayout], poolId := Bytes.zero 32 } = .ok twoPayouts := by
  decide +kernel

theorem root_binding_two_payouts :
    [firstPayout, secondPayout] = [firstPayout, secondPayout] ∨
      MessageCollision payoutDigest [firstPayout, secondPayout] [firstPayout, secondPayout] ∨
      ZeroDigest payoutDigest [firstPayout, secondPayout] ∨
      ZeroDigest payoutDigest [firstPayout, secondPayout] :=
  executeGuestLogic_root_binding payoutDigest (by simp) (by simp) (by decide +kernel)
    (by decide +kernel) executeGuestLogic_payouts executeGuestLogic_payouts rfl

end Prover
end CraftecCore
