import CraftecCore.Library.SortedMap
import Mathlib.Data.Finset.Dedup
import Mathlib.Data.List.Induction
import Mathlib.Data.String.Basic

/-!
# Governance — who changes the whitelist

An update names the agent that issued it, but applying an update does not look at that name.  So the
last update of a CID decides, whoever issued it, and the whitelist is the one that governance alone
would have made exactly when no forged update had the last word.
-/

namespace CraftecCore
namespace AgentRuntime

/-! ## The source functions -/

structure GovernanceConfig where
  governanceCid : String
  networkId : String
  deriving DecidableEq

inductive WhitelistAction
  | add
  | remove
  deriving DecidableEq, Repr

structure WhitelistUpdate where
  action : WhitelistAction
  agentCid : String
  agentType : String
  /-- CID of the governance agent that issued this update. -/
  governanceCid : String
  deriving DecidableEq

/-- Whitelist of approved Tier 1 agent CIDs: the agent type of each row, by its key. -/
structure AgentWhitelist where
  rows : SortedMap String String
  deriving DecidableEq

namespace AgentWhitelist

def new : AgentWhitelist :=
  { rows := SortedMap.empty }

def isWhitelisted (w : AgentWhitelist) (cid : String) : Bool :=
  (w.rows.get? cid).isSome

def applyUpdate (w : AgentWhitelist) (update : WhitelistUpdate) : AgentWhitelist :=
  match update.action with
  | .add => { rows := w.rows.insert update.agentCid update.agentType }
  | .remove => { rows := w.rows.erase update.agentCid }

def list (w : AgentWhitelist) : Finset String :=
  w.rows.keys.toFinset

def applyAll (updates : List WhitelistUpdate) : AgentWhitelist :=
  updates.foldl applyUpdate new

/-! ## The last update decides -/

theorem isWhitelisted_applyUpdate (w : AgentWhitelist) (update : WhitelistUpdate) (cid : String) :
    (w.applyUpdate update).isWhitelisted cid =
      if cid = update.agentCid then decide (update.action = .add) else w.isWhitelisted cid := by
  cases haction : update.action with
  | add =>
      by_cases h : cid = update.agentCid <;>
        simp [applyUpdate, isWhitelisted, haction, SortedMap.get?_insert, h]
  | remove =>
      by_cases h : cid = update.agentCid <;>
        simp [applyUpdate, isWhitelisted, haction, SortedMap.get?_erase, h]

theorem mem_list {w : AgentWhitelist} {cid : String} :
    cid ∈ w.list ↔ w.isWhitelisted cid = true := by
  simp [list, isWhitelisted, SortedMap.mem_keys, Option.isSome_iff_exists]

/-- Whitelists with the same members list the same CIDs. -/
theorem list_eq_iff {w w' : AgentWhitelist} :
    w.list = w'.list ↔ ∀ cid, w.isWhitelisted cid = w'.isWhitelisted cid := by
  simp only [Finset.ext_iff, mem_list, Bool.coe_iff_coe]

@[simp] theorem applyAll_append (updates : List WhitelistUpdate) (update : WhitelistUpdate) :
    applyAll (updates ++ [update]) = (applyAll updates).applyUpdate update := by
  simp [applyAll]

end AgentWhitelist

open AgentWhitelist

/-- The action of the last update that names a CID. -/
def lastAction (updates : List WhitelistUpdate) (cid : String) : Option WhitelistAction :=
  ((updates.filter fun u => u.agentCid = cid).getLast?).map WhitelistUpdate.action

theorem lastAction_append (updates : List WhitelistUpdate) (update : WhitelistUpdate)
    (cid : String) :
    lastAction (updates ++ [update]) cid =
      if cid = update.agentCid then some update.action else lastAction updates cid := by
  by_cases h : cid = update.agentCid
  · simp [lastAction, h]
  · simp [lastAction, h, Ne.symm h]

/-- A CID is whitelisted exactly when the last update that names it adds it. -/
theorem isWhitelisted_applyAll (updates : List WhitelistUpdate) (cid : String) :
    (applyAll updates).isWhitelisted cid = decide (lastAction updates cid = some .add) := by
  induction updates using List.reverseRecOn with
  | nil => rfl
  | append_singleton updates update ih =>
      rw [applyAll_append, isWhitelisted_applyUpdate, lastAction_append, ih]
      by_cases h : cid = update.agentCid <;> simp [h]

/-! ## Governance -/

/-- The updates that name the configured governance agent as their issuer. -/
def authorised (config : GovernanceConfig) (updates : List WhitelistUpdate) :
    List WhitelistUpdate :=
  updates.filter fun u => u.governanceCid = config.governanceCid

/-- The whitelist lists, and recognises, what the authorised updates alone would have made. -/
def Governed (config : GovernanceConfig) (updates : List WhitelistUpdate) : Prop :=
  (applyAll updates).list = (applyAll (authorised config updates)).list ∧
    ∀ cid, (applyAll updates).isWhitelisted cid =
      (applyAll (authorised config updates)).isWhitelisted cid

theorem governed_iff_members {config : GovernanceConfig} {updates : List WhitelistUpdate} :
    Governed config updates ↔ ∀ cid, (applyAll updates).isWhitelisted cid =
      (applyAll (authorised config updates)).isWhitelisted cid := by
  rw [Governed, list_eq_iff, and_self_iff]

def Redundant (w : AgentWhitelist) (update : WhitelistUpdate) : Prop :=
  w.isWhitelisted update.agentCid = decide (update.action = .add)

/-- An authorised update keeps the whitelist governed. -/
theorem Governed.authorised_step {config : GovernanceConfig} {updates : List WhitelistUpdate}
    {update : WhitelistUpdate} (h : Governed config updates)
    (hissuer : update.governanceCid = config.governanceCid) :
    Governed config (updates ++ [update]) := by
  have hauth : authorised config (updates ++ [update]) = authorised config updates ++ [update] := by
    simp [authorised, hissuer]
  rw [governed_iff_members] at h ⊢
  intro cid
  rw [hauth, applyAll_append, applyAll_append, isWhitelisted_applyUpdate,
    isWhitelisted_applyUpdate, h cid]

/-- A forged update keeps the whitelist governed exactly when it is redundant. -/
theorem Governed.forged_step {config : GovernanceConfig} {updates : List WhitelistUpdate}
    {update : WhitelistUpdate} (h : Governed config updates)
    (hissuer : update.governanceCid ≠ config.governanceCid) :
    Governed config (updates ++ [update]) ↔ Redundant (applyAll updates) update := by
  have hauth : authorised config (updates ++ [update]) = authorised config updates := by
    simp [authorised, hissuer]
  rw [governed_iff_members] at h ⊢
  rw [hauth, applyAll_append, Redundant]
  constructor
  · intro hall
    have hcid := hall update.agentCid
    rw [isWhitelisted_applyUpdate, if_pos rfl, ← h update.agentCid] at hcid
    exact hcid.symm
  · intro hredundant cid
    rw [isWhitelisted_applyUpdate, ← h cid]
    by_cases hcid : cid = update.agentCid
    · rw [if_pos hcid, hcid]
      exact hredundant.symm
    · rw [if_neg hcid]

/-- Every point of the sequence is governed exactly when every forged update is redundant where it
is applied. -/
theorem governed_prefixes_iff (config : GovernanceConfig) (updates : List WhitelistUpdate) :
    (∀ earlier, earlier <+: updates → Governed config earlier) ↔
      ∀ earlier update, earlier ++ [update] <+: updates →
        update.governanceCid ≠ config.governanceCid → Redundant (applyAll earlier) update := by
  constructor
  · intro hall earlier update hstart hissuer
    have hearlier := hall earlier ((List.prefix_append earlier [update]).trans hstart)
    exact (hearlier.forged_step hissuer).1 (hall _ hstart)
  · intro hredundant earlier
    induction earlier using List.reverseRecOn with
    | nil => exact fun _ => governed_iff_members.2 fun _ => rfl
    | append_singleton earlier update ih =>
        intro hstart
        have hearlier := ih ((List.prefix_append earlier [update]).trans hstart)
        by_cases hissuer : update.governanceCid = config.governanceCid
        · exact hearlier.authorised_step hissuer
        · exact (hearlier.forged_step hissuer).2 (hredundant earlier update hstart hissuer)

/-- After a sequence of updates the whitelist is the one that the authorised updates make exactly
when, for each CID, the last update that names it adds it if and only if the last authorised one
does; at every point of the sequence it is exactly when every forged update is redundant. -/
theorem governed_iff (config : GovernanceConfig) (updates : List WhitelistUpdate) :
    (Governed config updates ↔ ∀ cid, lastAction updates cid = some .add ↔
      lastAction (authorised config updates) cid = some .add) ∧
    ((∀ earlier, earlier <+: updates → Governed config earlier) ↔
      ∀ earlier update, earlier ++ [update] <+: updates →
        update.governanceCid ≠ config.governanceCid →
          Redundant (applyAll earlier) update) := by
  refine ⟨?_, governed_prefixes_iff config updates⟩
  rw [governed_iff_members]
  simp only [isWhitelisted_applyAll, decide_eq_decide]

/-- An update that names another issuer whitelists an agent. -/
theorem forged_update_whitelists :
    ¬ Governed { governanceCid := "Qm_governance_v1", networkId := "main" }
        [{ action := .add
           agentCid := "Qm_rogue"
           agentType := "registrar"
           governanceCid := "Qm_rogue" }] ∧
      (applyAll
        [{ action := .add
           agentCid := "Qm_rogue"
           agentType := "registrar"
           governanceCid := "Qm_rogue" }]).isWhitelisted "Qm_rogue" = true := by
  refine ⟨?_, by decide +kernel⟩
  intro h
  have hcid := h.2 "Qm_rogue"
  revert hcid
  decide +kernel

end AgentRuntime
end CraftecCore
