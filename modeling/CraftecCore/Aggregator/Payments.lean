import CraftecCore.Aggregator.Claims
import CraftecCore.Settlement.Fee

/-!
# Payments — what the loop asks its submitter for, and what the pool pays

With `submit_claims` set, the loop submits the claims of a distribution that was accepted, one for
each operator.  Every submission is awaited: between any two of them time passes and messages
arrive.  Once the claims are forgotten, a run with claims is a run of the loop, whose log then tells
every call that was made.  The claims of a distribution carry what the receipts of the batch earned,
so the payouts of all its operators fit in any balance of the pool.
-/

namespace CraftecCore
namespace Aggregator

open Settlement Prover Transition

/-! ## The loop with its claims -/

structure ClaimingState (D : Type) where
  loop : LoopState D
  /-- Claims of the distribution at hand that are still to be submitted. -/
  pending : List ClaimPayout
  /-- What the submitter was asked so far. -/
  calls : List SubmitterCall

inductive ClaimingEvent
  | loop (e : LoopEvent)
  | claim (answer : Except AggregatorError SubmitResult)

/-- What happens around the loop, also while it waits for an answer. -/
def LoopEvent.around : LoopEvent → Bool
  | .enqueue _ => true
  | .tick _ => true
  | _ => false

def LoopEvent.submits : LoopEvent → Bool
  | .submit _ => true
  | _ => false

theorem LoopEvent.submits_of_around {e : LoopEvent} (h : e.around = true) : e.submits = false := by
  cases e <;> first
    | rfl
    | cases h

section Runs

variable {D : Type} [FileSystem D]

def ClaimingStarted (x : Packages) (s : ClaimingState D) : Prop :=
  LoopStarted x s.loop ∧ s.pending = [] ∧ s.calls = []

/-- One step.  The loop goes on when no claim is pending; answers to claims are only logged. -/
inductive ClaimingNext (x : Packages) (submitClaims : Bool) :
    ClaimingState D → ClaimingEvent → ClaimingState D → Prop
  | around {s : ClaimingState D} {e : LoopEvent} {loop' : LoopState D} :
      e.around = true → LoopNext x s.loop e loop' →
        ClaimingNext x submitClaims s (.loop e) { s with loop := loop' }
  | loop {s : ClaimingState D} {e : LoopEvent} {loop' : LoopState D} :
      s.pending = [] → e.submits = false → LoopNext x s.loop e loop' →
        ClaimingNext x submitClaims s (.loop e) { s with loop := loop' }
  | submitted {s : ClaimingState D} {tx : BuiltTransaction}
      {results : List (Except AggregatorError BuiltTransaction)} (answer : SubmitResult) :
      s.pending = [] → s.loop.phase = .submitting (.ok tx :: results) →
        ClaimingNext x submitClaims s (.loop (.submit (.ok answer)))
          { loop := s.loop.settle results (.posted tx)
            pending := if submitClaims then submittedClaims tx else []
            calls := s.calls ++ [.submit tx] }
  | refused {s : ClaimingState D} {tx : BuiltTransaction}
      {results : List (Except AggregatorError BuiltTransaction)} (err : AggregatorError) :
      s.pending = [] → s.loop.phase = .submitting (.ok tx :: results) →
        ClaimingNext x submitClaims s (.loop (.submit (.error err)))
          { loop := s.loop.settle results (.refused tx)
            pending := []
            calls := s.calls ++ [.submit tx] }
  | claim {s : ClaimingState D} {claim : ClaimPayout} {pending : List ClaimPayout}
      (answer : Except AggregatorError SubmitResult) :
      s.pending = claim :: pending →
        ClaimingNext x submitClaims s (.claim answer)
          { s with
            pending := pending
            calls := s.calls ++ [.submitClaim claim] }

/-- A step is one of the loop or leaves the loop where it is. -/
theorem ClaimingNext.loopNext {x : Packages} {submitClaims : Bool} {s s' : ClaimingState D}
    {e : ClaimingEvent} (h : ClaimingNext x submitClaims s e s') :
    (∃ e', LoopNext x s.loop e' s'.loop) ∨ s'.loop = s.loop := by
  cases h with
  | around _ hnext => exact Or.inl ⟨_, hnext⟩
  | loop _ _ hnext => exact Or.inl ⟨_, hnext⟩
  | submitted answer _ hphase => exact Or.inl ⟨_, LoopNext.submitted answer hphase⟩
  | refused err _ hphase => exact Or.inl ⟨_, LoopNext.refused err hphase⟩
  | claim _ _ => exact Or.inr rfl

/-- Forgetting the claims leaves a run of the loop. -/
theorem run_loop {x : Packages} {submitClaims : Bool}
    {allowed : ClaimingState D → ClaimingEvent → Prop} {s : ClaimingState D}
    (h : Run (ClaimingStarted x) (ClaimingNext x submitClaims) allowed s) :
    Run (LoopStarted x) (LoopNext x) (fun _ _ => True) s.loop := by
  refine Run.invariant (I := fun s => Run (LoopStarted x) (LoopNext x) (fun _ _ => True) s.loop)
    ?_ ?_ h
  · exact fun _ hs => Run.start hs.1
  · intro s e s' hs _ hnext
    rcases hnext.loopNext with ⟨e', hloop⟩ | hsame
    · exact hs.step trivial hloop
    · rw [hsame]
      exact hs

/-- A run of the loop in which nothing is submitted is one with claims. -/
theorem run_claiming {x : Packages} (submitClaims : Bool) {l : LoopState D}
    (h : Run (LoopStarted x) (LoopNext x) (fun _ e => e.submits = false) l) :
    Run (ClaimingStarted x) (ClaimingNext x submitClaims) (fun _ _ => True)
      { loop := l, pending := [], calls := [] } := by
  induction h with
  | start hs => exact Run.start ⟨hs, rfl, rfl⟩
  | step _ hallowed hnext ih =>
      exact ih.step (e := ClaimingEvent.loop _) trivial (ClaimingNext.loop rfl hallowed hnext)

/-! ## The log tells the calls -/

/-- What the submitter is asked for a batch that met its fate. -/
def callsOf (submitClaims : Bool) :
    (Bytes 32 × List StorageReceipt) × Fate → List SubmitterCall
  | (_, .posted tx) =>
      .submit tx :: if submitClaims then (submittedClaims tx).map .submitClaim else []
  | (_, .refused tx) => [.submit tx]
  | (_, .unbuilt _) => []

omit [FileSystem D] in
/-- A result that is dealt with belongs to the first of the waiting batches. -/
theorem Tallied.exists_settled {x : Packages} {l : LoopState D} (h : Tallied x l) (fate : Fate)
    {results : List (Except AggregatorError BuiltTransaction)}
    (hphase : l.phase = .submitting (fate.result :: results)) :
    ∃ batch, (l.settle results fate).log.settled = l.log.settled ++ [(batch, fate)] := by
  have hpending := h.pending
  rw [hphase, Phase.results] at hpending
  cases hwaiting : l.log.waiting with
  | nil =>
      rw [hwaiting] at hpending
      cases hpending
  | cons batch waiting =>
      refine ⟨batch, ?_⟩
      simp [LoopState.settle, hwaiting]

/-- Steps that submit nothing add nothing to ask for. -/
theorem Tallied.flatMap_callsOf {x : Packages} {submitClaims : Bool} {l l' : LoopState D}
    {e : LoopEvent} (h : Tallied x l) (he : e.submits = false) (hnext : LoopNext x l e l') :
    l'.log.settled.flatMap (callsOf submitClaims) =
      l.log.settled.flatMap (callsOf submitClaims) := by
  cases hnext with
  | submitted answer hphase => cases he
  | refused err hphase => cases he
  | batchFailed hphase =>
      rename_i err results
      rcases h.exists_settled (.unbuilt err) hphase with ⟨batch, hsettled⟩
      rw [hsettled]
      simp [callsOf]
  | _ => rfl

/-- The calls so far and the claims still to come are those that the settled batches tell. -/
structure ClaimingState.Told (x : Packages) (submitClaims : Bool) (s : ClaimingState D) :
    Prop where
  tallied : Tallied x s.loop
  calls : s.calls ++ s.pending.map .submitClaim =
    s.loop.log.settled.flatMap (callsOf submitClaims)

theorem ClaimingState.Told.next {x : Packages} {submitClaims : Bool} {s s' : ClaimingState D}
    {e : ClaimingEvent} (h : s.Told x submitClaims) (hnext : ClaimingNext x submitClaims s e s') :
    s'.Told x submitClaims := by
  have htallied : Tallied x s'.loop := by
    rcases hnext.loopNext with ⟨e', hloop⟩ | hsame
    · exact h.tallied.next hloop
    · rw [hsame]
      exact h.tallied
  refine ⟨htallied, ?_⟩
  cases hnext with
  | around he hloop =>
      rw [h.tallied.flatMap_callsOf (LoopEvent.submits_of_around he) hloop]
      exact h.calls
  | loop _ he hloop =>
      rw [h.tallied.flatMap_callsOf he hloop]
      exact h.calls
  | submitted answer hpending hphase =>
      rename_i tx results
      rcases h.tallied.exists_settled (.posted tx) hphase with ⟨batch, hsettled⟩
      have hcalls := h.calls
      rw [hpending, List.map_nil, List.append_nil] at hcalls
      rw [hsettled, List.flatMap_append, ← hcalls, List.append_assoc]
      cases submitClaims <;> simp [callsOf]
  | refused err hpending hphase =>
      rename_i tx results
      rcases h.tallied.exists_settled (.refused tx) hphase with ⟨batch, hsettled⟩
      have hcalls := h.calls
      rw [hpending, List.map_nil, List.append_nil] at hcalls
      rw [hsettled, List.flatMap_append, ← hcalls]
      simp [callsOf]
  | claim answer hpending =>
      have hcalls := h.calls
      rw [hpending, List.map_cons] at hcalls
      rw [← hcalls, List.append_assoc]
      rfl

theorem told_of_run {x : Packages} {submitClaims : Bool}
    {allowed : ClaimingState D → ClaimingEvent → Prop} {s : ClaimingState D}
    (h : Run (ClaimingStarted x) (ClaimingNext x submitClaims) allowed s) :
    s.Told x submitClaims := by
  refine h.invariant ?_ fun _ _ _ hs _ hnext => hs.next hnext
  rintro s ⟨hstart, hpending, hcalls⟩
  refine ⟨Tallied.start hstart, ?_⟩
  rw [hpending, hcalls, hstart.2.2.2]
  rfl

/-- The pending claims are submitted one after the other. -/
theorem exists_run_claims {x : Packages} {submitClaims : Bool} (submitter : Submitter) :
    ∀ {pending : List ClaimPayout} {s : ClaimingState D},
      Run (ClaimingStarted x) (ClaimingNext x submitClaims) (fun _ _ => True) s →
      s.pending = pending →
      ∃ s' : ClaimingState D,
        Run (ClaimingStarted x) (ClaimingNext x submitClaims) (fun _ _ => True) s' ∧
        s'.pending = [] ∧ s'.loop = s.loop ∧
        s'.calls = s.calls ++ pending.map .submitClaim
  | [], s, hrun, hpending => ⟨s, hrun, hpending, rfl, by simp⟩
  | claim :: pending, s, hrun, hpending => by
      have hclaimed := hrun.step
        (e := ClaimingEvent.claim (submitter s.calls (.submitClaim claim))) trivial
        (ClaimingNext.claim _ hpending)
      rcases exists_run_claims submitter hclaimed rfl with
        ⟨s', hrun', hpending', hloop, hcalls⟩
      refine ⟨s', hrun', hpending', hloop, ?_⟩
      rw [hcalls]
      simp

/-- In one run of the source's loop over the results of an epoch's end, with the answers of any
submitter, the calls are those of the functional model. -/
theorem exists_run_submitResults {x : Packages} {submitClaims : Bool} (submitter : Submitter) :
    ∀ {results : List (Except AggregatorError BuiltTransaction)} {s : ClaimingState D},
      Run (ClaimingStarted x) (ClaimingNext x submitClaims) (fun _ _ => True) s →
      s.pending = [] → s.loop.phase = .submitting results →
      ∃ s' : ClaimingState D,
        Run (ClaimingStarted x) (ClaimingNext x submitClaims) (fun _ _ => True) s' ∧
        s'.pending = [] ∧ s'.loop.phase = .submitting [] ∧
        s'.calls = submitResults submitClaims submitter results s.calls
  | [], s, hrun, hpending, hphase => ⟨s, hrun, hpending, hphase, rfl⟩
  | .error err :: results, s, hrun, hpending, hphase => by
      have hfailed := hrun.step (e := ClaimingEvent.loop .batchFailed) trivial
        (ClaimingNext.loop hpending rfl (LoopNext.batchFailed hphase))
      have hrest := exists_run_submitResults submitter hfailed hpending rfl
      exact hrest
  | .ok tx :: results, s, hrun, hpending, hphase => by
      cases hanswer : submitter s.calls (.submit tx) with
      | error err =>
          have hrefused := hrun.step (e := ClaimingEvent.loop (.submit (.error err))) trivial
            (ClaimingNext.refused err hpending hphase)
          rcases exists_run_submitResults submitter hrefused rfl rfl with
            ⟨s', hrun', hpending', hphase', hcalls⟩
          refine ⟨s', hrun', hpending', hphase', ?_⟩
          rw [hcalls, submitResults, submitDistribution, hanswer]
      | ok answer =>
          have hsubmitted := hrun.step (e := ClaimingEvent.loop (.submit (.ok answer))) trivial
            (ClaimingNext.submitted answer hpending hphase)
          rcases exists_run_claims submitter hsubmitted rfl with
            ⟨s₁, hrun₁, hpending₁, hloop₁, hcalls₁⟩
          have hphase₁ : s₁.loop.phase = .submitting results := by
            rw [hloop₁]
            rfl
          rcases exists_run_submitResults submitter hrun₁ hpending₁ hphase₁ with
            ⟨s', hrun', hpending', hphase', hcalls⟩
          refine ⟨s', hrun', hpending', hphase', ?_⟩
          rw [hcalls, hcalls₁, submitResults, submitDistribution, hanswer]
          cases submitClaims <;> simp [submitClaimLoop_eq, submittedClaims]

/-! ## No claim without an accepted distribution -/

/-- A call that is made for some entry of a list stands behind the calls for the entries before. -/
theorem exists_of_flatMap_eq {α β : Type} {f : α → List β} :
    ∀ {entries : List α} {before after : List β} {b : β},
      entries.flatMap f = before ++ b :: after →
      ∃ a ∈ entries, ∃ rest earlier later, f a = earlier ++ b :: later ∧ before = rest ++ earlier
  | [], before, after, b, h => by simp at h
  | a :: entries, before, after, b, h => by
      rw [List.flatMap_cons, List.append_eq_append_iff] at h
      rcases h with ⟨more, hbefore, hrest⟩ | ⟨more, hfirst, hrest⟩
      · rcases exists_of_flatMap_eq hrest with ⟨a', ha', rest, earlier, later, hcalls, hmore⟩
        refine ⟨a', List.mem_cons_of_mem a ha', f a ++ rest, earlier, later, hcalls, ?_⟩
        rw [hbefore, hmore, List.append_assoc]
      · cases more with
        | nil =>
            have hstart : entries.flatMap f = [] ++ b :: after := hrest.symm
            rcases exists_of_flatMap_eq hstart with ⟨a', ha', rest, earlier, later, hcalls, hnil⟩
            rcases List.append_eq_nil_iff.1 hnil.symm with ⟨-, rfl⟩
            refine ⟨a', List.mem_cons_of_mem a ha', before, [], later, hcalls, ?_⟩
            rw [List.append_nil]
        | cons b' more =>
            rcases List.cons.inj hrest with ⟨rfl, -⟩
            exact ⟨a, List.mem_cons_self, [], before, more, hfirst, rfl⟩

/-- The calls of a batch that contain a claim are those of a distribution that was accepted. -/
theorem posted_of_claim {submitClaims : Bool}
    {entry : (Bytes 32 × List StorageReceipt) × Fate} {claim : ClaimPayout}
    {earlier later : List SubmitterCall}
    (h : callsOf submitClaims entry = earlier ++ .submitClaim claim :: later) :
    ∃ tx claims more, entry.2 = .posted tx ∧ submittedClaims tx = claims ++ claim :: more ∧
      earlier = .submit tx :: claims.map .submitClaim := by
  rcases entry with ⟨batch, fate⟩
  cases fate with
  | posted tx =>
      cases earlier with
      | nil => cases (List.cons.inj h).1
      | cons call earlier =>
          rcases List.cons.inj h with ⟨rfl, hclaims⟩
          cases submitClaims with
          | false => simp at hclaims
          | true =>
              have happend : (submittedClaims tx).map .submitClaim =
                  earlier ++ SubmitterCall.submitClaim claim :: later := hclaims
              rcases List.map_eq_append_iff.1 happend with ⟨claims, rest, hall, rfl, hrest⟩
              rcases List.map_eq_cons_iff.1 hrest with ⟨claim', more, rfl, hclaim, -⟩
              cases hclaim
              exact ⟨tx, claims, more, rfl, hall, rfl⟩
  | refused tx =>
      cases earlier with
      | nil => cases (List.cons.inj h).1
      | cons call earlier =>
          have hnil := (List.cons.inj h).2
          simp at hnil
  | unbuilt err => simp [callsOf] at h

/-- In every run with claims, whatever the submitter answers and whatever happens between two
submissions: the calls are those that the log of the loop tells, in its order; and before a claim is
submitted, the distribution of its batch was submitted and accepted and the claims of the operators
before this one were submitted, with nothing in between. -/
theorem claims_follow_distributions {x : Packages} {submitClaims : Bool}
    {allowed : ClaimingState D → ClaimingEvent → Prop} {s : ClaimingState D}
    (hrun : Run (ClaimingStarted x) (ClaimingNext x submitClaims) allowed s) :
    Run (LoopStarted x) (LoopNext x) (fun _ _ => True) s.loop ∧
    s.calls ++ s.pending.map .submitClaim =
      s.loop.log.settled.flatMap (callsOf submitClaims) ∧
    ∀ before claim after, s.calls = before ++ .submitClaim claim :: after →
      ∃ pool receipts tx claims more rest,
        ((pool, receipts), Fate.posted tx) ∈ s.loop.log.settled ∧ Pays tx pool receipts ∧
        submittedClaims tx = claims ++ claim :: more ∧
        before = rest ++ .submit tx :: claims.map .submitClaim := by
  have htold := told_of_run hrun
  refine ⟨run_loop hrun, htold.calls, ?_⟩
  intro before claim after hcalls
  have hall := htold.calls
  rw [hcalls, List.append_assoc, List.cons_append] at hall
  rcases exists_of_flatMap_eq hall.symm with
    ⟨⟨⟨pool, receipts⟩, fate⟩, hentry, rest, earlier, later, hbatch, hbefore⟩
  rcases posted_of_claim hbatch with ⟨tx, claims, more, rfl, hclaims, rfl⟩
  exact ⟨pool, receipts, tx, claims, more, rest, hentry,
    pays_of_buildDistribution (htold.tallied.settled _ hentry), hclaims, hbefore⟩

/-! ## What the pool pays -/

theorem exists_batch {x : Packages} {pool : Bytes 32} {receipts : List StorageReceipt}
    {tx : BuiltTransaction} (h : buildDistribution x pool receipts = .ok (.ok tx)) :
    ∃ batch, build x pool receipts = .ok (.ok batch) ∧ buildPostDistribution x batch = tx := by
  rw [buildDistribution, Outcome.bind_eq_ok] at h
  rcases h with ⟨result, hbuild, htx⟩
  cases result with
  | error err => simp at htx
  | ok batch => exact ⟨batch, hbuild, by simpa using htx⟩

/-- A claim of a distribution carries as much weight as the operator has receipts in the batch. -/
theorem weight_of_claim {tx : BuiltTransaction} {pool : Bytes 32}
    {receipts : List StorageReceipt} (hpays : Pays tx pool receipts) {claim : ClaimPayout}
    (hclaim : claim ∈ submittedClaims tx) :
    claim.operatorWeight.toNat =
      receipts.countP fun r => r.storageNode = claim.operatorPubkey := by
  rcases List.mem_map.1 hclaim with ⟨⟨operator, weight⟩, hentry, rfl⟩
  rw [← hpays.2]
  simp [weightIn, SortedMap.mem_entries.1 hentry, loopClaim]

/-- Claims whose weights fit in the total are paid their shares, fee included. -/
theorem exists_shares (poolBalance : UInt64) {totalWeight feeBps : UInt64}
    (hfee : feeBps ≤ maxProtocolFeeBps) {claims : List ClaimPayout}
    (hle : ∀ claim ∈ claims, claim.operatorWeight.toNat ≤ totalWeight.toNat) :
    ∃ payouts,
      claims.mapM (fun claim =>
        calculateProportionalPayout poolBalance claim.operatorWeight totalWeight feeBps) =
          .ok payouts ∧
      payouts.map withdrawn = claims.map fun claim =>
        ProRata.share poolBalance.toNat totalWeight.toNat claim.operatorWeight.toNat := by
  have hone : ∀ claim : ClaimPayout, claim.operatorWeight.toNat ≤ totalWeight.toNat →
      ∃ payout,
        calculateProportionalPayout poolBalance claim.operatorWeight totalWeight feeBps =
          .ok payout ∧
        withdrawn payout =
          ProRata.share poolBalance.toNat totalWeight.toNat claim.operatorWeight.toNat := by
    intro claim hclaim
    rcases calculateProportionalPayout_eq_ok poolBalance hfee hclaim with
      ⟨fee, payout, hrun, hshare⟩
    exact ⟨(fee, payout), hrun, hshare⟩
  choose! pay hpay using hone
  refine ⟨claims.map pay, Outcome.mapM_eq_ok fun claim hclaim =>
    (hpay claim (hle claim hclaim)).1, ?_⟩
  rw [List.map_map]
  exact List.map_congr_left fun claim hclaim => (hpay claim (hle claim hclaim)).2

/-- In every run, for every distribution that was posted: the claims are one for each operator of
the batch and lie under the root that was posted; and at any balance of the pool and any legal fee
each is paid, fee included, its operator's part of the receipts of the batch, rounded down.  All
payouts together fit in the balance and leave less than one unit for each operator. -/
theorem posted_distributions_solvent {x : Packages} {submitClaims : Bool}
    {allowed : ClaimingState D → ClaimingEvent → Prop} {s : ClaimingState D}
    (hrun : Run (ClaimingStarted x) (ClaimingNext x submitClaims) allowed s) {pool : Bytes 32}
    {receipts : List StorageReceipt} {tx : BuiltTransaction}
    (hposted : ((pool, receipts), Fate.posted tx) ∈ s.loop.log.settled) :
    ∃ payload : PostDistribution,
      tx.instructionData = postDistribution x.serializeDistribution payload ∧
      payload.poolPubkey = pool ∧
      computeMerkleRoot x.sha256 ((submittedClaims tx).map fun claim =>
        leafHash x.sha256 (claim.operatorPubkey, claim.operatorWeight)) =
          .ok payload.distributionRoot ∧
      ((submittedClaims tx).map ClaimPayout.operatorPubkey).Nodup ∧
      ((submittedClaims tx).map ClaimPayout.operatorPubkey).toFinset = operators receipts ∧
      ∀ poolBalance feeBps : UInt64, feeBps ≤ maxProtocolFeeBps →
        ∃ payouts,
          (submittedClaims tx).mapM (fun claim =>
            calculateProportionalPayout poolBalance claim.operatorWeight payload.totalWeight
              feeBps) = .ok payouts ∧
          payouts.map withdrawn = (submittedClaims tx).map (fun claim =>
            ProRata.share poolBalance.toNat receipts.length
              (receipts.countP fun r => r.storageNode = claim.operatorPubkey)) ∧
          (payouts.map withdrawn).sum ≤ poolBalance.toNat ∧
          poolBalance.toNat < (payouts.map withdrawn).sum + (operators receipts).card := by
  have htallied := (told_of_run hrun).tallied
  have hbuilt := htallied.settled _ hposted
  have htaken : (pool, receipts) ∈ s.loop.log.taken := by
    rw [htallied.taken]
    exact List.mem_append_left _ (List.mem_map.2 ⟨_, hposted, rfl⟩)
  have hpays := pays_of_buildDistribution hbuilt
  rcases exists_batch hbuilt with ⟨batch, hbuild, rfl⟩
  rcases build_cases hbuild with ⟨hweights, hpool, htotal, out, ⟨hroot, -, -, -⟩, -, hproof⟩
  have hadds := foldlM_addWeight_adds hweights
  have hlen : batch.totalWeight.toNat = receipts.length := by
    rw [← htotal, Adds.totalIn_eq hadds]
  -- the claims are the entries of the weight map
  have hoperators : (submittedClaims (buildPostDistribution x batch)).map
      ClaimPayout.operatorPubkey = batch.weights.keys := by
    rw [submittedClaims, List.map_map]
    rfl
  have hvalues : ((submittedClaims (buildPostDistribution x batch)).map fun claim =>
      claim.operatorWeight.toNat).sum = receipts.length := by
    rw [← hlen, ← htotal, totalIn, submittedClaims, List.map_map, SortedMap.values, List.map_map]
    rfl
  have hcount : (submittedClaims (buildPostDistribution x batch)).length =
      (operators receipts).card := by
    rw [submittedClaims, List.length_map]
    exact Adds.length_entries hadds
  refine ⟨_, rfl, hpool, ?_, ?_, ?_, ?_⟩
  · rw [hproof, distributionRoot_mockProof, ← hroot, submittedClaims, List.map_map]
    rfl
  · rw [hoperators]
    exact batch.weights.nodup_keys
  · rw [hoperators]
    ext op
    rw [List.mem_toFinset, hadds.keys]
    simp [operators, SortedMap.keys, ContributionReceipt.operator]
  · intro poolBalance feeBps hfee
    have hle : ∀ claim ∈ submittedClaims (buildPostDistribution x batch),
        claim.operatorWeight.toNat ≤ batch.totalWeight.toNat := by
      intro claim hclaim
      rw [hlen, ← hvalues]
      exact List.single_le_sum (fun _ _ => Nat.zero_le _) _ (List.mem_map_of_mem hclaim)
    have hpos : 0 < receipts.length := List.length_pos_iff.2 (htallied.batches _ htaken).1
    rcases exists_shares poolBalance hfee hle with ⟨payouts, hpaid, hshares⟩
    have hsum : (payouts.map withdrawn).sum = ProRata.paid poolBalance.toNat receipts.length
        ((submittedClaims (buildPostDistribution x batch)).map fun claim =>
          claim.operatorWeight.toNat) := by
      rw [hshares, hlen, ProRata.paid, List.map_map]
      rfl
    refine ⟨payouts, hpaid, ?_, ?_, ?_⟩
    · rw [hshares, hlen]
      exact List.map_congr_left fun claim hclaim => by rw [weight_of_claim hpays hclaim]
    · rw [hsum]
      exact ProRata.paid_le _ hpos hvalues.le
    · have hrest := ProRata.lt_paid_add_length poolBalance.toNat hpos hvalues
      rw [List.length_map, hcount] at hrest
      rw [hsum]
      exact hrest

end Runs

/-! ## The late receipt, claimed -/

def lateClaim : ClaimPayout :=
  { poolPubkey := somePool
    operatorPubkey := nodeOne
    operatorWeight := 1
    merkleProof := []
    leafIndex := 0 }

/-- The distribution was accepted, and the claim of its one operator refused. -/
def lateClaimed : ClaimingState FileTree :=
  { loop := shortSubmitting.settle [] (.posted lateTransaction)
    pending := []
    calls := [.submit lateTransaction, .submitClaim lateClaim] }

theorem run_lateClaimed :
    Run (ClaimingStarted receiptPackages) (ClaimingNext receiptPackages true) (fun _ _ => True)
      lateClaimed := by
  have hloop : Run (LoopStarted receiptPackages) (LoopNext receiptPackages)
      (fun _ e => e.submits = false) shortSubmitting :=
    run_shortSubmitting (fun _ => ⟨rfl, rfl, rfl⟩) (fun _ _ => rfl) (fun _ _ => rfl) rfl rfl
  let answer : SubmitResult := { signature := "5b", confirmed := true }
  have hsubmitted := (run_claiming true hloop).step
    (e := ClaimingEvent.loop (.submit (.ok answer))) trivial
    (ClaimingNext.submitted answer rfl rfl)
  exact hsubmitted.step (e := ClaimingEvent.claim (.error .emptyBatch)) trivial
    (ClaimingNext.claim (.error .emptyBatch) rfl)

theorem claims_follow_distributions_late :
    ∃ pool receipts tx claims more rest,
      ((pool, receipts), Fate.posted tx) ∈ lateClaimed.loop.log.settled ∧
      Pays tx pool receipts ∧ submittedClaims tx = claims ++ lateClaim :: more ∧
      [SubmitterCall.submit lateTransaction] =
        rest ++ .submit tx :: claims.map .submitClaim :=
  (claims_follow_distributions run_lateClaimed).2.2 [.submit lateTransaction] lateClaim [] rfl

theorem posted_distributions_solvent_late :
    ∃ payload : PostDistribution,
      lateTransaction.instructionData = postDistribution PostDistribution.bincode payload ∧
      ∃ payouts,
        [lateClaim].mapM (fun claim =>
          calculateProportionalPayout 100 claim.operatorWeight payload.totalWeight 500) =
            .ok payouts ∧
        (payouts.map withdrawn).sum ≤ UInt64.toNat 100 := by
  have hposted : ((somePool, [lateReceipt]), Fate.posted lateTransaction) ∈
      lateClaimed.loop.log.settled := List.mem_singleton_self _
  rcases posted_distributions_solvent run_lateClaimed hposted with
    ⟨payload, hdata, -, -, -, -, hpaid⟩
  rcases hpaid 100 500 (by decide) with ⟨payouts, hrun, -, hle, -⟩
  exact ⟨payload, hdata, payouts, hrun, hle⟩

end Aggregator
end CraftecCore
