import GradidoBlockchain.Chain.Confirmed
import GradidoBlockchain.Lib.Locality
import Mathlib.Data.Finset.Option

/-!
# Communities that do not meet

A call on the blockchain of one community reads that blockchain and, when its
body names another community, the blockchain of the other one; it changes only
its own.  So the calls are the events of a system of parties (`local_perform`):
communities that only name each other do not notice the calls on the rest, and
calls of communities that do not meet may come in any order.
-/

namespace Gradido

open Checked ConfirmTransaction

/-! ### What the checks read -/

/-- Two providers with the same blockchains for the communities of a set. -/
def Agree (names : Finset ℕ) (p p' : InMemoryProvider) : Prop :=
  ∀ i ∈ names, p.findBlockchain i = p'.findBlockchain i

/-- The communities that a call with a body on the blockchain of a community looks at. -/
def communitiesOf (community : ℕ) (body : TransactionBody) : Finset ℕ :=
  insert community body.otherCommunityIdIndex.toFinset

theorem mem_communitiesOf_self (community : ℕ) (body : TransactionBody) :
    community ∈ communitiesOf community body :=
  Finset.mem_insert_self _ _

theorem mem_communitiesOf_other (community : ℕ) {body : TransactionBody} {other : ℕ}
    (h : body.otherCommunityIdIndex = some other) : other ∈ communitiesOf community body := by
  rw [communitiesOf, h]
  exact Finset.mem_insert_of_mem (Finset.mem_singleton_self other)

theorem communitiesOf_eventRole (community : ℕ) (event : TransactionTriggerEvent) :
    communitiesOf community (eventRole community event).mBody = {community} := by
  rfl

namespace Validate

variable {p p' : InMemoryProvider}

/-- The cross group preparations look at the other community only. -/
theorem prepareContext_congr {tx : GradidoTransaction}
    (h : ∀ other, tx.body.otherCommunityIdIndex = some other →
      p.findBlockchain other = p'.findBlockchain other) (c : ContextData) :
    prepareContext p tx c = prepareContext p' tx c := by
  unfold prepareContext
  cases hother : tx.body.otherCommunityIdIndex with
  | none => rfl
  | some other =>
    dsimp only
    rw [h other hother]

theorem gradidoTransactionRole_congr {env : Env} {tx : GradidoTransaction}
    (h : ∀ other, tx.body.otherCommunityIdIndex = some other →
      p.findBlockchain other = p'.findBlockchain other) (disableVerify : Bool)
    (type : ValidationType) (c : ContextData) :
    gradidoTransactionRole env p disableVerify type c tx =
      gradidoTransactionRole env p' disableVerify type c tx := by
  unfold gradidoTransactionRole
  rw [prepareContext_congr h]

theorem confirmedTransactionRole_congr {env : Env} {tx : ConfirmedTransaction}
    (h : ∀ other, tx.body.otherCommunityIdIndex = some other →
      p.findBlockchain other = p'.findBlockchain other) (disableVerify : Bool)
    (type : ValidationType) (c : ContextData) :
    confirmedTransactionRole env p disableVerify type c tx =
      confirmedTransactionRole env p' disableVerify type c tx := by
  unfold confirmedTransactionRole
  simp only [gradidoTransactionRole_congr h]

end Validate

namespace ConfirmTransaction

variable {env : Env} {community : ℕ} {role : Role} {p p' : InMemoryProvider}

theorem validateSingle_congr (h : Agree (communitiesOf community role.mBody) p p')
    (disableVerify : Bool) :
    validateSingle env p community disableVerify role =
      validateSingle env p' community disableVerify role := by
  unfold validateSingle
  rw [h community (mem_communitiesOf_self _ _)]
  dsimp only
  rw [Validate.gradidoTransactionRole_congr
    (fun other hother => h other (mem_communitiesOf_other community hother))]

theorem confirm_congr (h : Agree (communitiesOf community role.mBody) p p') :
    confirm env p community role = confirm env p' community role := by
  unfold confirm
  rw [h community (mem_communitiesOf_self _ _)]
  refine bind_congr_ok (fun _ _ => bind_congr_ok (fun tx hbuilt => ?_))
  have hbody : tx.body = role.mBody := by
    rw [ConfirmedTransaction.body, (createConfirmedTransaction_spec hbuilt).2.1]
    rfl
  rw [Validate.confirmedTransactionRole_congr (fun other hother =>
    h other (mem_communitiesOf_other community (hbody ▸ hother)))]

/-! ### What a call changes -/

/-- The trigger events of a community change only its blockchain. -/
theorem Triggered.frame {q : InMemoryProvider} (h : Triggered env community p q) {i : ℕ}
    (hi : i ≠ community) : q.findBlockchain i = p.findBlockchain i := by
  induction h with
  | refl => rfl
  | drop _ _ ih => rw [findBlockchain_dropEvent_of_ne _ _ hi, ih]
  | fire _ _ _ _ ih ihnested =>
    rw [findBlockchain_added_of_ne _ _ _ hi, ihnested, findBlockchain_dropEvent_of_ne _ _ hi, ih]

/-- A call changes only the blockchain of its community. -/
theorem createAndAdd_frame (depth : ℕ) (disableVerify : Bool) {i : ℕ} (hi : i ≠ community) :
    (createAndAdd env depth disableVerify p community role).1.findBlockchain i =
      p.findBlockchain i := by
  obtain ⟨q, hq, heq | ⟨tx, -, heq⟩⟩ :=
    createAndAdd_cases env depth disableVerify p community role
  · rw [heq, hq.frame hi]
  · rw [heq, findBlockchain_added_of_ne _ _ _ hi, hq.frame hi]

/-! ### What a call depends on -/

/-- Two states after a call agree on the named communities when they agree on the community of the
call. -/
theorem Agree.of_own {names : Finset ℕ} {q q' : InMemoryProvider} (community : ℕ)
    (h : Agree names p p')
    (hq : ∀ i, i ≠ community → q.findBlockchain i = p.findBlockchain i)
    (hq' : ∀ i, i ≠ community → q'.findBlockchain i = p'.findBlockchain i)
    (hown : q.findBlockchain community = q'.findBlockchain community) : Agree names q q' := by
  intro i hi
  by_cases hc : i = community
  · rw [hc, hown]
  · rw [hq i hc, hq' i hc, h i hi]

/-- **What a call depends on.**  In two states with the same blockchains for the communities that
the call looks at, it leaves the same blockchain and gives the same answer. -/
theorem createAndAdd_congr (depth : ℕ) (disableVerify : Bool)
    (h : Agree (communitiesOf community role.mBody) p p') :
    (createAndAdd env depth disableVerify p community role).1.findBlockchain community =
        (createAndAdd env depth disableVerify p' community role).1.findBlockchain community ∧
      (createAndAdd env depth disableVerify p community role).2 =
        (createAndAdd env depth disableVerify p' community role).2 := by
  induction depth generalizing disableVerify p p' role with
  | zero => exact ⟨h community (mem_communitiesOf_self _ _), rfl⟩
  | succ depth ih =>
    have hself := h community (mem_communitiesOf_self _ _)
    -- one round of the loop: the call for an event looks at its own community only
    have hround : ∀ q q', Agree (communitiesOf community role.mBody) q q' →
        Option.Rel (Agree (communitiesOf community role.mBody))
          (processTransactionTrigger (createAndAdd env depth false) community role.mConfirmedAt q)
          (processTransactionTrigger (createAndAdd env depth false) community role.mConfirmedAt
            q') := by
      intro q q' hq
      unfold processTransactionTrigger
      rw [hq community (mem_communitiesOf_self _ _)]
      cases nextEvent (q'.findBlockchain community) role.mConfirmedAt with
      | none => exact .none
      | some event =>
        refine .some (Agree.of_own community hq ?_ ?_ ?_)
        · intro i hi
          rw [createAndAdd_frame depth false hi, InMemoryProvider.findBlockchain_set_of_ne _ _ hi]
        · intro i hi
          rw [createAndAdd_frame depth false hi, InMemoryProvider.findBlockchain_set_of_ne _ _ hi]
        · refine (ih false ?_).1
          intro i hi
          obtain rfl : i = community := by
            rwa [communitiesOf_eventRole, Finset.mem_singleton] at hi
          simp
    have hloop := iterateWhile_rel hround
      (p'.findBlockchain community).mTransactionTriggerEvents.length h
    unfold createAndAdd
    rw [validateSingle_congr h, hself]
    cases createRole role.mBody with
    | error e => exact ⟨hself, rfl⟩
    | ok _ =>
      cases validateSingle env p' community disableVerify role with
      | error e => exact ⟨hself, rfl⟩
      | ok _ =>
        dsimp only
        rw [confirm_congr hloop]
        cases confirm env _ community role with
        | error e => exact ⟨hloop community (mem_communitiesOf_self _ _), rfl⟩
        | ok tx =>
          dsimp only
          rw [hloop community (mem_communitiesOf_self _ _)]
          simp

end ConfirmTransaction

/-! ### The calls as events -/

namespace AddCall

/-- The community of the call. -/
def community : AddCall → ℕ
  | .node call => call.community
  | .given _ community _ _ _ => community

/-- The role that is created for the call. -/
def role : AddCall → Role
  | .node call => call.role
  | .given _ _ gradidoTransaction ledgerAnchor accountBalances =>
    { mGradidoTransaction := gradidoTransaction
      mLedgerAnchor := ledgerAnchor
      mConfirmedAt := gradidoTransaction.body.createdAt
      mAccountBalances := some accountBalances }

/-- Whether the signatures are not verified. -/
def disableVerify : AddCall → Bool
  | .node _ => false
  | .given disableVerify _ _ _ _ => disableVerify

/-- The communities that the call looks at: its own and the one that its body names. -/
def names (c : AddCall) : Finset ℕ := communitiesOf c.community c.role.mBody

/-- The blockchains after the call, and whether it threw. -/
def perform (env : Env) (p : InMemoryProvider) : AddCall → InMemoryProvider × Except Exception Unit
  | .node call =>
    InMemory.createAndAddConfirmedTransaction env p call.community call.gradidoTransaction
      call.ledgerAnchor call.confirmedAt
  | .given disableVerify community gradidoTransaction ledgerAnchor accountBalances =>
    InMemory.createAndAddConfirmedTransactionExtern env disableVerify p community
      gradidoTransaction ledgerAnchor accountBalances

theorem perform_fst (env : Env) (p : InMemoryProvider) (c : AddCall) :
    (c.perform env p).1 = c.exec env p := by
  cases c <;> rfl

theorem perform_eq (env : Env) (p : InMemoryProvider) (c : AddCall) :
    c.perform env p =
      createAndAdd env (depthBound p c.community) c.disableVerify p c.community c.role := by
  cases c <;> rfl

theorem perform_frame (env : Env) (p : InMemoryProvider) (c : AddCall) {i : ℕ}
    (hi : i ≠ c.community) : (c.perform env p).1.findBlockchain i = p.findBlockchain i := by
  rw [perform_eq]
  exact createAndAdd_frame _ _ hi

theorem perform_congr (env : Env) {p p' : InMemoryProvider} (c : AddCall)
    (h : Agree c.names p p') :
    (c.perform env p).1.findBlockchain c.community =
        (c.perform env p').1.findBlockchain c.community ∧
      (c.perform env p).2 = (c.perform env p').2 := by
  have hdepth : depthBound p c.community = depthBound p' c.community := by
    rw [depthBound, depthBound, h c.community (mem_communitiesOf_self _ _)]
  rw [perform_eq, perform_eq, hdepth]
  exact createAndAdd_congr _ _ h

end AddCall

/-- A call as an event of the system of all communities. -/
def performStep (env : Env) (blockchains : ℕ → InMemory) (c : AddCall) :
    (ℕ → InMemory) × Except Exception Unit :=
  ((c.perform env ⟨blockchains⟩).1.blockchains, (c.perform env ⟨blockchains⟩).2)

/-- **The communities are the parties of a system**: a call changes only the blockchain of its
community, and depends only on the communities that it looks at. -/
theorem local_perform (env : Env) :
    Locality.Local (performStep env) AddCall.community AddCall.names where
  owner_mem := fun _ => mem_communitiesOf_self _ _
  frame := fun _ c _ hi => c.perform_frame env _ hi
  part := fun _ _ c hagree => (c.perform_congr env hagree).1
  answer := fun _ _ c hagree => (c.perform_congr env hagree).2

/-! ### Runs -/

/-- The calls of a run from a state on, each with its answer. -/
def answersFrom (env : Env) : InMemoryProvider → List AddCall →
    List (AddCall × Except Exception Unit)
  | _, [] => []
  | p, c :: calls => (c, (c.perform env p).2) :: answersFrom env (c.exec env p) calls

/-- The calls of a run, each with its answer. -/
def answers (env : Env) (calls : List AddCall) : List (AddCall × Except Exception Unit) :=
  answersFrom env .empty calls

theorem performed_performStep (env : Env) (p : InMemoryProvider) (calls : List AddCall) :
    Locality.performed (performStep env) p.blockchains calls =
      ((calls.foldl (AddCall.exec env) p).blockchains, answersFrom env p calls) := by
  induction calls generalizing p with
  | nil => rfl
  | cons c calls ih =>
    have hstep : (performStep env p.blockchains c).1 = (c.exec env p).blockchains := by
      rw [← AddCall.perform_fst]
      rfl
    simp only [Locality.performed, hstep, ih]
    rfl

/-- **Interleavings.**  Two orders of calls in which every community meets the same calls in the
same order lead to the same blockchains, and every call gets the same answer. -/
theorem runAdd_interleaving (env : Env) {calls calls' : List AddCall}
    (hview : ∀ i, calls.filter (fun c => decide (i ∈ c.names)) =
      calls'.filter (fun c => decide (i ∈ c.names))) :
    runAdd env calls = runAdd env calls' ∧
      ∀ i, (answers env calls).filter (fun a => decide (i ∈ a.1.names)) =
        (answers env calls').filter (fun a => decide (i ∈ a.1.names)) := by
  have h := (local_perform env).performed_of_filter_eq InMemoryProvider.empty.blockchains hview
  rw [performed_performStep, performed_performStep] at h
  exact ⟨congrArg InMemoryProvider.mk h.1, h.2⟩

/-! ### Concrete runs -/

namespace Sample

/-- The community root of community two. -/
def otherRoot : AddCall :=
  .node
    { community := 2
      gradidoTransaction :=
        { transaction 0 (signedByKey 4) [] (.communityRoot ⟨4, 5, 6⟩) with communityIdIndex := 2 }
      ledgerAnchor := .legacyGradidoDb .transaction 1
      confirmedAt := ⟨midnight + 43200, 0⟩ }

/-- The calls of `setup`, all on community one. -/
def setupCalls : List AddCall := setup.map .node

/-- The root of community two before or after the calls on community one. -/
theorem runAdd_interleaving_sample :
    runAdd env (otherRoot :: setupCalls) = runAdd env (setupCalls ++ [otherRoot]) := by
  refine (runAdd_interleaving env ?_).1
  intro i
  by_cases h : i = 1
  · subst h
    rfl
  · have hnone : setupCalls.filter (fun c => decide (i ∈ c.names)) = [] := by
      refine List.filter_eq_nil_iff.2 (fun c hc => ?_)
      have hnames : ∀ c ∈ setupCalls, c.names = {1} := by decide
      simpa [hnames c hc] using h
    rw [List.filter_append, hnone, List.nil_append, List.filter_cons, List.filter_cons, hnone,
      List.filter_nil]

end Sample

end Gradido
