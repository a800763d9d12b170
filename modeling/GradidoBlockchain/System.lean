import GradidoBlockchain.Interaction.ConfirmTransaction

/-!
# Runs

A run is a list of calls to the blockchains of any number of communities, from
the empty blockchains on.  A call that throws is part of the run as well: the
trigger events that it processed before stay processed.

What a call does to the blockchains is said once, in `createAndAdd_cases`: it
lets some trigger events take place (`Triggered`) and then adds at most one
transaction, which `Context::run` has confirmed (`Confirms`).  Every invariant
is proved from that by `Reachable.invariant`.
-/

namespace Gradido

open Checked

namespace ConfirmTransaction

/-! ### What a call does -/

/-- `removeTransactionTriggerEvent` on the blockchain of a community. -/
def dropEvent (p : InMemoryProvider) (community : ℕ) (event : TransactionTriggerEvent) :
    InMemoryProvider :=
  p.set community ((p.findBlockchain community).removeTransactionTriggerEvent event)

/-- The provider after a confirmed transaction was added to the blockchain of a community. -/
def added (env : Env) (p : InMemoryProvider) (community : ℕ) (tx : ConfirmedTransaction) :
    InMemoryProvider :=
  p.set community (addToBlockchain env (p.findBlockchain community) tx).1

/-- `Context::run` returned `tx`: the checks before the trigger events passed in `p` and the rest
in `q`. -/
structure Confirms (env : Env) (community : ℕ) (role : Role) (p q : InMemoryProvider)
    (tx : ConfirmedTransaction) : Prop where
  createRole : createRole role.mBody = .ok ()
  single : ∃ disableVerify, validateSingle env p community disableVerify role = .ok ()
  confirm : confirm env q community role = .ok tx

/-- Trigger events of a community took place between two states: an event was removed, and the
transaction that it creates was added or not. -/
inductive Triggered (env : Env) (community : ℕ) : InMemoryProvider → InMemoryProvider → Prop
  | refl (p : InMemoryProvider) : Triggered env community p p
  | drop {p q : InMemoryProvider} {endDate : Timestamp} {event : TransactionTriggerEvent} :
      Triggered env community p q →
      nextEvent (q.findBlockchain community) endDate = some event →
      Triggered env community p (dropEvent q community event)
  | fire {p q r : InMemoryProvider} {endDate : Timestamp} {event : TransactionTriggerEvent}
      {tx : ConfirmedTransaction} :
      Triggered env community p q →
      nextEvent (q.findBlockchain community) endDate = some event →
      Triggered env community (dropEvent q community event) r →
      Confirms env community (eventRole community event) (dropEvent q community event) r tx →
      Triggered env community p (added env r community tx)

theorem Triggered.trans {env : Env} {community : ℕ} {p q r : InMemoryProvider}
    (hpq : Triggered env community p q) (hqr : Triggered env community q r) :
    Triggered env community p r := by
  induction hqr with
  | refl => exact hpq
  | drop _ hevent ih => exact .drop (ih hpq) hevent
  | fire _ hevent hnested htx ih _ => exact .fire (ih hpq) hevent hnested htx

/-- **What a call does.**  Whatever the depth, it lets trigger events take place and then throws, or
adds the transaction. -/
theorem createAndAdd_eq (env : Env) (depth : ℕ) (disableVerify : Bool) (p : InMemoryProvider)
    (community : ℕ) (role : Role) :
    ∃ q, Triggered env community p q ∧
      ((∃ e, createAndAdd env depth disableVerify p community role = (q, .error e)) ∨
        ∃ tx, Confirms env community role p q tx ∧
          createAndAdd env depth disableVerify p community role =
            (added env q community tx,
              (addToBlockchain env (q.findBlockchain community) tx).2)) := by
  induction depth generalizing disableVerify p role with
  | zero => exact ⟨p, .refl p, .inl ⟨_, rfl⟩⟩
  | succ depth ih =>
    have hround : ∀ q q', Triggered env community p q →
        processTransactionTrigger (createAndAdd env depth false) community role.mConfirmedAt q =
          some q' → Triggered env community p q' := by
      intro q q' hq h
      obtain ⟨event, hevent, rfl⟩ := Option.map_eq_some_iff.1 h
      obtain ⟨r, hr, ⟨e, heq⟩ | ⟨tx, htx, heq⟩⟩ :=
        ih false (dropEvent q community event) (eventRole community event)
      · refine (Triggered.drop hq hevent).trans ?_
        exact congrArg Prod.fst heq ▸ hr
      · exact congrArg Prod.fst heq ▸ Triggered.fire hq hevent hr htx
    unfold createAndAdd
    cases hrole : createRole role.mBody with
    | error e => exact ⟨p, .refl p, .inl ⟨e, rfl⟩⟩
    | ok _ =>
      cases hsingle : validateSingle env p community disableVerify role with
      | error e => exact ⟨p, .refl p, .inl ⟨e, rfl⟩⟩
      | ok _ =>
        refine ⟨_, iterateWhile_induction (Triggered env community p) hround
          (p.findBlockchain community).mTransactionTriggerEvents.length (.refl p), ?_⟩
        dsimp only
        cases hconfirm : confirm env _ community role with
        | error e => exact .inl ⟨e, rfl⟩
        | ok tx => exact .inr ⟨tx, ⟨hrole, ⟨disableVerify, hsingle⟩, hconfirm⟩, rfl⟩

/-- What a call does to the blockchains. -/
theorem createAndAdd_cases (env : Env) (depth : ℕ) (disableVerify : Bool) (p : InMemoryProvider)
    (community : ℕ) (role : Role) :
    ∃ q, Triggered env community p q ∧
      ((createAndAdd env depth disableVerify p community role).1 = q ∨
        ∃ tx, Confirms env community role p q tx ∧
          (createAndAdd env depth disableVerify p community role).1 =
            added env q community tx) := by
  obtain ⟨q, hq, ⟨e, heq⟩ | ⟨tx, htx, heq⟩⟩ :=
    createAndAdd_eq env depth disableVerify p community role
  · exact ⟨q, hq, .inl (by rw [heq])⟩
  · exact ⟨q, hq, .inr ⟨tx, htx, by rw [heq]⟩⟩

/-! ### Invariants of runs -/

/-- The states that calls with the given roles can lead to. -/
inductive Reachable (env : Env) (direct : ℕ → Role → Prop) : InMemoryProvider → Prop
  | empty : Reachable env direct .empty
  | failed {p q : InMemoryProvider} {community : ℕ} :
      Reachable env direct p → Triggered env community p q → Reachable env direct q
  | confirmed {p q : InMemoryProvider} {community : ℕ} {role : Role} {tx : ConfirmedTransaction} :
      Reachable env direct p → direct community role → Triggered env community p q →
      Confirms env community role p q tx → Reachable env direct (added env q community tx)

/-- Where a role comes from: from a call, or from a trigger event that was just removed from a
state with the invariant `P`. -/
inductive Origin (direct : ℕ → Role → Prop) (P : InMemoryProvider → Prop) (community : ℕ) :
    InMemoryProvider → Role → Prop
  | call {p : InMemoryProvider} {role : Role} :
      direct community role → Origin direct P community p role
  | event {p : InMemoryProvider} {endDate : Timestamp} {event : TransactionTriggerEvent} :
      P p → nextEvent (p.findBlockchain community) endDate = some event →
      Origin direct P community (dropEvent p community event) (eventRole community event)

section Invariant

variable {env : Env} {direct : ℕ → Role → Prop} {P : InMemoryProvider → Prop}

/-- The trigger events of a community keep an invariant. -/
theorem Triggered.invariant
    (hdrop : ∀ community endDate event p, P p →
      nextEvent (p.findBlockchain community) endDate = some event →
      P (dropEvent p community event))
    (hadd : ∀ community role p q tx, P p → P q → Triggered env community p q →
      Confirms env community role p q tx → Origin direct P community p role →
      P (added env q community tx))
    {community : ℕ} {p q : InMemoryProvider} (h : Triggered env community p q) (hp : P p) :
    P q := by
  induction h with
  | refl => exact hp
  | drop _ hevent ih => exact hdrop _ _ _ _ (ih hp) hevent
  | fire _ hevent hnested htx ih ihnested =>
    have hdropped := hdrop _ _ _ _ (ih hp) hevent
    exact hadd _ _ _ _ _ hdropped (ihnested hdropped) hnested htx (.event (ih hp) hevent)

/-- **Invariant rule.**  What the removal of an event and the addition of a confirmed transaction
preserve holds in every reachable state. -/
theorem Reachable.invariant
    (hempty : P .empty)
    (hdrop : ∀ community endDate event p, P p →
      nextEvent (p.findBlockchain community) endDate = some event →
      P (dropEvent p community event))
    (hadd : ∀ community role p q tx, P p → P q → Triggered env community p q →
      Confirms env community role p q tx → Origin direct P community p role →
      P (added env q community tx))
    {p : InMemoryProvider} (h : Reachable env direct p) : P p := by
  induction h with
  | empty => exact hempty
  | failed _ htriggered ih => exact htriggered.invariant hdrop hadd ih
  | confirmed _ hrole htriggered htx ih =>
    exact hadd _ _ _ _ _ ih (htriggered.invariant hdrop hadd ih) htriggered htx (.call hrole)

end Invariant

/-- A call leads from a reachable state to a reachable state. -/
theorem Reachable.createAndAdd {env : Env} {direct : ℕ → Role → Prop} {p : InMemoryProvider}
    (h : Reachable env direct p) {community : ℕ} {role : Role} (hrole : direct community role)
    (depth : ℕ) (disableVerify : Bool) :
    Reachable env direct (createAndAdd env depth disableVerify p community role).1 := by
  obtain ⟨q, hq, heq | ⟨tx, htx, heq⟩⟩ :=
    createAndAdd_cases env depth disableVerify p community role
  · rw [heq]
    exact .failed h hq
  · rw [heq]
    exact .confirmed h hrole hq htx

end ConfirmTransaction

/-! ### Runs of calls -/

open ConfirmTransaction

/-- A call of `createAndAddConfirmedTransaction` on the blockchain of a community. -/
structure Call where
  community : ℕ
  gradidoTransaction : GradidoTransaction
  ledgerAnchor : LedgerAnchor
  confirmedAt : Timestamp

namespace Call

/-- The role that is created for the call. -/
def role (c : Call) : Role where
  mGradidoTransaction := c.gradidoTransaction
  mLedgerAnchor := c.ledgerAnchor
  mConfirmedAt := c.confirmedAt

/-- The blockchains after the call. -/
def exec (env : Env) (p : InMemoryProvider) (c : Call) : InMemoryProvider :=
  (InMemory.createAndAddConfirmedTransaction env p c.community c.gradidoTransaction
    c.ledgerAnchor c.confirmedAt).1

end Call

/-- The blockchains after a run of calls. -/
def run (env : Env) (calls : List Call) : InMemoryProvider :=
  calls.foldl (Call.exec env) .empty

/-- The roles of a list of calls. -/
def CalledRole (calls : List Call) (community : ℕ) (role : Role) : Prop :=
  ∃ c ∈ calls, c.community = community ∧ c.role = role

theorem reachable_foldl {env : Env} {direct : ℕ → Role → Prop} (calls : List Call)
    (hcalls : ∀ c ∈ calls, direct c.community c.role) {p : InMemoryProvider}
    (hp : Reachable env direct p) : Reachable env direct (calls.foldl (Call.exec env) p) := by
  induction calls generalizing p with
  | nil => exact hp
  | cons c calls ih =>
    rw [List.foldl_cons]
    refine ih (fun c' hc' => hcalls c' (List.mem_cons_of_mem c hc')) ?_
    exact hp.createAndAdd (hcalls c List.mem_cons_self) _ _

/-- The blockchains after a run are reachable with the roles of its calls. -/
theorem reachable_run (env : Env) (calls : List Call) :
    Reachable env (CalledRole calls) (run env calls) :=
  reachable_foldl calls (fun c hc => ⟨c, hc, rfl, rfl⟩) .empty

/-! ### Runs with given balances -/

/-- A call of one of the three functions that add a transaction: the node computes the balances,
or they are given. -/
inductive AddCall
  | node (call : Call)
  | given (disableVerify : Bool) (community : ℕ) (gradidoTransaction : GradidoTransaction)
      (ledgerAnchor : LedgerAnchor) (accountBalances : List AccountBalance)

/-- The blockchains after the call. -/
def AddCall.exec (env : Env) (p : InMemoryProvider) : AddCall → InMemoryProvider
  | .node call => call.exec env p
  | .given disableVerify community gradidoTransaction ledgerAnchor accountBalances =>
    (InMemory.createAndAddConfirmedTransactionExtern env disableVerify p community
      gradidoTransaction ledgerAnchor accountBalances).1

/-- The blockchains after a run of such calls. -/
def runAdd (env : Env) (calls : List AddCall) : InMemoryProvider :=
  calls.foldl (AddCall.exec env) .empty

theorem reachable_runAdd (env : Env) (calls : List AddCall) :
    Reachable env (fun _ _ => True) (runAdd env calls) := by
  have hfold : ∀ p, Reachable env (fun _ _ => True) p →
      Reachable env (fun _ _ => True) (calls.foldl (AddCall.exec env) p) := by
    induction calls with
    | nil => exact fun p hp => hp
    | cons c calls ih =>
      intro p hp
      rw [List.foldl_cons]
      refine ih _ ?_
      cases c with
      | node call => exact hp.createAndAdd trivial _ _
      | given disableVerify community tx ledgerAnchor balances =>
        exact hp.createAndAdd trivial _ _
  exact hfold _ .empty

/-! ### Concrete calls -/

namespace Sample

/-- Other libraries for concrete runs: keys are their own numbers, every signature is valid, the
hash is constant and nothing decays. -/
def env : Env where
  dict :=
    { index := fun _ k => k
      key := fun _ k => k
      key_index := fun _ _ => rfl
      index_zero := fun _ => rfl }
  verify := fun _ _ _ _ => true
  shorthash := fun p => p.publicKey
  generichash := fun _ => List.replicate 32 0
  hieroTransactionIdToString := fun _ _ _ => ""
  decay := fun amount _ => amount
  durationSeconds := fun start stop => if start ≤ stop then some (stop - start).toNat else none

/-- Midnight of the first of January 2024. -/
def midnight : ℤ := 1704067200

/-- A signature map with one signature of each key. -/
def signedBy (keys : List ℕ) (h : keys.Nodup) : SignatureMap where
  signaturePairs := keys.map (fun k => ⟨k, 1⟩)
  nodup := by
    rw [List.map_map]
    simpa [Function.comp_def] using h

/-- A signature map with one signature. -/
def signedByKey (k : ℕ) : SignatureMap := signedBy [k] (List.nodup_singleton k)

/-- A memo of five characters. -/
def memo : EncryptedMemo := ⟨.plain, [104, 101, 108, 108, 111]⟩

/-- A local transaction of community one, created two minutes before noon plus `offset`
seconds. -/
def transaction (offset : ℤ) (signatureMap : SignatureMap) (memos : List EncryptedMemo)
    (specific : Specific) : GradidoTransaction where
  signatureMap := signatureMap
  body :=
    { memos := memos
      createdAt := ⟨midnight + 43200 - 120 + offset, 0⟩
      type := .localGroup
      otherCommunityIdIndex := none
      specific := specific }
  encoding := 0
  communityIdIndex := 1
  pairingLedgerAnchor := .unspecified

/-- A call on the blockchain of community one. -/
def call (id : ℕ) (offset : ℤ) (tx : GradidoTransaction) : Call where
  community := 1
  gradidoTransaction := tx
  ledgerAnchor := .legacyGradidoDb .transaction id
  confirmedAt := ⟨midnight + 43200 + offset, 0⟩

/-- The community root with key one, and accounts `11` and `21`. -/
def setup : List Call :=
  [call 1 0 (transaction 0 (signedByKey 1) [] (.communityRoot ⟨1, 2, 3⟩)),
    call 2 0 (transaction 0 (signedBy [1, 10, 11] (by decide)) []
      (.registerAddress ⟨.communityHuman, 1, 1, 10, 11⟩)),
    call 3 0 (transaction 0 (signedBy [1, 20, 21] (by decide)) []
      (.registerAddress ⟨.communityHuman, 1, 1, 20, 21⟩))]

/-- Transaction four: account `11` defers a hundred cents to address `30` for an hour.  The
tolerance of the balance check covers the whole amount. -/
def deferred : Call :=
  call 4 0 (transaction 0 (signedByKey 11) [memo]
    (.deferredTransfer ⟨⟨⟨11, 100, 1⟩, 30⟩, 3600⟩))

end Sample

end Gradido
