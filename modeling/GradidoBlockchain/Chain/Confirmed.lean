import GradidoBlockchain.Chain.Log

/-!
# Confirmed transactions

What is known about a transaction that `Context::run` returned.  `confirm_spec`
and `gradidoTransactionRole_spec` take the interactions apart once; the rest of
the development only uses the fields of `Built` and `Accepted`.
-/

namespace Gradido

open Checked ConfirmTransaction

namespace Validate

/-- What the cross group preparations do, by the type of the transaction. -/
theorem prepareContext_spec {p : InMemoryProvider} {tx : GradidoTransaction} {c₀ c : ContextData}
    (h : prepareContext p tx c₀ = .ok c) :
    (tx.body.otherCommunityIdIndex = none ∧ c = c₀) ∨
    ∃ other, tx.body.otherCommunityIdIndex = some other ∧
      c.pairingTx = findPairingTx (p.findBlockchain other) tx ∧
      c.recipientPrevious = c.recipientBlockchain.mLastTransaction ∧
      c.recipientBlockchain.mLastTransaction ≠ none ∧
      (tx.body.type = .inbound ∧ c.senderBlockchain = p.findBlockchain other ∧
          c.recipientBlockchain = c₀.senderBlockchain ∧
          c.senderPrevious = (c.pairingTx.bind (fun t =>
            (p.findBlockchain other).mTransactionsByNr t.id)).or c₀.senderPrevious ∨
        tx.body.type = .outbound ∧ c.senderBlockchain = c₀.senderBlockchain ∧
          c.recipientBlockchain = p.findBlockchain other ∧
          c.senderPrevious = c₀.senderPrevious ∨
        tx.body.type ≠ .inbound ∧ tx.body.type ≠ .outbound ∧
          c.senderBlockchain = c₀.senderBlockchain ∧
          c.recipientBlockchain = c₀.recipientBlockchain ∧
          c.senderPrevious = c₀.senderPrevious) := by
  unfold prepareContext at h
  split at h
  · next hother =>
    simp only [Except.ok.injEq] at h
    exact .inl ⟨hother, h.symm⟩
  · next other hother =>
    refine .inr ⟨other, hother, ?_⟩
    simp only [bind_eq_ok, orThrow_eq_ok, pure_eq_ok] at h
    obtain ⟨last, hlast, rfl⟩ := h
    cases htype : tx.body.type <;> simp_all

/-- A Gradido transaction passed `GradidoTransactionRole::run`, with the context `c` that the
cross group preparations left. -/
structure Accepted (env : Env) (p : InMemoryProvider) (type : ValidationType)
    (c₀ : ContextData) (tx : GradidoTransaction) (c : ContextData) : Prop where
  context : prepareContext p tx c₀ = .ok c
  body : type.single = true → validateBody tx.body = .ok ()
  specific : specificRole env type c tx.body = .ok ()
  signatures : checkSignatures env c.senderBlockchain tx = .ok ()
  pairing : type.paired = true → tx.body.otherCommunityIdIndex ≠ none →
    validatePairing env tx c = .ok ()

theorem gradidoTransactionRole_spec {env : Env} {p : InMemoryProvider} {disableVerify : Bool}
    {type : ValidationType} {c₀ : ContextData} {tx : GradidoTransaction}
    (h : gradidoTransactionRole env p disableVerify type c₀ tx = .ok ()) :
    ∃ c, Accepted env p type c₀ tx c := by
  simp only [gradidoTransactionRole, bind_eq_ok, exists_unit, when_eq_ok] at h
  obtain ⟨c, hc, hbody, hspecific, -, hsignatures, hpairing⟩ := h
  refine ⟨c, hc, hbody, hspecific, hsignatures, ?_⟩
  intro hpaired hother
  refine hpairing ?_
  simpa [hpaired, Option.isSome_iff_ne_none] using hother

end Validate

/-! ### Checked contents -/

/-- What the simple validation checks of a transfer. -/
structure TransferChecked (t : GradidoTransfer) : Prop where
  amount : 0 < t.sender.amount
  sender : t.sender.publicKey ≠ 0
  recipient : t.recipient ≠ 0
  ne : t.recipient ≠ t.sender.publicKey

namespace Validate

variable {env : Env} {c : ContextData} {body : TransactionBody}

theorem transferChecked_of_ok {type : ValidationType} {t : GradidoTransfer}
    {confirmedAt : Timestamp} (hsingle : type.single = true)
    (h : gradidoTransferRole env type c t confirmedAt = .ok ()) : TransferChecked t := by
  simp only [gradidoTransferRole, transferAmountRole, validateEd25519PublicKey, bind_eq_ok,
    exists_unit, when_eq_ok, throwIf_eq_ok, decide_eq_false_iff_not, hsingle, forall_const] at h
  obtain ⟨⟨hamount, hsender⟩, ⟨hrecipient, hne⟩, -⟩ := h
  exact ⟨by omega, hsender, hrecipient, hne⟩

variable (h : specificRole env { single := true } c body = .ok ())

include h

theorem transfer_checked {t : GradidoTransfer} (ht : body.specific = .transfer t) :
    TransferChecked t := by
  simp only [specificRole, ht] at h
  exact transferChecked_of_ok rfl h

theorem deferred_checked {d : GradidoDeferredTransfer}
    (hd : body.specific = .deferredTransfer d) : TransferChecked d.transfer := by
  simp only [specificRole, hd, gradidoDeferredTransferRole, bind_eq_ok, exists_unit] at h
  exact transferChecked_of_ok rfl h.2.2

theorem redeem_checked {r : GradidoRedeemDeferredTransfer}
    (hr : body.specific = .redeemDeferredTransfer r) : TransferChecked r.transfer := by
  simp only [specificRole, hr, gradidoRedeemDeferredTransferRole, bind_eq_ok, exists_unit] at h
  exact transferChecked_of_ok rfl h.2.2.2

theorem creation_checked {creation : GradidoCreation} (hc : body.specific = .creation creation) :
    0 < creation.recipient.amount ∧ creation.recipient.publicKey ≠ 0 := by
  simp only [specificRole, hc, gradidoCreationRole, transferAmountRole, validateEd25519PublicKey,
    bind_eq_ok, exists_unit, when_eq_ok, throwIf_eq_ok, decide_eq_false_iff_not, forall_const] at h
  obtain ⟨-, ⟨hamount, hkey⟩, -⟩ := h
  exact ⟨by omega, hkey⟩

end Validate

namespace ConfirmTransaction

/-- The number that the next transaction of a blockchain gets. -/
def nextTransactionNr (s : InMemory) : ℕ :=
  match s.mLastTransaction with
  | some last => last.id + 1
  | none => 1

/-- What `Context::run` guarantees of the transaction it returns. -/
structure Built (env : Env) (p : InMemoryProvider) (community : ℕ) (role : Role)
    (tx : ConfirmedTransaction) : Prop where
  order : ∀ last, (p.findBlockchain community).mLastTransaction = some last →
    tx.confirmedAt.lt last.confirmedAt = false
  id : tx.id = nextTransactionNr (p.findBlockchain community)
  gradidoTransaction : tx.gradidoTransaction = role.mGradidoTransaction
  confirmedAt : tx.confirmedAt = role.mConfirmedAt
  ledgerAnchor : tx.ledgerAnchor = role.mLedgerAnchor
  derivation : tx.balanceDerivationType = role.mBalanceDerivationType
  accountBalances : roleAccountBalances env (p.findBlockchain community) role =
    .ok tx.accountBalances
  involved : ∃ addresses, tx.getInvolvedAddressIndices env = .ok addresses
  runningHash : tx.runningHash =
    tx.calculateRunningHash env (p.findBlockchain community).mLastTransaction
  previous : (p.findBlockchain community).mLastTransaction ≠ none →
    Validate.confirmedPrevious env (p.findBlockchain community) tx = .ok ()
  accepted : ∃ c, Validate.Accepted env p
    (validationType role (p.findBlockchain community).mLastTransaction)
    (.ofSender (p.findBlockchain community) (p.findBlockchain community).mLastTransaction)
    tx.gradidoTransaction c

theorem Built.body_eq {env : Env} {p : InMemoryProvider} {community : ℕ} {role : Role}
    {tx : ConfirmedTransaction} (hb : Built env p community role tx) : role.mBody = tx.body := by
  rw [Role.mBody, ← hb.gradidoTransaction, ConfirmedTransaction.body]

/-- Balances that were not given were computed. -/
theorem Built.calculated {env : Env} {p : InMemoryProvider} {community : ℕ} {role : Role}
    {tx : ConfirmedTransaction} (hb : Built env p community role tx)
    (hnode : tx.balanceDerivationType ≠ .externComputed) :
    calculateAccountBalances env (p.findBlockchain community) tx.confirmedAt tx.body =
      .ok tx.accountBalances := by
  have hbalances := hb.accountBalances
  unfold roleAccountBalances at hbalances
  cases hgiven : role.mAccountBalances with
  | none =>
    rw [hgiven] at hbalances
    rw [← hb.body_eq, hb.confirmedAt]
    exact hbalances
  | some given =>
    refine absurd ?_ hnode
    rw [hb.derivation, Role.mBalanceDerivationType, hgiven]
    rfl

theorem createConfirmedTransaction_spec {env : Env} {s : InMemory} {role : Role} {id : ℕ}
    {last : Option ConfirmedTransaction} {tx : ConfirmedTransaction}
    (h : createConfirmedTransaction env s role id last = .ok tx) :
    tx.id = id ∧ tx.gradidoTransaction = role.mGradidoTransaction ∧
      tx.confirmedAt = role.mConfirmedAt ∧ tx.ledgerAnchor = role.mLedgerAnchor ∧
      tx.balanceDerivationType = role.mBalanceDerivationType ∧
      roleAccountBalances env s role = .ok tx.accountBalances ∧
      (∃ addresses, tx.getInvolvedAddressIndices env = .ok addresses) ∧
      tx.runningHash = tx.calculateRunningHash env last := by
  unfold createConfirmedTransaction at h
  simp only [bind_eq_ok, pure_eq_ok] at h
  obtain ⟨balances, hbalances, addresses, haddresses, rfl⟩ := h
  exact ⟨rfl, rfl, rfl, rfl, rfl, hbalances, ⟨addresses, haddresses⟩, rfl⟩

/-- **What a successful `Context::run` guarantees.** -/
theorem confirm_spec {env : Env} {p : InMemoryProvider} {community : ℕ} {role : Role}
    {tx : ConfirmedTransaction} (h : confirm env p community role = .ok tx) :
    Built env p community role tx := by
  simp only [confirm, bind_eq_ok, exists_unit, pure_eq_ok, throwIf_eq_ok] at h
  obtain ⟨horder, tx, hbuilt, hvalid, rfl⟩ := h
  obtain ⟨hid, hgtx, hconfirmedAt, hanchor, hderivation, hbalances, hinvolved, hhash⟩ :=
    createConfirmedTransaction_spec hbuilt
  have htype : (if tx.balanceDerivationType = .externComputed
      then { validationType role (p.findBlockchain community).mLastTransaction with
        previousBalance := false }
      else validationType role (p.findBlockchain community).mLastTransaction) =
      validationType role (p.findBlockchain community).mLastTransaction := by
    split_ifs with hextern
    · rw [hderivation, Role.mBalanceDerivationType] at hextern
      split_ifs at hextern with hgiven
      obtain ⟨balances, hbalances⟩ := Option.isSome_iff_exists.1 hgiven
      simp [validationType, hbalances]
    · rfl
  simp only [Validate.confirmedTransactionRole, bind_eq_ok, exists_unit, when_eq_ok] at hvalid
  obtain ⟨-, hprevious, haccepted⟩ := hvalid
  rw [htype] at haccepted
  exact {
    order := by
      intro last hlast
      rw [hconfirmedAt]
      simpa [hlast] using horder
    id := hid
    gradidoTransaction := hgtx
    confirmedAt := hconfirmedAt
    ledgerAnchor := hanchor
    derivation := hderivation
    accountBalances := hbalances
    involved := hinvolved
    runningHash := hhash
    previous := by
      intro hlast
      refine hprevious ?_
      simpa [validationType, Option.isSome_iff_ne_none] using hlast
    accepted := Validate.gradidoTransactionRole_spec haccepted }

/-- What the simple validation guarantees. -/
theorem Confirms.accepted_single {env : Env} {community : ℕ} {role : Role}
    {p q : InMemoryProvider} {tx : ConfirmedTransaction}
    (h : Confirms env community role p q tx) :
    ∃ c, Validate.Accepted env p { single := true }
      (.ofSender (p.findBlockchain community) (p.findBlockchain community).mLastTransaction)
      role.mGradidoTransaction c := by
  obtain ⟨disableVerify, hsingle⟩ := h.single
  simp only [validateSingle, bind_eq_ok, exists_unit] at hsingle
  exact Validate.gradidoTransactionRole_spec hsingle.1

/-- A transaction across communities names the other community. -/
theorem Confirms.otherCommunityIdIndex {env : Env} {community : ℕ} {role : Role}
    {p q : InMemoryProvider} {tx : ConfirmedTransaction}
    (h : Confirms env community role p q tx) (htype : role.mBody.type ≠ .localGroup) :
    role.mBody.otherCommunityIdIndex ≠ none := by
  obtain ⟨c, hc⟩ := h.accepted_single
  have hbody := hc.body rfl
  simp only [Validate.validateBody, bind_eq_ok, exists_unit, throwIf_eq_ok, decide_eq_false_iff_not,
    not_and] at hbody
  exact hbody.2 htype

/-- The content of a confirmed transaction passed the simple validation. -/
theorem Confirms.specific_single {env : Env} {community : ℕ} {role : Role}
    {p q : InMemoryProvider} {tx : ConfirmedTransaction}
    (h : Confirms env community role p q tx) :
    ∃ c, Validate.specificRole env { single := true } c role.mBody = .ok () := by
  obtain ⟨c, hc⟩ := h.accepted_single
  exact ⟨c, hc.specific⟩

section Checked

variable {env : Env} {community : ℕ} {role : Role} {p q : InMemoryProvider}
  {tx : ConfirmedTransaction} (h : Confirms env community role p q tx)

include h

theorem Confirms.transfer_checked {t : GradidoTransfer} (ht : role.mBody.specific = .transfer t) :
    TransferChecked t :=
  h.specific_single.elim fun _ hc => Validate.transfer_checked hc ht

theorem Confirms.deferred_checked {d : GradidoDeferredTransfer}
    (hd : role.mBody.specific = .deferredTransfer d) : TransferChecked d.transfer :=
  h.specific_single.elim fun _ hc => Validate.deferred_checked hc hd

theorem Confirms.redeem_checked {r : GradidoRedeemDeferredTransfer}
    (hr : role.mBody.specific = .redeemDeferredTransfer r) : TransferChecked r.transfer :=
  h.specific_single.elim fun _ hc => Validate.redeem_checked hc hr

theorem Confirms.creation_checked {c : GradidoCreation} (hc : role.mBody.specific = .creation c) :
    0 < c.recipient.amount ∧ c.recipient.publicKey ≠ 0 :=
  h.specific_single.elim fun _ hspecific => Validate.creation_checked hspecific hc

end Checked

/-! ### The states of all blockchains -/

theorem findBlockchain_dropEvent (p : InMemoryProvider) (community : ℕ)
    (event : TransactionTriggerEvent) :
    (dropEvent p community event).findBlockchain community =
      (p.findBlockchain community).removeTransactionTriggerEvent event := by
  simp [dropEvent]

theorem findBlockchain_dropEvent_of_ne (p : InMemoryProvider) {community other : ℕ}
    (event : TransactionTriggerEvent) (h : other ≠ community) :
    (dropEvent p community event).findBlockchain other = p.findBlockchain other := by
  rw [dropEvent, InMemoryProvider.findBlockchain_set_of_ne _ _ h]

theorem findBlockchain_added (env : Env) (p : InMemoryProvider) (community : ℕ)
    (tx : ConfirmedTransaction) :
    (added env p community tx).findBlockchain community =
      (addToBlockchain env (p.findBlockchain community) tx).1 := by
  simp [added]

theorem findBlockchain_added_of_ne (env : Env) (p : InMemoryProvider) {community other : ℕ}
    (tx : ConfirmedTransaction) (h : other ≠ community) :
    (added env p community tx).findBlockchain other = p.findBlockchain other := by
  rw [added, InMemoryProvider.findBlockchain_set_of_ne _ _ h]

end ConfirmTransaction

end Gradido
