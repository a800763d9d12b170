import GradidoBlockchain.Chain.Conservation
import GradidoBlockchain.Interaction.Accepted

/-!
# Who authorised a transaction

The simple validation verifies the signatures of a call once, before the
trigger events.  A call with a wrong signature leaves no trace, so a run is the
run of its verified calls, and every transaction of a chain carries valid
signatures of the keys that its kind asks for.

A balance then only shrinks faster than it decays when its key has signed, when
it is settled by a timeout, or when a redeem takes out more than the deferred
transfer of the key was worth.
-/

namespace Gradido

open Checked ConfirmTransaction

/-! ### Signatures -/

/-- A key has a valid signature of a transaction. -/
def ConfirmedTransaction.ValidlySignedBy (env : Env) (tx : ConfirmedTransaction)
    (publicKey : ℕ) : Prop :=
  ∃ pair ∈ tx.gradidoTransaction.signatureMap.signaturePairs, pair.publicKey = publicKey ∧
    env.verify pair.publicKey tx.body tx.gradidoTransaction.encoding pair.signature = true

instance {env : Env} {tx : ConfirmedTransaction} {publicKey : ℕ} :
    Decidable (tx.ValidlySignedBy env publicKey) :=
  inferInstanceAs (Decidable (∃ pair ∈ _, _))

/-- The keys that have to sign a body by themselves. -/
def TransactionBody.owners (body : TransactionBody) : List ℕ :=
  match body.specific with
  | .transfer t => [t.sender.publicKey]
  | .deferredTransfer d => [d.transfer.sender.publicKey]
  | .redeemDeferredTransfer r => [r.transfer.sender.publicKey]
  | .registerAddress r => [r.accountPublicKey, r.userPublicKey]
  | .communityRoot r => [r.publicKey]
  | _ => []

/-- All signatures of a Gradido transaction are valid. -/
def GradidoTransaction.verified (env : Env) (tx : GradidoTransaction) : Bool :=
  tx.signatureMap.signaturePairs.all
    (fun pair => env.verify pair.publicKey tx.body tx.encoding pair.signature)

namespace Validate

variable {env : Env}

/-- What the signature check guarantees of the signers. -/
theorem respects_of_checkRequiredSignatures {r : RequiredSignatures} (hr : RoleLists r)
    {signatureMap : SignatureMap} (h : checkRequiredSignatures env r signatureMap = .ok ()) :
    r.mMinSignatureCount ≤ signatureMap.signaturePairs.length ∧
      Respects env r signatureMap.signaturePairs := by
  simp only [checkRequiredSignatures, bind_eq_ok, throwIf_eq_ok, exists_unit,
    decide_eq_false_iff_not] at h
  obtain ⟨hcount, h⟩ := h
  refine ⟨Nat.le_of_not_lt hcount, ?_⟩
  split_ifs at h with hnone
  · obtain ⟨hkeys, hforbidden, hindices⟩ := hnone
    simp [Respects, hkeys, hforbidden, hindices]
  · simp only [bind_eq_ok, throwIf_eq_ok, exists_unit, decide_eq_false_iff_not] at h
    obtain ⟨hkeys, hindices, h⟩ := h
    generalize signatureMap.signaturePairs = signPairs at h hkeys hindices ⊢
    rcases signPairs with - | ⟨p, - | ⟨q, ps⟩⟩
    · refine (checkSeveral_iff hr).1 ?_
      simpa only [bind_eq_ok, throwIf_eq_ok, exists_unit, decide_eq_false_iff_not, not_not] using h
    · simp only [bind_eq_ok, throwIf_eq_ok, exists_unit, decide_eq_false_iff_not] at h
      exact (checkSingle_iff (Nat.le_of_not_lt hkeys) (Nat.le_of_not_lt hindices)).1 h
    · refine (checkSeveral_iff hr).1 ?_
      simpa only [bind_eq_ok, throwIf_eq_ok, exists_unit, decide_eq_false_iff_not, not_not] using h

/-- A transaction that has passed the simple validation with the verification enabled. -/
theorem verified_of_validateSingle {p : InMemoryProvider} {community : ℕ} {role : Role}
    (h : validateSingle env p community false role = .ok ()) :
    role.mGradidoTransaction.verified env = true := by
  simp only [validateSingle, gradidoTransactionRole, bind_eq_ok, exists_unit, when_eq_ok,
    forall_const] at h
  obtain ⟨⟨c, -, -, -, hverify, -⟩, -⟩ := h
  unfold GradidoTransaction.verified
  rw [List.all_eq_true]
  generalize role.mGradidoTransaction.signatureMap.signaturePairs = pairs at hverify ⊢
  induction pairs with
  | nil => simp
  | cons pair pairs ih =>
    rw [List.forM, bind_eq_ok, exists_unit] at hverify
    obtain ⟨hpair, hpairs⟩ := hverify
    simp only [verifySignature, bind_eq_ok, exists_unit, throwIf_eq_ok] at hpair
    exact List.forall_mem_cons.2 ⟨by simpa using hpair.2.2, ih hpairs⟩

end Validate

/-! ### Forged calls -/

/-- A call whose signatures are all valid. -/
def Call.verified (env : Env) (c : Call) : Bool := c.gradidoTransaction.verified env

/-- A call with a wrong signature changes nothing. -/
theorem Call.exec_of_not_verified {env : Env} {c : Call} (h : c.verified env = false)
    (p : InMemoryProvider) : c.exec env p = p := by
  unfold Call.exec InMemory.createAndAddConfirmedTransaction depthBound
  rw [createAndAdd]
  split
  · rfl
  · rfl
  · next hsingle =>
    have hverified := Validate.verified_of_validateSingle hsingle
    rw [Call.verified] at h
    rw [h] at hverified
    exact absurd hverified (by decide)

/-- Forged calls leave no trace. -/
theorem run_eq_run_verified (env : Env) (calls : List Call) :
    run env calls = run env (calls.filter (Call.verified env)) := by
  unfold run
  generalize InMemoryProvider.empty = p
  induction calls generalizing p with
  | nil => rfl
  | cons c calls ih =>
    rw [List.foldl_cons, List.filter_cons]
    cases hc : c.verified env with
    | true => rw [if_pos rfl, List.foldl_cons, ih]
    | false => rw [if_neg (by decide), c.exec_of_not_verified hc, ih]

/-! ### Confirmed transactions -/

/-- A transaction of a chain has valid signatures only, and those that its kind asks for.

* Whoever pays, registers a key or founds a community has signed.
* A creation is signed, not by its recipient, and only by keys that have a type in the chain.
* A registration is signed by a third key, that of a community root in the chain.

An inbound transaction is checked against the chain of the other community. -/
structure Authorised (env : Env) (p : InMemoryProvider) (community : ℕ)
    (tx : ConfirmedTransaction) : Prop where
  verified : tx.gradidoTransaction.verified env = true
  owners : ∀ key ∈ tx.body.owners, tx.ValidlySignedBy env key
  creation : ∀ c, tx.body.specific = .creation c → (∃ key, tx.ValidlySignedBy env key) ∧
    ∀ key, tx.ValidlySignedBy env key → key ≠ c.recipient.publicKey ∧
      ∃ t, HasType env (settledCommunity community tx.body)
        (p.findBlockchain (settledCommunity community tx.body)).history key t
  registration : ∀ r, tx.body.specific = .registerAddress r →
    ∃ entry ∈ (p.findBlockchain (settledCommunity community tx.body)).history, ∃ root,
      entry.body.specific = .communityRoot root ∧ ∃ key, tx.ValidlySignedBy env key ∧
        key ≠ r.accountPublicKey ∧ key ≠ r.userPublicKey ∧
        env.dict.index tx.gradidoTransaction.communityIdIndex key =
          env.dict.index entry.gradidoTransaction.communityIdIndex root.publicKey

namespace Validate

variable {env : Env}

/-- The two keys of a registration differ. -/
theorem register_checked {c : ContextData} {body : TransactionBody}
    (h : specificRole env { single := true } c body = .ok ()) {r : RegisterAddress}
    (hr : body.specific = .registerAddress r) : r.accountPublicKey ≠ r.userPublicKey := by
  simp only [specificRole, hr, registerAddressRole, bind_eq_ok, exists_unit, when_eq_ok,
    throwIf_eq_ok, decide_eq_false_iff_not, forall_const] at h
  exact h.1.2.2.2

/-- Every signer of a creation has passed the account check. -/
theorem requireAddressType_of_checkCreationSigners {s : InMemory} {createdAt : Timestamp}
    {pairs : List SignaturePair} (h : checkCreationSigners env s createdAt pairs = .ok ())
    {pair : SignaturePair} (hpair : pair ∈ pairs) :
    ∃ f, requireAddressType env s f pair.publicKey
      (humanAccount "signer for creation doesn't have a community human account") = .ok () := by
  induction pairs with
  | nil => exact absurd hpair List.not_mem_nil
  | cons q pairs ih =>
    simp only [checkCreationSigners, bind_eq_ok, exists_unit] at h
    obtain ⟨interval, -, hcheck, hpairs⟩ := h
    rcases List.mem_cons.1 hpair with rfl | hrest
    · exact ⟨_, hcheck⟩
    · exact ih hpairs hrest

/-- The third signature of a registration. -/
theorem rootSigner_of_checkCommunityRootSigner {own : ℕ} {s : InMemory}
    (hs : s.Represents own s.history) {communityIdIndex : ℕ} {r : RegisterAddress}
    {pairs : List SignaturePair}
    (h : checkCommunityRootSigner env s communityIdIndex r pairs = .ok ()) :
    ∃ entry ∈ s.history, ∃ root, entry.body.specific = .communityRoot root ∧ ∃ pair ∈ pairs,
      pair.publicKey ≠ r.accountPublicKey ∧ pair.publicKey ≠ r.userPublicKey ∧
        env.dict.index communityIdIndex pair.publicKey =
          env.dict.index entry.gradidoTransaction.communityIdIndex root.publicKey := by
  simp only [checkCommunityRootSigner, bind_eq_ok, orThrow_eq_ok, throwIf_eq_ok,
    TransactionBody.getCommunityRoot_eq_some] at h
  obtain ⟨first, hfirst, entry, rfl, root, hroot, hany⟩ := h
  obtain ⟨pair, hpair, ⟨haccount, huser⟩, hindex⟩ : ∃ pair ∈ pairs,
      (pair.publicKey ≠ r.accountPublicKey ∧ pair.publicKey ≠ r.userPublicKey) ∧
        env.dict.index communityIdIndex pair.publicKey =
          env.dict.index entry.gradidoTransaction.communityIdIndex root.publicKey := by
    simpa using hany
  exact ⟨entry, hs.mem_of_findOne hfirst, root, hroot, pair, hpair, haccount, huser, hindex⟩

end Validate

/-- A key for which an account check found a type has one in the log. -/
theorem AddressesKnown.hasType_of_requireAddressType {env : Env} {own : ℕ} {s : InMemory}
    (h : AddressesKnown env own s) (hown : s.mCommunityIdIndex = own) {f : Filter}
    {publicKey : ℕ} {allowed : AddressType → Option String} (hallowed : allowed .none ≠ none)
    (hcheck : Validate.requireAddressType env s f publicKey allowed = .ok ()) :
    ∃ t, HasType env own s.history publicKey t := by
  simp only [Validate.requireAddressType, InMemory.getAddressType, Option.getD_some, bind_eq_ok,
    hown] at hcheck
  obtain ⟨t, ⟨-, -, ht⟩, hresult⟩ := hcheck
  cases hdata : s.mTransactionsIndex.mAddressIndex.mIndexTransactionNrs
      (env.dict.index own publicKey) with
  | some data => exact ⟨data.addressType, h _ data hdata⟩
  | none =>
    simp only [TransactionsIndex.getAddressType, hdata, if_true, pure_eq_ok] at ht
    subst ht
    split at hresult
    · next hnone => exact absurd hnone hallowed
    · simp at hresult

section Step

variable {env : Env} {direct : ℕ → Role → Prop} {community : ℕ} {role : Role}
  {p q : InMemoryProvider} {tx : ConfirmedTransaction}

theorem ConfirmedTransaction.validlySignedBy_of_mem (h : tx.gradidoTransaction.verified env = true)
    {pair : SignaturePair} (hpair : pair ∈ tx.gradidoTransaction.signatureMap.signaturePairs) :
    tx.ValidlySignedBy env pair.publicKey :=
  ⟨pair, hpair, rfl, List.all_eq_true.1 h pair hpair⟩

/-- The lists of required signatures are sound for a confirmed transaction. -/
theorem ConfirmTransaction.Confirms.roleLists (h : Confirms env community role p q tx)
    (hb : Built env q community role tx) :
    Validate.RoleLists (Validate.requiredSignatures env tx.gradidoTransaction) := by
  refine Validate.roleLists_requiredSignatures env _ (fun r hr => ?_)
  obtain ⟨c, hc⟩ := h.specific_single
  rw [hb.body_eq] at hc
  exact Validate.register_checked hc hr

/-- The owners of a confirmed transaction have signed. -/
theorem ConfirmTransaction.Confirms.owners_signed (h : Confirms env community role p q tx)
    (hb : Built env q community role tx)
    (hverified : tx.gradidoTransaction.verified env = true) :
    ∀ key ∈ tx.body.owners, tx.ValidlySignedBy env key := by
  obtain ⟨c, hc⟩ := hb.accepted
  have hsignatures := hc.signatures
  simp only [Validate.checkSignatures, bind_eq_ok, exists_unit] at hsignatures
  obtain ⟨-, -, hkeys, hindices⟩ :=
    Validate.respects_of_checkRequiredSignatures (h.roleLists hb) hsignatures.1
  have hkey : ∀ key ∈ (Validate.requiredSignatures env
      tx.gradidoTransaction).mRequiredSignPublicKeys, tx.ValidlySignedBy env key := by
    intro key hkey
    obtain ⟨pair, hpair, rfl⟩ := hkeys key hkey
    exact tx.validlySignedBy_of_mem hverified hpair
  have hindex : ∀ key, env.dict.toPublicKeyIndex key tx.gradidoTransaction.communityIdIndex ∈
      (Validate.requiredSignatures env tx.gradidoTransaction).mRequiredSignPublicKeyIndices →
      tx.ValidlySignedBy env key := by
    intro key hkey
    obtain ⟨pair, hpair, heq⟩ := hindices _ hkey
    simp only [PublicKeyDictionary.toPublicKeyIndex, PublicKeyIndex.mk.injEq,
      PublicKeyDictionary.index_inj, true_and] at heq
    rw [← heq]
    exact tx.validlySignedBy_of_mem hverified hpair
  have hbody : tx.gradidoTransaction.body = tx.body := rfl
  unfold Validate.requiredSignatures at hkey hindex
  unfold TransactionBody.owners
  rw [hbody] at hkey hindex
  cases hspecific : tx.body.specific with
  | transfer t => exact fun key hmem => hkey key (by simpa [hspecific] using hmem)
  | deferredTransfer d => exact fun key hmem => hkey key (by simpa [hspecific] using hmem)
  | redeemDeferredTransfer r => exact fun key hmem => hkey key (by simpa [hspecific] using hmem)
  | registerAddress r =>
    intro key hmem
    refine hindex key ?_
    rw [hspecific]
    rcases List.mem_pair.1 hmem with rfl | rfl <;> simp
  | communityRoot r =>
    intro key hmem
    refine hindex key ?_
    rw [hspecific, List.mem_singleton.1 hmem]
    simp
  | _ => simp

/-- A confirmed creation is signed, and not by its recipient. -/
theorem ConfirmTransaction.Confirms.creation_signers (h : Confirms env community role p q tx)
    (hb : Built env q community role tx) (hq : Reachable env direct q) {c : GradidoCreation}
    (hc : tx.body.specific = .creation c) :
    tx.gradidoTransaction.signatureMap.signaturePairs ≠ [] ∧
      ∀ pair ∈ tx.gradidoTransaction.signatureMap.signaturePairs,
        pair.publicKey ≠ c.recipient.publicKey ∧
        ∃ t, HasType env (settledCommunity community tx.body)
          (q.findBlockchain (settledCommunity community tx.body)).history pair.publicKey t := by
  obtain ⟨context, hcontext⟩ := hb.accepted
  have hsignatures := hcontext.signatures
  have hc' : tx.gradidoTransaction.body.specific = .creation c := hc
  rw [h.senderBlockchain hb hcontext] at hsignatures
  simp only [Validate.checkSignatures, bind_eq_ok, exists_unit, hc'] at hsignatures
  obtain ⟨hrequired, hsigners⟩ := hsignatures
  obtain ⟨hcount, hforbidden, -, -⟩ :=
    Validate.respects_of_checkRequiredSignatures (h.roleLists hb) hrequired
  simp only [Validate.requiredSignatures, hc'] at hcount hforbidden
  refine ⟨List.ne_nil_of_length_pos hcount, fun pair hpair => ⟨?_, ?_⟩⟩
  · exact hforbidden _ (List.mem_singleton.2 rfl) pair hpair
  · obtain ⟨f, hcheck⟩ := Validate.requireAddressType_of_checkCreationSigners hsigners hpair
    exact (hq.addressesKnown _).hasType_of_requireAddressType (hq.logged.represents _).community
      (by simp [Validate.humanAccount]) hcheck

/-- **The signatures of a confirmed transaction** are those that its kind asks for. -/
theorem ConfirmTransaction.Confirms.authorised (h : Confirms env community role p q tx)
    (hb : Built env q community role tx) (hq : Reachable env direct q)
    (hverified : tx.gradidoTransaction.verified env = true) :
    Authorised env q community tx where
  verified := hverified
  owners := h.owners_signed hb hverified
  creation := by
    intro c hc
    obtain ⟨hne, hsigners⟩ := h.creation_signers hb hq hc
    obtain ⟨pair, hpair⟩ := List.exists_mem_of_ne_nil _ hne
    refine ⟨⟨_, tx.validlySignedBy_of_mem hverified hpair⟩, ?_⟩
    rintro key ⟨pair, hpair, rfl, -⟩
    exact hsigners pair hpair
  registration := by
    intro r hr
    obtain ⟨c, hc⟩ := hb.accepted
    have hsignatures := hc.signatures
    have hr' : tx.gradidoTransaction.body.specific = .registerAddress r := hr
    rw [h.senderBlockchain hb hc] at hsignatures
    simp only [Validate.checkSignatures, bind_eq_ok, exists_unit, hr'] at hsignatures
    obtain ⟨entry, hentry, root, hroot, pair, hpair, haccount, huser, hindex⟩ :=
      Validate.rootSigner_of_checkCommunityRootSigner (hq.logged.represents _) hsignatures.2
    exact ⟨entry, hentry, root, hroot, _, tx.validlySignedBy_of_mem hverified hpair, haccount,
      huser, hindex⟩

end Step

/-- Longer logs authorise as well. -/
theorem Authorised.mono {env : Env} {p q : InMemoryProvider} (hpq : Extends p q) {community : ℕ}
    {tx : ConfirmedTransaction} (h : Authorised env p community tx) :
    Authorised env q community tx where
  verified := h.verified
  owners := h.owners
  creation := by
    intro c hc
    obtain ⟨hsigned, hsigners⟩ := h.creation c hc
    refine ⟨hsigned, fun key hkey => ?_⟩
    obtain ⟨hne, t, ht⟩ := hsigners key hkey
    exact ⟨hne, t, ht.mono (hpq _).subset⟩
  registration := by
    intro r hr
    obtain ⟨entry, hentry, hroot⟩ := h.registration r hr
    exact ⟨entry, (hpq _).subset hentry, hroot⟩

/-- In a run of verified calls every role has valid signatures: events have none at all. -/
theorem ConfirmTransaction.Origin.verified {env : Env} {calls : List Call}
    {P : InMemoryProvider → Prop} {community : ℕ} {p : InMemoryProvider} {role : Role}
    (h : Origin (CalledRole (calls.filter (Call.verified env))) P community p role) :
    role.mGradidoTransaction.verified env = true := by
  cases h with
  | call hrole =>
    obtain ⟨c, hc, -, rfl⟩ := hrole
    exact (List.mem_filter.1 hc).2
  | event _ _ => rfl

/-- The blockchains after a run are reachable with its verified calls. -/
theorem reachable_run_verified (env : Env) (calls : List Call) :
    Reachable env (CalledRole (calls.filter (Call.verified env))) (run env calls) := by
  rw [run_eq_run_verified]
  exact reachable_run env _

/-- **Every transaction of a run is authorised**, whatever calls were made. -/
theorem run_authorised (env : Env) (calls : List Call) {community : ℕ} {tx : ConfirmedTransaction}
    (htx : tx ∈ ((run env calls).findBlockchain community).history) :
    Authorised env (run env calls) community tx := by
  refine (reachable_run_verified env calls).forall_confirmed (Q := Authorised env)
    (fun p q i tx hpq h => h.mono hpq) ?_ community tx htx
  intro community role p q tx hq h hb horigin
  have hverified := horigin.verified
  rw [← hb.gradidoTransaction] at hverified
  exact h.authorised hb hq hverified

/-! ### Debits -/

/-- A transaction sees the earlier balances of the keys that it writes, and belongs to a chain
whose root was made for it. -/
@[mk_iff]
structure SeesBalances (env : Env) (own : ℕ) (pre : List ConfirmedTransaction)
    (tx : ConfirmedTransaction) : Prop where
  coin : ∀ b ∈ tx.accountBalances, b.coinCommunityIdIndex ≠ 0
  visible : ∀ b ∈ tx.accountBalances,
    CoinVisible env own pre b.publicKey b.coinCommunityIdIndex tx.confirmedAt
  root : ∀ first ∈ pre, first.body.transactionType = .communityRoot →
    first.gradidoTransaction.communityIdIndex = own

instance {env : Env} {own : ℕ} {pre : List ConfirmedTransaction} {tx : ConfirmedTransaction} :
    Decidable (SeesBalances env own pre tx) :=
  decidable_of_iff _ (seesBalances_iff env own pre tx).symm

/-- Why a balance of a key may shrink. -/
inductive Debits (env : Env) (pre : List ConfirmedTransaction) (tx : ConfirmedTransaction)
    (publicKey : ℕ) : Prop
  | signed : tx.ValidlySignedBy env publicKey → Debits env pre tx publicKey
  | timeout {entry : ConfirmedTransaction} {d : GradidoDeferredTransfer} : entry ∈ pre →
      entry.body.specific = .deferredTransfer d →
      tx.body.specific = .timeoutDeferredTransfer entry.id →
      d.transfer.recipient = publicKey → Debits env pre tx publicKey
  | overdrawn {entry : ConfirmedTransaction} {d : GradidoDeferredTransfer}
      {r : GradidoRedeemDeferredTransfer} {decayed : ℤ} : entry ∈ pre →
      entry.body.specific = .deferredTransfer d → tx.body.specific = .redeemDeferredTransfer r →
      r.deferredTransferTransactionNr = entry.id →
      env.calculateDecay d.transfer.sender.amount entry.confirmedAt.getAsTimepoint
        tx.confirmedAt.getAsTimepoint = .ok decayed →
      decayed < r.transfer.sender.amount → d.transfer.sender.publicKey = publicKey →
      Debits env pre tx publicKey

/-- No balance in a coin shrinks faster than it decays without a reason. -/
def DebitsAuthorised (env : Env) (coin : ℕ) (pre : List ConfirmedTransaction)
    (tx : ConfirmedTransaction) : Prop :=
  ∀ k, balanceAfter env pre tx k coin < decayedBalance env pre k coin tx.confirmedAt →
    Debits env pre tx k

/-- A new balance is not below the earlier one, or there is a reason. -/
def Justified (env : Env) (pre : List ConfirmedTransaction) (tx : ConfirmedTransaction)
    (b : AccountBalance) : Prop :=
  decayedBalance env pre b.publicKey b.coinCommunityIdIndex tx.confirmedAt ≤ b.balance ∨
    Debits env pre tx b.publicKey

section Justified

variable {env : Env} {pre : List ConfirmedTransaction} {tx : ConfirmedTransaction} {coin k : ℕ}
  {amount slack : ℤ} {b : AccountBalance}

/-- Only the entries of a transaction have to be looked at. -/
theorem debitsAuthorised_of_forall (h : ∀ b ∈ tx.accountBalances, Justified env pre tx b) :
    DebitsAuthorised env coin pre tx := by
  intro k hless
  unfold balanceAfter at hless
  split_ifs at hless with hentry
  · obtain ⟨b, hb, hkey, hcoin, hbalance⟩ : ∃ b ∈ tx.accountBalances, b.publicKey = k ∧
        b.coinCommunityIdIndex = coin ∧ tx.getAccountBalance k (some coin) = b.balance := by
      unfold ConfirmedTransaction.getAccountBalance
      cases hfind : tx.accountBalances.find? (fun b => b.belongsTo k (some coin)) with
      | some b =>
        have hbelongs := List.find?_some hfind
        simp only [AccountBalance.belongsTo, Bool.and_eq_true, decide_eq_true_eq] at hbelongs
        exact ⟨b, List.mem_of_find?_eq_some hfind, hbelongs.1, hbelongs.2.symm, rfl⟩
      | none =>
        obtain ⟨b, hb, hkey, hcoin⟩ := hentry
        exact absurd (List.find?_eq_none.1 hfind b hb)
          (by simp [AccountBalance.belongsTo, hkey, hcoin])
    rw [hbalance] at hless
    rcases h b hb with hle | hreason
    · rw [hkey, hcoin] at hle
      exact absurd hless (not_lt.2 hle)
    · exact hkey ▸ hreason
  · exact absurd hless (lt_irrefl _)

/-- A credit needs no reason. -/
theorem Enters.justified (h : Enters env pre tx.confirmedAt coin b (k, amount, slack))
    (hamount : 0 ≤ amount) : Justified env pre tx b := by
  have hlow := h.posted.1
  exact .inl (by dsimp only at hlow; omega)

/-- A reason for the key of an entry. -/
theorem Debits.justified (h : Debits env pre tx k) (hkey : b.publicKey = k) :
    Justified env pre tx b :=
  .inr (hkey ▸ h)

end Justified

/-- **The new balances of a confirmed transaction** are not below the earlier ones, or there is a
reason. -/
theorem ConfirmTransaction.Confirms.justified {env : Env} {community : ℕ} {role : Role}
    {p q : InMemoryProvider} {tx : ConfirmedTransaction} {calls : List Call} (laws : DecayLaws env)
    (hdecay : DecaysNonneg env) (h : Confirms env community role p q tx)
    (hb : Built env q community role tx)
    (horigin : Origin (CalledRole (calls.filter (Call.verified env)))
      (Reachable env (CalledRole (calls.filter (Call.verified env)))) community p role)
    (hq : Reachable env (CalledRole (calls.filter (Call.verified env))) q)
    (hcommunity : community ≠ 0)
    (hlog : IndexableLog env community (q.findBlockchain community).history)
    (hdated : Dated ((q.findBlockchain community).history ++ [tx]))
    (hsees : SeesBalances env community (q.findBlockchain community).history tx) :
    ∀ b ∈ tx.accountBalances, Justified env (q.findBlockchain community).history tx b := by
  have hs := hq.logged.represents community
  have hbody := hb.body_eq
  have hdate : ∀ t ∈ (q.findBlockchain community).history,
      t.confirmedAt.getAsTimepoint ≤ tx.confirmedAt.getAsTimepoint := by
    intro t ht
    exact Timestamp.getAsTimepoint_mono (hdated t (List.mem_append_left _ ht)).1
      (hdated tx (by simp)).1 (hb.not_lt_confirmedAt hq.logged ht)
  have hknown := hq.balancesKnown laws hdecay hcommunity hlog (hdated tx (by simp)).2.le hdate
  have hsigned : ∀ key ∈ tx.body.owners,
      Debits env (q.findBlockchain community).history tx key := by
    have hverified := horigin.verified
    rw [← hb.gradidoTransaction] at hverified
    exact fun key hkey => .signed (h.owners_signed hb hverified key hkey)
  have hcomputed := hb.computed horigin
  obtain ⟨hcoin, hvisible, hroot⟩ := hsees
  generalize tx.accountBalances = balances at hcomputed hcoin hvisible ⊢
  have hcredit : ∀ {k coin : ℕ} {amount : ℤ} {b : AccountBalance},
      calculateAccountBalance env (q.findBlockchain community) tx.confirmedAt k amount coin =
        .ok b → b ∈ balances → k ≠ 0 → 0 ≤ amount →
      Justified env (q.findBlockchain community).history tx b := by
    intro k coin amount b hbalance hmem hk hamount
    exact ((hknown.entered hbalance (hcoin b hmem) (hvisible b hmem) hk).2 hamount).justified
      hamount
  -- the change of a redeem is a debit when more is redeemed than the deferred transfer is worth
  have hchange : ∀ {r : GradidoRedeemDeferredTransfer} {entry : ConfirmedTransaction}
      {d : GradidoDeferredTransfer} {decayed : ℤ} {coin : ℕ} {b : AccountBalance},
      tx.body.specific = .redeemDeferredTransfer r →
      Settling env (q.findBlockchain community) tx.confirmedAt r.deferredTransferTransactionNr
        entry d decayed →
      calculateAccountBalance env (q.findBlockchain community) tx.confirmedAt
        d.transfer.sender.publicKey (decayed - r.transfer.sender.amount) coin = .ok b →
      b ∈ balances → Justified env (q.findBlockchain community).history tx b := by
    intro r entry d decayed coin b hr hsettling hbalance hmem
    obtain ⟨hentry, hid, hdeferred, -⟩ := hq.settling laws hdecay hdate hsettling
    rcases Int.lt_or_le decayed r.transfer.sender.amount with hless | hle
    · exact (Debits.overdrawn hentry hsettling.deferred hr hid.symm hsettling.worth hless
        rfl).justified (calculateAccountBalance_spec hbalance).1
    · exact hcredit hbalance hmem hdeferred.sender (Int.sub_nonneg.2 hle)
  cases hcomputed with
  | @communityRoot r hr =>
    -- the first transaction of the chain
    have hempty : (q.findBlockchain community).history = [] :=
      (hb.root_iff hs).1 (by simp [TransactionBody.transactionType, hr])
    intro b hmem
    rw [hempty]
    rcases List.mem_pair.1 hmem with rfl | rfl <;> exact .inl le_rfl
  | @registerAddress r hr =>
    intro b hmem
    unfold registerAddressBalances at hmem
    split_ifs at hmem
    · exact absurd hmem List.not_mem_nil
    · refine (hsigned r.accountPublicKey (by simp [TransactionBody.owners, hr])).justified ?_
      rw [List.mem_singleton.1 hmem]
  | @creation c first root recipient gmw auf hc hfound hfirstRoot hrecipient hgmw hauf =>
    obtain ⟨hamount, hk⟩ := h.creation_checked (hbody ▸ hc)
    have hown := hroot first (hs.mem_of_findOne hfound)
      (by simp [TransactionBody.transactionType, hfirstRoot])
    rw [hown] at hgmw hauf
    have hindexed : ∀ {k : ℕ} {b : AccountBalance},
        accountBalanceFromPublicKeyIndex env (q.findBlockchain community) tx.confirmedAt
          (env.dict.index community k) c.recipient.amount c.recipient.coinCommunityIdIndex =
          .ok b → b ∈ [recipient, gmw, auf] →
        Justified env (q.findBlockchain community).history tx b := by
      intro k b hbalance hmem
      exact (hknown.credited hbalance hs.community (hcoin b hmem) (hvisible b hmem)
        hamount.le).justified hamount.le
    refine List.forall_mem_cons.2 ⟨hcredit hrecipient (by simp) hk hamount.le, ?_⟩
    exact List.forall_mem_cons.2 ⟨hindexed hgmw (by simp),
      List.forall_mem_singleton.2 (hindexed hauf (by simp))⟩
  | @transfer t sender recipient ht htype hsender hrecipient =>
    have hchecked := h.transfer_checked (hbody ▸ ht)
    refine List.forall_mem_cons.2 ⟨?_, List.forall_mem_singleton.2
      (hcredit hrecipient (by simp) hchecked.recipient hchecked.amount.le)⟩
    exact (hsigned _ (by simp [TransactionBody.owners, ht])).justified
      (calculateAccountBalance_spec hsender).1
  | @outboundTransfer t sender ht htype hsender =>
    refine List.forall_mem_singleton.2 ?_
    exact (hsigned _ (by simp [TransactionBody.owners, ht])).justified
      (calculateAccountBalance_spec hsender).1
  | @inboundTransfer t recipient ht htype hrecipient =>
    have hchecked := h.transfer_checked (hbody ▸ ht)
    exact List.forall_mem_singleton.2
      (hcredit hrecipient (by simp) hchecked.recipient hchecked.amount.le)
  | @deferredTransfer d sender recipient hd hsender hrecipient =>
    have hchecked := h.deferred_checked (hbody ▸ hd)
    refine List.forall_mem_cons.2 ⟨?_, List.forall_mem_singleton.2
      (hcredit hrecipient (by simp) hchecked.recipient hchecked.amount.le)⟩
    exact (hsigned _ (by simp [TransactionBody.owners, hd])).justified
      (calculateAccountBalance_spec hsender).1
  | @redeemBack r entry d decayed recipient hr hsettling hback hrecipient =>
    obtain ⟨-, -, -, hnonneg⟩ := hq.settling laws hdecay hdate hsettling
    have hchecked := h.redeem_checked (hbody ▸ hr)
    refine List.forall_mem_cons.2 ⟨?_, List.forall_mem_singleton.2
      (hcredit hrecipient (by simp) hchecked.recipient hnonneg)⟩
    exact (hsigned _ (by simp [TransactionBody.owners, hr])).justified rfl
  | @redeem r entry d decayed recipient sender hr htype hsettling hback hrecipient hsender =>
    have hchecked := h.redeem_checked (hbody ▸ hr)
    refine List.forall_mem_cons.2 ⟨?_, List.forall_mem_cons.2
      ⟨hcredit hrecipient (by simp) hchecked.recipient hchecked.amount.le,
        List.forall_mem_singleton.2 (hchange hr hsettling hsender (by simp))⟩⟩
    exact (hsigned _ (by simp [TransactionBody.owners, hr])).justified rfl
  | @outboundRedeem r entry d decayed sender hr htype hsettling hback hsender =>
    refine List.forall_mem_cons.2 ⟨?_,
      List.forall_mem_singleton.2 (hchange hr hsettling hsender (by simp))⟩
    exact (hsigned _ (by simp [TransactionBody.owners, hr])).justified rfl
  | @inboundRedeem r entry d decayed recipient hr htype hsettling hback hrecipient =>
    have hchecked := h.redeem_checked (hbody ▸ hr)
    exact List.forall_mem_singleton.2
      (hcredit hrecipient (by simp) hchecked.recipient hchecked.amount.le)
  | @timeout nr entry d decayed sender hnr hsettling hsender =>
    obtain ⟨hmem, rfl, hdeferred, hnonneg⟩ := hq.settling laws hdecay hdate hsettling
    refine List.forall_mem_cons.2 ⟨hcredit hsender (by simp) hdeferred.sender hnonneg,
      List.forall_mem_singleton.2 ?_⟩
    exact (Debits.timeout hmem hsettling.deferred hnr rfl).justified rfl
  | nothing htype => simp

/-- **No debit without a reason**, in every run whose transactions see the balances before. -/
theorem run_debits (env : Env) (laws : DecayLaws env) (hdecay : DecaysNonneg env)
    (calls : List Call) {community : ℕ} (hcommunity : community ≠ 0)
    (hlog : IndexableLog env community ((run env calls).findBlockchain community).history)
    (hdated : Dated ((run env calls).findBlockchain community).history)
    (hsees : AlongPrefixes (SeesBalances env community)
      ((run env calls).findBlockchain community).history) (coin : ℕ) :
    AlongPrefixes (DebitsAuthorised env coin)
      ((run env calls).findBlockchain community).history := by
  have halong := (reachable_run_verified env calls).alongPrefixes (Q := fun i pre tx => i ≠ 0 →
    IndexableLog env i pre → Dated (pre ++ [tx]) → SeesBalances env i pre tx →
    DebitsAuthorised env coin pre tx) (by
      intro community role p q tx hq h hb horigin hcommunity hlog hdated hsees
      exact debitsAuthorised_of_forall
        (h.justified laws hdecay hb horigin hq hcommunity hlog hdated hsees)) community
  intro pre tx post heq
  have hinitial : pre ++ [tx] <+: ((run env calls).findBlockchain community).history :=
    ⟨post, by rw [heq, List.append_assoc]; rfl⟩
  refine halong pre tx post heq hcommunity ?_ ?_ (hsees pre tx post heq)
  · exact AlongPrefixes.of_prefix hlog ((List.prefix_append _ _).trans hinitial)
  · exact fun t ht => hdated t (hinitial.subset ht)

namespace Sample

/-- Account `11` and account `21` have registered, and the community root has signed for both. -/
theorem run_authorised_setup : ∃ tx, ((run env setup).findBlockchain 1).history[2]? = some tx ∧
    Authorised env (run env setup) 1 tx := by
  have hsome : (((run env setup).findBlockchain 1).history[2]?).isSome = true := by decide +kernel
  obtain ⟨tx, htx⟩ := Option.isSome_iff_exists.1 hsome
  exact ⟨tx, htx, run_authorised env setup (List.mem_of_getElem? htx)⟩

/-- Account `21` sends account `11` a hundred cents. -/
def gift (id : ℕ) : Call :=
  call id 0 (transaction 0 (signedByKey 21) [memo] (.transfer ⟨⟨21, 100, 1⟩, 11⟩))

/-- Address `30` redeems half as much again as the deferred transfer is worth. -/
def redeemMore : Call :=
  call 6 0 (transaction 0 (signedByKey 30) []
    (.redeemDeferredTransfer ⟨4, ⟨⟨30, 150, 1⟩, 21⟩⟩))

/-- The fifty cents are taken from account `11`, which has not signed. -/
theorem redeemMore_debits :
    (((run env (setup ++ [deferred, gift 5, redeemMore])).findBlockchain 1).history.map
        (fun tx => (tx.accountBalances, decide (tx.ValidlySignedBy env 11)))).drop 4 =
      [([⟨21, 0, 1⟩, ⟨11, 100, 1⟩], false), ([⟨30, 0, 1⟩, ⟨21, 150, 1⟩, ⟨11, 50, 1⟩], false)] ∧
      AlongPrefixes (DebitsAuthorised env 1)
        ((run env (setup ++ [deferred, gift 5, redeemMore])).findBlockchain 1).history := by
  refine ⟨by decide +kernel, run_debits env decayLaws decaysNonneg _ (by decide) ?_ ?_ ?_ 1⟩
  · decide +kernel
  · decide +kernel
  · decide +kernel

end Sample

end Gradido
