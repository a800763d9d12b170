import GradidoBlockchain.Wire.ConfirmedTransaction

/-!
# What is written is read back

A body whose communities, keys and name hash are known can be written, and
reading gives the same body and leaves the context as it is.  A confirmed
transaction knows its keys already, since its constructor looked them up: that
look-up settles, so the constructor, called again by the reader in any later
context, gives the same transaction.  Only the communities of the coins, which the
constructor does not look at, must be known.

* `TransactionBody.Known`, `ConfirmedTransaction.Constructed`: which bodies and
  transactions.
* `TransactionBody.returns_fromGrdw`: the round trip of a body.
* `ConfirmedTransaction.settled_make`, `ConfirmedTransaction.returns_fromGrdw`: the
  round trip of a confirmed transaction.
-/

namespace Gradido.Wire

open Checked

variable {core : GrdwCore} {ctx : AppContext}

/-! ### Transfers -/

theorem getCommunityId_eq_ok {i : UInt32} {uuid : Uuid}
    (h : ctx.communityIds.data i.toNat = some uuid) (e : Exception) :
    ctx.getCommunityId i e = .ok uuid := by
  unfold AppContext.getCommunityId
  rw [h]
  rfl

/-- The coins of the transfer are known. -/
def TransferAmount.Known (ctx : AppContext) (a : TransferAmount) : Prop :=
  ctx.KnowsCommunity a.coinCommunityIdIndex

theorem TransferAmount.Known.roundTrip {a : TransferAmount} (ha : a.Known ctx) (c : UInt32) :
    ∃ g, a.toGrdw ctx c = .ok g ∧ Method.Returns (TransferAmount.fromGrdw g) ctx a ctx := by
  have hknown := ha
  obtain ⟨uuid, hdata, _⟩ := hknown
  refine ⟨⟨a.publicKey.1, a.amount, uuid⟩, ?_, ?_⟩
  · unfold TransferAmount.toGrdw
    rw [getCommunityId_eq_ok hdata]
    rfl
  · unfold TransferAmount.fromGrdw
    refine Method.Returns.bind (ha.returns hdata) ?_
    unfold TransferAmount.make
    rw [dif_pos a.publicKey.2]
    exact Method.Returns.readBind (getCommunityId_eq_ok hdata _) (.pure _ _)

theorem GradidoTransfer.roundTrip {t : GradidoTransfer} (ht : t.sender.Known ctx) (c : UInt32) :
    ∃ g, t.toGrdw ctx c = .ok g ∧ Method.Returns (GradidoTransfer.fromGrdw g) ctx t ctx := by
  obtain ⟨sender, hwrite, hread⟩ := ht.roundTrip c
  refine ⟨⟨sender, t.recipient.1⟩, ?_, ?_⟩
  · unfold GradidoTransfer.toGrdw
    rw [hwrite]
    rfl
  · unfold GradidoTransfer.fromGrdw
    refine Method.Returns.bind hread ?_
    unfold GradidoTransfer.make
    rw [dif_pos t.recipient.2]
    exact .pure _ _

/-! ### Addresses and community roots -/

/-- The public key dictionary of the community has the number. -/
def KnowsKey (ctx : AppContext) (c i : UInt32) : Prop :=
  ∃ key, ctx.getPublicKey c i = some key

theorem getRawKey_eq_ok {c i : UInt32} {key : PublicKey} (h : ctx.getPublicKey c i = some key) :
    ctx.getRawKey c i = .ok key := by
  unfold AppContext.getRawKey
  rw [h]
  rfl

theorem isEmpty_of_getPublicKey {c i : UInt32} {key : PublicKey}
    (h : ctx.getPublicKey c i = some key) : isEmpty key.1 = false := by
  obtain ⟨_, _, nonEmpty, _, _, _, rfl⟩ := AppContext.getPublicKey_eq_some.1 h
  exact nonEmpty.2

/-- The two keys and the name hash are known. -/
structure RegisterAddressTx.Known (ctx : AppContext) (c : UInt32) (r : RegisterAddressTx) :
    Prop where
  user : KnowsKey ctx c r.userPublicKeyIndex
  account : KnowsKey ctx c r.accountPublicKeyIndex
  nameHash : ∃ hash, ctx.userNameHashs.data r.nameHashIndex.toNat = some hash

theorem RegisterAddressTx.Known.roundTrip {r : RegisterAddressTx} {c : UInt32}
    (hr : r.Known ctx c) :
    ∃ g, r.toGrdw ctx c = .ok g ∧ Method.Returns (RegisterAddressTx.fromGrdw g c) ctx r ctx := by
  obtain ⟨user, huser⟩ := hr.user
  obtain ⟨account, haccount⟩ := hr.account
  obtain ⟨hash, hhash⟩ := hr.nameHash
  refine ⟨⟨user, r.addressType, r.derivationIndex.toNat, hash.1, account⟩, ?_, ?_⟩
  · have hnameHash : ctx.getUserNameHash r.nameHashIndex = .ok hash.1 := by
      unfold AppContext.getUserNameHash
      rw [hhash]
    unfold RegisterAddressTx.toGrdw
    rw [getRawKey_eq_ok haccount, ok_bind, getRawKey_eq_ok huser, ok_bind, hnameHash, ok_bind,
      isEmpty_of_getPublicKey haccount, isEmpty_of_getPublicKey huser, hash.2]
    rfl
  · unfold RegisterAddressTx.fromGrdw
    refine Method.Returns.bind (AppContext.returns_of_userNameHash hhash) ?_
    refine Method.Returns.bind (AppContext.returns_of_getPublicKey huser) ?_
    refine Method.Returns.bind (AppContext.returns_of_getPublicKey haccount) ?_
    rw [UInt16.ofNat_toNat]
    exact .pure _ _

/-- The three keys are known. -/
structure CommunityRootTx.Known (ctx : AppContext) (c : UInt32) (r : CommunityRootTx) :
    Prop where
  publicKey : KnowsKey ctx c r.publicKeyIndex
  gmwPublicKey : KnowsKey ctx c r.gmwPublicKeyIndex
  aufPublicKey : KnowsKey ctx c r.aufPublicKeyIndex

theorem CommunityRootTx.Known.roundTrip {r : CommunityRootTx} {c : UInt32} (hr : r.Known ctx c) :
    ∃ g, r.toGrdw ctx c = .ok g ∧ Method.Returns (CommunityRootTx.fromGrdw g c) ctx r ctx := by
  obtain ⟨pubkey, hpubkey⟩ := hr.publicKey
  obtain ⟨gmw, hgmw⟩ := hr.gmwPublicKey
  obtain ⟨auf, hauf⟩ := hr.aufPublicKey
  refine ⟨⟨pubkey, gmw, auf⟩, ?_, ?_⟩
  · unfold CommunityRootTx.toGrdw
    rw [getRawKey_eq_ok hpubkey, ok_bind, getRawKey_eq_ok hgmw, ok_bind, getRawKey_eq_ok hauf]
    rfl
  · unfold CommunityRootTx.fromGrdw
    refine Method.Returns.bind (AppContext.returns_of_getPublicKey hpubkey) ?_
    refine Method.Returns.bind (AppContext.returns_of_getPublicKey hgmw) ?_
    refine Method.Returns.bind (AppContext.returns_of_getPublicKey hauf) ?_
    exact .pure _ _

/-! ### Bodies -/

/-- What a specific transaction names by number is known. -/
def Specific.Known (ctx : AppContext) (c : UInt32) : Specific → Prop
  | .creation c => c.recipient.Known ctx
  | .transfer t => t.sender.Known ctx
  | .registerAddress r => r.Known ctx c
  | .deferredTransfer d => d.transfer.sender.Known ctx
  | .communityRoot r => r.Known ctx c
  | .redeemDeferredTransfer r => r.transfer.sender.Known ctx
  | .communityFriendsUpdate _ => True
  | .timeoutDeferredTransfer _ => True
  | .none => True

namespace TransactionBody

/-- The communities, keys and name hashes that the body names are known. -/
structure Known (ctx : AppContext) (b : TransactionBody) : Prop where
  other : ∀ other ∈ b.otherCommunityIdIndex, ctx.KnowsCommunity other
  specific : b.specific.Known ctx b.communityIdIndex

variable {b : TransactionBody}

theorem specific_roundTrip (hb : b.specific.Known ctx b.communityIdIndex)
    (hspecific : b.specific ≠ .none) :
    ∃ g, b.specificToGrdw ctx = .ok g ∧
      Method.Returns (specificFromGrdw b.communityIdIndex g) ctx b.specific ctx := by
  obtain ⟨memos, createdAt, type, c, other, specific⟩ := b
  cases specific with
  | none => exact absurd rfl hspecific
  | creation creation =>
    obtain ⟨g, hwrite, hread⟩ := TransferAmount.Known.roundTrip hb c
    refine ⟨.creation g creation.targetDate, ?_, hread.bind (.pure _ _)⟩
    simp only [specificToGrdw]
    rw [hwrite]
    rfl
  | transfer transfer =>
    obtain ⟨g, hwrite, hread⟩ := GradidoTransfer.roundTrip hb c
    refine ⟨.transfer g, ?_, hread.bind (.pure _ _)⟩
    simp only [specificToGrdw]
    rw [hwrite]
    rfl
  | communityFriendsUpdate colorFusion => exact ⟨_, rfl, .pure _ _⟩
  | registerAddress r =>
    obtain ⟨g, hwrite, hread⟩ := RegisterAddressTx.Known.roundTrip hb
    refine ⟨.registerAddress g, ?_, hread.bind (.pure _ _)⟩
    simp only [specificToGrdw]
    rw [hwrite]
    rfl
  | deferredTransfer d =>
    obtain ⟨g, hwrite, hread⟩ := GradidoTransfer.roundTrip hb c
    refine ⟨.deferredTransfer g d.timeoutDuration, ?_, hread.bind (.pure _ _)⟩
    simp only [specificToGrdw]
    rw [hwrite]
    rfl
  | communityRoot r =>
    obtain ⟨g, hwrite, hread⟩ := CommunityRootTx.Known.roundTrip hb
    refine ⟨.communityRoot g, ?_, hread.bind (.pure _ _)⟩
    simp only [specificToGrdw]
    rw [hwrite]
    rfl
  | redeemDeferredTransfer r =>
    obtain ⟨g, hwrite, hread⟩ := GradidoTransfer.roundTrip hb c
    refine ⟨.redeemDeferredTransfer r.deferredTransferTransactionNr g, ?_,
      hread.bind (.pure _ _)⟩
    simp only [specificToGrdw]
    rw [hwrite]
    rfl
  | timeoutDeferredTransfer nr => exact ⟨_, rfl, .pure _ _⟩

theorem otherCommunity_roundTrip (hb : ∀ other ∈ b.otherCommunityIdIndex,
    ctx.KnowsCommunity other) :
    ∃ g, b.otherCommunityToGrdw ctx = .ok g ∧
      Method.Returns (otherCommunityFromGrdw g) ctx b.otherCommunityIdIndex ctx := by
  unfold otherCommunityToGrdw
  cases hother : b.otherCommunityIdIndex with
  | none => exact ⟨none, rfl, .pure _ _⟩
  | some other =>
    obtain ⟨uuid, hdata, _⟩ := hb other hother
    refine ⟨some uuid, ?_, Method.Returns.bind ((hb other hother).returns hdata) (.pure _ _)⟩
    simp only
    rw [getCommunityId_eq_ok hdata]
    rfl

/-- A known body with at most 255 memos is read back as it was written. -/
theorem returns_fromGrdw (hb : b.Known ctx) (hmemos : b.memos.length ≤ 255)
    (hspecific : b.specific ≠ .none) :
    ∃ g, b.toGrdw core ctx = .ok g ∧
      Method.Returns (fromGrdw g b.communityIdIndex) ctx b ctx := by
  obtain ⟨other, hwriteOther, hreadOther⟩ := otherCommunity_roundTrip hb.other
  obtain ⟨specific, hwrite, hread⟩ := specific_roundTrip hb.specific hspecific
  refine ⟨⟨b.memos.length, b.memos.map (fun memo => ⟨memo.keyType, memo.memo⟩), b.createdAt,
    b.type, other, specific⟩, ?_, ?_⟩
  · have hcount : (if b.memos.length ≠ 0 then core.reserveMemos b.memos.length else 0) =
        b.memos.length := by
      by_cases hnil : b.memos.length = 0
      · rw [if_neg (not_not_intro hnil), hnil]
      · rw [if_pos hnil, core.reserveMemos_eq _ hmemos]
    unfold toGrdw
    simp only [hcount]
    rw [hwriteOther, ok_bind, hwrite]
    rfl
  · have hmemos' : ((b.memos.map (fun memo =>
        (⟨memo.keyType, memo.memo⟩ : GrdwEncryptedMemo))).take b.memos.length).map
        (fun memo => (⟨memo.type, memo.memo⟩ : EncryptedMemo)) = b.memos := by
      rw [List.take_of_length_le (by rw [List.length_map]), List.map_map]
      exact List.map_id _
    unfold fromGrdw
    simp only [hmemos']
    exact hreadOther.bind (hread.bind (.pure _ _))

end TransactionBody

/-! ### Readers settle -/

section Settled

variable {α β : Type}

/-- The method gives the same in every later context. -/
abbrev Settles (m : AppM α) : Prop := Method.Settled AppContext.Later m

theorem settles_pure (a : α) : Settles (pure a : AppM α) := .pure AppContext.Later.refl a

theorem Settles.bind {m : AppM α} {f : α → AppM β} (hm : Settles m) (hf : ∀ a, Settles (f a)) :
    Settles (m >>= f) :=
  Method.Settled.bind (fun _ _ _ => AppContext.Later.trans) hm hf

theorem settles_forEach {f : α → AppM β} (hf : ∀ a, Settles (f a)) (l : List α) :
    Settles (Method.forEach f l) :=
  Method.Settled.forEach AppContext.Later.refl (fun _ _ _ => AppContext.Later.trans) hf l

theorem settles_transferAmount (g : GrdwTransferAmount) : Settles (TransferAmount.fromGrdw g) := by
  unfold TransferAmount.fromGrdw
  refine .bind (AppContext.settled_getOrAddCommunityIdIndex _) (fun coin => ?_)
  unfold TransferAmount.make
  split_ifs
  · refine .bind (Method.Settled.read AppContext.Later.refl ?_) (fun _ => settles_pure _)
    intro s uuid u hs hlater
    unfold AppContext.getCommunityId at *
    rw [orThrow_eq_ok] at *
    exact hlater.communityIds.data hs
  · exact .raise _

theorem settles_transfer (g : GrdwGradidoTransfer) : Settles (GradidoTransfer.fromGrdw g) := by
  unfold GradidoTransfer.fromGrdw
  refine .bind (settles_transferAmount _) (fun sender => ?_)
  unfold GradidoTransfer.make
  split_ifs
  · exact settles_pure _
  · exact .raise _

theorem settles_registerAddress (g : GrdwRegisterAddress) (c : UInt32) :
    Settles (RegisterAddressTx.fromGrdw g c) := by
  unfold RegisterAddressTx.fromGrdw
  refine .bind (AppContext.settled_getOrAddUserNameHashIndex _) (fun nameHash => ?_)
  refine .bind (AppContext.settled_getOrAddPublicKeyIndex _ _) (fun user => ?_)
  refine .bind (AppContext.settled_getOrAddPublicKeyIndex _ _) (fun account => ?_)
  exact settles_pure _

theorem settles_communityRoot (g : GrdwCommunityRoot) (c : UInt32) :
    Settles (CommunityRootTx.fromGrdw g c) := by
  unfold CommunityRootTx.fromGrdw
  refine .bind (AppContext.settled_getOrAddPublicKeyIndex _ _) (fun key => ?_)
  refine .bind (AppContext.settled_getOrAddPublicKeyIndex _ _) (fun gmw => ?_)
  refine .bind (AppContext.settled_getOrAddPublicKeyIndex _ _) (fun auf => ?_)
  exact settles_pure _

theorem settles_specific (c : UInt32) (g : GrdwSpecific) :
    Settles (TransactionBody.specificFromGrdw c g) := by
  cases g with
  | none => exact .raise _
  | creation recipient targetDate =>
    exact .bind (settles_transferAmount recipient) (fun _ => settles_pure _)
  | transfer t => exact .bind (settles_transfer t) (fun _ => settles_pure _)
  | communityFriendsUpdate colorFusion => exact settles_pure _
  | registerAddress r => exact .bind (settles_registerAddress r c) (fun _ => settles_pure _)
  | deferredTransfer t timeoutDuration =>
    exact .bind (settles_transfer t) (fun _ => settles_pure _)
  | communityRoot r => exact .bind (settles_communityRoot r c) (fun _ => settles_pure _)
  | redeemDeferredTransfer nr t => exact .bind (settles_transfer t) (fun _ => settles_pure _)
  | timeoutDeferredTransfer nr => exact settles_pure _

theorem settles_transactionBody (g : GrdwTransactionBody) (c : UInt32) :
    Settles (TransactionBody.fromGrdw g c) := by
  unfold TransactionBody.fromGrdw
  refine .bind ?_ (fun other => .bind (settles_specific c _) (fun specific => settles_pure _))
  cases g.otherCommunityUuid with
  | none => exact settles_pure _
  | some uuid =>
    exact .bind (AppContext.settled_getOrAddCommunityIdIndex uuid) (fun _ => settles_pure _)

theorem settles_getTransactionBody (tx : GradidoTransaction) :
    Settles (tx.getTransactionBody core) := by
  unfold GradidoTransaction.getTransactionBody
  cases tx.bodyBytes with
  | none => exact .raise _
  | some bodyBytes =>
    by_cases hempty : isEmpty bodyBytes = true
    · simp only [if_pos hempty]
      exact .raise _
    · simp only [if_neg hempty]
      cases core.decode bodyBytes with
      | none => exact .raise _
      | some body => exact .orRaise (settles_transactionBody body _) _

theorem settles_toPublicKeyIndex (c : UInt32) (key : PublicKey) :
    Settles (toPublicKeyIndex c key) :=
  .bind (AppContext.settled_getOrAddPublicKeyIndex c key) (fun _ => settles_pure _)

theorem settles_fillFromGradidoTransfer (b : TransactionBody) (t : GradidoTransfer) :
    Settles (b.fillFromGradidoTransfer t) := by
  have hindices : ∀ c c' : UInt32, Settles (do
      let sender ← toPublicKeyIndex c t.sender.publicKey.1
      let recipient ← toPublicKeyIndex c' t.recipient.1
      return [sender, recipient]) := fun c c' =>
    .bind (settles_toPublicKeyIndex c _) (fun _ =>
      .bind (settles_toPublicKeyIndex c' _) (fun _ => settles_pure _))
  unfold TransactionBody.fillFromGradidoTransfer
  cases b.type with
  | localGroup => exact hindices _ _
  | inbound =>
    cases b.otherCommunityIdIndex with
    | none => exact .raise _
    | some other => exact hindices _ _
  | outbound =>
    cases b.otherCommunityIdIndex with
    | none => exact .raise _
    | some other => exact hindices _ _
  | cross =>
    cases b.otherCommunityIdIndex with
    | none => exact .raise _
    | some other => exact .raise _

theorem settles_bodyAddresses (b : TransactionBody) : Settles b.getInvolvedAddressIndices := by
  unfold TransactionBody.getInvolvedAddressIndices
  cases b.specific with
  | creation c => exact .bind (settles_toPublicKeyIndex _ _) (fun _ => settles_pure _)
  | transfer t => exact settles_fillFromGradidoTransfer b t
  | deferredTransfer d => exact settles_fillFromGradidoTransfer b d.transfer
  | redeemDeferredTransfer r => exact settles_fillFromGradidoTransfer b r.transfer
  | _ => exact settles_pure _

end Settled

/-! ### Confirmed transactions -/

namespace ConfirmedTransaction

/-- The constructor settles. -/
theorem settled_make (id : ℕ) (tx : GradidoTransaction) (confirmedAt : Timestamp)
    (runningHash : GenericHash) (ledgerAnchor : CompactLedgerAnchor)
    (accountBalances : List AccountBalance) (balanceDerivationType : BalanceDerivation) :
    Settles (make core id tx confirmedAt runningHash ledgerAnchor accountBalances
      balanceDerivationType) := by
  unfold make getInvolvedAddressIndices
  refine .bind ?_ (fun pubkeyIndices => settles_pure _)
  refine .bind (settles_getTransactionBody tx) (fun body => ?_)
  refine .bind (settles_bodyAddresses body) (fun involved => ?_)
  refine .bind (settles_forEach (settles_toPublicKeyIndex _) _) (fun signers => ?_)
  refine .bind (settles_forEach (settles_toPublicKeyIndex _) _) (fun accounts => ?_)
  exact settles_pure _

/-- The transaction was made by its constructor, in the context or in an earlier one. -/
def Constructed (core : GrdwCore) (ctx : AppContext) (t : ConfirmedTransaction) : Prop :=
  ∃ s s', Method.Returns (make core t.id t.gradidoTransaction t.confirmedAt t.runningHash
    t.ledgerAnchor t.accountBalances t.balanceDerivationType) s t s' ∧ AppContext.Later s' ctx

variable {t : ConfirmedTransaction}

theorem Constructed.returns_make (ht : t.Constructed core ctx) :
    Method.Returns (make core t.id t.gradidoTransaction t.confirmedAt t.runningHash
      t.ledgerAnchor t.accountBalances t.balanceDerivationType) ctx t ctx := by
  obtain ⟨s, s', hmake, hlater⟩ := ht
  exact (settled_make _ _ _ _ _ _ _ s t s' hmake).2 ctx hlater

/-- Body bytes that are missing decode to no body. -/
theorem Constructed.bodyBytes (ht : t.Constructed core ctx) :
    ∃ bytes, t.gradidoTransaction.bodyBytes = some bytes := by
  have hmake := ht.returns_make
  unfold make getInvolvedAddressIndices at hmake
  obtain ⟨_, _, hindices, _⟩ := Method.returns_bind.1 hmake
  obtain ⟨_, _, hbody, _⟩ := Method.returns_bind.1 hindices
  unfold GradidoTransaction.getTransactionBody at hbody
  cases hbytes : t.gradidoTransaction.bodyBytes with
  | none =>
    simp only [hbytes] at hbody
    exact absurd hbody Method.not_returns_raise
  | some bytes => exact ⟨bytes, rfl⟩

theorem fromGrdw_gradidoTransaction {tx : GradidoTransaction} {bytes : Block}
    (hbytes : tx.bodyBytes = some bytes) :
    GradidoTransaction.fromGrdw (tx.toGrdw core) tx.communityIdIndex = .ok tx := by
  have hcount : (if tx.signatureMap.signaturePairs.length ≠ 0 then
      core.reserveSigMap tx.signatureMap.signaturePairs.length else 0) =
        tx.signatureMap.signaturePairs.length := by
    by_cases hnil : tx.signatureMap.signaturePairs.length = 0
    · rw [if_neg (not_not_intro hnil), hnil]
    · rw [if_pos hnil, core.reserveSigMap_eq]
  have hpairs : ((tx.signatureMap.signaturePairs.map SignaturePair.toGrdw).take
      tx.signatureMap.signaturePairs.length).map SignaturePair.fromGrdw =
        tx.signatureMap.signaturePairs := by
    rw [List.take_of_length_le (by rw [List.length_map]), List.map_map]
    exact List.map_id _
  have hpush : SignatureMap.empty.pushAll tx.signatureMap.signaturePairs = .ok tx.signatureMap :=
    SignatureMap.pushAll_eq rfl
  unfold GradidoTransaction.fromGrdw GradidoTransaction.toGrdw
  simp only [hcount, hpairs]
  rw [hpush, ok_bind, GrdwLedgerAnchor.fromGrdw_ofAnchor, hbytes]
  cases tx
  cases hbytes
  rfl

/-- The balances, when their coins are known. -/
theorem balances_roundTrip {balances : List AccountBalance}
    (h : ∀ b ∈ balances, ctx.KnowsCommunity b.coinCommunityIdIndex) :
    ∃ gs, balancesToGrdw ctx balances = .ok gs ∧ gs.length = balances.length ∧
      Method.Returns (Method.forEach AccountBalance.fromGrdw gs) ctx balances ctx := by
  induction balances with
  | nil => exact ⟨[], rfl, rfl, .pure _ _⟩
  | cons b bs ih =>
    have hb := h b List.mem_cons_self
    have hknown := hb
    obtain ⟨uuid, hdata, _⟩ := hknown
    obtain ⟨gs, hwrite, hlength, hread⟩ := ih (fun b' hb' => h b' (List.mem_cons_of_mem b hb'))
    refine ⟨⟨b.publicKey, b.balance, uuid⟩ :: gs, ?_, by rw [List.length_cons, List.length_cons,
      hlength], ?_⟩
    · unfold balancesToGrdw AccountBalance.toGrdw
      rw [getCommunityId_eq_ok hdata]
      simp only [ok_bind, hwrite]
      rfl
    · unfold Method.forEach
      refine Method.Returns.bind (Method.Returns.bind (hb.returns hdata) (.pure _ _)) ?_
      exact hread.bind (.pure _ _)

/-- A confirmed transaction with at most 255 balances is read back as it was written. -/
theorem returns_fromGrdw (ht : t.Constructed core ctx) (hlength : t.accountBalances.length ≤ 255)
    (hcoins : ∀ b ∈ t.accountBalances, ctx.KnowsCommunity b.coinCommunityIdIndex) :
    ∃ g, t.toGrdw core ctx .zero = .ok g ∧
      Method.Returns (fromGrdw core g t.gradidoTransaction.communityIdIndex) ctx t ctx := by
  obtain ⟨gs, hwrite, hsame, hread⟩ := balances_roundTrip hcoins
  obtain ⟨bytes, hbytes⟩ := ht.bodyBytes
  refine ⟨⟨t.id, t.gradidoTransaction.toGrdw core, t.confirmedAt, t.runningHash,
    GrdwLedgerAnchor.ofAnchor t.ledgerAnchor.1, gs.length, gs, t.balanceDerivationType⟩, ?_, ?_⟩
  · unfold toGrdw
    rw [hwrite, ok_bind]
    by_cases hnil : t.accountBalances.length = 0
    · cases (List.length_eq_zero_iff.1 (hsame.trans hnil))
      simp only [hnil]
      rfl
    · simp only [if_pos hnil, core.reserveAccountBalances_eq _ hlength, hsame]
      rfl
  · unfold fromGrdw
    simp only [List.take_length]
    refine hread.bind (Method.Returns.readBind (fromGrdw_gradidoTransaction hbytes) ?_)
    refine Method.Returns.readBind (GrdwLedgerAnchor.fromGrdw_ofAnchor _) ?_
    exact ht.returns_make

end ConfirmedTransaction

/-! ### The adapters -/

/-- The body can be written, and reading gives it again. -/
def TransactionBody.ReadsBack (core : GrdwCore) (ctx : AppContext) (b : TransactionBody) : Prop :=
  ∃ g, b.toGrdw core ctx = .ok g ∧ Method.Returns (fromGrdw g b.communityIdIndex) ctx b ctx

/-- The transaction can be written, and reading gives it again. -/
def ConfirmedTransaction.ReadsBack (core : GrdwCore) (ctx : AppContext)
    (t : ConfirmedTransaction) : Prop :=
  ∃ g, t.toGrdw core ctx .zero = .ok g ∧
    Method.Returns (fromGrdw core g t.gradidoTransaction.communityIdIndex) ctx t ctx

/-- Every known body with a specific transaction and at most 255 memos, and every confirmed
transaction with at most 255 balances in known coins, is read back as it was written. -/
theorem adapters_readBack (core : GrdwCore) (ctx : AppContext) :
    (∀ b : TransactionBody, b.Known ctx → b.memos.length ≤ 255 → b.transactionType ≠ .none →
      b.ReadsBack core ctx) ∧
    (∀ t : ConfirmedTransaction, t.Constructed core ctx → t.accountBalances.length ≤ 255 →
      (∀ b ∈ t.accountBalances, ctx.KnowsCommunity b.coinCommunityIdIndex) →
      t.ReadsBack core ctx) := by
  constructor
  · intro b hb hmemos htype
    have hspecific : b.specific ≠ .none := by
      intro hnone
      apply htype
      unfold TransactionBody.transactionType
      rw [hnone]
    exact TransactionBody.returns_fromGrdw hb hmemos hspecific
  · intro t ht hlength hcoins
    exact ConfirmedTransaction.returns_fromGrdw ht hlength hcoins

namespace Sample

/-- Bytes that are all the same. -/
def bytes (n : ℕ) (b : UInt8) : Bytes n := ⟨List.replicate n b, List.length_replicate⟩

/-- A key or name hash that is not empty. -/
def key : NonEmpty 32 := ⟨bytes 32 1, by decide⟩

/-- Another key. -/
def otherKey : NonEmpty 32 := ⟨bytes 32 2, by decide⟩

/-- Two communities; the first has a blockchain that knows two keys. -/
def context : AppContext where
  communityIdsName := "communityIds"
  userNameHashsName := "userNameHashs"
  communityIds := ⟨[bytes 16 1, bytes 16 2], by decide⟩
  userNameHashs := ⟨[key], by decide⟩
  communityContexts := [⟨bytes 16 1, 1, some ⟨[key, otherKey], by decide⟩⟩, ⟨bytes 16 2, 2, none⟩]

/-- A decoder that takes every text for the registration of an address. -/
def registrations : GrdwCore where
  reserveMemos n := n
  reserveAccountBalances n := n
  reserveSigMap n := n
  decode _ := some ⟨0, [], ⟨5, 0⟩, .localGroup, none,
    .registerAddress ⟨key.1, .communityHuman, 1, key.1, otherKey.1⟩⟩
  reserveMemos_eq _ _ := rfl
  reserveAccountBalances_eq _ _ := rfl
  reserveSigMap_eq _ := rfl

/-- A body in which no transaction was chosen. -/
def noneBody : TransactionBody := ⟨[], ⟨5, 0⟩, .localGroup, 1, none, .none⟩

/-- The registration of an address with a memo, for another community. -/
def registration : TransactionBody :=
  ⟨[⟨.plain, [104, 105]⟩], ⟨5, 7⟩, .outbound, 1, some 2,
    .registerAddress ⟨.communityHuman, 1, 1, 1, 2⟩⟩

/-- A signed registration. -/
def signed : GradidoTransaction where
  signatureMap := ⟨[⟨key.1, bytes 64 9⟩], by decide⟩
  bodyBytes := some [1]
  communityIdIndex := 1
  pairingLedgerAnchor := ⟨.nodeTrigger 2, GrdwLedgerAnchor.compact_of_ne rfl⟩

/-- A confirmed registration with a Hiero anchor and a balance in the given coin. -/
def confirmed (coin : UInt32) : ConfirmedTransaction where
  id := 3
  gradidoTransaction := signed
  confirmedAt := ⟨6, 1⟩
  runningHash := bytes 32 4
  ledgerAnchor := ⟨.hieroTransactionId 6 1 1001, by
    intro seconds nanos accountNum h
    cases h
    decide⟩
  accountBalances := [⟨otherKey.1, 100, coin⟩]
  balanceDerivationType := .nodeComputed
  pubkeyIndices := [⟨1, 2⟩, ⟨1, 1⟩]

theorem confirmed_constructed (coin : UInt32) :
    (confirmed coin).Constructed registrations context := by
  have hkeys : [(⟨otherKey.1, 100, coin⟩ : AccountBalance)].map AccountBalance.publicKey =
      [otherKey.1] := rfl
  have hindices : ConfirmedTransaction.getInvolvedAddressIndices registrations signed
      [⟨otherKey.1, 100, coin⟩] context = (.ok [⟨1, 2⟩, ⟨1, 1⟩], context) := by
    unfold ConfirmedTransaction.getInvolvedAddressIndices
    rw [hkeys]
    rfl
  exact ⟨context, context, Method.Returns.bind hindices (.pure _ _), .refl _⟩

theorem registration_known : registration.Known context where
  other := by
    rintro other ⟨⟩
    exact ⟨bytes 16 2, rfl, by decide⟩
  specific := ⟨⟨key.1, rfl⟩, ⟨otherKey.1, rfl⟩, ⟨key, rfl⟩⟩

/-- A body without a specific transaction and a confirmed transaction with a balance in an unknown
coin are refused by `toGrdw`. -/
theorem noneBody_not_readsBack :
    (noneBody.Known context ∧ noneBody.memos.length ≤ 255 ∧
      ¬noneBody.ReadsBack registrations context) ∧
    ((confirmed 7).Constructed registrations context ∧
      (confirmed 7).accountBalances.length ≤ 255 ∧
      ¬(confirmed 7).ReadsBack registrations context) := by
  refine ⟨⟨⟨by rintro other ⟨⟩, trivial⟩, by decide, ?_⟩, confirmed_constructed 7, by decide, ?_⟩
  · rintro ⟨g, hwrite, _⟩
    cases hwrite
  · rintro ⟨g, hwrite, _⟩
    cases hwrite

theorem registration_readsBack :
    registration.ReadsBack registrations context ∧
      (confirmed 1).ReadsBack registrations context := by
  refine ⟨(adapters_readBack registrations context).1 registration registration_known (by decide)
      (by decide), (adapters_readBack registrations context).2 (confirmed 1)
      (confirmed_constructed 1) (by decide) ?_⟩
  intro b hb
  cases List.mem_singleton.1 hb
  exact ⟨bytes 16 1, rfl, by decide⟩

end Sample

end Gradido.Wire
