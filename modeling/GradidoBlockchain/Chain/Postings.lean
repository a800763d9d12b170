import GradidoBlockchain.Chain.Confirmed

/-!
# New balances

`Computed` says once what `calculateAccountBalances` can return for each kind
of transaction: which keys get a new balance, and from which amount it was
computed.  Everything that is proved about the balances of a transaction goes
by its cases.
-/

namespace Gradido

open Checked

namespace ConfirmTransaction

/-- A new balance is the previous one plus the amount; a debit that exceeds it by at most a
hundred cents leaves zero. -/
theorem addToBalance_spec {previous amount balance : ℤ}
    (h : addToBalance previous amount = .ok balance) :
    0 ≤ balance ∧ previous + amount ≤ balance ∧ balance ≤ previous + amount + 100 ∧
      (0 ≤ previous + amount → balance = previous + amount) := by
  unfold addToBalance at h
  dsimp only at h
  split_ifs at h with hneg hlimit
  · rw [Except.ok.injEq] at h
    omega
  · rw [Except.ok.injEq] at h
    omega

theorem calculateAccountBalance_spec {env : Env} {s : InMemory} {confirmedAt : Timestamp}
    {publicKey coin : ℕ} {amount : ℤ} {b : AccountBalance}
    (h : calculateAccountBalance env s confirmedAt publicKey amount coin = .ok b) :
    b.publicKey = publicKey ∧ b.coinCommunityIdIndex = coin ∧
      ∃ previous, previousDecayedAccountBalance env s confirmedAt publicKey coin = .ok previous ∧
        addToBalance previous amount = .ok b.balance := by
  simp only [calculateAccountBalance, bind_eq_ok, pure_eq_ok] at h
  obtain ⟨previous, hprevious, balance, hbalance, rfl⟩ := h
  exact ⟨rfl, rfl, previous, hprevious, hbalance⟩

theorem accountBalanceFromPublicKeyIndex_spec {env : Env} {s : InMemory} {confirmedAt : Timestamp}
    {publicKeyIndex coin : ℕ} {amount : ℤ} {b : AccountBalance}
    (h : accountBalanceFromPublicKeyIndex env s confirmedAt publicKeyIndex amount coin = .ok b) :
    b.publicKey = env.dict.key s.mCommunityIdIndex publicKeyIndex ∧
      b.coinCommunityIdIndex = coin ∧
      ∃ previous, previousDecayedCompactBalance env s confirmedAt
          ⟨s.mCommunityIdIndex, publicKeyIndex⟩ coin = .ok previous ∧
        addToBalance previous amount = .ok b.balance := by
  simp only [accountBalanceFromPublicKeyIndex, bind_eq_ok, pure_eq_ok] at h
  obtain ⟨previous, hprevious, balance, hbalance, rfl⟩ := h
  exact ⟨rfl, rfl, previous, hprevious, hbalance⟩

/-- A settlement of the deferred transfer `d` in `entry`, which is worth `decayed` by now. -/
structure Settling (env : Env) (s : InMemory) (confirmedAt : Timestamp) (nr : ℕ)
    (entry : ConfirmedTransaction) (d : GradidoDeferredTransfer) (decayed : ℤ) : Prop where
  byNr : s.mTransactionsByNr nr = some entry
  deferred : entry.body.specific = .deferredTransfer d
  worth : env.calculateDecay d.transfer.sender.amount entry.confirmedAt.getAsTimepoint
    confirmedAt.getAsTimepoint = .ok decayed

/-- What `calculateAccountBalances` returns, by the kind of transaction. -/
inductive Computed (env : Env) (s : InMemory) (confirmedAt : Timestamp) (body : TransactionBody) :
    List AccountBalance → Prop
  | communityRoot {r : CommunityRoot} : body.specific = .communityRoot r →
      Computed env s confirmedAt body (communityRootBalances s r)
  | registerAddress {r : RegisterAddress} : body.specific = .registerAddress r →
      Computed env s confirmedAt body (registerAddressBalances s r)
  | creation {c : GradidoCreation} {first : ConfirmedTransaction} {root : CommunityRoot}
      {recipient gmw auf : AccountBalance} : body.specific = .creation c →
      s.findOne env .FIRST_TRANSACTION = .ok (some first) →
      first.body.specific = .communityRoot root →
      calculateAccountBalance env s confirmedAt c.recipient.publicKey c.recipient.amount
        c.recipient.coinCommunityIdIndex = .ok recipient →
      accountBalanceFromPublicKeyIndex env s confirmedAt
        (env.dict.index first.gradidoTransaction.communityIdIndex root.gmwPublicKey)
        c.recipient.amount c.recipient.coinCommunityIdIndex = .ok gmw →
      accountBalanceFromPublicKeyIndex env s confirmedAt
        (env.dict.index first.gradidoTransaction.communityIdIndex root.aufPublicKey)
        c.recipient.amount c.recipient.coinCommunityIdIndex = .ok auf →
      Computed env s confirmedAt body [recipient, gmw, auf]
  | transfer {t : GradidoTransfer} {sender recipient : AccountBalance} :
      body.specific = .transfer t → body.type = .localGroup →
      calculateAccountBalance env s confirmedAt t.sender.publicKey (-t.sender.amount)
        t.sender.coinCommunityIdIndex = .ok sender →
      calculateAccountBalance env s confirmedAt t.recipient t.sender.amount
        t.sender.coinCommunityIdIndex = .ok recipient →
      Computed env s confirmedAt body [sender, recipient]
  | outboundTransfer {t : GradidoTransfer} {sender : AccountBalance} :
      body.specific = .transfer t → body.type = .outbound →
      calculateAccountBalance env s confirmedAt t.sender.publicKey (-t.sender.amount)
        t.sender.coinCommunityIdIndex = .ok sender →
      Computed env s confirmedAt body [sender]
  | inboundTransfer {t : GradidoTransfer} {recipient : AccountBalance} :
      body.specific = .transfer t → body.type = .inbound →
      calculateAccountBalance env s confirmedAt t.recipient t.sender.amount
        t.sender.coinCommunityIdIndex = .ok recipient →
      Computed env s confirmedAt body [recipient]
  | deferredTransfer {d : GradidoDeferredTransfer} {sender recipient : AccountBalance} :
      body.specific = .deferredTransfer d →
      calculateAccountBalance env s confirmedAt d.transfer.sender.publicKey
        (-d.transfer.sender.amount) d.transfer.sender.coinCommunityIdIndex = .ok sender →
      calculateAccountBalance env s confirmedAt d.transfer.recipient d.transfer.sender.amount
        d.transfer.sender.coinCommunityIdIndex = .ok recipient →
      Computed env s confirmedAt body [sender, recipient]
  | redeemBack {r : GradidoRedeemDeferredTransfer} {entry : ConfirmedTransaction}
      {d : GradidoDeferredTransfer} {decayed : ℤ} {recipient : AccountBalance} :
      body.specific = .redeemDeferredTransfer r →
      Settling env s confirmedAt r.deferredTransferTransactionNr entry d decayed →
      r.transfer.recipient = d.transfer.sender.publicKey →
      calculateAccountBalance env s confirmedAt r.transfer.recipient decayed
        r.transfer.sender.coinCommunityIdIndex = .ok recipient →
      Computed env s confirmedAt body
        [⟨r.transfer.sender.publicKey, 0, r.transfer.sender.coinCommunityIdIndex⟩, recipient]
  | redeem {r : GradidoRedeemDeferredTransfer} {entry : ConfirmedTransaction}
      {d : GradidoDeferredTransfer} {decayed : ℤ} {recipient sender : AccountBalance} :
      body.specific = .redeemDeferredTransfer r → body.type = .localGroup →
      Settling env s confirmedAt r.deferredTransferTransactionNr entry d decayed →
      r.transfer.recipient ≠ d.transfer.sender.publicKey →
      calculateAccountBalance env s confirmedAt r.transfer.recipient r.transfer.sender.amount
        r.transfer.sender.coinCommunityIdIndex = .ok recipient →
      calculateAccountBalance env s confirmedAt d.transfer.sender.publicKey
        (decayed - r.transfer.sender.amount) r.transfer.sender.coinCommunityIdIndex = .ok sender →
      Computed env s confirmedAt body
        [⟨r.transfer.sender.publicKey, 0, r.transfer.sender.coinCommunityIdIndex⟩, recipient,
          sender]
  | outboundRedeem {r : GradidoRedeemDeferredTransfer} {entry : ConfirmedTransaction}
      {d : GradidoDeferredTransfer} {decayed : ℤ} {sender : AccountBalance} :
      body.specific = .redeemDeferredTransfer r → body.type = .outbound →
      Settling env s confirmedAt r.deferredTransferTransactionNr entry d decayed →
      r.transfer.recipient ≠ d.transfer.sender.publicKey →
      calculateAccountBalance env s confirmedAt d.transfer.sender.publicKey
        (decayed - r.transfer.sender.amount) r.transfer.sender.coinCommunityIdIndex = .ok sender →
      Computed env s confirmedAt body
        [⟨r.transfer.sender.publicKey, 0, r.transfer.sender.coinCommunityIdIndex⟩, sender]
  | inboundRedeem {r : GradidoRedeemDeferredTransfer} {entry : ConfirmedTransaction}
      {d : GradidoDeferredTransfer} {decayed : ℤ} {recipient : AccountBalance} :
      body.specific = .redeemDeferredTransfer r → body.type = .inbound →
      Settling env s confirmedAt r.deferredTransferTransactionNr entry d decayed →
      r.transfer.recipient ≠ d.transfer.sender.publicKey →
      calculateAccountBalance env s confirmedAt r.transfer.recipient r.transfer.sender.amount
        r.transfer.sender.coinCommunityIdIndex = .ok recipient →
      Computed env s confirmedAt body [recipient]
  | timeout {nr : ℕ} {entry : ConfirmedTransaction} {d : GradidoDeferredTransfer} {decayed : ℤ}
      {sender : AccountBalance} : body.specific = .timeoutDeferredTransfer nr →
      Settling env s confirmedAt nr entry d decayed →
      calculateAccountBalance env s confirmedAt d.transfer.sender.publicKey decayed
        d.transfer.sender.coinCommunityIdIndex = .ok sender →
      Computed env s confirmedAt body
        [sender, ⟨d.transfer.recipient, 0, d.transfer.sender.coinCommunityIdIndex⟩]
  | nothing : body.transactionType = .none ∨ body.transactionType = .communityFriendsUpdate →
      Computed env s confirmedAt body []

section Computed

variable {env : Env} {s : InMemory} {confirmedAt : Timestamp} {body : TransactionBody}
  {balances : List AccountBalance}

theorem computed_of_transferBalances {t : GradidoTransfer} (ht : body.specific = .transfer t)
    (h : transferBalances env s confirmedAt body.type t = .ok balances) :
    Computed env s confirmedAt body balances := by
  unfold transferBalances at h
  dsimp only at h
  split at h
  · next htype =>
    simp only [bind_eq_ok, pure_eq_ok] at h
    obtain ⟨sender, hsender, recipient, hrecipient, rfl⟩ := h
    exact .transfer ht htype hsender hrecipient
  · next htype =>
    simp only [bind_eq_ok, pure_eq_ok] at h
    obtain ⟨sender, hsender, rfl⟩ := h
    exact .outboundTransfer ht htype hsender
  · next htype =>
    simp only [bind_eq_ok, pure_eq_ok] at h
    obtain ⟨recipient, hrecipient, rfl⟩ := h
    exact .inboundTransfer ht htype hrecipient
  · simp at h

theorem computed_of_redeemBalances {r : GradidoRedeemDeferredTransfer}
    (hr : body.specific = .redeemDeferredTransfer r)
    (h : redeemDeferredTransferBalances env s confirmedAt body.type r = .ok balances) :
    Computed env s confirmedAt body balances := by
  simp only [redeemDeferredTransferBalances, bind_eq_ok, orThrow_eq_ok,
    TransactionBody.getDeferredTransfer_eq_some] at h
  obtain ⟨entry, hentry, d, hd, decayed, hdecayed, h⟩ := h
  have hsettling : Settling env s confirmedAt r.deferredTransferTransactionNr entry d decayed :=
    ⟨hentry, hd, hdecayed⟩
  split_ifs at h with hback
  · simp only [bind_eq_ok, pure_eq_ok] at h
    obtain ⟨recipient, hrecipient, rfl⟩ := h
    exact .redeemBack hr hsettling hback hrecipient
  · split at h
    · next htype =>
      simp only [bind_eq_ok, pure_eq_ok] at h
      obtain ⟨recipient, hrecipient, sender, hsender, rfl⟩ := h
      exact .redeem hr htype hsettling hback hrecipient hsender
    · next htype =>
      simp only [bind_eq_ok, pure_eq_ok] at h
      obtain ⟨sender, hsender, rfl⟩ := h
      exact .outboundRedeem hr htype hsettling hback hsender
    · next htype =>
      simp only [bind_eq_ok, pure_eq_ok] at h
      obtain ⟨recipient, hrecipient, rfl⟩ := h
      exact .inboundRedeem hr htype hsettling hback hrecipient
    · simp at h

/-- **What the node computes** for a transaction. -/
theorem computed_of_ok (h : calculateAccountBalances env s confirmedAt body = .ok balances) :
    Computed env s confirmedAt body balances := by
  unfold calculateAccountBalances at h
  cases hspecific : body.specific with
  | communityRoot r =>
    simp only [hspecific, Except.ok.injEq] at h
    exact h ▸ .communityRoot hspecific
  | registerAddress r =>
    simp only [hspecific, Except.ok.injEq] at h
    exact h ▸ .registerAddress hspecific
  | creation c =>
    simp only [hspecific, creationBalances, bind_eq_ok, pure_eq_ok, orThrow_eq_ok,
      TransactionBody.getCommunityRoot_eq_some] at h
    obtain ⟨_, hfirst, first, rfl, root, hroot, recipient, hrecipient, gmw, hgmw, auf, hauf, rfl⟩ :=
      h
    exact .creation hspecific hfirst hroot hrecipient hgmw hauf
  | transfer t =>
    simp only [hspecific] at h
    exact computed_of_transferBalances hspecific h
  | deferredTransfer d =>
    simp only [hspecific, deferredTransferBalances, bind_eq_ok, pure_eq_ok] at h
    obtain ⟨sender, hsender, recipient, hrecipient, rfl⟩ := h
    exact .deferredTransfer hspecific hsender hrecipient
  | redeemDeferredTransfer r =>
    simp only [hspecific] at h
    exact computed_of_redeemBalances hspecific h
  | timeoutDeferredTransfer nr =>
    simp only [hspecific, timeoutDeferredTransferBalances, bind_eq_ok, pure_eq_ok, orThrow_eq_ok,
      TransactionBody.getDeferredTransfer_eq_some] at h
    obtain ⟨entry, hentry, d, hd, decayed, hdecayed, sender, hsender, rfl⟩ := h
    exact .timeout hspecific ⟨hentry, hd, hdecayed⟩ hsender
  | communityFriendsUpdate u =>
    simp only [hspecific, Except.ok.injEq] at h
    exact h ▸ .nothing (.inr (by simp [TransactionBody.transactionType, hspecific]))
  | none =>
    simp only [hspecific, Except.ok.injEq] at h
    exact h ▸ .nothing (.inl (by simp [TransactionBody.transactionType, hspecific]))

namespace Computed

variable (h : Computed env s confirmedAt body balances)

include h

/-- A transaction changes at most three balances. -/
theorem length_le : balances.length ≤ 3 := by
  cases h with
  | registerAddress _ =>
    rw [registerAddressBalances]
    split_ifs <;> simp
  | _ => simp [communityRootBalances]

/-- The new balances are in one coin, and none of them is negative. -/
theorem exists_coin :
    ∃ coin, ∀ b ∈ balances, b.coinCommunityIdIndex = coin ∧ 0 ≤ b.balance := by
  have hkey : ∀ {k coin : ℕ} {amount : ℤ} {b : AccountBalance},
      calculateAccountBalance env s confirmedAt k amount coin = .ok b →
      b.coinCommunityIdIndex = coin ∧ 0 ≤ b.balance := by
    intro k coin amount b hb
    obtain ⟨-, hcoin, previous, -, hbalance⟩ := calculateAccountBalance_spec hb
    exact ⟨hcoin, (addToBalance_spec hbalance).1⟩
  have hindex : ∀ {k coin : ℕ} {amount : ℤ} {b : AccountBalance},
      accountBalanceFromPublicKeyIndex env s confirmedAt k amount coin = .ok b →
      b.coinCommunityIdIndex = coin ∧ 0 ≤ b.balance := by
    intro k coin amount b hb
    obtain ⟨-, hcoin, previous, -, hbalance⟩ := accountBalanceFromPublicKeyIndex_spec hb
    exact ⟨hcoin, (addToBalance_spec hbalance).1⟩
  cases h with
  | communityRoot _ => exact ⟨s.mCommunityIdIndex, by simp [communityRootBalances]⟩
  | registerAddress _ =>
    refine ⟨s.mCommunityIdIndex, ?_⟩
    rw [registerAddressBalances]
    split_ifs <;> simp
  | creation _ _ _ hrecipient hgmw hauf =>
    refine ⟨_, List.forall_mem_cons.2 ⟨hkey hrecipient, ?_⟩⟩
    exact List.forall_mem_cons.2 ⟨hindex hgmw, List.forall_mem_singleton.2 (hindex hauf)⟩
  | transfer _ _ hsender hrecipient =>
    exact ⟨_, List.forall_mem_cons.2 ⟨hkey hsender, List.forall_mem_singleton.2 (hkey hrecipient)⟩⟩
  | outboundTransfer _ _ hsender => exact ⟨_, List.forall_mem_singleton.2 (hkey hsender)⟩
  | inboundTransfer _ _ hrecipient => exact ⟨_, List.forall_mem_singleton.2 (hkey hrecipient)⟩
  | deferredTransfer _ hsender hrecipient =>
    exact ⟨_, List.forall_mem_cons.2 ⟨hkey hsender, List.forall_mem_singleton.2 (hkey hrecipient)⟩⟩
  | redeemBack _ _ _ hrecipient =>
    exact ⟨_, List.forall_mem_cons.2 ⟨⟨rfl, le_rfl⟩, List.forall_mem_singleton.2 (hkey hrecipient)⟩⟩
  | redeem _ _ _ _ hrecipient hsender =>
    refine ⟨_, List.forall_mem_cons.2 ⟨⟨rfl, le_rfl⟩, ?_⟩⟩
    exact List.forall_mem_cons.2 ⟨hkey hrecipient, List.forall_mem_singleton.2 (hkey hsender)⟩
  | outboundRedeem _ _ _ _ hsender =>
    exact ⟨_, List.forall_mem_cons.2 ⟨⟨rfl, le_rfl⟩, List.forall_mem_singleton.2 (hkey hsender)⟩⟩
  | inboundRedeem _ _ _ _ hrecipient => exact ⟨_, List.forall_mem_singleton.2 (hkey hrecipient)⟩
  | timeout _ _ hsender =>
    exact ⟨_, List.forall_mem_cons.2 ⟨hkey hsender, List.forall_mem_singleton.2 ⟨rfl, le_rfl⟩⟩⟩
  | nothing _ => exact ⟨0, by simp⟩

/-- A creation writes a balance of its recipient. -/
theorem of_creation {c : GradidoCreation} (hc : body.specific = .creation c) :
    ∃ recipient others, calculateAccountBalance env s confirmedAt c.recipient.publicKey
        c.recipient.amount c.recipient.coinCommunityIdIndex = .ok recipient ∧
      balances = recipient :: others := by
  cases h with
  | creation hc' _ _ hrecipient _ _ =>
    obtain rfl : _ = c := by simpa [hc] using hc'.symm
    exact ⟨_, _, hrecipient, rfl⟩
  | nothing htype => simp [TransactionBody.transactionType, hc] at htype
  | _ => simp_all

/-- What a deferred transfer writes. -/
theorem of_deferredTransfer {d : GradidoDeferredTransfer}
    (hd : body.specific = .deferredTransfer d) :
    ∃ sender recipient,
      calculateAccountBalance env s confirmedAt d.transfer.sender.publicKey
        (-d.transfer.sender.amount) d.transfer.sender.coinCommunityIdIndex = .ok sender ∧
      calculateAccountBalance env s confirmedAt d.transfer.recipient d.transfer.sender.amount
        d.transfer.sender.coinCommunityIdIndex = .ok recipient ∧
      balances = [sender, recipient] := by
  cases h with
  | deferredTransfer hd' hsender hrecipient =>
    obtain rfl : _ = d := by simpa [hd] using hd'.symm
    exact ⟨_, _, hsender, hrecipient, rfl⟩
  | nothing htype => simp [TransactionBody.transactionType, hd] at htype
  | _ => simp_all

/-- A redeem that is not inbound empties the address of its deferred transfer in its coin. -/
theorem of_redeem {r : GradidoRedeemDeferredTransfer}
    (hr : body.specific = .redeemDeferredTransfer r) (htype : body.type ≠ .inbound) :
    ∃ others, balances =
      ⟨r.transfer.sender.publicKey, 0, r.transfer.sender.coinCommunityIdIndex⟩ :: others := by
  cases h with
  | redeemBack hr' _ _ _ =>
    obtain rfl : _ = r := by simpa [hr] using hr'.symm
    exact ⟨_, rfl⟩
  | redeem hr' _ _ _ _ _ =>
    obtain rfl : _ = r := by simpa [hr] using hr'.symm
    exact ⟨_, rfl⟩
  | outboundRedeem hr' _ _ _ _ =>
    obtain rfl : _ = r := by simpa [hr] using hr'.symm
    exact ⟨_, rfl⟩
  | nothing htype => simp [TransactionBody.transactionType, hr] at htype
  | _ => simp_all

/-- What a timeout writes. -/
theorem of_timeout {nr : ℕ} (hnr : body.specific = .timeoutDeferredTransfer nr) :
    ∃ entry d decayed sender, Settling env s confirmedAt nr entry d decayed ∧
      calculateAccountBalance env s confirmedAt d.transfer.sender.publicKey decayed
        d.transfer.sender.coinCommunityIdIndex = .ok sender ∧
      balances = [sender, ⟨d.transfer.recipient, 0, d.transfer.sender.coinCommunityIdIndex⟩] := by
  cases h with
  | timeout hnr' hsettling hsender =>
    obtain rfl : _ = nr := by simpa [hnr] using hnr'.symm
    exact ⟨_, _, _, _, hsettling, hsender, rfl⟩
  | nothing htype => simp [TransactionBody.transactionType, hnr] at htype
  | _ => simp_all

end Computed

end Computed

end ConfirmTransaction

end Gradido
