import GradidoBlockchain.Chain.Address
import GradidoBlockchain.Chain.Window

/-!
# Account checks

Which keys the validation of a confirmed transaction asks for their address
type, and what the keys are whose balance it credits: `Confirms.credited` takes
the balances of all transactions apart once.
-/

namespace Gradido

open Checked ConfirmTransaction

/-- A key passed a check of its address type, made with a filter that excludes no transaction of
the chain. -/
def AccountChecked (env : Env) (s : InMemory) (publicKey : ℕ)
    (allowed : AddressType → Option String) : Prop :=
  ∃ f, AccountFilter s f ∧ Validate.requireAddressType env s f publicKey allowed = .ok ()

/-- Where a key comes from whose balance a transaction credits: from a check, from the community
root, or from a deferred transfer, as its recipient or, when it is settled, as its sender. -/
inductive Credited (env : Env) (s : InMemory) (tx : ConfirmedTransaction) (publicKey : ℕ) : Prop
  | recipient {d : GradidoDeferredTransfer} (hd : tx.body.specific = .deferredTransfer d)
      (hkey : d.transfer.recipient = publicKey)
  | checked {allowed : AddressType → Option String} (hnone : allowed .none ≠ none)
      (hdeferred : allowed .deferredTransfer ≠ none)
      (hcheck : AccountChecked env s publicKey allowed)
  | root {first : ConfirmedTransaction} (hfirst : first ∈ s.history) {r : CommunityRoot}
      (hr : first.body.specific = .communityRoot r)
      (hkey : r.gmwPublicKey = publicKey ∨ r.aufPublicKey = publicKey)
  | sender {entry : ConfirmedTransaction} (hentry : entry ∈ s.history)
      {d : GradidoDeferredTransfer} (hd : entry.body.specific = .deferredTransfer d)
      (hkey : d.transfer.sender.publicKey = publicKey)

section Keys

variable {env : Env} {s : InMemory} {tx : ConfirmedTransaction} {k : ℕ}

theorem Credited.of_registeredSender (h : AccountChecked env s k Validate.registeredSender) :
    Credited env s tx k :=
  .checked (by simp [Validate.registeredSender]) (by simp [Validate.registeredSender]) h

theorem Credited.of_registeredRecipient (h : AccountChecked env s k Validate.registeredRecipient) :
    Credited env s tx k :=
  .checked (by simp [Validate.registeredRecipient]) (by simp [Validate.registeredRecipient]) h

theorem Credited.of_humanAccount {what : String}
    (h : AccountChecked env s k (Validate.humanAccount what)) : Credited env s tx k :=
  .checked (by simp [Validate.humanAccount]) (by simp [Validate.humanAccount]) h

/-- A balance that was looked up by key belongs to that key. -/
theorem Credited.of_calculated (h : Credited env s tx k) {confirmedAt : Timestamp} {coin : ℕ}
    {amount : ℤ} {b : AccountBalance}
    (hbalance : calculateAccountBalance env s confirmedAt k amount coin = .ok b) :
    Credited env s tx b.publicKey := by
  rw [(calculateAccountBalance_spec hbalance).1]
  exact h

/-- Whose deferred transfer is settled was its sender. -/
theorem ConfirmTransaction.Settling.credited {own : ℕ} (hs : s.Represents own s.history)
    {confirmedAt : Timestamp} {nr : ℕ} {entry : ConfirmedTransaction}
    {d : GradidoDeferredTransfer} {decayed : ℤ}
    (h : Settling env s confirmedAt nr entry d decayed) :
    Credited env s tx d.transfer.sender.publicKey :=
  .sender (hs.mem_of_byNr h.byNr).1 h.deferred rfl

end Keys

/-! ### The checks -/

section Context

variable {p : InMemoryProvider} {tx : GradidoTransaction} {community : ℕ}
  {c : Validate.ContextData}

/-- The sender's side is the own one, but for an inbound transaction. -/
theorem Validate.prepareContext_sender {previous : Option ConfirmedTransaction}
    (h : prepareContext p tx (.ofSender (p.findBlockchain community) previous) = .ok c)
    (htype : tx.body.type ≠ .inbound) :
    c.senderBlockchain = p.findBlockchain community ∧ c.senderPrevious = previous := by
  rcases prepareContext_spec h with ⟨-, rfl⟩ | ⟨other, -, -, -, -, hcase⟩
  · exact ⟨rfl, rfl⟩
  · rcases hcase with ⟨hinbound, -⟩ | ⟨-, hsender, -, hprevious⟩ | ⟨-, -, hsender, -, hprevious⟩
    · exact absurd hinbound htype
    · exact ⟨hsender, hprevious⟩
    · exact ⟨hsender, hprevious⟩

/-- The recipient's side is the own one, but for an outbound transaction. -/
theorem Validate.prepareContext_recipient
    (h : prepareContext p tx (.ofSender (p.findBlockchain community)
      (p.findBlockchain community).mLastTransaction) = .ok c)
    (htype : tx.body.type ≠ .outbound) :
    c.recipientBlockchain = p.findBlockchain community ∧
      c.recipientPrevious = (p.findBlockchain community).mLastTransaction := by
  rcases prepareContext_spec h with ⟨-, rfl⟩ | ⟨other, -, -, hprevious, -, hcase⟩
  · exact ⟨rfl, rfl⟩
  · have hown : c.recipientBlockchain = p.findBlockchain community := by
      rcases hcase with ⟨-, -, hrecipient, -⟩ | ⟨houtbound, -⟩ | ⟨-, -, -, hrecipient, -⟩
      · exact hrecipient
      · exact absurd houtbound htype
      · exact hrecipient
    rw [hprevious, hown]
    exact ⟨rfl, rfl⟩

end Context

namespace ConfirmTransaction

section Checked

variable {env : Env} {community : ℕ} {role : Role} {q : InMemoryProvider}
  {tx : ConfirmedTransaction}

/-- The account checks of a confirmed transaction, with the blockchains they were made on. -/
theorem Built.account_checked (hb : Built env q community role tx)
    (htype : tx.body.transactionType ≠ .communityRoot) :
    ∃ type c, type.account = true ∧ Validate.specificRole env type c tx.body = .ok () ∧
      (tx.body.type ≠ .inbound → c.senderBlockchain = q.findBlockchain community ∧
        c.senderPrevious = (q.findBlockchain community).mLastTransaction) ∧
      (tx.body.type ≠ .outbound → c.recipientBlockchain = q.findBlockchain community ∧
        c.recipientPrevious = (q.findBlockchain community).mLastTransaction) := by
  obtain ⟨c, hc⟩ := hb.accepted
  refine ⟨_, c, ?_, hc.specific, Validate.prepareContext_sender hc.context,
    Validate.prepareContext_recipient hc.context⟩
  have hbody := hb.body_eq
  simp [validationType, hbody, htype]

/-- A filter with the number of the last transaction as bound. -/
theorem accountFilter_last (hq : Logged env q) {last : ConfirmedTransaction}
    (hlast : (q.findBlockchain community).mLastTransaction = some last) {f : Filter}
    (hf : f = { maxTransactionNr := f.maxTransactionNr, pagination := f.pagination })
    (hmax : f.maxTransactionNr = last.id) : AccountFilter (q.findBlockchain community) f := by
  have hid := (hq.represents community).last_id hlast
  rw [hf]
  exact ⟨rfl, .inr (by rw [hmax, hid]), rfl, rfl, rfl, rfl⟩

variable (hb : Built env q community role tx)

include hb

/-- The recipient of a creation has a human account. -/
theorem Built.creation_recipient {c : GradidoCreation} (hc : tx.body.specific = .creation c)
    (htype : tx.body.type ≠ .inbound) :
    AccountChecked env (q.findBlockchain community) c.recipient.publicKey
      (Validate.humanAccount "wrong address type for creation") := by
  obtain ⟨type, ctx, haccount, hspecific, hsender, -⟩ := hb.account_checked
    (by simp [TransactionBody.transactionType, hc])
  simp only [Validate.specificRole, hc, Validate.gradidoCreationRole, bind_eq_ok, exists_unit,
    when_eq_ok, (hsender htype).1] at hspecific
  exact ⟨_, ⟨rfl, .inl rfl, rfl, rfl, rfl, rfl⟩, hspecific.2.2.2.2 haccount⟩

variable (hq : Logged env q)

include hq

/-- The sender of a transfer is registered. -/
theorem Built.transfer_sender {t : GradidoTransfer} (ht : tx.body.specific = .transfer t)
    (htype : tx.body.type ≠ .inbound) :
    AccountChecked env (q.findBlockchain community) t.sender.publicKey
      Validate.registeredSender := by
  obtain ⟨type, ctx, haccount, hspecific, hsender, -⟩ := hb.account_checked
    (by simp [TransactionBody.transactionType, ht])
  obtain ⟨hown, hlast⟩ := hsender htype
  simp only [Validate.specificRole, ht, Validate.gradidoTransferRole, Validate.validateAccount,
    bind_eq_ok, exists_unit, when_eq_ok, orThrow_eq_ok, hown, hlast] at hspecific
  obtain ⟨last, hlast, _, -, hcheck, -⟩ := hspecific.2.2.1 haccount
  exact ⟨_, accountFilter_last hq hlast rfl rfl, hcheck⟩

/-- The recipient of a transfer is registered. -/
theorem Built.transfer_recipient {t : GradidoTransfer} (ht : tx.body.specific = .transfer t)
    (htype : tx.body.type ≠ .outbound) :
    AccountChecked env (q.findBlockchain community) t.recipient Validate.registeredRecipient := by
  obtain ⟨type, ctx, haccount, hspecific, -, hrecipient⟩ := hb.account_checked
    (by simp [TransactionBody.transactionType, ht])
  obtain ⟨hown, hlast⟩ := hrecipient htype
  simp only [Validate.specificRole, ht, Validate.gradidoTransferRole, Validate.validateAccount,
    bind_eq_ok, exists_unit, when_eq_ok, orThrow_eq_ok, hown, hlast] at hspecific
  obtain ⟨_, -, last, hlast, -, hcheck⟩ := hspecific.2.2.1 haccount
  exact ⟨_, accountFilter_last hq hlast rfl rfl, hcheck⟩

/-- The sender of a deferred transfer is registered, and its recipient is new. -/
theorem Built.deferred_parties {d : GradidoDeferredTransfer}
    (hd : tx.body.specific = .deferredTransfer d) (htype : tx.body.type ≠ .inbound) :
    AccountChecked env (q.findBlockchain community) d.transfer.sender.publicKey
        Validate.registeredSender ∧
      AccountChecked env (q.findBlockchain community) d.transfer.recipient
        Validate.newRecipient := by
  obtain ⟨type, ctx, haccount, hspecific, hsender, -⟩ := hb.account_checked
    (by simp [TransactionBody.transactionType, hd])
  obtain ⟨hown, hlast⟩ := hsender htype
  simp only [Validate.specificRole, hd, Validate.gradidoDeferredTransferRole, bind_eq_ok,
    exists_unit, when_eq_ok, orThrow_eq_ok, hown, hlast] at hspecific
  obtain ⟨last, hlast, hcheck, hcheck'⟩ := hspecific.2.1 haccount
  exact ⟨⟨_, accountFilter_last hq hlast rfl rfl, hcheck⟩,
    ⟨_, accountFilter_last hq hlast rfl rfl, hcheck'⟩⟩

/-- The recipient of a local redeem is registered. -/
theorem Built.redeem_recipient {r : GradidoRedeemDeferredTransfer}
    (hr : tx.body.specific = .redeemDeferredTransfer r) (hin : tx.body.type ≠ .inbound)
    (hout : tx.body.type ≠ .outbound) :
    AccountChecked env (q.findBlockchain community) r.transfer.recipient
      Validate.registeredRecipient := by
  obtain ⟨type, ctx, haccount, hspecific, hsender, hrecipient⟩ := hb.account_checked
    (by simp [TransactionBody.transactionType, hr])
  simp only [Validate.specificRole, hr, Validate.gradidoRedeemDeferredTransferRole, bind_eq_ok,
    exists_unit, when_eq_ok, orThrow_eq_ok, (hsender hin).2, (hrecipient hout).1] at hspecific
  obtain ⟨last, hlast, -, hcheck⟩ := hspecific.2.2.1 haccount
  exact ⟨_, accountFilter_last hq hlast rfl rfl, hcheck⟩

end Checked

/-! ### Credited keys -/

section Credited

variable {env : Env} {community : ℕ} {role : Role} {q : InMemoryProvider}
  {tx : ConfirmedTransaction}

/-- **Whose balance a transaction credits.** -/
theorem Built.credited (hb : Built env q community role tx) (hq : Logged env q)
    (hregular : ∀ t ∈ (q.findBlockchain community).history ++ [tx], Regular community t)
    (hcomputed : Computed env (q.findBlockchain community) tx.confirmedAt tx.body
      tx.accountBalances) :
    ∀ b ∈ tx.accountBalances, b.balance ≠ 0 →
      Credited env (q.findBlockchain community) tx b.publicKey := by
  have hs := hq.represents community
  have hnotInbound := (hregular tx (by simp)).type_ne_inbound
  generalize tx.accountBalances = balances at hcomputed ⊢
  intro b hbmem hne
  cases hcomputed with
  | communityRoot _ =>
    simp only [communityRootBalances, List.mem_cons, List.not_mem_nil, or_false] at hbmem
    rcases hbmem with rfl | rfl <;> exact absurd rfl hne
  | registerAddress _ =>
    rw [registerAddressBalances] at hbmem
    split_ifs at hbmem
    · exact absurd hbmem List.not_mem_nil
    · rw [List.mem_singleton.1 hbmem] at hne
      exact absurd rfl hne
  | creation hc hfound hroot hrecipient hgmw hauf =>
    have hfirst := hs.mem_of_findOne hfound
    have hown := (hregular _ (List.mem_append_left _ hfirst)).community
    have htype : tx.body.type ≠ .inbound :=
      hnotInbound (by simp [TransactionBody.transactionType, hc])
    simp only [List.mem_cons, List.not_mem_nil, or_false] at hbmem
    rcases hbmem with rfl | rfl | rfl
    · exact (Credited.of_humanAccount (hb.creation_recipient hc htype)).of_calculated hrecipient
    · rw [(accountBalanceFromPublicKeyIndex_spec hgmw).1, hs.community, hown, env.dict.key_index]
      exact .root hfirst hroot (.inl rfl)
    · rw [(accountBalanceFromPublicKeyIndex_spec hauf).1, hs.community, hown, env.dict.key_index]
      exact .root hfirst hroot (.inr rfl)
  | transfer ht htype hdebit hcredit =>
    simp only [List.mem_cons, List.not_mem_nil, or_false] at hbmem
    rcases hbmem with rfl | rfl
    · have hsender := hb.transfer_sender hq ht (by simp [htype])
      exact (Credited.of_registeredSender hsender).of_calculated hdebit
    · have hrecipient := hb.transfer_recipient hq ht (by simp [htype])
      exact (Credited.of_registeredRecipient hrecipient).of_calculated hcredit
  | outboundTransfer ht htype hdebit =>
    rw [List.mem_singleton.1 hbmem]
    have hsender := hb.transfer_sender hq ht (by simp [htype])
    exact (Credited.of_registeredSender hsender).of_calculated hdebit
  | inboundTransfer ht htype hcredit =>
    rw [List.mem_singleton.1 hbmem]
    have hrecipient := hb.transfer_recipient hq ht (by simp [htype])
    exact (Credited.of_registeredRecipient hrecipient).of_calculated hcredit
  | deferredTransfer hd hdebit hcredit =>
    have htype : tx.body.type ≠ .inbound :=
      hnotInbound (by simp [TransactionBody.transactionType, hd])
    simp only [List.mem_cons, List.not_mem_nil, or_false] at hbmem
    rcases hbmem with rfl | rfl
    · have hsender := (hb.deferred_parties hq hd htype).1
      exact (Credited.of_registeredSender hsender).of_calculated hdebit
    · exact (Credited.recipient hd rfl).of_calculated hcredit
  | redeemBack _ hsettling hback hcredit =>
    simp only [List.mem_cons, List.not_mem_nil, or_false] at hbmem
    rcases hbmem with rfl | rfl
    · exact absurd rfl hne
    · rw [hback] at hcredit
      exact (hsettling.credited hs).of_calculated hcredit
  | redeem hr htype hsettling _ hcredit hchange =>
    simp only [List.mem_cons, List.not_mem_nil, or_false] at hbmem
    rcases hbmem with rfl | rfl | rfl
    · exact absurd rfl hne
    · have hrecipient := hb.redeem_recipient hq hr (by simp [htype]) (by simp [htype])
      exact (Credited.of_registeredRecipient hrecipient).of_calculated hcredit
    · exact (hsettling.credited hs).of_calculated hchange
  | outboundRedeem _ _ hsettling _ hchange =>
    simp only [List.mem_cons, List.not_mem_nil, or_false] at hbmem
    rcases hbmem with rfl | rfl
    · exact absurd rfl hne
    · exact (hsettling.credited hs).of_calculated hchange
  | inboundRedeem hr htype _ _ _ =>
    exact absurd htype (hnotInbound (by simp [TransactionBody.transactionType, hr]))
  | timeout _ hsettling hcredit =>
    simp only [List.mem_cons, List.not_mem_nil, or_false] at hbmem
    rcases hbmem with rfl | rfl
    · exact (hsettling.credited hs).of_calculated hcredit
    · exact absurd rfl hne
  | nothing _ => exact absurd hbmem List.not_mem_nil

end Credited

end ConfirmTransaction

end Gradido
