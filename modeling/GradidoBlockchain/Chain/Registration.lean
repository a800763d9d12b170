import GradidoBlockchain.Chain.Accounts

/-!
# Registrations

A registration writes a zero balance for its account key, but only its user key
is checked to be new.  So an account key that is an address already loses its
balance, and an account can be registered twice.

Whoever has a balance is an address of the chain: the account checks of the
validation ask the address index for every key that is credited, and the index
only knows addresses of the log (`AddressesKnown`), whether the transactions
are within the limits of the compact form or not.  So a registration whose
account key is no address of the chain yet changes no balance.
-/

namespace Gradido

open Checked ConfirmTransaction

/-! ### The address index only knows the log -/

namespace AddressIndex

variable {a : AddressIndex} {k nr : ℕ} {data : AddressData}

theorem addressType_of_addTransactionNrForIndex {k' : ℕ} {t : AddressType}
    (h : (a.addTransactionNrForIndex k' nr t).1.mIndexTransactionNrs k = some data) :
    (∃ old, a.mIndexTransactionNrs k = some old ∧ old.addressType = data.addressType) ∨
      (k, data.addressType) = (k', t) := by
  unfold addTransactionNrForIndex at h
  split at h
  · by_cases hk : k = k'
    · subst hk
      simp only [Function.update_self, Option.some.injEq] at h
      exact .inr (by rw [← h])
    · simp only [Function.update_of_ne hk] at h
      exact .inl ⟨data, h, rfl⟩
  · next old hold =>
    split_ifs at h
    · exact .inl ⟨data, h, rfl⟩
    · exact .inl ⟨data, h, rfl⟩
    · by_cases hk : k = k'
      · subst hk
        simp only [Function.update_self, Option.some.injEq] at h
        exact .inl ⟨old, hold, by rw [← h]⟩
      · simp only [Function.update_of_ne hk] at h
        exact .inl ⟨data, h, rfl⟩

/-- A type that is known after insertions, also after failed ones, was known before or is one of
those inserted. -/
theorem addressType_of_addTyped {l : List (ℕ × AddressType)}
    (h : (addTyped nr l a).1.mIndexTransactionNrs k = some data) :
    (∃ old, a.mIndexTransactionNrs k = some old ∧ old.addressType = data.addressType) ∨
      (k, data.addressType) ∈ l := by
  induction l generalizing a with
  | nil => exact .inl ⟨data, h, rfl⟩
  | cons kt l ih =>
    obtain ⟨k', t⟩ := kt
    have hfirst : ∀ old, (a.addTransactionNrForIndex k' nr t).1.mIndexTransactionNrs k =
        some old → old.addressType = data.addressType →
        (∃ old, a.mIndexTransactionNrs k = some old ∧ old.addressType = data.addressType) ∨
          (k, data.addressType) ∈ (k', t) :: l := by
      intro old hold htype
      rcases addressType_of_addTransactionNrForIndex hold with hbefore | heq
      · rw [htype] at hbefore
        exact .inl hbefore
      · rw [htype] at heq
        exact .inr (by rw [heq]; exact List.mem_cons_self)
    unfold addTyped andThen at h
    split at h
    · next a' hadd =>
      rcases ih h with ⟨old, hold, htype⟩ | hmem
      · exact hfirst old (by rw [hadd]; exact hold) htype
      · exact .inr (List.mem_cons_of_mem _ hmem)
    · next a' e hadd => exact hfirst data (by rw [hadd]; exact h) rfl

theorem addressType_of_updateLastBalanceChanging {k' : ℕ}
    (h : (a.updateLastBalanceChangingTransactionNr k' nr).mIndexTransactionNrs k = some data) :
    ∃ old, a.mIndexTransactionNrs k = some old ∧ old.addressType = data.addressType := by
  unfold updateLastBalanceChangingTransactionNr at h
  split at h
  · exact ⟨data, h, rfl⟩
  · next old hold =>
    by_cases hk : k = k'
    · subst hk
      simp only [Function.update_self, Option.some.injEq] at h
      exact ⟨old, hold, by rw [← h]⟩
    · simp only [Function.update_of_ne hk] at h
      exact ⟨data, h, rfl⟩

/-- The types that are known after a transaction was added, also after a failed try. -/
theorem addressType_of_addTransaction {tx : ConfirmedGradidoTx}
    (h : (a.addTransaction tx).1.mIndexTransactionNrs k = some data) :
    (∃ old, a.mIndexTransactionNrs k = some old ∧ old.addressType = data.addressType) ∨
      (k, data.addressType) ∈ tx.typedAddresses := by
  have hbalances : ∀ (bs : List CompactAccountBalance) (a' : AddressIndex) (data : AddressData),
      (bs.foldl (fun a b => a.updateLastBalanceChangingTransactionNr b.publicKeyIndex tx.txNr)
        a').mIndexTransactionNrs k = some data →
      ∃ old, a'.mIndexTransactionNrs k = some old ∧ old.addressType = data.addressType := by
    intro bs
    induction bs with
    | nil => exact fun a' data h => ⟨data, h, rfl⟩
    | cons b bs ih =>
      intro a' data h
      obtain ⟨old, hold, htype⟩ := ih _ _ h
      obtain ⟨older, holder, htype'⟩ := addressType_of_updateLastBalanceChanging hold
      exact ⟨older, holder, htype'.trans htype⟩
  rw [addTransaction_eq] at h
  unfold andThen at h
  split at h
  · next a' hadd =>
    obtain ⟨old, hold, htype⟩ := hbalances _ _ _ h
    have hbefore : (addTyped tx.txNr tx.typedAddresses a).1.mIndexTransactionNrs k = some old := by
      rw [hadd]
      exact hold
    rw [← htype]
    exact addressType_of_addTyped hbefore
  · next a' e hadd =>
    have hbefore : (addTyped tx.txNr tx.typedAddresses a).1.mIndexTransactionNrs k =
        some data := by
      rw [hadd]
      exact h
    exact addressType_of_addTyped hbefore

end AddressIndex

namespace TransactionsIndex

theorem mAddressIndex_updateYearMonthDayTxRange (idx : TransactionsIndex) (date : YearMonthDay)
    (txNr : ℕ) : (idx.updateYearMonthDayTxRange date txNr).1.mAddressIndex =
      idx.mAddressIndex := by
  unfold updateYearMonthDayTxRange
  dsimp only
  split_ifs <;> rfl

theorem mAddressIndex_addBitmaps (env : Env) (tx : ConfirmedGradidoTx)
    (addresses : List PublicKeyIndex) (idx : TransactionsIndex) :
    (idx.addBitmaps env tx addresses).mAddressIndex = idx.mAddressIndex := by
  unfold addBitmaps
  dsimp only
  obtain ⟨-, -, involved, hinvolved⟩ := @foldl_addInvolvedAddress env tx addresses idx
  obtain ⟨-, -, coins, hcoins⟩ := foldl_addCoinCommunity (c := tx) tx.accountBalances
    { addresses.foldl (addInvolvedAddress env tx) idx with
      mTxPerType := Function.update
        (addresses.foldl (addInvolvedAddress env tx) idx).mTxPerType tx.transactionType
        (((addresses.foldl (addInvolvedAddress env tx) idx).mTxPerType
          tx.transactionType).add tx.txNr) }
  rw [hcoins, hinvolved]

/-- Adding a transaction reaches the address index at its end, or not at all. -/
theorem mAddressIndex_addTransactionIndices (env : Env) (idx : TransactionsIndex)
    (tx : ConfirmedGradidoTx) :
    (idx.addTransactionIndices env tx).1.mAddressIndex = idx.mAddressIndex ∨
      (idx.addTransactionIndices env tx).1.mAddressIndex =
        (idx.mAddressIndex.addTransaction tx).1 := by
  have hdates := idx.mAddressIndex_updateYearMonthDayTxRange
    (timepointAsYearMonthDay tx.confirmedAt.getAsTimepoint) tx.txNr
  unfold addTransactionIndices andThen
  split
  · next idx' hidx' =>
    rw [hidx'] at hdates
    split
    · exact .inl hdates
    · next addresses _ =>
      refine .inr ?_
      dsimp only
      rw [mAddressIndex_addBitmaps]
      rw [show idx'.mAddressIndex = _ from hdates]
  · next idx' e hidx' =>
    rw [hidx'] at hdates
    exact .inl hdates

end TransactionsIndex

/-- The types in the address index of a blockchain come from its log. -/
def AddressesKnown (env : Env) (own : ℕ) (s : InMemory) : Prop :=
  ∀ k data, s.mTransactionsIndex.mAddressIndex.mIndexTransactionNrs k = some data →
    ∃ tx ∈ s.history, (k, data.addressType) ∈ tx.typedAddresses env own

/-- Storing a transaction keeps that, whether its compact form could be indexed or not. -/
theorem AddressesKnown.addToBlockchain {env : Env} {own : ℕ} {s : InMemory}
    (h : AddressesKnown env own s) (hs : s.Represents own s.history) {tx : ConfirmedTransaction}
    (hid : tx.id = s.history.length + 1) :
    AddressesKnown env own (ConfirmTransaction.addToBlockchain env s tx).1 := by
  have hpush : ∀ t : InMemory, t.mCommunityIdIndex = own →
      t.mTransactionsIndex = s.mTransactionsIndex → ∀ k data,
      (t.pushCompact env tx).mTransactionsIndex.mAddressIndex.mIndexTransactionNrs k = some data →
      (∃ t' ∈ s.history, (k, data.addressType) ∈ t'.typedAddresses env own) ∨
        (k, data.addressType) ∈ tx.typedAddresses env own := by
    intro t hcommunity hindex k data hdata
    unfold InMemory.pushCompact at hdata
    split at hdata
    · rw [hindex] at hdata
      exact .inl (h k data hdata)
    · next c hc =>
      rw [hcommunity] at hc
      have hcompact : CompactOf env own tx c := ⟨_, hc⟩
      have hadded : (t.mTransactionsIndex.addTransactionIndices env
          c).1.mAddressIndex.mIndexTransactionNrs k = some data := by
        split at hdata
        · next idx e hidx =>
          rw [hidx]
          exact hdata
        · next idx hidx =>
          rw [hidx]
          exact hdata
      rw [hindex] at hadded
      rcases TransactionsIndex.mAddressIndex_addTransactionIndices env s.mTransactionsIndex c with
        hsame | hnew
      · rw [hsame] at hadded
        exact .inl (h k data hadded)
      · rw [hnew] at hadded
        rcases AddressIndex.addressType_of_addTransaction hadded with ⟨old, hold, htype⟩ | hmem
        · rw [← htype]
          exact .inl (h k old hold)
        · rw [hcompact.typedAddresses_eq] at hmem
          exact .inr hmem
  intro k data hdata
  rw [InMemory.addToBlockchain_mTransactionsIndex, InMemory.pushTransactionEntry] at hdata
  rw [(hs.addToBlockchain env hid).history_eq]
  rcases hpush { s with
      mLedgerAnchorTransactionNrs :=
        InMemory.insertNew s.mLedgerAnchorTransactionNrs tx.ledgerAnchor tx.id
      mTransactionsByNr := InMemory.insertNew s.mTransactionsByNr tx.id tx
      mLastTransaction := some tx } hs.community rfl k data hdata with ⟨t, ht, hmem⟩ | hmem
  · exact ⟨t, List.mem_append_left _ ht, hmem⟩
  · exact ⟨tx, by simp, hmem⟩

namespace ConfirmTransaction

/-- **The address index of a reachable blockchain** only knows addresses of its log. -/
theorem Reachable.addressesKnown {env : Env} {direct : ℕ → Role → Prop} {p : InMemoryProvider}
    (h : Reachable env direct p) : ∀ i, AddressesKnown env i (p.findBlockchain i) := by
  refine h.chain_invariant (P := fun p => ∀ i, AddressesKnown env i (p.findBlockchain i)) ?_ ?_ ?_
  · intro i k data hdata
    simp [InMemoryProvider.empty, InMemoryProvider.findBlockchain, InMemory.empty,
      TransactionsIndex.empty] at hdata
  · intro community endDate event p hreach hp _ i
    have hhistory := hreach.logged.history_dropEvent community i event
    unfold AddressesKnown
    rw [hhistory]
    by_cases hi : i = community
    · subst hi
      rw [findBlockchain_dropEvent]
      exact hp i
    · rw [findBlockchain_dropEvent_of_ne _ _ hi]
      exact hp i
  · intro community role p q tx _ _ hreach hq _ _ hb _ i
    by_cases hi : i = community
    · subst hi
      rw [findBlockchain_added]
      exact (hq i).addToBlockchain (hreach.logged.represents i) (hreach.logged.id_eq hb)
    · rw [findBlockchain_added_of_ne _ _ _ hi]
      exact hq i

end ConfirmTransaction

/-! ### Addresses -/

/-- The keys that a transaction makes addresses. -/
def ConfirmedTransaction.addresses (tx : ConfirmedTransaction) : List ℕ :=
  match tx.body.specific with
  | .communityRoot r => [r.gmwPublicKey, r.aufPublicKey]
  | .registerAddress r => [r.userPublicKey, r.accountPublicKey]
  | .deferredTransfer d => [d.transfer.recipient]
  | _ => []

/-- A key is an address of a log. -/
def IsAddress (h : List ConfirmedTransaction) (publicKey : ℕ) : Prop :=
  ∃ tx ∈ h, publicKey ∈ tx.addresses

instance {h : List ConfirmedTransaction} {publicKey : ℕ} : Decidable (IsAddress h publicKey) :=
  inferInstanceAs (Decidable (∃ tx ∈ h, _))

theorem IsAddress.mono {h h' : List ConfirmedTransaction} {publicKey : ℕ}
    (hk : IsAddress h publicKey) (hsub : h ⊆ h') : IsAddress h' publicKey := by
  obtain ⟨tx, htx, hin⟩ := hk
  exact ⟨tx, hsub htx, hin⟩

/-- A key that a regular transaction types becomes an address. -/
theorem Regular.mem_addresses {env : Env} {own : ℕ} {tx : ConfirmedTransaction}
    (h : Regular own tx) {publicKey : ℕ} {t : AddressType}
    (ht : (env.dict.index own publicKey, t) ∈ tx.typedAddresses env own) :
    publicKey ∈ tx.addresses := by
  have htyped := h.mem_typed ht
  unfold ConfirmedTransaction.typed at htyped
  unfold ConfirmedTransaction.addresses
  cases hbody : tx.body.specific with
  | communityRoot r =>
    simp only [hbody, List.mem_cons, Prod.mk.injEq, List.not_mem_nil, or_false] at htyped
    rcases htyped with ⟨rfl, -⟩ | ⟨rfl, -⟩ <;> simp
  | registerAddress r =>
    simp only [hbody, List.mem_cons, Prod.mk.injEq, List.not_mem_nil, or_false] at htyped
    rcases htyped with ⟨rfl, -⟩ | ⟨rfl, -⟩ <;> simp
  | deferredTransfer d =>
    simp only [hbody, List.mem_singleton, Prod.mk.injEq] at htyped
    simp [htyped.1]
  | _ => simp [hbody] at htyped

section Require

variable {env : Env} {own : ℕ} {s : InMemory} {f : Filter} {publicKey : ℕ}

/-- A key for which `getAddressType` returns a type is an address of the log. -/
theorem AddressesKnown.isAddress (h : AddressesKnown env own s) (hown : s.mCommunityIdIndex = own)
    (hregular : ∀ tx ∈ s.history, Regular own tx) {t : AddressType}
    (ht : s.getAddressType env { f with involvedPublicKey := some publicKey } = .ok t)
    (hnone : t ≠ .none) : IsAddress s.history publicKey := by
  unfold InMemory.getAddressType at ht
  simp only [Option.getD_some, bind_eq_ok, hown] at ht
  obtain ⟨-, -, ht⟩ := ht
  cases hdata : s.mTransactionsIndex.mAddressIndex.mIndexTransactionNrs
      (env.dict.index own publicKey) with
  | some data =>
    obtain ⟨tx, htx, hin⟩ := h _ data hdata
    exact ⟨tx, htx, (hregular tx htx).mem_addresses hin⟩
  | none =>
    simp only [TransactionsIndex.getAddressType, hdata, if_true, pure_eq_ok] at ht
    exact absurd ht.symm hnone

/-- A check that refuses unknown addresses. -/
theorem AddressesKnown.of_requireAddressType (h : AddressesKnown env own s)
    (hown : s.mCommunityIdIndex = own) (hregular : ∀ tx ∈ s.history, Regular own tx)
    {allowed : AddressType → Option String} (hallowed : allowed .none ≠ none)
    (hcheck : Validate.requireAddressType env s f publicKey allowed = .ok ()) :
    IsAddress s.history publicKey := by
  simp only [Validate.requireAddressType, bind_eq_ok] at hcheck
  obtain ⟨t, ht, hresult⟩ := hcheck
  refine h.isAddress hown hregular ht ?_
  rintro rfl
  split at hresult
  · next hnone => exact hallowed hnone
  · simp at hresult

end Require

/-! ### Whoever is credited is an address -/

/-- A key that passed a check which refuses unknown addresses. -/
theorem AccountChecked.isAddress {env : Env} {direct : ℕ → Role → Prop} {q : InMemoryProvider}
    {community publicKey : ℕ} {allowed : AddressType → Option String}
    (h : AccountChecked env (q.findBlockchain community) publicKey allowed)
    (hq : Reachable env direct q)
    (hregular : ∀ t ∈ (q.findBlockchain community).history, Regular community t)
    (hallowed : allowed .none ≠ none) :
    IsAddress (q.findBlockchain community).history publicKey := by
  obtain ⟨f, -, hcheck⟩ := h
  exact (hq.addressesKnown community).of_requireAddressType
    (hq.logged.represents community).community hregular hallowed hcheck

/-- The senders of deferred transfers are addresses. -/
theorem ConfirmTransaction.Reachable.deferredSenders {env : Env} {direct : ℕ → Role → Prop}
    {p : InMemoryProvider} (h : Reachable env direct p) {i : ℕ}
    (hregular : ∀ t ∈ (p.findBlockchain i).history, Regular i t) {tx : ConfirmedTransaction}
    (htx : tx ∈ (p.findBlockchain i).history) {d : GradidoDeferredTransfer}
    (hd : tx.body.specific = .deferredTransfer d) :
    IsAddress (p.findBlockchain i).history d.transfer.sender.publicKey := by
  have halong := h.alongPrefixes (Q := fun i pre tx => (∀ t ∈ pre ++ [tx], Regular i t) → ∀ d,
    tx.body.specific = .deferredTransfer d → IsAddress pre d.transfer.sender.publicKey) (by
      intro community role p q tx hq htx hb _ hregular d hd
      have htype := (hregular tx (by simp)).type_ne_inbound
        (by simp [TransactionBody.transactionType, hd])
      exact (hb.deferred_parties hq.logged hd htype).1.isAddress hq
        (fun t ht => hregular t (List.mem_append_left _ ht))
        (by simp [Validate.registeredSender])) i
  obtain ⟨pre, hpre, hsender⟩ := halong.of_mem htx
  have hsub : ∀ t ∈ pre ++ [tx], t ∈ (p.findBlockchain i).history := fun t ht => hpre.subset ht
  exact (hsender (fun t ht => hregular t (hsub t ht)) d hd).mono
    (fun t ht => hsub t (List.mem_append_left _ ht))

/-- **Whoever is credited is an address**, at the latest by the transaction itself. -/
theorem Credited.isAddress {env : Env} {direct : ℕ → Role → Prop} {q : InMemoryProvider}
    {community publicKey : ℕ} {tx : ConfirmedTransaction}
    (h : Credited env (q.findBlockchain community) tx publicKey) (hq : Reachable env direct q)
    (hregular : ∀ t ∈ (q.findBlockchain community).history, Regular community t) :
    IsAddress ((q.findBlockchain community).history ++ [tx]) publicKey := by
  have hold : IsAddress (q.findBlockchain community).history publicKey →
      IsAddress ((q.findBlockchain community).history ++ [tx]) publicKey :=
    fun hk => hk.mono (List.subset_append_left _ _)
  cases h with
  | recipient hd hkey =>
    refine ⟨tx, by simp, ?_⟩
    simp [ConfirmedTransaction.addresses, hd, hkey]
  | checked hnone _ hcheck => exact hold (hcheck.isAddress hq hregular hnone)
  | root hfirst hr hkey =>
    refine hold ⟨_, hfirst, ?_⟩
    simpa [ConfirmedTransaction.addresses, hr, eq_comm] using hkey
  | sender hentry hd hkey => exact hold (hkey ▸ hq.deferredSenders hregular hentry hd)

/-! ### Main results -/

/-- The account keys of registrations are no addresses before. -/
def NewAccounts (h : List ConfirmedTransaction) : Prop :=
  AlongPrefixes (fun pre tx => ∀ r ∈ tx.body.getRegisterAddress,
    ¬ IsAddress pre r.accountPublicKey) h

instance {h : List ConfirmedTransaction} : Decidable (NewAccounts h) :=
  inferInstanceAs (Decidable (AlongPrefixes _ _))

/-- A registration changes no balance, and no account is registered twice: nothing is left of the
balances that its account key had before, and no earlier registration names it. -/
def RegistersSafely (env : Env) (h : List ConfirmedTransaction) : Prop :=
  AlongPrefixes (fun pre tx => ∀ r, tx.body.specific = .registerAddress r →
    (∀ t ∈ pre, ∀ b ∈ t.accountBalances, b.publicKey = r.accountPublicKey → ∀ amount,
      env.calculateDecay b.balance t.confirmedAt.getAsTimepoint tx.confirmedAt.getAsTimepoint =
        .ok amount → amount = 0) ∧
    ∀ t ∈ pre, ∀ r', t.body.specific = .registerAddress r' →
      r'.accountPublicKey ≠ r.accountPublicKey) h

/-- **Registrations.**  When every registration names an account key that is no address of its
chain yet, registrations change no balances and no account is registered twice. -/
theorem run_registersSafely (env : Env) (laws : DecayLaws env) (calls : List Call)
    (community : ℕ)
    (hregular : ∀ tx ∈ ((run env calls).findBlockchain community).history, Regular community tx)
    (hnew : NewAccounts ((run env calls).findBlockchain community).history) :
    RegistersSafely env ((run env calls).findBlockchain community).history := by
  have hfunded := (reachable_run env calls).alongPrefixes (Q := fun i pre tx =>
    (∀ t ∈ pre ++ [tx], Regular i t) → ∀ b ∈ tx.accountBalances, b.balance ≠ 0 →
      IsAddress (pre ++ [tx]) b.publicKey) (by
      intro community role p q tx hq htx hb horigin hregular b hbmem hne
      exact (hb.credited hq.logged hregular (hb.computed horigin) b hbmem
        hne).isAddress hq (fun t ht => hregular t (List.mem_append_left _ ht))) community
  generalize ((run env calls).findBlockchain community).history = h at *
  intro pre tx post heq r hr
  have hfresh := hnew pre tx post heq r (by
    simp [TransactionBody.getRegisterAddress, hr])
  constructor
  · intro t ht b hb hkey amount hamount
    have hzero : b.balance = 0 := by
      by_contra hne
      subst heq
      obtain ⟨pre', hpre', hfunded'⟩ := hfunded.of_append.of_mem ht
      have hsub : ∀ t' ∈ pre' ++ [t], t' ∈ pre := fun t' ht' => hpre'.subset ht'
      have haddress := hfunded' (fun t' ht' =>
        hregular t' (List.mem_append_left _ (hsub t' ht'))) b hb hne
      rw [hkey] at haddress
      exact hfresh (haddress.mono hsub)
    rw [hzero, Env.calculateDecay] at hamount
    split at hamount
    · rw [laws.zero, Except.ok.injEq] at hamount
      exact hamount.symm
    · simp at hamount
  · intro t ht r' hr' hsame
    refine hfresh ⟨t, ht, ?_⟩
    simp [ConfirmedTransaction.addresses, hr', hsame]

namespace Sample

/-- Address `30` of the deferred transfer is registered as the account of a new user `60`. -/
def takeOver : Call :=
  call 5 60 (transaction 60 (signedBy [1, 60, 30] (by decide)) []
    (.registerAddress ⟨.communityHuman, 1, 1, 60, 30⟩))

/-- The registration takes away the hundred cents that were deferred to the address. -/
theorem takeOver_not_registersSafely :
    ¬ RegistersSafely env ((run env (setup ++ [deferred, takeOver])).findBlockchain 1).history := by
  have hdeferred : (((run env (setup ++ [deferred, takeOver])).findBlockchain 1).history[3]?).map
      (fun tx => (tx.accountBalances, tx.confirmedAt)) =
      some ([⟨11, 0, 1⟩, ⟨30, 100, 1⟩], ⟨midnight + 43200, 0⟩) := by
    decide +kernel
  have hregister : (((run env (setup ++ [deferred, takeOver])).findBlockchain 1).history[4]?).map
      (fun tx => (tx.body.specific, tx.confirmedAt)) =
      some (.registerAddress ⟨.communityHuman, 1, 1, 60, 30⟩, ⟨midnight + 43200 + 60, 0⟩) := by
    decide +kernel
  generalize ((run env (setup ++ [deferred, takeOver])).findBlockchain 1).history = h at *
  intro hsafe
  obtain ⟨t, ht, htfields⟩ := Option.map_eq_some_iff.1 hdeferred
  obtain ⟨tx, htx, htxfields⟩ := Option.map_eq_some_iff.1 hregister
  obtain ⟨hbalances, hdate⟩ := Prod.mk.inj htfields
  obtain ⟨hspecific, hdate'⟩ := Prod.mk.inj htxfields
  have hbefore : t ∈ h.take 4 :=
    List.mem_of_getElem? ((List.getElem?_take_of_lt (by decide)).trans ht)
  have hzero := (hsafe.getElem? htx _ hspecific).1 t hbefore ⟨30, 100, 1⟩
    (by rw [hbalances]; simp) rfl 100 (by rw [hdate, hdate']; rfl)
  simp at hzero

/-- Registrations of new keys are safe. -/
theorem setup_registersSafely :
    NewAccounts ((run env (setup ++ [deferred])).findBlockchain 1).history ∧
    RegistersSafely env ((run env (setup ++ [deferred])).findBlockchain 1).history := by
  have hnew : NewAccounts ((run env (setup ++ [deferred])).findBlockchain 1).history := by
    decide +kernel
  exact ⟨hnew, run_registersSafely env decayLaws _ 1 (by decide +kernel) hnew⟩

end Sample

end Gradido
