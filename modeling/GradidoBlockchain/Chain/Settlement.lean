import GradidoBlockchain.Chain.Accounts

/-!
# Settling a deferred transfer once

The address of a deferred transfer is funded by it and by nothing else, and a
settlement empties it.  A second settlement is refused because the address has
no balance left, unless the balance check does not see that: it allows a
hundred cents more than there are, and the check of a timeout looks at the
balance one microsecond before the due date, when later settlements have not
taken place yet.
-/

namespace Gradido

open Checked ConfirmTransaction

/-- Each deferred transfer of a log is settled at most once. -/
def SettledOnce (h : List ConfirmedTransaction) : Prop :=
  ∀ entry ∈ h, entry.body.transactionType = .deferredTransfer → ∀ tx ∈ h, ∀ tx' ∈ h,
    settledNr tx.body = some entry.id → settledNr tx'.body = some entry.id → tx = tx'

/-- A log is within the limits of the index, properly dated and regular. -/
structure Tracked (env : Env) (own : ℕ) (h : List ConfirmedTransaction) : Prop where
  indexable : IndexableLog env own h
  dated : Dated h
  regular : ∀ tx ∈ h, Regular own tx

instance decidableTracked {env : Env} {own : ℕ} {h : List ConfirmedTransaction} :
    Decidable (Tracked env own h) :=
  decidable_of_iff (IndexableLog env own h ∧ Dated h ∧ ∀ tx ∈ h, Regular own tx)
    ⟨fun h => ⟨h.1, h.2.1, h.2.2⟩, fun h => ⟨h.1, h.2, h.3⟩⟩

theorem Tracked.of_prefix {env : Env} {own : ℕ} {h h' : List ConfirmedTransaction}
    (ht : Tracked env own h') (hh : h <+: h') : Tracked env own h where
  indexable := AlongPrefixes.of_prefix ht.indexable hh
  dated := fun tx htx => ht.dated tx (hh.subset htx)
  regular := fun tx htx => ht.regular tx (hh.subset htx)

/-! ### Types of credited keys -/

section Types

variable {env : Env} {own : ℕ} {s : InMemory} {publicKey : ℕ}
  {allowed : AddressType → Option String}

/-- A check that passed, with the type that it saw. -/
theorem requireAddressType_eq_ok {f : Filter}
    (h : Validate.requireAddressType env s f publicKey allowed = .ok ()) :
    ∃ t, s.getAddressType env { f with involvedPublicKey := some publicKey } = .ok t ∧
      allowed t = none := by
  simp only [Validate.requireAddressType, bind_eq_ok] at h
  obtain ⟨t, ht, hresult⟩ := h
  refine ⟨t, ht, ?_⟩
  split at hresult
  · next hnone => exact hnone
  · simp at hresult

/-- A key that is neither unknown nor of a deferred transfer has the type of an account. -/
theorem AccountChecked.hasType (h : AccountChecked env s publicKey allowed)
    (hi : Indexed env own s) (hs : s.Represents own s.history) (ht : Tracked env own s.history)
    (hnone : allowed .none ≠ none) (hdeferred : allowed .deferredTransfer ≠ none) :
    ∃ t, t ≠ .none ∧ t ≠ .deferredTransfer ∧ HasType env own s.history publicKey t := by
  obtain ⟨f, hf, hcheck⟩ := h
  obtain ⟨t, hlookup, hallowed⟩ := requireAddressType_eq_ok hcheck
  have hne : t ≠ .none := by
    rintro rfl
    exact hnone hallowed
  refine ⟨t, hne, ?_, (hasType_of_getAddressType hi hs ht.indexable ht.regular hf hlookup hne).2⟩
  rintro rfl
  exact hdeferred hallowed

/-- A key that was found to be new has no type. -/
theorem AccountChecked.not_hasType (h : AccountChecked env s publicKey Validate.newRecipient)
    (hi : Indexed env own s) (hs : s.Represents own s.history) (ht : Tracked env own s.history)
    {t : AddressType} (hne : t ≠ .none) : ¬ HasType env own s.history publicKey t := by
  intro htype
  obtain ⟨f, hf, hcheck⟩ := h
  obtain ⟨t', hlookup, hallowed⟩ := requireAddressType_eq_ok hcheck
  have hkey : publicKey ≠ 0 := by
    rintro rfl
    simp [InMemory.getAddressType] at hlookup
  rw [getAddressType_eq hi hs ht.indexable ht.regular hf hkey htype hne, Except.ok.injEq] at hlookup
  subst hlookup
  unfold Validate.newRecipient at hallowed
  split at hallowed
  · exact hne rfl
  · simp at hallowed

/-- A deferred transfer types its recipient. -/
theorem Indexable.mem_typedAddresses {pre : List ConfirmedTransaction}
    {tx : ConfirmedTransaction} (h : Indexable env own pre tx) {d : GradidoDeferredTransfer}
    (hd : tx.body.specific = .deferredTransfer d) :
    (env.dict.index own d.transfer.recipient, AddressType.deferredTransfer) ∈
      tx.typedAddresses env own := by
  have hlocal := (h.deferred d hd).1
  simp [ConfirmedTransaction.typedAddresses, ConfirmedGradidoTx.communities, hlocal, hd]

end Types

namespace ConfirmTransaction

variable {env : Env} {direct : ℕ → Role → Prop}

/-- The senders of deferred transfers have accounts. -/
theorem Reachable.deferredSenders_hasType {p : InMemoryProvider} (h : Reachable env direct p)
    {i : ℕ} (ht : Tracked env i (p.findBlockchain i).history) {tx : ConfirmedTransaction}
    (htx : tx ∈ (p.findBlockchain i).history) {d : GradidoDeferredTransfer}
    (hd : tx.body.specific = .deferredTransfer d) :
    ∃ t, t ≠ .none ∧ t ≠ .deferredTransfer ∧
      HasType env i (p.findBlockchain i).history d.transfer.sender.publicKey t := by
  have halong := h.alongPrefixes (Q := fun i pre tx => Tracked env i (pre ++ [tx]) → ∀ d,
    tx.body.specific = .deferredTransfer d → ∃ t, t ≠ .none ∧ t ≠ .deferredTransfer ∧
      HasType env i pre d.transfer.sender.publicKey t) (by
      intro community role p q tx hq htx hb _ ht d hd
      have ht' := ht.of_prefix (List.prefix_append _ _)
      have htype := (ht.regular tx (by simp)).type_ne_inbound
        (by simp [TransactionBody.transactionType, hd])
      exact (hb.deferred_parties hq.logged hd htype).1.hasType
        (hq.indexed community ht'.indexable) (hq.logged.represents community) ht'
        (by simp [Validate.registeredSender]) (by simp [Validate.registeredSender])) i
  obtain ⟨pre, hpre, hsender⟩ := halong.of_mem htx
  obtain ⟨t, hnone, hdeferred, htype⟩ := hsender (ht.of_prefix hpre) d hd
  exact ⟨t, hnone, hdeferred, htype.mono (fun t ht => hpre.subset (List.mem_append_left _ ht))⟩

end ConfirmTransaction

/-- A credited key has an account, or is the recipient of the deferred transfer itself. -/
theorem Credited.hasType {env : Env} {direct : ℕ → Role → Prop} {q : InMemoryProvider}
    (hq : Reachable env direct q) {community : ℕ}
    (ht : Tracked env community (q.findBlockchain community).history) {tx : ConfirmedTransaction}
    {publicKey : ℕ} (h : Credited env (q.findBlockchain community) tx publicKey) :
    (∃ d, tx.body.specific = .deferredTransfer d ∧ d.transfer.recipient = publicKey) ∨
      ∃ t, t ≠ .none ∧ t ≠ .deferredTransfer ∧
        HasType env community (q.findBlockchain community).history publicKey t := by
  have hi := hq.indexed community ht.indexable
  cases h with
  | recipient hd hkey => exact .inl ⟨_, hd, hkey⟩
  | checked hnone hdeferred hcheck =>
    exact .inr (hcheck.hasType hi (hq.logged.represents community) ht hnone hdeferred)
  | sender hentry hd hkey => exact .inr (hkey ▸ hq.deferredSenders_hasType ht hentry hd)
  | root hfirst hr hkey =>
    obtain ⟨cs, hcs⟩ := hi
    rcases hkey with hgmw | hauf
    · refine .inr ⟨.communityGmw, by simp, by simp, _, hfirst,
        (hcs.hasType_iff_typed ht.regular hfirst).2 ?_⟩
      simp [ConfirmedTransaction.typed, hr, hgmw]
    · refine .inr ⟨.communityAuf, by simp, by simp, _, hfirst,
        (hcs.hasType_iff_typed ht.regular hfirst).2 ?_⟩
      simp [ConfirmedTransaction.typed, hr, hauf]

/-! ### The address of a deferred transfer -/

/-- A transaction leaves a key something. -/
def Funds (tx : ConfirmedTransaction) (publicKey : ℕ) : Prop :=
  ∃ b ∈ tx.accountBalances, b.publicKey = publicKey ∧ b.balance ≠ 0

namespace InMemory.Represents

variable {s : InMemory} {community : ℕ} {h : List ConfirmedTransaction}
  {tx : ConfirmedTransaction}

/-- A transaction with a smaller number belongs to the log before. -/
theorem mem_take (hs : s.Represents community h) (htx : tx ∈ h) {n : ℕ} (hle : tx.id ≤ n) :
    tx ∈ h.take n := by
  obtain ⟨k, hk⟩ := List.getElem?_of_mem htx
  have hid := hs.id k tx hk
  exact List.mem_of_getElem? ((List.getElem?_take_of_lt (by omega)).trans hk)

/-- A transaction and the log before it. -/
theorem along {P : List ConfirmedTransaction → ConfirmedTransaction → Prop}
    (hs : s.Represents community h) (halong : AlongPrefixes P h) (htx : tx ∈ h) :
    h.take (tx.id - 1) ++ [tx] <+: h ∧ P (h.take (tx.id - 1)) tx := by
  obtain ⟨k, hk⟩ := List.getElem?_of_mem htx
  have hid : tx.id - 1 = k := by
    rw [hs.id k tx hk]
    rfl
  rw [hid]
  refine ⟨?_, halong.getElem? hk⟩
  have htake : h.take (k + 1) = h.take k ++ [tx] := by
    rw [List.take_add_one, hk]
    rfl
  exact htake ▸ List.take_prefix _ _

theorem eq_of_id (hs : s.Represents community h) (htx : tx ∈ h) {tx' : ConfirmedTransaction}
    (htx' : tx' ∈ h) (hid : tx.id = tx'.id) : tx = tx' := by
  have hbyNr := hs.byNr_id htx
  rw [hid, hs.byNr_id htx', Option.some.injEq] at hbyNr
  exact hbyNr.symm

end InMemory.Represents

/-- **Only the deferred transfer funds its address.** -/
theorem ConfirmTransaction.Reachable.funded {env : Env} {calls : List Call} {p : InMemoryProvider}
    (h : Reachable env (CalledRole calls) p) {i : ℕ}
    (ht : Tracked env i (p.findBlockchain i).history) {entry tx : ConfirmedTransaction}
    (hentry : entry ∈ (p.findBlockchain i).history) {d : GradidoDeferredTransfer}
    (hd : entry.body.specific = .deferredTransfer d) (htx : tx ∈ (p.findBlockchain i).history)
    (hfunds : Funds tx d.transfer.recipient) : tx = entry := by
  have halong := h.alongPrefixes (Q := fun i pre tx => Tracked env i (pre ++ [tx]) →
    (∀ k, Funds tx k → (∃ d, tx.body.specific = .deferredTransfer d ∧ d.transfer.recipient = k) ∨
      ∃ t, t ≠ .none ∧ t ≠ .deferredTransfer ∧ HasType env i pre k t) ∧
    ∀ d, tx.body.specific = .deferredTransfer d → ∀ t, t ≠ .none →
      ¬ HasType env i pre d.transfer.recipient t) (by
      intro community role p q tx hq _ hb horigin ht
      have ht' := ht.of_prefix (List.prefix_append _ _)
      refine ⟨?_, ?_⟩
      · rintro k ⟨b, hbmem, rfl, hne⟩
        exact (hb.credited hq.logged ht.regular (hb.computed horigin) b hbmem
          hne).hasType hq ht'
      · intro d hd t hne
        have htype := (ht.regular tx (by simp)).type_ne_inbound
          (by simp [TransactionBody.transactionType, hd])
        exact (hb.deferred_parties hq.logged hd htype).2.not_hasType
          (hq.indexed community ht'.indexable) (hq.logged.represents community) ht' hne) i
  have hs := h.logged.represents i
  obtain ⟨hpre, htxQ⟩ := hs.along halong htx
  obtain ⟨hpre', hentryQ⟩ := hs.along halong hentry
  obtain ⟨hcredited, hnew⟩ := htxQ (ht.of_prefix hpre)
  obtain ⟨-, hnew'⟩ := hentryQ (ht.of_prefix hpre')
  have hsub : ∀ n, (p.findBlockchain i).history.take n ⊆ (p.findBlockchain i).history :=
    fun n => (List.take_prefix n _).subset
  -- what a deferred transfer of the log types
  have htyped : ∀ e ∈ (p.findBlockchain i).history, ∀ d, e.body.specific = .deferredTransfer d →
      (env.dict.index i d.transfer.recipient, AddressType.deferredTransfer) ∈
        e.typedAddresses env i := by
    intro e he d hd
    exact (hs.along ht.indexable he).2.mem_typedAddresses hd
  have hpos := (hs.id_le_length htx).1
  have hpos' := (hs.id_le_length hentry).1
  rcases Nat.lt_trichotomy tx.id entry.id with hlt | heq | hgt
  · -- before, the address would not have been new
    exfalso
    have hmem := hs.mem_take htx (show tx.id ≤ entry.id - 1 by omega)
    rcases hcredited _ hfunds with ⟨d', hd', hkey⟩ | ⟨t, hnone, -, htype⟩
    · exact hnew' d hd .deferredTransfer (by simp) ⟨tx, hmem, hkey ▸ htyped tx htx d' hd'⟩
    · refine hnew' d hd t hnone (htype.mono ?_)
      exact (List.take_prefix_take_left (by omega)).subset
  · exact hs.eq_of_id htx hentry heq
  · -- after, the address has the type of a deferred transfer
    exfalso
    have hmem := hs.mem_take hentry (show entry.id ≤ tx.id - 1 by omega)
    rcases hcredited _ hfunds with ⟨d', hd', hkey⟩ | ⟨t, -, hdeferred, htype⟩
    · refine hnew d' hd' .deferredTransfer (by simp) ⟨entry, hmem, ?_⟩
      rw [hkey]
      exact htyped entry hentry d hd
    · exact hdeferred ((h.indexed i ht.indexable).hasType_unique (htype.mono (hsub _))
        ⟨entry, hentry, htyped entry hentry d hd⟩)

/-! ### The balance checks of settlements -/

/-- The date at which the check of a timeout looks at the balance: one microsecond before the
due date. -/
def beforeDue (body : TransactionBody) : Timestamp :=
  ⟨body.createdAt.seconds, body.createdAt.nanos - 1000⟩

/-- The balance check of a settlement sees what there is.

* A redeem is confirmed within two minutes after its creation, also in nanoseconds, and asks for
  more than the tolerance of the check, or for a balance that is not zero.
* No transaction with the address of the deferred transfer is later than the date at which the
  check of a timeout looks. -/
@[mk_iff]
structure InView (env : Env) (own : ℕ) (pre : List ConfirmedTransaction)
    (tx : ConfirmedTransaction) : Prop where
  redeem : ∀ r, tx.body.specific = .redeemDeferredTransfer r →
    r.transfer.sender.coinCommunityIdIndex ≠ 0 ∧
      (Validate.estimatedConfirmedAt tx.body).lt tx.confirmedAt = false ∧
      (100 < r.transfer.sender.amount ∨
        foundBalance env r.transfer.sender.publicKey r.transfer.sender.coinCommunityIdIndex
          (Validate.estimatedConfirmedAt tx.body)
          (latest (ConfirmedTransaction.Searched own r.transfer.sender.publicKey
            r.transfer.sender.coinCommunityIdIndex) pre) ≠ .ok 0)
  timeout : ∀ nr, tx.body.specific = .timeoutDeferredTransfer nr → ∀ entry ∈ pre, entry.id = nr →
    ∀ d, entry.body.specific = .deferredTransfer d →
    ∀ last ∈ latest (ConfirmedTransaction.Searched own d.transfer.recipient 0) pre,
      (beforeDue tx.body).lt last.confirmedAt = false ∧
        last.confirmedAt.getAsTimepoint ≤ (beforeDue tx.body).getAsTimepoint

instance decidableInView {env : Env} {own : ℕ} {pre : List ConfirmedTransaction}
    {tx : ConfirmedTransaction} : Decidable (InView env own pre tx) :=
  decidable_of_iff _ (inView_iff env own pre tx).symm

/-- A balance that is not zero comes from an entry that is not zero. -/
theorem exists_entry_of_foundBalance {env : Env} (laws : DecayLaws env) {publicKey coin : ℕ}
    {date : Timestamp} {found : Option ConfirmedTransaction} {amount : ℤ}
    (hdate : ∀ tx ∈ found, tx.confirmedAt.getAsTimepoint ≤ date.getAsTimepoint)
    (h : foundBalance env publicKey coin date found = .ok amount) (hne : amount ≠ 0) :
    ∃ last, found = some last ∧ ∃ b ∈ last.accountBalances, b.publicKey = publicKey ∧
      b.balance ≠ 0 ∧ b.coinCommunityIdIndex = coin := by
  cases found with
  | none =>
    simp only [foundBalance, Except.ok.injEq] at h
    exact absurd h.symm hne
  | some tx =>
    refine ⟨tx, rfl, ?_⟩
    simp only [foundBalance, ConfirmedTransaction.getDecayedAccountBalance,
      ConfirmedTransaction.getAccountBalance] at h
    cases hfind : tx.accountBalances.find? (fun b => b.belongsTo publicKey (some coin)) with
    | none =>
      rw [hfind] at h
      dsimp only at h
      rw [laws.calculateDecay_zero (hdate tx rfl), Except.ok.injEq] at h
      exact absurd h.symm hne
    | some b =>
      rw [hfind] at h
      dsimp only at h
      have hb := List.find?_some hfind
      simp only [AccountBalance.belongsTo, Bool.and_eq_true, decide_eq_true_eq] at hb
      refine ⟨b, List.mem_of_find?_eq_some hfind, hb.1, ?_, hb.2.symm⟩
      intro hzero
      rw [hzero, laws.calculateDecay_zero (hdate tx rfl), Except.ok.injEq] at h
      exact hne h.symm

namespace ConfirmTransaction

variable {env : Env} {community : ℕ} {role : Role} {q : InMemoryProvider}
  {tx : ConfirmedTransaction}

/-- The balance check of a redeem that was confirmed. -/
theorem Built.redeem_balance (hb : Built env q community role tx) (hq : Logged env q)
    (hnode : role.mAccountBalances = none) {r : GradidoRedeemDeferredTransfer}
    (hr : tx.body.specific = .redeemDeferredTransfer r) (htype : tx.body.type ≠ .inbound) :
    ∃ last final, (q.findBlockchain community).mLastTransaction = some last ∧
      CalculateAccountBalance.fromEnd env (q.findBlockchain community) r.transfer.sender.publicKey
        (Validate.estimatedConfirmedAt tx.body) (some r.transfer.sender.coinCommunityIdIndex)
        last.id = .ok final ∧
      r.transfer.sender.amount ≤ final + 100 := by
  have hlast := hb.last_ne_none hq (by simp [TransactionBody.transactionType, hr])
  obtain ⟨c, hc⟩ := hb.accepted
  obtain ⟨hown, hprevious⟩ := Validate.prepareContext_sender hc.context htype
  have hspecific := hc.specific
  have hr' : tx.gradidoTransaction.body.specific = .redeemDeferredTransfer r := hr
  have hlevel :
      (validationType role (q.findBlockchain community).mLastTransaction).previousBalance =
        true := by
    simp [validationType, hnode, Option.isSome_iff_ne_none, hlast]
  simp only [Validate.specificRole, hr', Validate.gradidoRedeemDeferredTransferRole, bind_eq_ok,
    exists_unit, when_eq_ok, Validate.gradidoTransferRole, orThrow_eq_ok,
    Validate.validatePrevious, throwIf_eq_ok, decide_eq_false_iff_not, hown, hprevious] at hspecific
  obtain ⟨last, hlast', final, hfinal, hamount⟩ := hspecific.2.2.2.2.2.2.2 hlevel
  exact ⟨last, final, hlast', hfinal, by omega⟩

/-- The balance check of a timeout that was confirmed. -/
theorem Built.timeout_balance (hb : Built env q community role tx) {nr : ℕ}
    (hnr : tx.body.specific = .timeoutDeferredTransfer nr)
    (htype : tx.body.type ≠ .inbound) :
    ∃ entry d last balance, (q.findBlockchain community).mTransactionsByNr nr = some entry ∧
      entry.body.getDeferredTransfer = some d ∧
      (q.findBlockchain community).mLastTransaction = some last ∧
      CalculateAccountBalance.fromEnd env (q.findBlockchain community) d.transfer.recipient
        (beforeDue tx.body) none last.id = .ok balance ∧
      balance ≠ 0 := by
  obtain ⟨type, c, haccount, hspecific, hsender, -⟩ := hb.account_checked
    (by simp [TransactionBody.transactionType, hnr])
  obtain ⟨hown, hprevious⟩ := hsender htype
  simp only [Validate.specificRole, hnr, Validate.gradidoTimeoutDeferredTransferRole, bind_eq_ok,
    exists_unit, when_eq_ok, orThrow_eq_ok, throwIf_eq_ok, decide_eq_false_iff_not, hown,
    hprevious] at hspecific
  obtain ⟨entry, hentry, d, hd, last, hlast, balance, hbalance, hne⟩ := hspecific.2.2 haccount
  exact ⟨entry, d, last, balance, hentry, hd, hlast, hbalance, hne⟩

/-- The balances of deferred transfers: one of them belongs to the address, and all are in the
coin that was sent. -/
theorem Reachable.deferredBalances {calls : List Call} {p : InMemoryProvider}
    (h : Reachable env (CalledRole calls) p) {i : ℕ} {entry : ConfirmedTransaction}
    (hentry : entry ∈ (p.findBlockchain i).history) {d : GradidoDeferredTransfer}
    (hd : entry.body.specific = .deferredTransfer d) :
    entry.HasEntry d.transfer.recipient d.transfer.sender.coinCommunityIdIndex ∧
      ∀ b ∈ entry.accountBalances,
        b.coinCommunityIdIndex = d.transfer.sender.coinCommunityIdIndex := by
  have halong := h.alongPrefixes (Q := fun _ _ tx => ∀ d,
    tx.body.specific = .deferredTransfer d →
    tx.HasEntry d.transfer.recipient d.transfer.sender.coinCommunityIdIndex ∧
      ∀ b ∈ tx.accountBalances,
        b.coinCommunityIdIndex = d.transfer.sender.coinCommunityIdIndex) (by
      intro community role p q tx hq _ hb horigin d hd
      obtain ⟨sender, recipient, hsender, hrecipient, heq⟩ :=
        (hb.computed horigin).of_deferredTransfer hd
      obtain ⟨-, hsenderCoin, -⟩ := calculateAccountBalance_spec hsender
      obtain ⟨hkey, hrecipientCoin, -⟩ := calculateAccountBalance_spec hrecipient
      refine ⟨⟨recipient, by simp [heq], hkey, hrecipientCoin⟩, ?_⟩
      simp [heq, hsenderCoin, hrecipientCoin]) i
  obtain ⟨pre, -, hQ⟩ := halong.of_mem hentry
  exact hQ d hd

end ConfirmTransaction

/-- What a settlement did: it settled an earlier deferred transfer, emptied its address in a coin,
and saw a balance of the address.  A redeem saw it in its own coin, a timeout in any coin. -/
def Settles (own : ℕ) (pre : List ConfirmedTransaction) (tx : ConfirmedTransaction) (nr : ℕ) :
    Prop :=
  ∃ entry ∈ pre, entry.id = nr ∧ ∃ d, entry.body.specific = .deferredTransfer d ∧
    ∃ coin, tx.HasEntry d.transfer.recipient coin ∧
    ∃ last, ∃ b ∈ last.accountBalances, b.publicKey = d.transfer.recipient ∧ b.balance ≠ 0 ∧
      (coin = d.transfer.sender.coinCommunityIdIndex ∧
          latest (ConfirmedTransaction.Searched own d.transfer.recipient 0) pre = some last ∨
        b.coinCommunityIdIndex = coin ∧
          latest (ConfirmedTransaction.Searched own d.transfer.recipient coin) pre = some last)

section Settles

variable {env : Env} {community : ℕ} {role : Role} {p q : InMemoryProvider}
  {tx : ConfirmedTransaction} {calls : List Call}

/-- A redeem in view saw a balance of the address. -/
theorem ConfirmTransaction.Confirms.settles_redeem (laws : DecayLaws env)
    (h : Confirms env community role p q tx) (hb : Built env q community role tx)
    (horigin : Origin (CalledRole calls) (Reachable env (CalledRole calls)) community p role)
    (hq : Reachable env (CalledRole calls) q) (hcommunity : community ≠ 0)
    (ht : Tracked env community ((q.findBlockchain community).history ++ [tx]))
    (hview : InView env community (q.findBlockchain community).history tx)
    {r : GradidoRedeemDeferredTransfer} (hr : tx.body.specific = .redeemDeferredTransfer r) :
    Settles community (q.findBlockchain community).history tx r.deferredTransferTransactionNr := by
  have hs := hq.logged.represents community
  have ht' := ht.of_prefix (List.prefix_append _ _)
  have htype : tx.body.type ≠ .inbound :=
    (ht.regular tx (by simp)).type_ne_inbound (by simp [TransactionBody.transactionType, hr])
  obtain ⟨entry, d, hentry, hd, hrecipient, -⟩ := h.redeem hb hq.logged hr
  rw [settledCommunity, if_neg htype] at hentry
  obtain ⟨hmem, hid⟩ := hs.mem_of_byNr hentry
  obtain ⟨last, final, hlast, hfinal, hamount⟩ :=
    hb.redeem_balance hq.logged horigin.mAccountBalances hr htype
  obtain ⟨hcoin, hspan, hsees⟩ := hview.redeem r hr
  obtain ⟨others, hothers⟩ := (hb.computed horigin).of_redeem hr htype
  have hempties : tx.HasEntry r.transfer.sender.publicKey
      r.transfer.sender.coinCommunityIdIndex :=
    ⟨_, by rw [hothers]; exact List.mem_cons_self, rfl, rfl⟩
  -- the date of the check is not before the chain
  have hdates : ∀ t ∈ (q.findBlockchain community).history,
      (Validate.estimatedConfirmedAt tx.body).lt t.confirmedAt = false ∧
        t.confirmedAt.getAsTimepoint ≤
          (Validate.estimatedConfirmedAt tx.body).getAsTimepoint := by
    intro t htmem
    have hnot := hb.not_lt_confirmedAt hq.logged htmem
    refine ⟨Timestamp.le_trans_of_not_lt hnot hspan, ?_⟩
    have hle := Timestamp.getAsTimepoint_mono (ht'.dated t htmem).1 (ht.dated tx (by simp)).1 hnot
    have hconfirmed := hb.confirmedAt_le hq.logged (by simp [TransactionBody.transactionType, hr])
    have hestimated : (Validate.estimatedConfirmedAt tx.body).getAsTimepoint =
        tx.body.createdAt.getAsTimepoint + Validate.maxTimespan * microsecondsPerSecond := by
      simp only [Validate.estimatedConfirmedAt, Timestamp.getAsTimepoint, Int.add_mul]
      omega
    omega
  have hpos : 0 < (Validate.estimatedConfirmedAt tx.body).getAsTimepoint :=
    lt_of_lt_of_le (ht'.dated entry hmem).2 (hdates entry hmem).2
  have hkey : r.transfer.sender.publicKey ≠ 0 := by
    intro hzero
    simp [CalculateAccountBalance.fromEnd, hzero] at hfinal
  rw [fromEnd_eq (hq.indexed community ht'.indexable) hs (hq.logged.chained community) ht'.dated
    hcommunity laws hkey hcoin (.inr (hs.last_id hlast).ge) hpos hdates] at hfinal
  have hne : final ≠ 0 := by
    rcases hsees with hlarge | hsome
    · omega
    · rintro rfl
      exact hsome hfinal
  obtain ⟨found, hlatest, b, hbmem, hbkey, hbne, hbcoin⟩ := exists_entry_of_foundBalance laws
    (fun t htmem => (hdates t (latest_mem htmem)).2) hfinal hne
  refine ⟨entry, hmem, hid, d, TransactionBody.getDeferredTransfer_eq_some.1 hd, ?_⟩
  rw [hrecipient]
  exact ⟨_, hempties, found, b, hbmem, hbkey, hbne, .inr ⟨hbcoin, hlatest⟩⟩

/-- A timeout in view saw a balance of the address. -/
theorem ConfirmTransaction.Confirms.settles_timeout (laws : DecayLaws env)
    (hb : Built env q community role tx)
    (horigin : Origin (CalledRole calls) (Reachable env (CalledRole calls)) community p role)
    (hq : Reachable env (CalledRole calls) q) (hcommunity : community ≠ 0)
    (ht : Tracked env community ((q.findBlockchain community).history ++ [tx]))
    (hview : InView env community (q.findBlockchain community).history tx)
    {nr : ℕ} (hnr : tx.body.specific = .timeoutDeferredTransfer nr) :
    Settles community (q.findBlockchain community).history tx nr := by
  have hs := hq.logged.represents community
  have ht' := ht.of_prefix (List.prefix_append _ _)
  have htype : tx.body.type ≠ .inbound :=
    (ht.regular tx (by simp)).type_ne_inbound (by simp [TransactionBody.transactionType, hnr])
  obtain ⟨entry, d, last, balance, hentry, hd, hlast, hbalance, hne⟩ :=
    hb.timeout_balance hnr htype
  obtain ⟨hmem, hid⟩ := hs.mem_of_byNr hentry
  have hd' := TransactionBody.getDeferredTransfer_eq_some.1 hd
  have hempties : tx.HasEntry d.transfer.recipient d.transfer.sender.coinCommunityIdIndex := by
    obtain ⟨entry', d₁, _, _, hsettling, -, hbalances⟩ := (hb.computed horigin).of_timeout hnr
    obtain rfl : entry = entry' := Option.some.inj (hentry.symm.trans hsettling.byNr)
    obtain rfl : d = d₁ := by simpa [hd'] using hsettling.deferred
    exact ⟨_, by rw [hbalances]; exact List.mem_cons_of_mem _ List.mem_cons_self, rfl, rfl⟩
  refine ⟨entry, hmem, hid, d, hd', _, hempties, ?_⟩
  -- the deferred transfer itself is among the transactions of its address
  obtain ⟨found, hfound⟩ : ∃ found,
      latest (ConfirmedTransaction.Searched community d.transfer.recipient 0)
        (q.findBlockchain community).history = some found := by
    rw [← Option.ne_none_iff_exists']
    intro hnone
    obtain ⟨b, hbmem, hkey, -⟩ := (hq.deferredBalances hmem hd').1
    exact latest_eq_none_iff.1 hnone entry hmem ⟨⟨b, hbmem, hkey⟩, .inl rfl⟩
  have hdates := hview.timeout nr hnr entry hmem hid d hd' found hfound
  have hcongr : latest (SearchedUpTo community d.transfer.recipient ((none : Option ℕ).getD 0)
      last.id) (q.findBlockchain community).history =
      latest (ConfirmedTransaction.Searched community d.transfer.recipient 0)
        (q.findBlockchain community).history := by
    refine latest_congr (fun t htmem => and_iff_left ?_)
    have hle := (hs.id_le_length htmem).2
    have hlastId := hs.last_id hlast
    omega
  have hpos : 0 < (beforeDue tx.body).getAsTimepoint :=
    lt_of_lt_of_le (ht'.dated found (latest_mem hfound)).2 hdates.2
  obtain ⟨c, hrel, hfromEnd⟩ := fromEndIndex_eq (hq.indexed community ht'.indexable) hs
    (hq.logged.chained community) ht'.dated hcommunity d.transfer.recipient none last.id hpos
    (by
      rw [hcongr, hfound]
      rintro _ ⟨⟩
      exact hdates)
  rw [hcongr, hfound] at hrel
  cases hrel with
  | @some _ c hcompact =>
    have hkey : d.transfer.recipient ≠ 0 := by
      intro hzero
      simp [CalculateAccountBalance.fromEnd, hzero] at hbalance
    rw [CalculateAccountBalance.fromEnd, decide_eq_false hkey, throwIf_false, ok_bind,
      hs.community, hfromEnd] at hbalance
    dsimp only at hbalance
    rw [Option.getD_none, hcompact.find_balance, if_pos rfl] at hbalance
    cases hfind : found.accountBalances.find?
      (fun b => b.belongsTo d.transfer.recipient none) with
    | none =>
      rw [hfind] at hbalance
      dsimp only [getDecayedAmount] at hbalance
      rw [laws.calculateDecay_zero (by simpa [Timestamp.getAsTimepoint] using hpos.le),
        Except.ok.injEq] at hbalance
      exact absurd hbalance.symm hne
    | some b =>
      rw [hfind] at hbalance
      dsimp only [getDecayedAmount] at hbalance
      have hbelongs := List.find?_some hfind
      simp only [AccountBalance.belongsTo, Bool.and_true, decide_eq_true_eq] at hbelongs
      refine ⟨found, b, List.mem_of_find?_eq_some hfind, hbelongs, ?_, .inl ⟨rfl, hfound⟩⟩
      intro hzero
      rw [hzero, laws.calculateDecay_zero hdates.2, Except.ok.injEq] at hbalance
      exact hne hbalance.symm

end Settles

/-! ### Whole runs -/

theorem settledNr_eq_some {body : TransactionBody} {nr : ℕ} (h : settledNr body = some nr) :
    (∃ r, body.specific = .redeemDeferredTransfer r ∧ r.deferredTransferTransactionNr = nr) ∨
      body.specific = .timeoutDeferredTransfer nr := by
  unfold settledNr at h
  split at h
  · next r hr => exact .inl ⟨r, hr, Option.some.inj h⟩
  · next nr' hnr =>
    cases h
    exact .inr hnr
  · simp at h

/-- What the settlements of a run did. -/
theorem run_settles (env : Env) (laws : DecayLaws env) (calls : List Call) {community : ℕ}
    (hcommunity : community ≠ 0)
    (ht : Tracked env community ((run env calls).findBlockchain community).history)
    (hview : AlongPrefixes (InView env community)
      ((run env calls).findBlockchain community).history) :
    AlongPrefixes (fun pre tx => ∀ nr, settledNr tx.body = some nr → Settles community pre tx nr)
      ((run env calls).findBlockchain community).history := by
  have halong := (reachable_run env calls).alongPrefixes (Q := fun i pre tx => i ≠ 0 →
    Tracked env i (pre ++ [tx]) → InView env i pre tx →
    ∀ nr, settledNr tx.body = some nr → Settles i pre tx nr) (by
      intro community role p q tx hq h hb horigin hcommunity ht hview nr hnr
      rcases settledNr_eq_some hnr with ⟨r, hr, rfl⟩ | htimeout
      · exact h.settles_redeem laws hb horigin hq hcommunity ht hview hr
      · exact Confirms.settles_timeout laws hb horigin hq hcommunity ht hview htimeout) community
  intro pre tx post heq
  exact halong pre tx post heq hcommunity
    (ht.of_prefix ⟨post, by rw [heq, List.append_assoc]; rfl⟩) (hview pre tx post heq)

/-- A settlement saw the deferred transfer as the latest transaction of its address. -/
theorem Settles.latest_eq {env : Env} {calls : List Call} {own : ℕ} {p : InMemoryProvider}
    (hp : Reachable env (CalledRole calls) p)
    (ht : Tracked env own (p.findBlockchain own).history)
    {pre : List ConfirmedTransaction} (hpre : pre ⊆ (p.findBlockchain own).history)
    {entry tx : ConfirmedTransaction} (hentry : entry ∈ (p.findBlockchain own).history)
    {d : GradidoDeferredTransfer} (hd : entry.body.specific = .deferredTransfer d)
    (h : Settles own pre tx entry.id) :
    entry ∈ pre ∧ tx.HasEntry d.transfer.recipient d.transfer.sender.coinCommunityIdIndex ∧
      ∃ coin, (coin = 0 ∨ coin = d.transfer.sender.coinCommunityIdIndex) ∧
        latest (ConfirmedTransaction.Searched own d.transfer.recipient coin) pre = some entry := by
  obtain ⟨entry', hmem, hid, d', hd', coin, hempties, last, b, hb, hkey, hne, hseen⟩ := h
  obtain rfl := (hp.logged.represents own).eq_of_id (hpre hmem) hentry hid
  obtain rfl : d' = d := by
    rw [hd, Specific.deferredTransfer.injEq] at hd'
    exact hd'.symm
  have hcoins := (hp.deferredBalances hentry hd).2
  have hlast : ∀ {coin},
      latest (ConfirmedTransaction.Searched own d'.transfer.recipient coin) pre = some last →
      last = entry' := by
    intro coin hlatest
    exact hp.funded ht hentry hd (hpre (latest_mem hlatest)) ⟨b, hb, hkey, hne⟩
  rcases hseen with ⟨rfl, hlatest⟩ | ⟨hbcoin, hlatest⟩
  · obtain rfl := hlast hlatest
    exact ⟨hmem, hempties, 0, .inl rfl, hlatest⟩
  · obtain rfl := hlast hlatest
    rw [hcoins b hb] at hbcoin
    subst hbcoin
    exact ⟨hmem, hempties, _, .inr rfl, hlatest⟩

/-- **A deferred transfer is settled at most once**, in every run in which the balance checks of
the settlements see what there is. -/
theorem run_settledOnce (env : Env) (laws : DecayLaws env) (calls : List Call) {community : ℕ}
    (hcommunity : community ≠ 0)
    (ht : Tracked env community ((run env calls).findBlockchain community).history)
    (hview : AlongPrefixes (InView env community)
      ((run env calls).findBlockchain community).history) :
    SettledOnce ((run env calls).findBlockchain community).history := by
  have hp := reachable_run env calls
  have hs := hp.logged.represents community
  have halong := run_settles env laws calls hcommunity ht hview
  -- an earlier settlement would be a later transaction of the address than the deferred transfer
  have hnot : ∀ entry ∈ ((run env calls).findBlockchain community).history,
      entry.body.transactionType = .deferredTransfer →
      ∀ tx ∈ ((run env calls).findBlockchain community).history,
      ∀ tx' ∈ ((run env calls).findBlockchain community).history,
      settledNr tx.body = some entry.id → settledNr tx'.body = some entry.id →
      ¬ tx.id < tx'.id := by
    intro entry hentry htype tx htx tx' htx' hnr hnr' hlt
    obtain ⟨d, hd⟩ := TransactionBody.exists_deferredTransfer htype
    have hsub : ∀ n, ((run env calls).findBlockchain community).history.take n ⊆
        ((run env calls).findBlockchain community).history :=
      fun n => (List.take_prefix n _).subset
    obtain ⟨hbefore, ⟨b, hb, hkey, hcoin⟩, -⟩ :=
      ((hs.along halong htx).2 _ hnr).latest_eq hp ht (hsub _) hentry hd
    obtain ⟨-, -, coin, hcoin', hlatest⟩ :=
      ((hs.along halong htx').2 _ hnr').latest_eq hp ht (hsub _) hentry hd
    have hsearched : tx.Searched community d.transfer.recipient coin := by
      refine ⟨⟨b, hb, hkey⟩, ?_⟩
      rcases hcoin' with rfl | rfl
      · exact .inl rfl
      · exact .inr (.inr ⟨b, hb, hcoin⟩)
    have hle : tx.id ≤ entry.id :=
      ((latest_eq_some_iff_of_numbered (hs.numbered.sublist (List.take_sublist _ _))).1
        hlatest).2.2 tx (hs.mem_take htx (by omega)) hsearched
    have hgt : entry.id < tx.id :=
      (List.pairwise_append.1 (hs.numbered.sublist (hs.along halong htx).1.sublist)).2.2 entry
        hbefore tx List.mem_cons_self
    omega
  intro entry hentry htype tx htx tx' htx' hnr hnr'
  refine hs.eq_of_id htx htx' ?_
  have h := hnot entry hentry htype tx htx tx' htx' hnr hnr'
  have h' := hnot entry hentry htype tx' htx' tx htx hnr' hnr
  omega

namespace Sample

/-- The timeout by the trigger event and the one by the call, which has no signature, are both
confirmed at the due date. -/
theorem punctualTimeout_not_settledOnce :
    ¬ SettledOnce ((run env (setup ++ [deferred, punctualTimeout])).findBlockchain 1).history := by
  intro h
  have hids : ∀ entry ∈ ((run env (setup ++ [deferred, punctualTimeout])).findBlockchain 1).history,
      entry.body.transactionType = .deferredTransfer →
      ∀ tx ∈ ((run env (setup ++ [deferred, punctualTimeout])).findBlockchain 1).history,
      ∀ tx' ∈ ((run env (setup ++ [deferred, punctualTimeout])).findBlockchain 1).history,
      settledNr tx.body = some entry.id → settledNr tx'.body = some entry.id → tx.id = tx'.id :=
    fun entry hentry htype tx htx tx' htx' hnr hnr' =>
      congrArg (·.id) (h entry hentry htype tx htx tx' htx' hnr hnr')
  revert hids
  decide +kernel

/-- Address `30` redeems half of the deferred transfer for account `21`. -/
def redeemHalf : Call :=
  call 5 0 (transaction 0 (signedByKey 30) []
    (.redeemDeferredTransfer ⟨4, ⟨⟨30, 50, 1⟩, 21⟩⟩))

/-- The address still has a balance when the redeem is confirmed. -/
theorem redeemHalf_settledOnce :
    ((run env (setup ++ [deferred, redeemHalf])).findBlockchain 1).history.map
        (fun tx => settledNr tx.body) = [none, none, none, none, some 4] ∧
      SettledOnce ((run env (setup ++ [deferred, redeemHalf])).findBlockchain 1).history := by
  refine ⟨by decide +kernel, run_settledOnce env decayLaws _ (by decide) ?_ ?_⟩
  · decide +kernel
  · decide +kernel

end Sample

end Gradido
