import GradidoBlockchain.Chain.Find
import Mathlib.Data.List.Find

/-!
# Recomputed balances

`fromBegin` computes the balance of an account again: from the first balance
that is not zero on, it asks a role for what each transaction adds and takes
away.  `fromEnd` reads the last balance that is stored.

The table of roles in `getRole` has no place for the type `none`, so every type
gets the role of the next one, and no transaction that can be confirmed has a
role that computes an amount (`roleAmount_error`).  `fromBegin` gives the stored
balance exactly as long as it never asks for a role: when no transaction that
changes the balance of the account follows one that left something
(`run_recomputed_iff`).
-/

namespace Gradido

open Checked ConfirmTransaction CalculateAccountBalance

/-! ### The roles -/

/-- **The table of roles**: only a friends update gets a role that computes an amount. -/
theorem roleAmount_error {env : Env} {s : InMemory} {tx : ConfirmedTransaction} {publicKey : ℕ}
    (htype : tx.body.transactionType ≠ .communityFriendsUpdate) :
    ∃ e, roleAmount env s tx publicKey = .error e := by
  obtain ⟨_, ⟨_, ⟨_, _, _, _, specific⟩, _, _, _⟩, _, _, _, _, _⟩ := tx
  cases specific with
  | none => exact ⟨.nullDereference "getCreation", rfl⟩
  | creation c => exact ⟨.nullDereference "getTransfer", rfl⟩
  | transfer t => exact ⟨.nullDereference "role", rfl⟩
  | communityFriendsUpdate u => exact absurd rfl htype
  | registerAddress r => exact ⟨.nullDereference "getDeferredTransfer", rfl⟩
  | deferredTransfer d => exact ⟨.nullDereference "role", rfl⟩
  | communityRoot r => exact ⟨.nullDereference "getRedeemDeferredTransfer", rfl⟩
  | redeemDeferredTransfer r => exact ⟨.nullDereference "getTimeoutDeferredTransfer", rfl⟩
  | timeoutDeferredTransfer nr => exact ⟨.badFunctionCall, rfl⟩

/-! ### The replay -/

/-- Whoever changes a balance of an account finds nothing on it. -/
def NeverBuiltOn (own publicKey : ℕ) (h : List ConfirmedTransaction) : Prop :=
  h.Pairwise (fun a b => a.isBalanceUpdated publicKey = true → b.isBalanceUpdated publicKey = true →
    a.getAccountBalance publicKey (some own) = 0)

instance {own publicKey : ℕ} {h : List ConfirmedTransaction} :
    Decidable (NeverBuiltOn own publicKey h) :=
  inferInstanceAs (Decidable (List.Pairwise _ _))

/-- The balance and the date that a transaction leaves. -/
def storedBalance (own publicKey : ℕ) (tx : ConfirmedTransaction) : ℤ × ℤ :=
  (tx.getAccountBalance publicKey (some own), tx.confirmedAt.getAsTimepoint)

section Replay

variable {env : Env} {s : InMemory} {f : Filter} {own publicKey : ℕ} {endDate : ℤ}
  {txs : List ConfirmedTransaction} {acc : ℤ × ℤ}

/-- One round of the replay, without interval and without pages. -/
theorem collectInto_cons {filterFunction : ℤ × ℤ → ConfirmedTransaction →
      Except Exception ((ℤ × ℤ) × FilterResult)} {tx : ConfirmedTransaction} {nrs : List ℕ}
    (hpages : f.pagination.size = 0) (hinterval : f.timepointInterval = .unset)
    (hstored : s.mTransactionsByNr tx.id = some tx) :
    s.collectInto f filterFunction (tx.id :: nrs) acc [] =
      filterFunction acc tx >>= fun r =>
        if r.2.stop then .ok (r.1, if r.2.use then [tx] else [])
        else s.collectInto f filterFunction nrs r.1 (if r.2.use then [tx] else []) := by
  have hcapacity : f.pagination.hasCapacityLeft ([] : List ConfirmedTransaction).length = true := by
    simp [Pagination.hasCapacityLeft, hpages]
  have hmatches : f.matchesTimepointInterval tx = true := by
    rw [Filter.matchesTimepointInterval, hinterval]
    rfl
  rw [InMemory.collectInto, hcapacity, hstored]
  dsimp only
  rw [if_neg (by simp), if_pos hmatches]
  rfl

/-- As long as nothing is left, each round takes the stored balance over. -/
theorem collectInto_fromBegin (hpages : f.pagination.size = 0)
    (hinterval : f.timepointInterval = .unset)
    (hstored : ∀ tx ∈ txs, s.mTransactionsByNr tx.id = some tx)
    (hdates : ∀ tx ∈ txs, tx.confirmedAt.getAsTimepoint ≤ endDate)
    (hacc : acc.1 = 0 ∨ txs = [])
    (hzero : txs.Pairwise (fun a _ => a.getAccountBalance publicKey (some own) = 0)) :
    s.collectInto f (fromBeginFilter env s publicKey endDate own)
        (txs.map ConfirmedTransaction.id) acc [] =
      .ok ((txs.getLast?.map (storedBalance own publicKey)).getD acc, []) := by
  induction txs generalizing acc with
  | nil => rfl
  | cons tx txs ih =>
    obtain ⟨hfirst, hrest⟩ := List.pairwise_cons.1 hzero
    have hle := hdates tx List.mem_cons_self
    have hround : fromBeginFilter env s publicKey endDate own acc tx =
        .ok (storedBalance own publicKey tx, .DISMISS) := by
      have hbalance : acc.1 = 0 := hacc.resolve_right (List.cons_ne_nil tx txs)
      unfold fromBeginFilter
      dsimp only
      rw [if_neg (by omega), if_pos hbalance]
      rfl
    have hacc' : (storedBalance own publicKey tx).1 = 0 ∨ txs = [] := by
      cases txs with
      | nil => exact .inr rfl
      | cons t txs => exact .inl (hfirst t List.mem_cons_self)
    have htail := ih (fun t ht => hstored t (List.mem_cons_of_mem tx ht))
      (fun t ht => hdates t (List.mem_cons_of_mem tx ht)) hacc' hrest
    rw [List.map_cons, collectInto_cons hpages hinterval (hstored tx List.mem_cons_self), hround,
      ok_bind]
    refine htail.trans ?_
    cases txs with
    | nil => rfl
    | cons t txs =>
      rw [List.getLast?_cons_cons]
      cases hlast : (t :: txs).getLast? with
      | none => simp at hlast
      | some last => rfl

/-- As soon as something is left, the next round asks a role. -/
theorem collectInto_fromBegin_error (hpages : f.pagination.size = 0)
    (hinterval : f.timepointInterval = .unset)
    (hstored : ∀ tx ∈ txs, s.mTransactionsByNr tx.id = some tx)
    (hdates : ∀ tx ∈ txs, tx.confirmedAt.getAsTimepoint ≤ endDate)
    (htypes : ∀ tx ∈ txs, tx.body.transactionType ≠ .communityFriendsUpdate)
    (hleft : ¬ ((acc.1 = 0 ∨ txs = []) ∧
      txs.Pairwise (fun a _ => a.getAccountBalance publicKey (some own) = 0))) :
    ∃ e, s.collectInto f (fromBeginFilter env s publicKey endDate own)
        (txs.map ConfirmedTransaction.id) acc [] = .error e := by
  induction txs generalizing acc with
  | nil => exact absurd ⟨.inr rfl, .nil⟩ hleft
  | cons tx txs ih =>
    have hle := hdates tx List.mem_cons_self
    rw [List.map_cons, collectInto_cons hpages hinterval (hstored tx List.mem_cons_self)]
    unfold fromBeginFilter
    dsimp only
    rw [if_neg (by omega)]
    by_cases hbalance : acc.1 = 0
    · rw [if_pos hbalance]
      refine ih (fun t ht => hstored t (List.mem_cons_of_mem tx ht))
        (fun t ht => hdates t (List.mem_cons_of_mem tx ht))
        (fun t ht => htypes t (List.mem_cons_of_mem tx ht)) ?_
      rintro ⟨hacc, hrest⟩
      refine hleft ⟨.inl hbalance, List.pairwise_cons.2 ⟨?_, hrest⟩⟩
      intro t ht
      exact hacc.resolve_right (List.ne_nil_of_mem ht)
    · obtain ⟨e, he⟩ := @roleAmount_error env s tx publicKey (htypes tx List.mem_cons_self)
      rw [if_neg hbalance, he]
      exact ⟨e, rfl⟩

end Replay

/-! ### The chain -/

/-- A confirmed transaction is no friends update. -/
theorem ConfirmTransaction.Reachable.not_friendsUpdate {env : Env} {direct : ℕ → Role → Prop}
    {p : InMemoryProvider} (h : Reachable env direct p) :
    ∀ i, ∀ tx ∈ (p.findBlockchain i).history,
      tx.body.transactionType ≠ .communityFriendsUpdate := by
  refine h.forall_confirmed
    (Q := fun _ _ tx => tx.body.transactionType ≠ .communityFriendsUpdate)
    (fun _ _ _ _ _ hq => hq) ?_
  intro community role p q tx _ htx hb _ htype
  have hrole := htx.createRole
  rw [hb.body_eq] at hrole
  simp [ConfirmTransaction.createRole, htype] at hrole

/-- The community root writes its balances in the coin of its community. -/
theorem ConfirmTransaction.Reachable.root_coin {env : Env} {calls : List Call}
    {p : InMemoryProvider} (h : Reachable env (CalledRole calls) p) :
    ∀ i, ∀ tx ∈ (p.findBlockchain i).history, tx.body.transactionType = .communityRoot →
      ∃ b ∈ tx.accountBalances, b.coinCommunityIdIndex = i := by
  refine h.forall_confirmed (Q := fun _ i tx => tx.body.transactionType = .communityRoot →
    ∃ b ∈ tx.accountBalances, b.coinCommunityIdIndex = i) (fun _ _ _ _ _ hq => hq) ?_
  intro community role p q tx hreach _ hb horigin htype
  have hcommunity := (hreach.logged.represents community).community
  have hcomputed := hb.computed horigin
  generalize tx.accountBalances = balances at hcomputed ⊢
  cases hcomputed with
  | communityRoot _ => exact ⟨_, List.mem_cons_self, hcommunity⟩
  | nothing hnone => simp [htype] at hnone
  | _ => simp_all [TransactionBody.transactionType]

/-- A chain in one coin is in the coin of its community. -/
theorem ConfirmTransaction.Reachable.own_coin {env : Env} {calls : List Call}
    {p : InMemoryProvider} (h : Reachable env (CalledRole calls) p) {i : ℕ}
    (hcoin : InOneCoin ((p.findBlockchain i).history.flatMap ConfirmedTransaction.accountBalances))
    {tx : ConfirmedTransaction} (htx : tx ∈ (p.findBlockchain i).history) {b : AccountBalance}
    (hb : b ∈ tx.accountBalances) : b.coinCommunityIdIndex = i := by
  obtain ⟨coin, hcoin⟩ := hcoin
  have hall : ∀ t ∈ (p.findBlockchain i).history, ∀ b ∈ t.accountBalances,
      b.coinCommunityIdIndex = coin :=
    fun t ht b hb => hcoin b (List.mem_flatMap.2 ⟨t, ht, hb⟩)
  -- the first transaction of the chain is the community root
  obtain ⟨root, hroot⟩ : ∃ root, (p.findBlockchain i).history[0]? = some root :=
    ⟨_, List.getElem?_eq_getElem (List.length_pos_of_mem htx)⟩
  have hmem := List.mem_of_getElem? hroot
  obtain ⟨b', hb', hown⟩ := h.root_coin i root hmem
    (((h.logged.chained i).root 0 root hroot).2 rfl)
  rw [hall tx htx b hb, ← hall root hmem b' hb', hown]

section Recomputed

variable {env : Env} {own : ℕ} {s : InMemory}

/-- The filter of `fromBegin` finds the transactions that change a balance of the account, in
order. -/
theorem findTransactions_fromBegin (h : Indexed env own s) (hs : s.Represents own s.history)
    (hchained : Chained env s.history) (hdated : Dated s.history) (hown : own ≠ 0)
    {publicKey : ℕ} (hkey : publicKey ≠ 0) :
    s.mTransactionsIndex.findTransactions (.ofFilter (env.dict.index s.mCommunityIdIndex)
        { minTransactionNr := 1
          updatedBalancePublicKey := some publicKey
          searchDirection := .asc } s.mCommunityIdIndex) =
      (s.history.filter (fun tx => tx.isBalanceUpdated publicKey)).map ConfirmedTransaction.id := by
  obtain ⟨cs, hcs⟩ := h
  set f : Filter :=
    { minTransactionNr := 1
      updatedBalancePublicKey := some publicKey
      searchDirection := .asc } with hf
  have hsearchable : Searchable env own (env.dict.index own) s.history f := by
    refine ⟨.inl rfl, .inl rfl, ?_, ?_, .inl rfl⟩
    · rintro k (hk | hk)
      · simp [hf] at hk
      · obtain rfl : publicKey = k := by simpa [hf] using hk
        exact ⟨hkey, by simpa using hkey, hown⟩
    · intro k hk
      simp [hf] at hk
  have hcandidates := hcs.findTransactions_eq hs (hcs.inOrder hchained hdated)
    (fun k => .inl rfl) hsearchable
  obtain ⟨searchType, key, heq⟩ := CompactFilter.ofFilter_eq (env.dict.index own) f own
  have hpage : s.mTransactionsIndex.findTransactions (.ofFilter (env.dict.index own) f own) =
      s.mTransactionsIndex.findPage (.ofFilter (env.dict.index own) f own) 0 0 := by
    rw [TransactionsIndex.findPage, heq]
  rw [hs.community, hpage, hcandidates]
  refine congrArg _ (List.filter_congr ?_)
  intro tx htx
  have hid := (hs.id_le_length htx).1
  have hnr : ¬ tx.id < 1 := by omega
  simp [Filter.candidate, Filter.meetsOthers, Filter.matchesTransactionNr,
    Filter.matchesTransactionType, Filter.matchesInvolvedPublicKey,
    Filter.matchesUpdatedBalancePublicKey, TransactionsIndex.OnDays, TimepointInterval.isEmpty,
    TimepointInterval.unset, hf, hnr]

/-- In the own coin, the stored balance is the one of the latest change. -/
theorem fromEnd_eq_latest (h : Indexed env own s) (hs : s.Represents own s.history)
    (hchained : Chained env s.history) (hdated : Dated s.history) (hown : own ≠ 0)
    {publicKey : ℕ} (hkey : publicKey ≠ 0)
    (hcoin : ∀ tx ∈ s.history, ∀ b ∈ tx.accountBalances, b.coinCommunityIdIndex = own)
    {date : Timestamp} (hpos : 0 < date.getAsTimepoint)
    (hdate : ∀ tx ∈ s.history, date.lt tx.confirmedAt = false ∧
      tx.confirmedAt.getAsTimepoint ≤ date.getAsTimepoint) :
    fromEnd env s publicKey date none 0 = foundBalance env publicKey own date
      (latest (fun tx => tx.isBalanceUpdated publicKey = true) s.history) := by
  have hcongr : latest (SearchedUpTo own publicKey 0 0) s.history =
      latest (fun tx => tx.isBalanceUpdated publicKey = true) s.history := by
    refine latest_congr ?_
    intro tx _
    rw [ConfirmedTransaction.isBalanceUpdated_eq_true]
    simp [SearchedUpTo, ConfirmedTransaction.Searched, ConfirmedTransaction.HasBalance]
  obtain ⟨c, hrel, hfromEnd⟩ := fromEndIndex_eq h hs hchained hdated hown publicKey none 0 hpos
    (fun tx htx => hdate tx (latest_mem htx))
  rw [Option.getD_none, hcongr] at hrel
  have hmem : ∀ tx ∈ latest (fun tx => tx.isBalanceUpdated publicKey = true) s.history,
      tx ∈ s.history ∧ tx.isBalanceUpdated publicKey = true :=
    fun _ htx => ⟨latest_mem htx,
      latest_prop (P := fun t : ConfirmedTransaction => t.isBalanceUpdated publicKey = true) htx⟩
  unfold fromEnd
  rw [decide_eq_false hkey, throwIf_false, ok_bind, hs.community, hfromEnd]
  generalize latest (fun tx => tx.isBalanceUpdated publicKey = true) s.history = found at *
  cases hrel with
  | none => rfl
  | @some tx c hcompact =>
    obtain ⟨htx, hupdated⟩ := hmem tx rfl
    -- the first entry of the account is one in the own coin
    have hfind : tx.accountBalances.find? (fun b => b.belongsTo publicKey none) =
        tx.accountBalances.find? (fun b => b.belongsTo publicKey (some own)) := by
      refine List.find?_congr ?_
      intro b hb
      simp [AccountBalance.belongsTo, hcoin tx htx b hb]
    dsimp only
    rw [Option.getD_none, hcompact.find_balance, if_pos rfl, hfind, foundBalance,
      ConfirmedTransaction.getDecayedAccountBalance, ConfirmedTransaction.getAccountBalance]
    cases hentry : tx.accountBalances.find? (fun b => b.belongsTo publicKey (some own)) with
    | some b => rfl
    | none =>
      obtain ⟨b, hb, hkey'⟩ := List.any_eq_true.1 hupdated
      refine absurd ?_ (List.find?_eq_none.1 hentry b hb)
      simpa [AccountBalance.belongsTo, hcoin tx htx b hb] using hkey'

/-- **The replay** gives the balance that the latest change has stored exactly when it never asks
for a role. -/
theorem fromBegin_eq_latest_iff (laws : DecayLaws env) (h : Indexed env own s)
    (hs : s.Represents own s.history) (hchained : Chained env s.history)
    (hdated : Dated s.history) (hown : own ≠ 0)
    (htypes : ∀ tx ∈ s.history, tx.body.transactionType ≠ .communityFriendsUpdate)
    {publicKey : ℕ} (hkey : publicKey ≠ 0) {date : Timestamp} (hpos : 0 < date.getAsTimepoint)
    (hdate : ∀ tx ∈ s.history, tx.confirmedAt.getAsTimepoint ≤ date.getAsTimepoint) :
    fromBegin env s 1 publicKey date.getAsTimepoint none = foundBalance env publicKey own date
        (latest (fun tx => tx.isBalanceUpdated publicKey = true) s.history) ↔
      NeverBuiltOn own publicKey s.history := by
  have hfound := findTransactions_fromBegin h hs hchained hdated hown hkey
  have hpairwise : NeverBuiltOn own publicKey s.history ↔
      (s.history.filter (fun tx => tx.isBalanceUpdated publicKey)).Pairwise
        (fun a _ => a.getAccountBalance publicKey (some own) = 0) := by
    rw [NeverBuiltOn, List.pairwise_filter]
  rw [hpairwise, latest_eq_getLast?_filter]
  simp only [Bool.decide_eq_true]
  unfold fromBegin InMemory.findAllInto
  rw [hfound, Option.getD_none, hs.community]
  have hmem : ∀ tx ∈ s.history.filter (fun tx => tx.isBalanceUpdated publicKey),
      tx ∈ s.history := fun tx htx => (List.mem_filter.1 htx).1
  generalize s.history.filter (fun tx => tx.isBalanceUpdated publicKey) = txs at hmem ⊢
  have hstored := fun tx htx => hs.byNr_id (hmem tx htx)
  have hdates := fun tx htx => hdate tx (hmem tx htx)
  by_cases hzero : txs.Pairwise (fun a _ => a.getAccountBalance publicKey (some own) = 0)
  · refine iff_of_true ?_ hzero
    rw [collectInto_fromBegin rfl rfl hstored hdates (.inl rfl) hzero, ok_bind]
    cases txs.getLast? with
    | none => exact laws.calculateDecay_zero hpos.le
    | some tx => rfl
  · obtain ⟨e, he⟩ := @collectInto_fromBegin_error env s
      { minTransactionNr := 1
        updatedBalancePublicKey := some publicKey
        searchDirection := .asc } own publicKey date.getAsTimepoint txs (0, 0) rfl rfl hstored
      hdates (fun tx htx => htypes tx (hmem tx htx)) (fun hboth => hzero hboth.2)
    obtain ⟨amount, hamount⟩ : ∃ amount,
        foundBalance env publicKey own date txs.getLast? = .ok amount := by
      cases hlast : txs.getLast? with
      | none => exact ⟨0, rfl⟩
      | some tx =>
        obtain ⟨seconds, hseconds⟩ := laws.calculateDecay
          (tx.getAccountBalance publicKey (some own)) (hdates tx (List.mem_of_getLast? hlast))
        exact ⟨_, hseconds⟩
    refine iff_of_false ?_ hzero
    rw [he, hamount]
    intro heq
    cases heq

end Recomputed

/-- **Recomputed and stored balances.**  In every chain in one coin that a run leads to, whose
transactions are within the limits of the index and properly dated, the balance of an account that
`fromBegin` computes for a date that is not before the chain is the one that `fromEnd` reads exactly
when no transaction changes the balance of the account after one that left something. -/
theorem run_recomputed_iff (env : Env) (laws : DecayLaws env) (calls : List Call) {community : ℕ}
    (hcommunity : community ≠ 0)
    (hlog : IndexableLog env community ((run env calls).findBlockchain community).history)
    (hdated : Dated ((run env calls).findBlockchain community).history)
    (hcoin : InOneCoin (((run env calls).findBlockchain community).history.flatMap
      ConfirmedTransaction.accountBalances))
    {publicKey : ℕ} (hkey : publicKey ≠ 0) {date : Timestamp} (hnormal : date.Normal)
    (hpos : 0 < date.getAsTimepoint)
    (hlast : ∀ last ∈ ((run env calls).findBlockchain community).mLastTransaction,
      date.lt last.confirmedAt = false) :
    fromBegin env ((run env calls).findBlockchain community) 1 publicKey date.getAsTimepoint none =
        fromEnd env ((run env calls).findBlockchain community) publicKey date none 0 ↔
      NeverBuiltOn community publicKey ((run env calls).findBlockchain community).history := by
  have hreach := reachable_run env calls
  have hs := hreach.logged.represents community
  have hchained := hreach.logged.chained community
  have hindexed := hreach.indexed community hlog
  have hown : ∀ tx ∈ ((run env calls).findBlockchain community).history,
      ∀ b ∈ tx.accountBalances, b.coinCommunityIdIndex = community :=
    fun tx htx b hb => hreach.own_coin hcoin htx hb
  have hdate := hs.not_after hchained hdated hnormal hlast
  rw [fromEnd_eq_latest hindexed hs hchained hdated hcommunity hkey hown hpos hdate]
  exact fromBegin_eq_latest_iff laws hindexed hs hchained hdated hcommunity
    (hreach.not_friendsUpdate community) hkey hpos (fun tx htx => (hdate tx htx).2)

namespace Sample

/-- A thousand coins are created for account `11`, which sends fifty of them to account `21`. -/
def createdThenSent : List Call :=
  setup ++
    [call 4 200 (transaction 200 (signedByKey 21) [memo]
        (.creation ⟨⟨11, 10000000, 1⟩, midnight⟩)),
      call 5 300 (transaction 300 (signedByKey 11) [memo] (.transfer ⟨⟨11, 500000, 1⟩, 21⟩))]

/-- Noon of the next day. -/
def nextNoon : Timestamp := ⟨midnight + 129600, 0⟩

/-- For account `11` the replay asks a role for the transfer and gets none. -/
theorem createdThenSent_fromBegin_ne :
    ¬ fromBegin env ((run env createdThenSent).findBlockchain 1) 1 11 nextNoon.getAsTimepoint none =
      fromEnd env ((run env createdThenSent).findBlockchain 1) 11 nextNoon none 0 := by
  have hbegin : (fromBegin env ((run env createdThenSent).findBlockchain 1) 1 11
      nextNoon.getAsTimepoint none).toOption = none := by
    decide +kernel
  have hend : (fromEnd env ((run env createdThenSent).findBlockchain 1) 11 nextNoon none
      0).toOption = some 9500000 := by
    decide +kernel
  intro h
  rw [h, hend] at hbegin
  simp at hbegin

/-- For account `21` it ends with the first balance that is not zero. -/
theorem createdThenSent_fromBegin :
    fromBegin env ((run env createdThenSent).findBlockchain 1) 1 21 nextNoon.getAsTimepoint none =
      fromEnd env ((run env createdThenSent).findBlockchain 1) 21 nextNoon none 0 := by
  have hlast : (((run env createdThenSent).findBlockchain 1).mLastTransaction.map
      (fun last => nextNoon.lt last.confirmedAt)) = some false := by
    decide +kernel
  refine (run_recomputed_iff env decayLaws createdThenSent (by decide) (by decide +kernel)
    (by decide +kernel) ⟨1, by decide +kernel⟩ (by decide) (by decide) (by decide) ?_).2
    (by decide +kernel)
  intro last hmem
  rw [Option.mem_def.1 hmem] at hlast
  simpa using hlast

end Sample

end Gradido
