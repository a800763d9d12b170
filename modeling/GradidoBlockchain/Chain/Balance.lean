import GradidoBlockchain.Chain.Indexed

/-!
# Balance lookups

The balance of an account in a coin is what the latest transaction with an
entry for both says, decayed since then (`expectedBalance`).  The code reads it
in three ways: `AbstractRole::calculateAccountBalance` by key and by key index,
and `calculateAccountBalance::Context::fromEnd` in the validation.  All three
search the index for the latest transaction that changed a balance of the
account and take the entry from there.

For a foreign coin the index can tell the transactions apart; for the own coin
it cannot.  `lookup_eq_expected_iff` says exactly when the result is right
nevertheless.
-/

namespace Gradido

open Checked ConfirmTransaction TransactionsIndex

/-! ### What a balance is -/

namespace ConfirmedTransaction

/-- The transaction sets the balance of a key in a coin. -/
def HasEntry (publicKey coin : ℕ) (tx : ConfirmedTransaction) : Prop :=
  ∃ b ∈ tx.accountBalances, b.publicKey = publicKey ∧ b.coinCommunityIdIndex = coin

/-- The transactions among which a lookup takes the latest one.  Coin zero stands for any coin. -/
def Searched (own publicKey coin : ℕ) (tx : ConfirmedTransaction) : Prop :=
  (∃ b ∈ tx.accountBalances, b.publicKey = publicKey) ∧
    (coin = 0 ∨ coin = own ∨ ∃ b ∈ tx.accountBalances, b.coinCommunityIdIndex = coin)

instance {publicKey coin : ℕ} : DecidablePred (HasEntry publicKey coin) :=
  fun tx => inferInstanceAs (Decidable (∃ b ∈ tx.accountBalances, _))

instance {own publicKey coin : ℕ} : DecidablePred (Searched own publicKey coin) :=
  fun _ => inferInstanceAs (Decidable (_ ∧ _))

theorem HasEntry.searched {own publicKey coin : ℕ} {tx : ConfirmedTransaction}
    (h : tx.HasEntry publicKey coin) : tx.Searched own publicKey coin := by
  obtain ⟨b, hb, hkey, hcoin⟩ := h
  exact ⟨⟨b, hb, hkey⟩, .inr (.inr ⟨b, hb, hcoin⟩)⟩

/-- A transaction without an entry says zero. -/
theorem getAccountBalance_of_not_hasEntry {publicKey coin : ℕ} {tx : ConfirmedTransaction}
    (h : ¬ tx.HasEntry publicKey coin) : tx.getAccountBalance publicKey (some coin) = 0 := by
  unfold getAccountBalance
  cases hfind : tx.accountBalances.find? (fun b => b.belongsTo publicKey (some coin)) with
  | none => rfl
  | some b =>
    have hb := List.find?_some hfind
    simp only [AccountBalance.belongsTo, Bool.and_eq_true, decide_eq_true_eq] at hb
    exact absurd ⟨b, List.mem_of_find?_eq_some hfind, hb.1, hb.2.symm⟩ h

end ConfirmedTransaction

/-- The balance that an optional transaction says, decayed to a date; zero without one. -/
def foundBalance (env : Env) (publicKey coin : ℕ) (date : Timestamp) :
    Option ConfirmedTransaction → Except Exception ℤ
  | none => .ok 0
  | some tx => tx.getDecayedAccountBalance env publicKey (some coin) date.getAsTimepoint

/-- The balance of an account in a coin at a date. -/
def expectedBalance (env : Env) (h : List ConfirmedTransaction) (publicKey coin : ℕ)
    (date : Timestamp) : Except Exception ℤ :=
  foundBalance env publicKey coin date
    (latest (ConfirmedTransaction.HasEntry publicKey coin) h)

/-- What is used of the decay functions of the core library: the duration is defined from an
earlier to a later date, and nothing stays nothing. -/
structure DecayLaws (env : Env) : Prop where
  duration : ∀ start stop, start ≤ stop → ∃ seconds, env.durationSeconds start stop = some seconds
  zero : ∀ seconds, env.decay 0 seconds = 0

theorem DecayLaws.calculateDecay {env : Env} (laws : DecayLaws env) (amount : ℤ) {start stop : ℤ}
    (h : start ≤ stop) : ∃ seconds, env.calculateDecay amount start stop =
      .ok (env.decay amount seconds) := by
  obtain ⟨seconds, hseconds⟩ := laws.duration (start.tdiv microsecondsPerSecond)
    (stop.tdiv microsecondsPerSecond) (Int.tdiv_le_tdiv (by decide) h)
  exact ⟨seconds, by rw [Env.calculateDecay, hseconds]⟩

theorem DecayLaws.calculateDecay_zero {env : Env} (laws : DecayLaws env) {start stop : ℤ}
    (h : start ≤ stop) : env.calculateDecay 0 start stop = .ok 0 := by
  obtain ⟨seconds, hseconds⟩ := laws.calculateDecay 0 h
  rw [hseconds, laws.zero]

/-- The dates of a log are proper timestamps after the epoch. -/
def Dated (h : List ConfirmedTransaction) : Prop :=
  ∀ tx ∈ h, tx.confirmedAt.Normal ∧ 0 < tx.confirmedAt.getAsTimepoint

instance {h : List ConfirmedTransaction} : Decidable (Dated h) :=
  inferInstanceAs (Decidable (∀ tx ∈ h, _))

/-- A date that is not before the last transaction is not before any. -/
theorem InMemory.Represents.not_after {env : Env} {s : InMemory} {own : ℕ}
    {h : List ConfirmedTransaction} (hs : s.Represents own h) (hchained : Chained env h)
    (hdated : Dated h) {date : Timestamp} (hnormal : date.Normal)
    (hlast : ∀ last ∈ s.mLastTransaction, date.lt last.confirmedAt = false) :
    ∀ tx ∈ h, date.lt tx.confirmedAt = false ∧
      tx.confirmedAt.getAsTimepoint ≤ date.getAsTimepoint := by
  intro tx htx
  obtain ⟨last, hlast'⟩ : ∃ last, h.getLast? = some last := by
    rw [← Option.isSome_iff_exists, List.getLast?_isSome]
    exact List.ne_nil_of_mem htx
  have horder := Timestamp.le_trans_of_not_lt (hchained.not_lt_of_getLast hlast' htx)
    (hlast last (by rw [hs.last]; exact hlast'))
  exact ⟨horder, Timestamp.getAsTimepoint_mono (hdated tx htx).1 hnormal horder⟩

/-! ### Searching the latest transaction -/

namespace CompactOf

variable {env : Env} {own : ℕ} {tx : ConfirmedTransaction} {c : ConfirmedGradidoTx}

/-- What the filter of a lookup asks for. -/
theorem wanted_iff (h : CompactOf env own tx c) {f : CompactFilter} {publicKey : ℕ}
    (hkey : f.publicKeyIndex = env.dict.toPublicKeyIndex publicKey own)
    (htype : f.publicKeySearchType = .balanceChangingPublicKey)
    (hall : f.transactionType = .none) :
    Wanted env own f c ↔ tx.Searched own publicKey f.coinCommunityIdIndex := by
  have hbalances := h.fields.2.2.2.2.2.1
  have hcoin : (∃ b ∈ c.accountBalances, b.coinCommunityIdIndex = f.coinCommunityIdIndex) ↔
      ∃ b ∈ tx.accountBalances, b.coinCommunityIdIndex = f.coinCommunityIdIndex := by
    simp [hbalances, ConfirmedGradidoTx.compactBalances]
  unfold Wanted WantedKey ConfirmedTransaction.Searched
  rw [hkey, h.isBalanceUpdated_iff publicKey, hcoin]
  simp only [htype, hall, true_or, and_true, forall_const, reduceCtorEq, false_implies]
  exact and_comm

/-- The entry that a compact transaction finds; coin zero stands for any coin. -/
theorem find_balance (h : CompactOf env own tx c) (publicKey coin : ℕ) :
    c.getAccountBalance (env.dict.toPublicKeyIndex publicKey own) coin =
      match tx.accountBalances.find?
        (fun b => b.belongsTo publicKey (if coin = 0 then none else some coin)) with
      | some b => (b.balance, tx.confirmedAt)
      | none => (0, ⟨0, 0⟩) := by
  obtain ⟨-, hconfirmedAt, hown, -, -, hbalances, -⟩ := h.fields
  unfold ConfirmedGradidoTx.getAccountBalance
  rw [hbalances, ConfirmedGradidoTx.compactBalances, List.find?_map, hown, hconfirmedAt]
  have hpred : ((fun b : CompactAccountBalance =>
      decide (b.publicKeyIndex = (env.dict.toPublicKeyIndex publicKey own).publicKeyIndex) &&
        (decide (coin = 0) || decide (coin = b.coinCommunityIdIndex))) ∘
      fun b : AccountBalance => (⟨b.balance, b.coinCommunityIdIndex,
        env.dict.index own b.publicKey⟩ : CompactAccountBalance)) =
      fun b => b.belongsTo publicKey (if coin = 0 then none else some coin) := by
    funext b
    by_cases hcoin : coin = 0 <;>
      simp [hcoin, AccountBalance.belongsTo, PublicKeyDictionary.toPublicKeyIndex]
  rw [hpred]
  cases tx.accountBalances.find?
    (fun b => b.belongsTo publicKey (if coin = 0 then none else some coin)) with
  | none => simp [PublicKeyDictionary.toPublicKeyIndex]
  | some b => simp [PublicKeyDictionary.toPublicKeyIndex]

/-- The compact form says the same balance as the transaction, at every later date. -/
theorem getDecayedAmount_eq (h : CompactOf env own tx c) (laws : DecayLaws env) {coin : ℕ}
    (hcoin : coin ≠ 0) (publicKey : ℕ) {date : Timestamp} (hpos : 0 ≤ date.getAsTimepoint)
    (hdate : tx.confirmedAt.getAsTimepoint ≤ date.getAsTimepoint) :
    getDecayedAmount env (c.getAccountBalance (env.dict.toPublicKeyIndex publicKey own) coin)
      date = tx.getDecayedAccountBalance env publicKey (some coin) date.getAsTimepoint := by
  rw [h.find_balance, if_neg hcoin]
  unfold ConfirmedTransaction.getDecayedAccountBalance ConfirmedTransaction.getAccountBalance
  cases tx.accountBalances.find? (fun b => b.belongsTo publicKey (some coin)) with
  | some b => rfl
  | none =>
    -- the compact form dates the missing entry to the epoch
    dsimp only [getDecayedAmount]
    rw [laws.calculateDecay_zero hdate, laws.calculateDecay_zero]
    simpa [Timestamp.getAsTimepoint] using hpos

end CompactOf

/-- The filter of a lookup. -/
structure Lookup (env : Env) (own publicKey : ℕ) (f : CompactFilter) : Prop where
  key : f.publicKeyIndex = env.dict.toPublicKeyIndex publicKey own
  type : f.publicKeySearchType = .balanceChangingPublicKey
  all : f.transactionType = .none
  direction : f.searchDirection = .desc
  page : f.pagination = ⟨1, 0⟩
  minNr : f.minTransactionNr = 0

theorem Lookup.plain {env : Env} {own publicKey : ℕ} {f : CompactFilter}
    (hf : Lookup env own publicKey f) (hown : own ≠ 0) : Plain f := by
  intro _
  rw [hf.key]
  exact env.dict.empty_toPublicKeyIndex hown publicKey

theorem lookup_lastBalanceFor (env : Env) (own publicKey maxTransactionNr coin : ℕ)
    (interval : TimepointInterval) : Lookup env own publicKey
      { CompactFilter.lastBalanceFor (env.dict.toPublicKeyIndex publicKey own) with
        maxTransactionNr := maxTransactionNr
        coinCommunityIdIndex := coin
        timepointInterval := interval } :=
  ⟨rfl, rfl, rfl, rfl, rfl, rfl⟩

namespace IndexedBy

variable {env : Env} {own : ℕ} {s : InMemory} {cs : List ConfirmedGradidoTx}

/-- The compact transactions of a dated chain are in order. -/
theorem inOrder (h : IndexedBy env own s cs) (hchained : Chained env s.history)
    (hdated : Dated s.history) : InOrder cs where
  positive := by
    intro c hc
    obtain ⟨tx, htx, hcompact⟩ := h.exists_rich hc
    rw [hcompact.fields.2.1]
    exact (hdated tx htx).2
  ordered := by
    have hmap : cs.map (fun c => c.confirmedAt.getAsTimepoint) =
        s.history.map (fun tx => tx.confirmedAt.getAsTimepoint) := by
      refine h.map_eq ?_
      intro tx c hc
      rw [hc.fields.2.1]
    rw [← List.pairwise_map (R := (· ≤ ·)), hmap, List.pairwise_map]
    refine hchained.order.imp_of_mem ?_
    intro a b ha hb hab
    exact Timestamp.getAsTimepoint_mono (hdated a ha).1 (hdated b hb).1 hab

/-- **The latest transaction of an account** in a range from the first one on, as the index finds
it. -/
theorem findTransactions_latest (h : IndexedBy env own s cs) (hown : own ≠ 0) (hne : cs ≠ [])
    {publicKey : ℕ} {f : CompactFilter} (hf : Lookup env own publicKey f) {hi : ℕ}
    (hrange : s.mTransactionsIndex.calculateTxRange f = some (1, hi)) (hhi : hi ≤ cs.length) :
    s.mTransactionsIndex.findTransactions f =
      ((latest (fun tx => tx.Searched own publicKey f.coinCommunityIdIndex ∧ tx.id ≤ hi)
        s.history).map ConfirmedTransaction.id).toList := by
  rw [h.index.findTransactions_last hne (hf.plain hown) (by rw [hf.page]) (by rw [hf.page]; rfl)
    hf.direction hrange hhi]
  have hrel := rel_latest
    (P := fun tx => tx.Searched own publicKey f.coinCommunityIdIndex ∧ tx.id ≤ hi)
    (Q := fun c => Wanted env own f c ∧ c.txNr ≤ hi) h.compact (by
      intro tx c hc
      rw [hc.wanted_iff hf.key hf.type hf.all, hc.fields.1])
  generalize latest (fun tx => tx.Searched own publicKey f.coinCommunityIdIndex ∧ tx.id ≤ hi)
    s.history = x at hrel ⊢
  generalize latest (fun c => Wanted env own f c ∧ c.txNr ≤ hi) cs = y at hrel ⊢
  cases hrel with
  | none => rfl
  | some hc => rw [Option.map_some, Option.map_some, hc.fields.1]

/-- The latest transaction of an account in the whole chain. -/
theorem findTransactions_unbounded (h : IndexedBy env own s cs)
    (hs : s.Represents own s.history) (hown : own ≠ 0)
    {publicKey : ℕ} {f : CompactFilter} (hf : Lookup env own publicKey f)
    (hmax : f.maxTransactionNr = 0) (hinterval : f.timepointInterval = .unset) :
    s.mTransactionsIndex.findTransactions f =
      ((latest (ConfirmedTransaction.Searched own publicKey f.coinCommunityIdIndex)
        s.history).map ConfirmedTransaction.id).toList := by
  by_cases hne : cs = []
  · subst hne
    have hempty : s.history = [] := List.length_eq_zero_iff.1 h.length_eq.symm
    rw [hempty]
    simp [findTransactions, h.index.dates.minNr, h.index.dates.maxNr]
  · have hrange := h.index.calculateTxRange_unset hne hf.minNr hinterval
    rw [show cappedNr f cs.length = cs.length by simp [cappedNr, hmax]] at hrange
    rw [h.findTransactions_latest hown hne hf hrange le_rfl]
    have hcongr : latest (fun tx => tx.Searched own publicKey f.coinCommunityIdIndex ∧
        tx.id ≤ cs.length) s.history =
        latest (ConfirmedTransaction.Searched own publicKey f.coinCommunityIdIndex) s.history := by
      refine latest_congr (fun tx htx => and_iff_left ?_)
      rw [h.length_eq]
      exact (hs.id_le_length htx).2
    rw [hcongr]

end IndexedBy

/-! ### The lookups of the confirmation -/

namespace InMemory

/-- A search for at most one number returns its transaction. -/
theorem findOne_of_findTransactions {env : Env} {s : InMemory} {own : ℕ}
    (hs : s.Represents own s.history) {f : Filter} {found : Option ConfirmedTransaction}
    (hfound : ∀ tx ∈ found, tx ∈ s.history)
    (hnrs : s.mTransactionsIndex.findTransactions
        (.ofFilter (env.dict.index s.mCommunityIdIndex) f s.mCommunityIdIndex) =
      (found.map ConfirmedTransaction.id).toList)
    (hmatches : ∀ tx, f.matchesFound tx = .USE) : s.findOne env f = .ok found := by
  unfold findOne findAll findAllWith
  rw [hnrs]
  cases found with
  | none => rfl
  | some tx =>
    have hcapacity :
        f.pagination.hasCapacityLeft ([] : List ConfirmedTransaction).length = true := by
      unfold Pagination.hasCapacityLeft
      by_cases hsize : f.pagination.size = 0 <;> simp [hsize, Nat.pos_iff_ne_zero]
    simp only [Option.map_some, Option.toList_some, collect, hcapacity,
      hs.byNr_id (hfound tx rfl), hmatches tx]
    rfl

end InMemory

/-- A search for at most one number returns its compact transaction. -/
theorem IndexedBy.findOneCompact {env : Env} {own : ℕ} {s : InMemory}
    {cs : List ConfirmedGradidoTx} (h : IndexedBy env own s cs) {f : CompactFilter}
    {found : Option ConfirmedTransaction} (hfound : ∀ tx ∈ found, tx ∈ s.history)
    (hnrs : s.mTransactionsIndex.findTransactions f =
      (found.map ConfirmedTransaction.id).toList) :
    ∃ c, s.findOneCompact f = .ok c ∧ Option.Rel (CompactOf env own) found c := by
  unfold InMemory.findOneCompact InMemory.findAllCompact
  rw [hnrs]
  cases found with
  | none => exact ⟨none, rfl, .none⟩
  | some tx =>
    obtain ⟨c, hc, hcompact⟩ := h.exists_compact (hfound tx rfl)
    refine ⟨some c, ?_, .some hcompact⟩
    simp only [Option.map_some, Option.toList_some, List.map_cons, List.map_nil,
      ← hcompact.fields.1, h.byNr_txNr hc]
    rfl

section Lookups

variable {env : Env} {own : ℕ} {s : InMemory}

/-- The index sees the same filter for a key and for its number. -/
theorem ofFilter_lastBalanceFor (env : Env) {publicKey own : ℕ} (hkey : publicKey ≠ 0)
    (hown : own ≠ 0) (coin : ℕ) :
    CompactFilter.ofFilter (env.dict.index own)
      { Filter.lastBalanceFor publicKey with coinCommunityIdIndex := some coin } own =
      { CompactFilter.lastBalanceFor (env.dict.toPublicKeyIndex publicKey own) with
        coinCommunityIdIndex := coin } := by
  have hfilter : (some publicKey).filter (· ≠ 0) = some publicKey := by
    rw [Option.filter_some, if_pos (by simpa using hkey)]
  simp only [CompactFilter.ofFilter, Filter.lastBalanceFor, CompactFilter.lastBalanceFor, hfilter,
    CompactFilter.searchFor, PublicKeyDictionary.index_eq_zero, hkey, hown, if_false]
  rfl

/-- **The lookup by key** takes the latest transaction that it searches. -/
theorem previousDecayedAccountBalance_eq (h : Indexed env own s)
    (hs : s.Represents own s.history) (hown : own ≠ 0) {publicKey : ℕ} (hkey : publicKey ≠ 0)
    (coin : ℕ) (date : Timestamp) :
    previousDecayedAccountBalance env s date publicKey coin =
      foundBalance env publicKey coin date
        (latest (ConfirmedTransaction.Searched own publicKey coin) s.history) := by
  obtain ⟨cs, hcs⟩ := h
  have hnrs := hcs.findTransactions_unbounded hs hown
    (lookup_lastBalanceFor env own publicKey 0 coin .unset) rfl rfl
  have hfound : s.findOne env { Filter.lastBalanceFor publicKey with
      coinCommunityIdIndex := some coin } =
      .ok (latest (ConfirmedTransaction.Searched own publicKey coin) s.history) := by
    refine InMemory.findOne_of_findTransactions hs (fun tx htx => latest_mem htx) ?_ (fun _ => rfl)
    rw [hs.community, ofFilter_lastBalanceFor env hkey hown]
    exact hnrs
  unfold previousDecayedAccountBalance
  rw [hfound, ok_bind]
  cases latest (ConfirmedTransaction.Searched own publicKey coin) s.history with
  | none => rfl
  | some tx => rfl

/-- **The lookup by key index** gives the same. -/
theorem previousDecayedCompactBalance_eq (h : Indexed env own s)
    (hs : s.Represents own s.history) (hown : own ≠ 0) (laws : DecayLaws env) (publicKey : ℕ)
    {coin : ℕ} (hcoin : coin ≠ 0) {date : Timestamp} (hpos : 0 ≤ date.getAsTimepoint)
    (hdate : ∀ tx ∈ s.history, tx.confirmedAt.getAsTimepoint ≤ date.getAsTimepoint) :
    previousDecayedCompactBalance env s date (env.dict.toPublicKeyIndex publicKey own) coin =
      foundBalance env publicKey coin date
        (latest (ConfirmedTransaction.Searched own publicKey coin) s.history) := by
  obtain ⟨cs, hcs⟩ := h
  have hnrs := hcs.findTransactions_unbounded hs hown
    (lookup_lastBalanceFor env own publicKey 0 coin .unset) rfl rfl
  obtain ⟨c, hc, hrel⟩ := hcs.findOneCompact (fun tx htx => latest_mem htx) hnrs
  have hc' : s.findOneCompact { CompactFilter.lastBalanceFor
      (env.dict.toPublicKeyIndex publicKey own) with coinCommunityIdIndex := coin } = .ok c := hc
  unfold previousDecayedCompactBalance
  rw [hc', ok_bind]
  have hmem : ∀ tx ∈ latest (ConfirmedTransaction.Searched own publicKey coin) s.history,
      tx ∈ s.history := fun tx htx => latest_mem htx
  dsimp only [CompactFilter.lastBalanceFor] at hrel
  generalize latest (ConfirmedTransaction.Searched own publicKey coin) s.history = found at *
  cases hrel with
  | none => rfl
  | @some tx c hcompact =>
    exact hcompact.getDecayedAmount_eq laws hcoin publicKey hpos (hdate tx (hmem tx rfl))

/-- The transactions of an account up to a number, zero for all. -/
def SearchedUpTo (own publicKey coin maxTransactionNr : ℕ) (tx : ConfirmedTransaction) : Prop :=
  tx.Searched own publicKey coin ∧ (maxTransactionNr = 0 ∨ tx.id ≤ maxTransactionNr)

instance {own publicKey coin maxTransactionNr : ℕ} :
    DecidablePred (SearchedUpTo own publicKey coin maxTransactionNr) :=
  fun _ => inferInstanceAs (Decidable (_ ∧ _))

/-- The search of the validation: the latest transaction of the account, provided that it is not
after the date. -/
theorem findTransactions_fromEnd {cs : List ConfirmedGradidoTx} (h : IndexedBy env own s cs)
    (hs : s.Represents own s.history) (horder : InOrder cs) (hown : own ≠ 0)
    (publicKey coin maxTransactionNr : ℕ) {date : Timestamp} (hpos : 0 < date.getAsTimepoint)
    (hwriter : ∀ tx ∈ latest (SearchedUpTo own publicKey coin maxTransactionNr) s.history,
      tx.confirmedAt.getAsTimepoint ≤ date.getAsTimepoint) :
    s.mTransactionsIndex.findTransactions
        { CompactFilter.lastBalanceFor (env.dict.toPublicKeyIndex publicKey own) with
          maxTransactionNr := maxTransactionNr
          coinCommunityIdIndex := coin
          timepointInterval := ⟨0, date.getAsTimepoint⟩ } =
      ((latest (SearchedUpTo own publicKey coin maxTransactionNr) s.history).map
        ConfirmedTransaction.id).toList := by
  have hf := lookup_lastBalanceFor env own publicKey maxTransactionNr coin
    ⟨0, date.getAsTimepoint⟩
  set f : CompactFilter :=
    { CompactFilter.lastBalanceFor (env.dict.toPublicKeyIndex publicKey own) with
      maxTransactionNr := maxTransactionNr
      coinCommunityIdIndex := coin
      timepointInterval := ⟨0, date.getAsTimepoint⟩ } with hfdef
  by_cases hne : cs = []
  · subst hne
    have hempty : s.history = [] := List.length_eq_zero_iff.1 h.length_eq.symm
    rw [hempty]
    simp [findTransactions, h.index.dates.minNr, h.index.dates.maxNr]
  by_cases hfirst : timepointAsYearMonthDay date.getAsTimepoint < firstDate cs
  · -- every transaction is later than the date
    have hnone : latest (SearchedUpTo own publicKey coin maxTransactionNr) s.history = none := by
      cases hlatest : latest (SearchedUpTo own publicKey coin maxTransactionNr) s.history with
      | none => rfl
      | some tx =>
        have hle := hwriter tx hlatest
        obtain ⟨c, hc, hcompact⟩ := h.exists_compact (latest_mem hlatest)
        have hcpos := horder.positive c hc
        rw [← hcompact.fields.2.1] at hle
        have hday : ¬ timepointAsYearMonthDay date.getAsTimepoint < c.date :=
          timepointAsYearMonthDay_mono hle hpos.ne' hcpos.ne'
        have hcfirst := horder.firstDate_le hc
        rw [YearMonthDay.lt_def] at hday hcfirst hfirst
        omega
    rw [hnone, h.index.findTransactions_before (by simp [f, TimepointInterval.isEmpty, hpos.ne'])
      hfirst]
    rfl
  · obtain ⟨hi, hrange, hlast⟩ := h.index.calculateTxRange_upTo hne horder hf.minNr hpos rfl hfirst
    have hhi : hi ≤ cs.length := by
      rcases hlast with ⟨rfl, -⟩ | ⟨-, c, hc, -, rfl, -⟩
      · exact Nat.zero_le _
      · exact (h.index.txNr_bounds hc).2
    have hcapped : cappedNr f hi ≤ cs.length := ((le_cappedNr.1 le_rfl).1).trans hhi
    rw [h.findTransactions_latest hown hne hf hrange hcapped]
    congr 2
    cases hlatest : latest (SearchedUpTo own publicKey coin maxTransactionNr) s.history with
    | none =>
      rw [latest_eq_none_iff] at hlatest ⊢
      rintro tx htx ⟨hsearched, hle⟩
      exact hlatest tx htx ⟨hsearched, (le_cappedNr.1 hle).2⟩
    | some tx =>
      have hle := hwriter tx hlatest
      obtain ⟨htx, ⟨hsearched, hmax⟩, hbest⟩ :=
        (latest_eq_some_iff_of_numbered hs.numbered).1 hlatest
      obtain ⟨c, hc, hcompact⟩ := h.exists_compact htx
      rw [latest_eq_some_iff_of_numbered hs.numbered]
      refine ⟨htx, ⟨hsearched, le_cappedNr.2 ⟨?_, hmax⟩⟩, ?_⟩
      · have hcpos := horder.positive c hc
        rw [← hcompact.fields.2.1] at hle
        have hday : ¬ timepointAsYearMonthDay date.getAsTimepoint < c.date :=
          timepointAsYearMonthDay_mono hle hpos.ne' hcpos.ne'
        rw [← hcompact.fields.1]
        rcases hlast with ⟨-, hnone⟩ | ⟨-, c', hc', -, rfl, hbest'⟩
        · exact absurd hday (hnone c hc)
        · exact hbest' c hc hday
      · rintro tx' htx' ⟨hsearched', hle'⟩
        exact hbest tx' htx' ⟨hsearched', (le_cappedNr.1 hle').2⟩

/-- **The lookup of the validation** takes the latest transaction of the account, provided that it
is not after the date. -/
theorem fromEndIndex_eq (h : Indexed env own s) (hs : s.Represents own s.history)
    (hchained : Chained env s.history) (hdated : Dated s.history) (hown : own ≠ 0)
    (publicKey : ℕ) (coin : Option ℕ) (maxTransactionNr : ℕ) {date : Timestamp}
    (hpos : 0 < date.getAsTimepoint)
    (hwriter : ∀ tx ∈ latest (SearchedUpTo own publicKey (coin.getD 0) maxTransactionNr)
      s.history, date.lt tx.confirmedAt = false ∧
        tx.confirmedAt.getAsTimepoint ≤ date.getAsTimepoint) :
    ∃ c, Option.Rel (CompactOf env own)
        (latest (SearchedUpTo own publicKey (coin.getD 0) maxTransactionNr) s.history) c ∧
      CalculateAccountBalance.fromEndIndex env s (env.dict.toPublicKeyIndex publicKey own) date
        coin maxTransactionNr =
        match c with
        | none => .ok 0
        | some c => getDecayedAmount env
          (c.getAccountBalance (env.dict.toPublicKeyIndex publicKey own) (coin.getD 0)) date := by
  obtain ⟨cs, hcs⟩ := h
  have hnrs := findTransactions_fromEnd hcs hs (hcs.inOrder hchained hdated) hown publicKey
    (coin.getD 0) maxTransactionNr hpos (fun tx htx => (hwriter tx htx).2)
  have hinterval : TimepointInterval.make 0 date.getAsTimepoint =
      .ok ⟨0, date.getAsTimepoint⟩ := by
    have hnot : ¬ (0 : ℤ) > date.getAsTimepoint := by omega
    simp only [TimepointInterval.make, hnot, decide_false, throwIf_false, ok_bind]
    rfl
  unfold CalculateAccountBalance.fromEndIndex InMemory.forEachCompact
  rw [hinterval, ok_bind, InMemory.forEachPage]
  have hmem : ∀ tx ∈ latest (SearchedUpTo own publicKey (coin.getD 0) maxTransactionNr) s.history,
      tx ∈ s.history := fun tx htx => latest_mem htx
  generalize latest (SearchedUpTo own publicKey (coin.getD 0) maxTransactionNr) s.history =
    found at *
  cases found with
  | none =>
    refine ⟨none, .none, ?_⟩
    simp only [CompactFilter.lastBalanceFor, Option.map_none, Option.toList_none] at hnrs ⊢
    rw [hnrs]
  | some tx =>
    obtain ⟨c, hc, hcompact⟩ := hcs.exists_compact (hmem tx rfl)
    refine ⟨some c, .some hcompact, ?_⟩
    have hbyNr := hcs.byNr_txNr hc
    rw [hcompact.fields.1] at hbyNr
    have hgt : c.confirmedAt.gt date = false := by
      rw [hcompact.fields.2.1, Timestamp.gt_eq]
      exact (hwriter tx rfl).1
    simp only [CompactFilter.lastBalanceFor, Option.map_some, Option.toList_some] at hnrs ⊢
    rw [hnrs]
    simp only [InMemory.forPage, hbyNr, CalculateAccountBalance.fromEndFilter, hgt]
    -- the first page already stops the search
    cases getDecayedAmount env
      (c.getAccountBalance (env.dict.toPublicKeyIndex publicKey own) (coin.getD 0)) date with
    | error e => rfl
    | ok amount => simp [FilterResult.STOP, bind, Except.bind, pure, Except.pure]

/-- The lookup of the validation gives the same as the others when its date is not before the
chain. -/
theorem fromEnd_eq (h : Indexed env own s) (hs : s.Represents own s.history)
    (hchained : Chained env s.history) (hdated : Dated s.history) (hown : own ≠ 0)
    (laws : DecayLaws env) {publicKey coin : ℕ} (hkey : publicKey ≠ 0) (hcoin : coin ≠ 0)
    {maxTransactionNr : ℕ} (hmax : maxTransactionNr = 0 ∨ s.history.length ≤ maxTransactionNr)
    {date : Timestamp} (hpos : 0 < date.getAsTimepoint)
    (hdate : ∀ tx ∈ s.history, date.lt tx.confirmedAt = false ∧
      tx.confirmedAt.getAsTimepoint ≤ date.getAsTimepoint) :
    CalculateAccountBalance.fromEnd env s publicKey date (some coin) maxTransactionNr =
      foundBalance env publicKey coin date
        (latest (ConfirmedTransaction.Searched own publicKey coin) s.history) := by
  have hcongr : latest (SearchedUpTo own publicKey coin maxTransactionNr) s.history =
      latest (ConfirmedTransaction.Searched own publicKey coin) s.history := by
    refine latest_congr (fun tx htx => and_iff_left ?_)
    have hid := (hs.id_le_length htx).2
    omega
  obtain ⟨c, hrel, hfromEnd⟩ := fromEndIndex_eq h hs hchained hdated hown publicKey (some coin)
    maxTransactionNr hpos (fun tx htx => hdate tx (latest_mem htx))
  rw [Option.getD_some, hcongr] at hrel
  have hmem : ∀ tx ∈ latest (ConfirmedTransaction.Searched own publicKey coin) s.history,
      tx ∈ s.history := fun tx htx => latest_mem htx
  unfold CalculateAccountBalance.fromEnd
  rw [decide_eq_false hkey, throwIf_false, ok_bind, hs.community, hfromEnd]
  generalize latest (ConfirmedTransaction.Searched own publicKey coin) s.history = found at *
  cases hrel with
  | none => rfl
  | @some tx c hcompact =>
    exact hcompact.getDecayedAmount_eq laws hcoin publicKey hpos.le (hdate tx (hmem tx rfl)).2

end Lookups

/-! ### One coin in each transaction -/

namespace ConfirmTransaction

/-- All balances are in one coin. -/
def InOneCoin (balances : List AccountBalance) : Prop :=
  ∃ coin, ∀ b ∈ balances, b.coinCommunityIdIndex = coin

/-- In a run, the node computes the balances. -/
theorem Origin.mAccountBalances {calls : List Call} {P : InMemoryProvider → Prop} {community : ℕ}
    {p : InMemoryProvider} {role : Role} (h : Origin (CalledRole calls) P community p role) :
    role.mAccountBalances = none := by
  cases h with
  | call hrole =>
    obtain ⟨c, -, -, rfl⟩ := hrole
    rfl
  | event _ _ => rfl

theorem Built.computed {env : Env} {calls : List Call} {P : InMemoryProvider → Prop}
    {community : ℕ} {p q : InMemoryProvider} {role : Role} {tx : ConfirmedTransaction}
    (hb : Built env q community role tx) (h : Origin (CalledRole calls) P community p role) :
    Computed env (q.findBlockchain community) tx.confirmedAt tx.body tx.accountBalances := by
  refine computed_of_ok (hb.calculated ?_)
  rw [hb.derivation, Role.mBalanceDerivationType, h.mAccountBalances]
  simp

/-- A confirmed transaction is not before the chain. -/
theorem Built.not_lt_confirmedAt {env : Env} {community : ℕ} {role : Role} {q : InMemoryProvider}
    {tx : ConfirmedTransaction} (hb : Built env q community role tx) (hq : Logged env q)
    {t : ConfirmedTransaction} (ht : t ∈ (q.findBlockchain community).history) :
    tx.confirmedAt.lt t.confirmedAt = false := by
  obtain ⟨last, hlast⟩ : ∃ last, (q.findBlockchain community).history.getLast? = some last := by
    rw [← Option.isSome_iff_exists, List.getLast?_isSome]
    exact List.ne_nil_of_mem ht
  exact Timestamp.le_trans_of_not_lt ((hq.chained community).not_lt_of_getLast hlast ht)
    (hb.order last ((hq.represents community).last.trans hlast))

/-- Every transaction of a run has its balances in one coin. -/
theorem Reachable.inOneCoin {env : Env} {calls : List Call} {p : InMemoryProvider}
    (h : Reachable env (CalledRole calls) p) :
    ∀ i, ∀ tx ∈ (p.findBlockchain i).history, InOneCoin tx.accountBalances := by
  refine h.forall_confirmed (Q := fun _ _ tx => InOneCoin tx.accountBalances)
    (fun _ _ _ _ _ hq => hq) ?_
  intro community role p q tx _ _ hb horigin
  obtain ⟨coin, hcoin⟩ := (hb.computed horigin).exists_coin
  exact ⟨coin, fun b hbmem => (hcoin b hbmem).1⟩

end ConfirmTransaction

/-! ### Main results -/

/-- The three lookups of a balance give the expected one. -/
structure LooksUp (env : Env) (s : InMemory) (publicKey coin : ℕ) (date : Timestamp) : Prop where
  byKey : previousDecayedAccountBalance env s date publicKey coin =
    expectedBalance env s.history publicKey coin date
  byIndex : previousDecayedCompactBalance env s date
      (env.dict.toPublicKeyIndex publicKey s.mCommunityIdIndex) coin =
    expectedBalance env s.history publicKey coin date
  fromEnd : ∀ maxTransactionNr, maxTransactionNr = 0 ∨ s.history.length ≤ maxTransactionNr →
    CalculateAccountBalance.fromEnd env s publicKey date (some coin) maxTransactionNr =
      expectedBalance env s.history publicKey coin date

/-- The coin is a foreign one, or the latest transaction of the account has an entry in the own
coin, or nothing of the own coin is left. -/
def CoinVisible (env : Env) (own : ℕ) (h : List ConfirmedTransaction) (publicKey coin : ℕ)
    (date : Timestamp) : Prop :=
  coin ≠ own ∨
    (∀ tx ∈ latest (ConfirmedTransaction.Searched own publicKey coin) h,
      tx.HasEntry publicKey coin) ∨
    expectedBalance env h publicKey coin date = .ok 0

/-- In transactions of one coin, a foreign coin finds exactly its own entries. -/
theorem searched_iff_hasEntry {own publicKey coin : ℕ} (hcoin : coin ≠ 0) (hforeign : coin ≠ own)
    {tx : ConfirmedTransaction} (hone : InOneCoin tx.accountBalances) :
    tx.Searched own publicKey coin ↔ tx.HasEntry publicKey coin := by
  refine ⟨?_, fun h => h.searched⟩
  rintro ⟨⟨b, hb, hkey⟩, hzero | hown | ⟨b', hb', hcoin'⟩⟩
  · exact absurd hzero hcoin
  · exact absurd hown hforeign
  · obtain ⟨c, hc⟩ := hone
    exact ⟨b, hb, hkey, by rw [hc b hb, ← hc b' hb', hcoin']⟩

/-- When the transaction that a lookup finds has an entry, it is the latest one with an entry. -/
theorem latest_hasEntry_of_searched {own publicKey coin : ℕ} {h : List ConfirmedTransaction}
    {s : InMemory} (hs : s.Represents own h)
    (hentry : ∀ tx ∈ latest (ConfirmedTransaction.Searched own publicKey coin) h,
      tx.HasEntry publicKey coin) :
    latest (ConfirmedTransaction.HasEntry publicKey coin) h =
      latest (ConfirmedTransaction.Searched own publicKey coin) h := by
  cases hlatest : latest (ConfirmedTransaction.Searched own publicKey coin) h with
  | none =>
    rw [latest_eq_none_iff] at hlatest ⊢
    exact fun tx htx hhas => hlatest tx htx hhas.searched
  | some tx =>
    obtain ⟨htx, -, hbest⟩ := (latest_eq_some_iff_of_numbered hs.numbered).1 hlatest
    rw [latest_eq_some_iff_of_numbered hs.numbered]
    exact ⟨htx, hentry tx hlatest, fun tx' htx' hhas => hbest tx' htx' hhas.searched⟩

/-- What the lookups find is what is expected exactly when the coin is visible. -/
theorem foundBalance_eq_expected_iff {env : Env} (laws : DecayLaws env) {own : ℕ} {s : InMemory}
    {h : List ConfirmedTransaction} (hs : s.Represents own h)
    (hone : ∀ tx ∈ h, InOneCoin tx.accountBalances) (publicKey : ℕ) {coin : ℕ} (hcoin : coin ≠ 0)
    {date : Timestamp}
    (hdate : ∀ tx ∈ h, tx.confirmedAt.getAsTimepoint ≤ date.getAsTimepoint) :
    foundBalance env publicKey coin date
        (latest (ConfirmedTransaction.Searched own publicKey coin) h) =
      expectedBalance env h publicKey coin date ↔ CoinVisible env own h publicKey coin date := by
  by_cases hforeign : coin = own
  · by_cases hentry : ∀ tx ∈ latest (ConfirmedTransaction.Searched own publicKey coin) h,
        tx.HasEntry publicKey coin
    · rw [expectedBalance, latest_hasEntry_of_searched hs hentry]
      exact iff_of_true rfl (.inr (.inl hentry))
    · -- the latest transaction of the account is in another coin and reads as zero
      have hzero : foundBalance env publicKey coin date
          (latest (ConfirmedTransaction.Searched own publicKey coin) h) = .ok 0 := by
        push Not at hentry
        obtain ⟨tx, hlatest, hnone⟩ := hentry
        rw [hlatest, foundBalance, ConfirmedTransaction.getDecayedAccountBalance,
          ConfirmedTransaction.getAccountBalance_of_not_hasEntry hnone]
        exact laws.calculateDecay_zero (hdate tx (latest_mem hlatest))
      rw [hzero]
      constructor
      · intro heq
        exact .inr (.inr heq.symm)
      · rintro (hne | hall | heq)
        · exact absurd hforeign hne
        · exact absurd hall hentry
        · exact heq.symm
  · refine iff_of_true ?_ (.inl hforeign)
    rw [expectedBalance, latest_congr
      (fun tx htx => searched_iff_hasEntry hcoin hforeign (hone tx htx))]

/-- **Balance lookups.**  In every chain that a run leads to, whose transactions are within the
limits of the index and properly dated, the three lookups for a key and a coin at a date that is
not before the chain give the expected balance exactly when the coin is visible. -/
theorem run_looksUp_iff (env : Env) (laws : DecayLaws env) (calls : List Call) {community : ℕ}
    (hcommunity : community ≠ 0)
    (hlog : IndexableLog env community ((run env calls).findBlockchain community).history)
    (hdated : Dated ((run env calls).findBlockchain community).history)
    {publicKey coin : ℕ} (hkey : publicKey ≠ 0) (hcoin : coin ≠ 0) {date : Timestamp}
    (hnormal : date.Normal) (hpos : 0 < date.getAsTimepoint)
    (hlast : ∀ last ∈ ((run env calls).findBlockchain community).mLastTransaction,
      date.lt last.confirmedAt = false) :
    LooksUp env ((run env calls).findBlockchain community) publicKey coin date ↔
      CoinVisible env community ((run env calls).findBlockchain community).history publicKey coin
        date := by
  have hreach := reachable_run env calls
  have hs := hreach.logged.represents community
  have hchained := hreach.logged.chained community
  have hindexed := hreach.indexed community hlog
  have hone := hreach.inOneCoin community
  set s := (run env calls).findBlockchain community
  have hdate := hs.not_after hchained hdated hnormal hlast
  have hdate' := fun tx htx => (hdate tx htx).2
  have hiff := foundBalance_eq_expected_iff laws hs hone publicKey hcoin hdate'
  rw [← hiff]
  have hbyKey := previousDecayedAccountBalance_eq hindexed hs hcommunity hkey coin date
  constructor
  · intro h
    rw [← hbyKey]
    exact h.byKey
  · intro heq
    refine ⟨hbyKey.trans heq, ?_, ?_⟩
    · rw [hs.community]
      exact (previousDecayedCompactBalance_eq hindexed hs hcommunity laws publicKey hcoin hpos.le
        hdate').trans heq
    · intro maxTransactionNr hmax
      exact (fromEnd_eq hindexed hs hchained hdated hcommunity laws hkey hcoin hmax hpos
        hdate).trans heq

namespace Sample

theorem decayLaws : DecayLaws env where
  duration := fun start stop h => ⟨(stop - start).toNat, by simp [env, h]⟩
  zero := fun _ => rfl

/-- Account `21` receives a hundred cents of the own coin, then a hundred of coin two. -/
def twoCoins : List Call :=
  setup ++
    [call 4 0 (transaction 0 (signedByKey 11) [memo] (.transfer ⟨⟨11, 100, 1⟩, 21⟩)),
      call 5 0 (transaction 0 (signedByKey 11) [memo] (.transfer ⟨⟨11, 100, 2⟩, 21⟩))]

/-- A minute after noon. -/
def later : Timestamp := ⟨midnight + 43200 + 60, 0⟩

end Sample

/-- After the second transfer the hundred cents of the own coin read as zero. -/
theorem twoCoins_not_looksUp :
    ¬ LooksUp Sample.env ((run Sample.env Sample.twoCoins).findBlockchain 1) 21 1
      Sample.later := by
  have hfound : (previousDecayedAccountBalance Sample.env
      ((run Sample.env Sample.twoCoins).findBlockchain 1) Sample.later 21 1).toOption =
      some 0 := by
    decide +kernel
  have hexpected : (expectedBalance Sample.env
      ((run Sample.env Sample.twoCoins).findBlockchain 1).history 21 1 Sample.later).toOption =
      some 100 := by
    decide +kernel
  intro h
  rw [h.byKey, hexpected] at hfound
  simp at hfound

/-- The hundred cents of coin two are found. -/
theorem twoCoins_looksUp_foreign :
    LooksUp Sample.env ((run Sample.env Sample.twoCoins).findBlockchain 1) 21 2 Sample.later := by
  have hlast : (((run Sample.env Sample.twoCoins).findBlockchain 1).mLastTransaction.map
      (fun last => Sample.later.lt last.confirmedAt)) = some false := by
    decide +kernel
  refine (run_looksUp_iff _ Sample.decayLaws _ (by decide) (by decide +kernel) (by decide +kernel)
    (by decide) (by decide) (by decide) (by decide) ?_).2 (.inl (by decide))
  intro last hmem
  rw [Option.mem_def.1 hmem] at hlast
  simpa using hlast

end Gradido
