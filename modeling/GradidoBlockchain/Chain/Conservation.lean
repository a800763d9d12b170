import GradidoBlockchain.Chain.Registration
import GradidoBlockchain.Chain.Settlement
import Mathlib.Algebra.BigOperators.Group.Finset.Basic
import Mathlib.Algebra.Ring.Int.Defs

/-!
# Conservation of coins

Summed over all accounts of a chain, a transaction changes the coins by what
it brings into the chain or takes out of it: a creation by three times its
amount, an outbound or inbound transfer or redeem by its amount, everything
else by nothing.  A debit may exceed the balance by a hundred cents.

Every role writes new balances for one to three keys.  Each of them is the
earlier balance, decayed to the confirmation date, plus an amount, or zero.
The sum is as it should be when the keys are different, the lookups see the
earlier balances, and a balance that is replaced by zero is the one that the
other entries pay out.
-/

namespace Gradido

open Checked ConfirmTransaction

/-! ### Totals -/

/-- The accounts of a log. -/
def accounts (h : List ConfirmedTransaction) : Finset ℕ :=
  (h.flatMap (fun tx => tx.accountBalances.map AccountBalance.publicKey)).toFinset

/-- The balance of a key in a coin, decayed to a date. -/
def decayedBalance (env : Env) (h : List ConfirmedTransaction) (publicKey coin : ℕ)
    (date : Timestamp) : ℤ :=
  match expectedBalance env h publicKey coin date with
  | .ok balance => balance
  | .error _ => 0

/-- The balance of a key in a coin after a transaction. -/
def balanceAfter (env : Env) (pre : List ConfirmedTransaction) (tx : ConfirmedTransaction)
    (publicKey coin : ℕ) : ℤ :=
  if tx.HasEntry publicKey coin then tx.getAccountBalance publicKey (some coin)
  else decayedBalance env pre publicKey coin tx.confirmedAt

/-- By how much a transaction changes the coins of all accounts. -/
def minted (env : Env) (pre : List ConfirmedTransaction) (tx : ConfirmedTransaction)
    (coin : ℕ) : ℤ :=
  ∑ k ∈ accounts (pre ++ [tx]),
    (balanceAfter env pre tx k coin - decayedBalance env pre k coin tx.confirmedAt)

/-- What crosses the border of the community. -/
def crossAmount (type : CrossGroupType) (t : GradidoTransfer) (coin : ℕ) : ℤ :=
  if t.sender.coinCommunityIdIndex = coin then
    match type with
    | .outbound => -t.sender.amount
    | .inbound => t.sender.amount
    | _ => 0
  else 0

/-- By how much a transaction should change the coins of all accounts. -/
def nominal (body : TransactionBody) (coin : ℕ) : ℤ :=
  match body.specific with
  | .creation c => if c.recipient.coinCommunityIdIndex = coin then 3 * c.recipient.amount else 0
  | .transfer t => crossAmount body.type t coin
  | .redeemDeferredTransfer r => crossAmount body.type r.transfer coin
  | _ => 0

/-- The number of balances that a transaction debits. -/
def debited (body : TransactionBody) : ℤ :=
  match body.specific with
  | .transfer _ | .redeemDeferredTransfer _ => if body.type = .inbound then 0 else 1
  | .deferredTransfer _ => 1
  | _ => 0

/-- A transaction changes the coins as it should, up to a hundred cents for each debit. -/
def Conserves (env : Env) (coin : ℕ) (pre : List ConfirmedTransaction)
    (tx : ConfirmedTransaction) : Prop :=
  nominal tx.body coin ≤ minted env pre tx coin ∧
    minted env pre tx coin ≤ nominal tx.body coin + 100 * debited tx.body

instance decidableConserves {env : Env} {coin : ℕ} {pre : List ConfirmedTransaction}
    {tx : ConfirmedTransaction} : Decidable (Conserves env coin pre tx) :=
  inferInstanceAs (Decidable (_ ∧ _))

section Sums

variable {env : Env} {pre : List ConfirmedTransaction} {tx : ConfirmedTransaction} {coin : ℕ}

/-- The entry of a key, when every key has one entry. -/
theorem ConfirmedTransaction.getAccountBalance_eq
    (hkeys : (tx.accountBalances.map AccountBalance.publicKey).Nodup) {b : AccountBalance}
    (hb : b ∈ tx.accountBalances) :
    tx.getAccountBalance b.publicKey (some b.coinCommunityIdIndex) = b.balance := by
  unfold ConfirmedTransaction.getAccountBalance
  cases hfind : tx.accountBalances.find?
    (fun b' => b'.belongsTo b.publicKey (some b.coinCommunityIdIndex)) with
  | none =>
    have hnot := List.find?_eq_none.1 hfind b hb
    simp [AccountBalance.belongsTo] at hnot
  | some b' =>
    have hbelongs := List.find?_some hfind
    simp only [AccountBalance.belongsTo, Bool.and_eq_true, decide_eq_true_eq] at hbelongs
    rw [List.inj_on_of_nodup_map hkeys (List.mem_of_find?_eq_some hfind) hb hbelongs.1]

/-- Only the entries of a transaction change the coins. -/
theorem minted_eq_sum (hkeys : (tx.accountBalances.map AccountBalance.publicKey).Nodup)
    (hcoin : ∀ b ∈ tx.accountBalances, b.coinCommunityIdIndex = coin) :
    minted env pre tx coin = (tx.accountBalances.map (fun b =>
      b.balance - decayedBalance env pre b.publicKey coin tx.confirmedAt)).sum := by
  have hsubset : (tx.accountBalances.map AccountBalance.publicKey).toFinset ⊆
      accounts (pre ++ [tx]) := by
    intro k hk
    rw [List.mem_toFinset] at hk
    simp only [accounts, List.mem_toFinset, List.mem_flatMap]
    exact ⟨tx, by simp, hk⟩
  unfold minted
  rw [← Finset.sum_subset hsubset, List.sum_toFinset _ hkeys, List.map_map]
  · congr 1
    refine List.map_congr_left (fun b hb => ?_)
    have hentry : tx.HasEntry b.publicKey coin := ⟨b, hb, rfl, hcoin b hb⟩
    have hbalance := ConfirmedTransaction.getAccountBalance_eq hkeys hb
    rw [hcoin b hb] at hbalance
    simp only [Function.comp_apply, balanceAfter, if_pos hentry, hbalance]
  · intro k _ hk
    have hnone : ¬ tx.HasEntry k coin := by
      rintro ⟨b, hb, rfl, -⟩
      exact hk (List.mem_toFinset.2 (List.mem_map_of_mem hb))
    rw [balanceAfter, if_neg hnone, sub_self]

/-- A transaction does not change the coins of which it has no entry. -/
theorem minted_eq_zero (hcoin : ∀ b ∈ tx.accountBalances, b.coinCommunityIdIndex ≠ coin) :
    minted env pre tx coin = 0 := by
  refine Finset.sum_eq_zero (fun k _ => ?_)
  have hnone : ¬ tx.HasEntry k coin := by
    rintro ⟨b, hb, -, hbcoin⟩
    exact hcoin b hb hbcoin
  rw [balanceAfter, if_neg hnone, sub_self]

/-- A balance was changed by an amount, up to a slack. -/
def Posted (env : Env) (pre : List ConfirmedTransaction) (date : Timestamp) (b : AccountBalance)
    (posting : ℤ × ℤ) : Prop :=
  decayedBalance env pre b.publicKey b.coinCommunityIdIndex date + posting.1 ≤ b.balance ∧
    b.balance ≤ decayedBalance env pre b.publicKey b.coinCommunityIdIndex date + posting.1 +
      posting.2

/-- The sum of the changes lies between the sums of the postings. -/
theorem sum_posted {date : Timestamp} {balances : List AccountBalance} {postings : List (ℤ × ℤ)}
    (hcoin : ∀ b ∈ balances, b.coinCommunityIdIndex = coin)
    (h : List.Forall₂ (Posted env pre date) balances postings) :
    (postings.map Prod.fst).sum ≤ (balances.map (fun b =>
        b.balance - decayedBalance env pre b.publicKey coin date)).sum ∧
      (balances.map (fun b => b.balance - decayedBalance env pre b.publicKey coin date)).sum ≤
        (postings.map Prod.fst).sum + (postings.map Prod.snd).sum := by
  induction h with
  | nil => simp
  | @cons b posting balances postings hposted _ ih =>
    obtain ⟨hlow, hhigh⟩ := hposted
    rw [hcoin b List.mem_cons_self] at hlow hhigh
    obtain ⟨ihlow, ihhigh⟩ := ih (fun b' hb' => hcoin b' (List.mem_cons_of_mem _ hb'))
    simp only [List.map_cons, List.sum_cons]
    omega

/-- Balances of different keys in one coin, whose postings add up to what they should. -/
structure Balanced (env : Env) (pre : List ConfirmedTransaction) (date : Timestamp)
    (body : TransactionBody) (balances : List AccountBalance) (coin : ℕ)
    (postings : List (ℤ × ℤ)) : Prop where
  keys : (balances.map AccountBalance.publicKey).Nodup
  coins : ∀ b ∈ balances, b.coinCommunityIdIndex = coin
  posted : List.Forall₂ (Posted env pre date) balances postings
  nominal : ∀ other, nominal body other = if coin = other then (postings.map Prod.fst).sum else 0
  slack : (postings.map Prod.snd).sum ≤ 100 * debited body

/-- A balance is the entry of a key in a coin, and was changed by an amount, up to a slack. -/
structure Enters (env : Env) (pre : List ConfirmedTransaction) (date : Timestamp) (coin : ℕ)
    (b : AccountBalance) (entry : ℕ × ℤ × ℤ) : Prop where
  key : b.publicKey = entry.1
  coin : b.coinCommunityIdIndex = coin
  posted : Posted env pre date b entry.2

/-- Entries of different keys whose amounts add up to what they should. -/
theorem Balanced.of_entries {date : Timestamp} {body : TransactionBody}
    {balances : List AccountBalance} {entries : List (ℕ × ℤ × ℤ)}
    (h : List.Forall₂ (Enters env pre date coin) balances entries)
    (hkeys : (entries.map Prod.fst).Nodup)
    (hnominal : ∀ other, Gradido.nominal body other =
      if coin = other then ((entries.map Prod.snd).map Prod.fst).sum else 0)
    (hslack : ((entries.map Prod.snd).map Prod.snd).sum ≤ 100 * debited body) :
    Balanced env pre date body balances coin (entries.map Prod.snd) where
  keys := by
    have hsame : balances.map AccountBalance.publicKey = entries.map Prod.fst := by
      clear hkeys hnominal hslack
      induction h with
      | nil => rfl
      | cons hb _ ih => rw [List.map_cons, List.map_cons, hb.key, ih]
    rwa [hsame]
  coins := by
    clear hkeys hnominal hslack
    induction h with
    | nil => simp
    | cons hb _ ih => exact List.forall_mem_cons.2 ⟨hb.coin, ih⟩
  posted := List.forall₂_map_right_iff.2 (h.imp (fun _ _ hb => hb.posted))
  nominal := hnominal
  slack := hslack

theorem debited_nonneg (body : TransactionBody) : 0 ≤ debited body := by
  unfold debited
  split
  · split_ifs <;> decide
  · split_ifs <;> decide
  · decide
  · decide

/-- **Conservation from postings.** -/
theorem Balanced.conserves {own : ℕ} {postings : List (ℤ × ℤ)}
    (h : Balanced env pre tx.confirmedAt tx.body tx.accountBalances own postings) (coin : ℕ) :
    Conserves env coin pre tx := by
  by_cases hsame : own = coin
  · subst hsame
    obtain ⟨hlow, hhigh⟩ := sum_posted h.coins h.posted
    have hslack := h.slack
    unfold Conserves
    rw [minted_eq_sum h.keys h.coins, h.nominal, if_pos rfl]
    omega
  · have hzero : minted env pre tx coin = 0 := by
      refine minted_eq_zero (fun b hb heq => hsame ?_)
      rw [← h.coins b hb, heq]
    have hdebited := debited_nonneg tx.body
    unfold Conserves
    rw [hzero, h.nominal, if_neg hsame]
    omega

end Sums

/-! ### The previous balances -/

/-- What is used of the decay function besides: it does not turn coins into debts. -/
def DecaysNonneg (env : Env) : Prop :=
  ∀ amount seconds, 0 ≤ amount → 0 ≤ env.decay amount seconds

/-- The lookups of the roles see the earlier balances at a date, and none of these is negative. -/
structure BalancesKnown (env : Env) (own : ℕ) (s : InMemory) (date : Timestamp) : Prop where
  byKey : ∀ k coin, k ≠ 0 → coin ≠ 0 → CoinVisible env own s.history k coin date →
    previousDecayedAccountBalance env s date k coin =
      .ok (decayedBalance env s.history k coin date)
  byIndex : ∀ k coin, coin ≠ 0 → CoinVisible env own s.history k coin date →
    previousDecayedCompactBalance env s date (env.dict.toPublicKeyIndex k own) coin =
      .ok (decayedBalance env s.history k coin date)
  nonneg : ∀ k coin, 0 ≤ decayedBalance env s.history k coin date

/-- No balance of a run is negative. -/
theorem ConfirmTransaction.Reachable.balance_nonneg {env : Env} {calls : List Call}
    {p : InMemoryProvider} (h : Reachable env (CalledRole calls) p) :
    ∀ i, ∀ tx ∈ (p.findBlockchain i).history, ∀ b ∈ tx.accountBalances, 0 ≤ b.balance := by
  refine h.forall_confirmed (Q := fun _ _ tx => ∀ b ∈ tx.accountBalances, 0 ≤ b.balance)
    (fun _ _ _ _ _ hq => hq) ?_
  intro community role p q tx _ _ hb horigin
  obtain ⟨coin, hcoin⟩ := (hb.computed horigin).exists_coin
  exact fun b hbmem => (hcoin b hbmem).2

/-- The balance of a key is defined at a date that is not before the log, and not negative. -/
theorem expectedBalance_ok {env : Env} (laws : DecayLaws env) (hdecay : DecaysNonneg env)
    {h : List ConfirmedTransaction}
    (hnonneg : ∀ tx ∈ h, ∀ b ∈ tx.accountBalances, 0 ≤ b.balance) {date : Timestamp}
    (hdate : ∀ tx ∈ h, tx.confirmedAt.getAsTimepoint ≤ date.getAsTimepoint) (k coin : ℕ) :
    ∃ balance, expectedBalance env h k coin date = .ok balance ∧ 0 ≤ balance := by
  unfold expectedBalance
  cases hlatest : latest (ConfirmedTransaction.HasEntry k coin) h with
  | none => exact ⟨0, rfl, le_rfl⟩
  | some tx =>
    have htx := latest_mem hlatest
    have hamount : 0 ≤ tx.getAccountBalance k (some coin) := by
      unfold ConfirmedTransaction.getAccountBalance
      split
      · next b hfind => exact hnonneg tx htx b (List.mem_of_find?_eq_some hfind)
      · exact le_rfl
    obtain ⟨seconds, hseconds⟩ :=
      laws.calculateDecay (tx.getAccountBalance k (some coin)) (hdate tx htx)
    exact ⟨_, hseconds, hdecay _ _ hamount⟩

theorem ConfirmTransaction.Reachable.balancesKnown {env : Env} {calls : List Call}
    {p : InMemoryProvider} (h : Reachable env (CalledRole calls) p) (laws : DecayLaws env)
    (hdecay : DecaysNonneg env) {own : ℕ} (hown : own ≠ 0)
    (hlog : IndexableLog env own (p.findBlockchain own).history) {date : Timestamp}
    (hpos : 0 ≤ date.getAsTimepoint)
    (hdate : ∀ tx ∈ (p.findBlockchain own).history,
      tx.confirmedAt.getAsTimepoint ≤ date.getAsTimepoint) :
    BalancesKnown env own (p.findBlockchain own) date := by
  have hs := h.logged.represents own
  have hexpected := expectedBalance_ok laws hdecay (h.balance_nonneg own) hdate
  have hdecayed : ∀ k coin, expectedBalance env (p.findBlockchain own).history k coin date =
      .ok (decayedBalance env (p.findBlockchain own).history k coin date) := by
    intro k coin
    obtain ⟨balance, heq, -⟩ := hexpected k coin
    rw [decayedBalance, heq]
  have hfound : ∀ k coin, coin ≠ 0 →
      CoinVisible env own (p.findBlockchain own).history k coin date →
      foundBalance env k coin date (latest (ConfirmedTransaction.Searched own k coin)
        (p.findBlockchain own).history) =
        .ok (decayedBalance env (p.findBlockchain own).history k coin date) := by
    intro k coin hcoin hvisible
    rw [← hdecayed]
    exact (foundBalance_eq_expected_iff laws hs (h.inOneCoin own) k hcoin hdate).2 hvisible
  refine ⟨?_, ?_, ?_⟩
  · intro k coin hk hcoin hvisible
    rw [previousDecayedAccountBalance_eq (h.indexed own hlog) hs hown hk]
    exact hfound k coin hcoin hvisible
  · intro k coin hcoin hvisible
    rw [previousDecayedCompactBalance_eq (h.indexed own hlog) hs hown laws k hcoin hpos hdate]
    exact hfound k coin hcoin hvisible
  · intro k coin
    obtain ⟨balance, heq, hnonneg⟩ := hexpected k coin
    rw [decayedBalance, heq]
    exact hnonneg

namespace BalancesKnown

variable {env : Env} {own : ℕ} {s : InMemory} {date : Timestamp}
  (h : BalancesKnown env own s date) {k coin : ℕ} {amount : ℤ} {b : AccountBalance}

include h

/-- A balance that was looked up by key and changed. -/
theorem entered (hb : calculateAccountBalance env s date k amount coin = .ok b)
    (hcoin : b.coinCommunityIdIndex ≠ 0)
    (hvisible : CoinVisible env own s.history b.publicKey b.coinCommunityIdIndex date)
    (hk : k ≠ 0) :
    Enters env s.history date coin b (k, amount, 100) ∧
      (0 ≤ amount → Enters env s.history date coin b (k, amount, 0)) := by
  obtain ⟨rfl, rfl, previous, hprevious, hbalance⟩ := calculateAccountBalance_spec hb
  rw [h.byKey _ _ hk hcoin hvisible, Except.ok.injEq] at hprevious
  obtain ⟨-, hlow, hhigh, hexact⟩ := addToBalance_spec hbalance
  have hnonneg := h.nonneg b.publicKey b.coinCommunityIdIndex
  refine ⟨⟨rfl, rfl, ?_⟩, fun hamount => ⟨rfl, rfl, ?_⟩⟩
  all_goals
    unfold Posted
    dsimp only
    omega

/-- A balance that was looked up by key index and credited. -/
theorem credited
    (hb : accountBalanceFromPublicKeyIndex env s date (env.dict.index own k) amount coin = .ok b)
    (hs : s.mCommunityIdIndex = own) (hcoin : b.coinCommunityIdIndex ≠ 0)
    (hvisible : CoinVisible env own s.history b.publicKey b.coinCommunityIdIndex date)
    (hamount : 0 ≤ amount) : Enters env s.history date coin b (k, amount, 0) := by
  obtain ⟨hkey, rfl, previous, hprevious, hbalance⟩ := accountBalanceFromPublicKeyIndex_spec hb
  rw [hs, env.dict.key_index] at hkey
  subst hkey
  rw [hs] at hprevious
  have hknown := h.byIndex _ _ hcoin hvisible
  rw [PublicKeyDictionary.toPublicKeyIndex, hprevious, Except.ok.injEq] at hknown
  obtain ⟨-, hlow, hhigh, hexact⟩ := addToBalance_spec hbalance
  have hnonneg := h.nonneg b.publicKey b.coinCommunityIdIndex
  refine ⟨rfl, rfl, ?_⟩
  unfold Posted
  dsimp only
  omega

end BalancesKnown

/-- A balance that was replaced by zero. -/
theorem enters_zero {env : Env} {h : List ConfirmedTransaction} {date : Timestamp} {k coin : ℕ}
    {amount : ℤ} (hamount : expectedBalance env h k coin date = .ok amount) :
    Enters env h date coin ⟨k, 0, coin⟩ (k, -amount, 0) := by
  refine ⟨rfl, rfl, ?_⟩
  unfold Posted decayedBalance
  dsimp only
  rw [hamount]
  dsimp only
  omega

/-! ### Checked transfers -/

namespace ConfirmTransaction

variable {env : Env} {community : ℕ} {role : Role} {p q : InMemoryProvider}
  {tx : ConfirmedTransaction}

/-- A redeem that is not inbound is sent from the address of the deferred transfer that it
settles. -/
theorem Confirms.redeem_address (h : Confirms env community role p q tx)
    (hb : Built env q community role tx) (hq : Logged env q) {r : GradidoRedeemDeferredTransfer}
    (hr : tx.body.specific = .redeemDeferredTransfer r) (htype : tx.body.type ≠ .inbound)
    {entry : ConfirmedTransaction} {d : GradidoDeferredTransfer} {decayed : ℤ}
    (hsettling : Settling env (q.findBlockchain community) tx.confirmedAt
      r.deferredTransferTransactionNr entry d decayed) :
    r.transfer.sender.publicKey = d.transfer.recipient := by
  obtain ⟨entry', d', hentry, hd, hrecipient, -⟩ := h.redeem hb hq hr
  rw [settledCommunity, if_neg htype, hsettling.byNr, Option.some.injEq] at hentry
  subst hentry
  rw [TransactionBody.getDeferredTransfer_eq_some, hsettling.deferred,
    Specific.deferredTransfer.injEq] at hd
  rw [← hrecipient, hd]

theorem Reachable.deferred_checked {direct : ℕ → Role → Prop} (h : Reachable env direct p) :
    ∀ i, ∀ entry ∈ (p.findBlockchain i).history, ∀ d,
      entry.body.specific = .deferredTransfer d → TransferChecked d.transfer := by
  refine h.forall_confirmed (Q := fun _ _ tx => ∀ d, tx.body.specific = .deferredTransfer d →
    TransferChecked d.transfer) (fun _ _ _ _ _ hq => hq) ?_
  intro community role p q tx _ h hb _ d hd
  rw [← hb.body_eq] at hd
  exact h.deferred_checked hd

/-- The deferred transfer that is settled was checked, and is not worth less than nothing. -/
theorem Reachable.settling {direct : ℕ → Role → Prop} (h : Reachable env direct p)
    (laws : DecayLaws env) (hdecay : DecaysNonneg env) {date : Timestamp}
    (hdate : ∀ t ∈ (p.findBlockchain community).history,
      t.confirmedAt.getAsTimepoint ≤ date.getAsTimepoint)
    {nr : ℕ} {entry : ConfirmedTransaction} {d : GradidoDeferredTransfer} {decayed : ℤ}
    (hsettling : Settling env (p.findBlockchain community) date nr entry d decayed) :
    entry ∈ (p.findBlockchain community).history ∧ entry.id = nr ∧
      TransferChecked d.transfer ∧ 0 ≤ decayed := by
  obtain ⟨hmem, hid⟩ := (h.logged.represents community).mem_of_byNr hsettling.byNr
  have hchecked := h.deferred_checked community entry hmem d hsettling.deferred
  obtain ⟨seconds, hworth⟩ := laws.calculateDecay d.transfer.sender.amount (hdate entry hmem)
  rw [hsettling.worth, Except.ok.injEq] at hworth
  exact ⟨hmem, hid, hchecked, hworth ▸ hdecay _ _ hchecked.amount.le⟩

theorem Reachable.root_keys {direct : ℕ → Role → Prop} (h : Reachable env direct p) :
    ∀ i, ∀ entry ∈ (p.findBlockchain i).history, ∀ r,
      entry.body.specific = .communityRoot r → r.gmwPublicKey ≠ r.aufPublicKey := by
  refine h.forall_confirmed (Q := fun _ _ tx => ∀ r, tx.body.specific = .communityRoot r →
    r.gmwPublicKey ≠ r.aufPublicKey) (fun _ _ _ _ _ hq => hq) ?_
  intro community role p q tx _ h hb _ r hr
  rw [← hb.body_eq] at hr
  exact h.root_keys hr

end ConfirmTransaction

/-! ### One step -/

/-- A transaction pays out what it takes away, and sees the balances before.

* The coins have a number, and the lookups see the earlier balances in them.
* The account of a registration has nothing yet.
* The recipient of a creation is not one of the two accounts of the community.
* The address of a deferred transfer has, in the coin of its settlement, what the deferred
  transfer is worth by then, and a redeem across communities does not go back to the sender of the
  deferred transfer. -/
@[mk_iff]
structure Conserving (env : Env) (own : ℕ) (pre : List ConfirmedTransaction)
    (tx : ConfirmedTransaction) : Prop where
  coin : ∀ b ∈ tx.accountBalances, b.coinCommunityIdIndex ≠ 0
  visible : ∀ b ∈ tx.accountBalances,
    CoinVisible env own pre b.publicKey b.coinCommunityIdIndex tx.confirmedAt
  register : ∀ r, tx.body.specific = .registerAddress r →
    expectedBalance env pre r.accountPublicKey own tx.confirmedAt = .ok 0
  creation : ∀ c, tx.body.specific = .creation c → ∀ first ∈ pre, ∀ root,
    first.body.specific = .communityRoot root → first.gradidoTransaction.communityIdIndex = own ∧
      c.recipient.publicKey ≠ root.gmwPublicKey ∧ c.recipient.publicKey ≠ root.aufPublicKey
  redeem : ∀ r, tx.body.specific = .redeemDeferredTransfer r → ∀ entry ∈ pre,
    entry.id = r.deferredTransferTransactionNr → ∀ d, entry.body.specific = .deferredTransfer d →
    (tx.body.type ≠ .inbound →
      expectedBalance env pre r.transfer.sender.publicKey
          r.transfer.sender.coinCommunityIdIndex tx.confirmedAt =
        env.calculateDecay d.transfer.sender.amount entry.confirmedAt.getAsTimepoint
          tx.confirmedAt.getAsTimepoint) ∧
    (tx.body.type ≠ .localGroup → r.transfer.recipient ≠ d.transfer.sender.publicKey)
  timeout : ∀ nr, tx.body.specific = .timeoutDeferredTransfer nr → ∀ entry ∈ pre,
    entry.id = nr → ∀ d, entry.body.specific = .deferredTransfer d →
    expectedBalance env pre d.transfer.recipient d.transfer.sender.coinCommunityIdIndex
        tx.confirmedAt =
      env.calculateDecay d.transfer.sender.amount entry.confirmedAt.getAsTimepoint
        tx.confirmedAt.getAsTimepoint

instance decidableCoinVisible {env : Env} {own : ℕ} {h : List ConfirmedTransaction}
    {publicKey coin : ℕ} {date : Timestamp} :
    Decidable (CoinVisible env own h publicKey coin date) :=
  inferInstanceAs (Decidable (_ ∨ _ ∨ _))

instance decidableConserving {env : Env} {own : ℕ} {pre : List ConfirmedTransaction}
    {tx : ConfirmedTransaction} : Decidable (Conserving env own pre tx) :=
  decidable_of_iff _ (conserving_iff env own pre tx).symm

section Step

variable {env : Env} {community : ℕ} {role : Role} {p q : InMemoryProvider}
  {tx : ConfirmedTransaction} {calls : List Call}

theorem ConfirmTransaction.Confirms.balanced (laws : DecayLaws env) (hdecay : DecaysNonneg env)
    (h : Confirms env community role p q tx) (hb : Built env q community role tx)
    (horigin : Origin (CalledRole calls) (Reachable env (CalledRole calls)) community p role)
    (hq : Reachable env (CalledRole calls) q) (hcommunity : community ≠ 0)
    (hlog : IndexableLog env community (q.findBlockchain community).history)
    (hdated : Dated ((q.findBlockchain community).history ++ [tx]))
    (hcond : Conserving env community (q.findBlockchain community).history tx) :
    ∃ coin postings, Balanced env (q.findBlockchain community).history tx.confirmedAt tx.body
      tx.accountBalances coin postings := by
  have hs := hq.logged.represents community
  have hbody := hb.body_eq
  have hdate : ∀ t ∈ (q.findBlockchain community).history,
      t.confirmedAt.getAsTimepoint ≤ tx.confirmedAt.getAsTimepoint := by
    intro t ht
    exact Timestamp.getAsTimepoint_mono (hdated t (List.mem_append_left _ ht)).1
      (hdated tx (by simp)).1 (hb.not_lt_confirmedAt hq.logged ht)
  have hknown := hq.balancesKnown laws hdecay hcommunity hlog (hdated tx (by simp)).2.le hdate
  have hcomputed := hb.computed horigin
  obtain ⟨hcoin, hvisible, hregister, hcreation, hredeem, htimeout⟩ := hcond
  generalize tx.accountBalances = balances at hcomputed hcoin hvisible ⊢
  have henter : ∀ {k coin : ℕ} {amount : ℤ} {b : AccountBalance},
      calculateAccountBalance env (q.findBlockchain community) tx.confirmedAt k amount coin =
        .ok b → b ∈ balances → k ≠ 0 →
      Enters env (q.findBlockchain community).history tx.confirmedAt coin b (k, amount, 100) ∧
        (0 ≤ amount → Enters env (q.findBlockchain community).history tx.confirmedAt coin b
          (k, amount, 0)) := by
    intro k coin amount b hbalance hmem hk
    exact hknown.entered hbalance (hcoin b hmem) (hvisible b hmem) hk
  cases hcomputed with
  | @communityRoot r hr =>
    -- the first transaction of the chain
    have hempty : (q.findBlockchain community).history = [] :=
      (hb.root_iff hs).1 (by simp [TransactionBody.transactionType, hr])
    have hzero : ∀ k coin, expectedBalance env (q.findBlockchain community).history k coin
        tx.confirmedAt = .ok 0 := by
      intro k coin
      rw [hempty]
      rfl
    rw [communityRootBalances, hs.community]
    refine ⟨_, _, .of_entries (.cons (enters_zero (hzero _ _)) (.cons (enters_zero (hzero _ _))
      .nil)) ?_ ?_ ?_⟩
    · simpa using h.root_keys (hbody ▸ hr)
    · simp [nominal, hr]
    · simp [debited, hr]
  | @registerAddress r hr =>
    rw [registerAddressBalances, hs.community]
    split_ifs with hnone
    · exact ⟨community, _, .of_entries .nil (by simp) (by simp [nominal, hr])
        (by simp [debited, hr])⟩
    · exact ⟨_, _, .of_entries (.cons (enters_zero (hregister r hr)) .nil) (by simp)
        (by simp [nominal, hr]) (by simp [debited, hr])⟩
  | @creation c first root recipient gmw auf hc hfound hroot hrecipient hgmw hauf =>
    obtain ⟨hamount, hk⟩ := h.creation_checked (hbody ▸ hc)
    have hfirst := hs.mem_of_findOne hfound
    obtain ⟨hown, hnotGmw, hnotAuf⟩ := hcreation c hc first hfirst root hroot
    have hkeys := hq.root_keys community first hfirst root hroot
    rw [hown] at hgmw hauf
    have hgmwEnters := hknown.credited hgmw hs.community (hcoin gmw (by simp))
      (hvisible gmw (by simp)) hamount.le
    have haufEnters := hknown.credited hauf hs.community (hcoin auf (by simp))
      (hvisible auf (by simp)) hamount.le
    refine ⟨_, _, .of_entries (.cons ((henter hrecipient (by simp) hk).2 hamount.le)
      (.cons hgmwEnters (.cons haufEnters .nil))) ?_ ?_ ?_⟩
    · simp [hkeys, hnotGmw, hnotAuf]
    · intro other
      simp only [nominal, hc, List.map_cons, List.map_nil, List.sum_cons, List.sum_nil]
      split_ifs <;> omega
    · simp [debited, hc]
  | @transfer t sender recipient ht htype hsender hrecipient =>
    have hchecked := h.transfer_checked (hbody ▸ ht)
    refine ⟨_, _, .of_entries (.cons (henter hsender (by simp) hchecked.sender).1
      (.cons ((henter hrecipient (by simp) hchecked.recipient).2 hchecked.amount.le) .nil))
      ?_ ?_ ?_⟩
    · simpa using hchecked.ne.symm
    · simp [nominal, crossAmount, ht, htype]
    · simp [debited, ht, htype]
  | @outboundTransfer t sender ht htype hsender =>
    have hchecked := h.transfer_checked (hbody ▸ ht)
    refine ⟨_, _, .of_entries (.cons (henter hsender (by simp) hchecked.sender).1 .nil) ?_ ?_ ?_⟩
    · simp
    · simp [nominal, crossAmount, ht, htype]
    · simp [debited, ht, htype]
  | @inboundTransfer t recipient ht htype hrecipient =>
    have hchecked := h.transfer_checked (hbody ▸ ht)
    refine ⟨_, _, .of_entries
      (.cons ((henter hrecipient (by simp) hchecked.recipient).2 hchecked.amount.le) .nil) ?_ ?_ ?_⟩
    · simp
    · simp [nominal, crossAmount, ht, htype]
    · simp [debited, ht, htype]
  | @deferredTransfer d sender recipient hd hsender hrecipient =>
    have hchecked := h.deferred_checked (hbody ▸ hd)
    refine ⟨_, _, .of_entries (.cons (henter hsender (by simp) hchecked.sender).1
      (.cons ((henter hrecipient (by simp) hchecked.recipient).2 hchecked.amount.le) .nil))
      ?_ ?_ ?_⟩
    · simpa using hchecked.ne.symm
    · simp [nominal, hd]
    · simp [debited, hd]
  | @redeemBack r entry d decayed recipient hr hsettling hback hrecipient =>
    obtain ⟨hmem, hid, hdeferred, hnonneg⟩ := hq.settling laws hdecay hdate hsettling
    have hchecked := h.redeem_checked (hbody ▸ hr)
    obtain ⟨hworth, hcross⟩ := hredeem r hr entry hmem hid d hsettling.deferred
    have htype : tx.body.type = .localGroup := not_not.1 (fun hne => hcross hne hback)
    have hempties := hworth (by simp [htype])
    rw [hsettling.worth] at hempties
    refine ⟨_, _, .of_entries (.cons (enters_zero hempties)
      (.cons ((henter hrecipient (by simp) hchecked.recipient).2 hnonneg) .nil)) ?_ ?_ ?_⟩
    · simpa using hchecked.ne.symm
    · simp [nominal, crossAmount, hr, htype]
    · simp [debited, hr, htype]
  | @redeem r entry d decayed recipient sender hr htype hsettling hback hrecipient hsender =>
    obtain ⟨hmem, hid, hdeferred, -⟩ := hq.settling laws hdecay hdate hsettling
    have hchecked := h.redeem_checked (hbody ▸ hr)
    have haddress := h.redeem_address hb hq.logged hr (by simp [htype]) hsettling
    have hempties := (hredeem r hr entry hmem hid d hsettling.deferred).1 (by simp [htype])
    rw [hsettling.worth] at hempties
    refine ⟨_, _, .of_entries (.cons (enters_zero hempties)
      (.cons ((henter hrecipient (by simp) hchecked.recipient).2 hchecked.amount.le)
        (.cons (henter hsender (by simp) hdeferred.sender).1 .nil))) ?_ ?_ ?_⟩
    · have hnot : r.transfer.sender.publicKey ≠ d.transfer.sender.publicKey :=
        haddress ▸ hdeferred.ne
      simpa [hback, hnot] using hchecked.ne.symm
    · simp [nominal, crossAmount, hr, htype]
    · simp [debited, hr, htype]
  | @outboundRedeem r entry d decayed sender hr htype hsettling hback hsender =>
    obtain ⟨hmem, hid, hdeferred, -⟩ := hq.settling laws hdecay hdate hsettling
    have haddress := h.redeem_address hb hq.logged hr (by simp [htype]) hsettling
    have hempties := (hredeem r hr entry hmem hid d hsettling.deferred).1 (by simp [htype])
    rw [hsettling.worth] at hempties
    refine ⟨_, _, .of_entries (.cons (enters_zero hempties)
      (.cons (henter hsender (by simp) hdeferred.sender).1 .nil)) ?_ ?_ ?_⟩
    · simpa [haddress] using hdeferred.ne
    · intro other
      simp only [nominal, crossAmount, hr, htype, List.map_cons, List.map_nil, List.sum_cons,
        List.sum_nil]
      split_ifs <;> omega
    · simp [debited, hr, htype]
  | @inboundRedeem r entry d decayed recipient hr htype hsettling hback hrecipient =>
    have hchecked := h.redeem_checked (hbody ▸ hr)
    refine ⟨_, _, .of_entries
      (.cons ((henter hrecipient (by simp) hchecked.recipient).2 hchecked.amount.le) .nil) ?_ ?_ ?_⟩
    · simp
    · simp [nominal, crossAmount, hr, htype]
    · simp [debited, hr, htype]
  | @timeout nr entry d decayed sender hnr hsettling hsender =>
    obtain ⟨hmem, hid, hdeferred, hnonneg⟩ := hq.settling laws hdecay hdate hsettling
    have hempties := htimeout nr hnr entry hmem hid d hsettling.deferred
    rw [hsettling.worth] at hempties
    refine ⟨_, _, .of_entries (.cons ((henter hsender (by simp) hdeferred.sender).2 hnonneg)
      (.cons (enters_zero hempties) .nil)) ?_ ?_ ?_⟩
    · simpa using hdeferred.ne.symm
    · simp [nominal, hnr]
    · simp [debited, hnr]
  | nothing htype =>
    refine ⟨0, _, .of_entries .nil (by simp) ?_ ?_⟩
    · intro other
      unfold nominal
      split <;> simp_all [TransactionBody.transactionType]
    · unfold debited
      split <;> simp_all [TransactionBody.transactionType]

end Step

/-! ### Whole runs -/

/-- **Coins are conserved** in every run whose transactions pay out what they take away and see the
balances before. -/
theorem run_conserves (env : Env) (laws : DecayLaws env) (hdecay : DecaysNonneg env)
    (calls : List Call) {community : ℕ} (hcommunity : community ≠ 0)
    (hlog : IndexableLog env community ((run env calls).findBlockchain community).history)
    (hdated : Dated ((run env calls).findBlockchain community).history)
    (hcond : AlongPrefixes (Conserving env community)
      ((run env calls).findBlockchain community).history) (coin : ℕ) :
    AlongPrefixes (Conserves env coin) ((run env calls).findBlockchain community).history := by
  have halong := (reachable_run env calls).alongPrefixes (Q := fun i pre tx => i ≠ 0 →
    IndexableLog env i pre → Dated (pre ++ [tx]) → Conserving env i pre tx →
    Conserves env coin pre tx) (by
      intro community role p q tx hq h hb horigin hcommunity hlog hdated hcond
      obtain ⟨own, postings, hbalanced⟩ :=
        h.balanced laws hdecay hb horigin hq hcommunity hlog hdated hcond
      exact hbalanced.conserves coin) community
  intro pre tx post heq
  have hinitial : pre ++ [tx] <+: ((run env calls).findBlockchain community).history :=
    ⟨post, by rw [heq, List.append_assoc]; rfl⟩
  refine halong pre tx post heq hcommunity ?_ ?_ (hcond pre tx post heq)
  · exact AlongPrefixes.of_prefix hlog ((List.prefix_append _ _).trans hinitial)
  · exact fun t ht => hdated t (hinitial.subset ht)

namespace Sample

theorem decaysNonneg : DecaysNonneg env := fun _ _ h => h

/-- A registration takes the address of a deferred transfer over, and its hundred cents are
gone. -/
theorem takeOver_not_conserves :
    ¬ AlongPrefixes (Conserves env 1)
      ((run env (setup ++ [deferred, takeOver])).findBlockchain 1).history := by
  decide +kernel

/-- Half of the deferred transfer goes to account `21`, the rest back to account `11`. -/
theorem redeemHalf_conserves :
    (((run env (setup ++ [deferred, redeemHalf])).findBlockchain 1).history.map
        (fun tx => tx.accountBalances)).getLast? = some [⟨30, 0, 1⟩, ⟨21, 50, 1⟩, ⟨11, 50, 1⟩] ∧
      AlongPrefixes (Conserves env 1)
        ((run env (setup ++ [deferred, redeemHalf])).findBlockchain 1).history := by
  refine ⟨by decide +kernel, run_conserves env decayLaws decaysNonneg _ (by decide)
    (by decide +kernel) (by decide +kernel) ?_ 1⟩
  decide +kernel

end Sample

end Gradido
