import GradidoBlockchain.Chain.Registration

/-!
# Nothing is taken back

Calls only add to the blockchains: a call that throws too, and the trigger events
that it lets take place.  Whatever was found by its number, in compact form or by
its ledger anchor is found again after any further calls, and an address keeps
the type that it once got (`runAdd_append`).
-/

namespace Gradido

open Checked ConfirmTransaction

/-! ### The address index -/

namespace AddressIndex

/-- The addresses keep their types, and the transactions that are known of them. -/
def Keeps (a a' : AddressIndex) : Prop :=
  ∀ k data, a.mIndexTransactionNrs k = some data → ∃ data', a'.mIndexTransactionNrs k = some data' ∧
    data'.addressType = data.addressType ∧ data.transactionNrs <+: data'.transactionNrs

variable {a a' a'' : AddressIndex}

theorem Keeps.refl (a : AddressIndex) : Keeps a a :=
  fun _ data h => ⟨data, h, rfl, List.prefix_rfl⟩

theorem Keeps.trans (h : Keeps a a') (h' : Keeps a' a'') : Keeps a a'' := by
  intro k data hdata
  obtain ⟨data', hdata', htype, hnrs⟩ := h k data hdata
  obtain ⟨data'', hdata'', htype', hnrs'⟩ := h' k data' hdata'
  exact ⟨data'', hdata'', htype'.trans htype, hnrs.trans hnrs'⟩

/-- A change to what is known of one address. -/
theorem Keeps.update {k : ℕ} {new : AddressData} (h : ∀ data, a.mIndexTransactionNrs k = some data →
    new.addressType = data.addressType ∧ data.transactionNrs <+: new.transactionNrs) :
    Keeps a ⟨Function.update a.mIndexTransactionNrs k (some new)⟩ := by
  intro l data hdata
  by_cases hl : l = k
  · subst hl
    exact ⟨new, Function.update_self .., h data hdata⟩
  · exact ⟨data, (Function.update_of_ne hl _ _).trans hdata, rfl, List.prefix_rfl⟩

theorem Keeps.andThen {r : AddressIndex × Except Exception Unit}
    {f : AddressIndex → AddressIndex × Except Exception Unit} (h : Keeps a r.1)
    (hf : ∀ a', Keeps a' (f a').1) : Keeps a (andThen r f).1 := by
  obtain ⟨s, e | u⟩ := r
  · exact h
  · exact h.trans (hf s)

theorem keeps_addTransactionNrForIndex (a : AddressIndex) (k nr : ℕ) (type : AddressType) :
    Keeps a (a.addTransactionNrForIndex k nr type).1 := by
  unfold addTransactionNrForIndex
  cases hk : a.mIndexTransactionNrs k with
  | none =>
    refine .update (fun data hdata => ?_)
    rw [hk] at hdata
    exact absurd hdata (by simp)
  | some old =>
    dsimp only
    split_ifs
    · exact .refl a
    · exact .refl a
    · refine .update (fun data hdata => ?_)
      rw [hk, Option.some.injEq] at hdata
      subst hdata
      exact ⟨rfl, List.prefix_append _ _⟩

theorem keeps_updateLastBalanceChanging (a : AddressIndex) (k nr : ℕ) :
    Keeps a (a.updateLastBalanceChangingTransactionNr k nr) := by
  unfold updateLastBalanceChangingTransactionNr
  cases hk : a.mIndexTransactionNrs k with
  | none => exact .refl a
  | some old =>
    refine .update (fun data hdata => ?_)
    rw [hk, Option.some.injEq] at hdata
    subst hdata
    exact ⟨rfl, List.prefix_rfl⟩

theorem keeps_addTransaction (a : AddressIndex) (tx : ConfirmedGradidoTx) :
    Keeps a (a.addTransaction tx).1 := by
  unfold addTransaction
  refine .andThen ?_ (fun a' => ?_)
  · cases tx.specific with
    | communityRoot _ gmw auf =>
      exact (keeps_addTransactionNrForIndex a _ _ _).andThen
        (fun a' => keeps_addTransactionNrForIndex a' _ _ _)
    | registerAddress addressType user account =>
      exact (keeps_addTransactionNrForIndex a _ _ _).andThen
        (fun a' => keeps_addTransactionNrForIndex a' _ _ _)
    | deferredTransfer _ _ recipient _ => exact keeps_addTransactionNrForIndex a _ _ _
    | _ => exact .refl a
  · show Keeps a' (tx.accountBalances.foldl _ a')
    induction tx.accountBalances generalizing a' with
    | nil => exact .refl a'
    | cons b balances ih => exact (keeps_updateLastBalanceChanging a' _ _).trans (ih _)

/-- An address with a type keeps it. -/
theorem Keeps.getAddressType {idx idx' : TransactionsIndex}
    (h : Keeps idx.mAddressIndex idx'.mAddressIndex) {k : ℕ}
    (hk : (idx.getAddressType k).2 ≠ .none) :
    (idx'.getAddressType k).2 = (idx.getAddressType k).2 := by
  unfold TransactionsIndex.getAddressType at hk ⊢
  cases hdata : idx.mAddressIndex.mIndexTransactionNrs k with
  | none =>
    rw [hdata] at hk
    exact absurd rfl hk
  | some data =>
    obtain ⟨data', hdata', htype, -⟩ := h k data hdata
    simp only [hdata']
    rw [htype]
    split_ifs <;> rfl

end AddressIndex

/-! ### One blockchain -/

namespace InMemory

/-- What a blockchain has stored, another one has stored too. -/
structure Keeps (s s' : InMemory) : Prop where
  byNr : ∀ nr tx, s.mTransactionsByNr nr = some tx → s'.mTransactionsByNr nr = some tx
  confirmed : ∀ nr tx, s.mConfirmedTxByNr nr = some tx → s'.mConfirmedTxByNr nr = some tx
  anchors : ∀ ledgerAnchor nr, s.mLedgerAnchorTransactionNrs ledgerAnchor = some nr →
    s'.mLedgerAnchorTransactionNrs ledgerAnchor = some nr
  addresses : s.mTransactionsIndex.mAddressIndex.Keeps s'.mTransactionsIndex.mAddressIndex

variable {s s' s'' : InMemory}

theorem Keeps.refl (s : InMemory) : Keeps s s :=
  ⟨fun _ _ h => h, fun _ _ h => h, fun _ _ h => h, .refl _⟩

theorem Keeps.trans (h : Keeps s s') (h' : Keeps s' s'') : Keeps s s'' where
  byNr nr tx htx := h'.byNr nr tx (h.byNr nr tx htx)
  confirmed nr tx htx := h'.confirmed nr tx (h.confirmed nr tx htx)
  anchors ledgerAnchor nr hnr := h'.anchors ledgerAnchor nr (h.anchors ledgerAnchor nr hnr)
  addresses := h.addresses.trans h'.addresses

/-- The index takes over what it can; nothing else is lost when it throws. -/
theorem keeps_pushCompact (env : Env) (s : InMemory) (tx : ConfirmedTransaction) :
    Keeps s (s.pushCompact env tx) := by
  have hindex : ∀ compactTx, s.mTransactionsIndex.mAddressIndex.Keeps
      (s.mTransactionsIndex.addTransactionIndices env compactTx).1.mAddressIndex := by
    intro compactTx
    rcases TransactionsIndex.mAddressIndex_addTransactionIndices env s.mTransactionsIndex compactTx
      with heq | heq
    · rw [heq]
      exact .refl _
    · rw [heq]
      exact AddressIndex.keeps_addTransaction _ _
  unfold pushCompact
  cases ConfirmedGradidoTx.fromConfirmedTransaction env s.mCommunityIdIndex s.mConfirmedTxByNr tx
    with
  | error e => exact .refl s
  | ok compactTx =>
    have hkeeps := hindex compactTx
    dsimp only
    split
    · next idx e heq =>
      rw [heq] at hkeeps
      exact ⟨fun _ _ h => h, fun _ _ h => h, fun _ _ h => h, hkeeps⟩
    · next idx heq =>
      rw [heq] at hkeeps
      exact ⟨fun _ _ h => h, fun _ _ h => insertNew_of_some h, fun _ _ h => h, hkeeps⟩

theorem keeps_pushTransactionEntry (env : Env) (s : InMemory) (tx : ConfirmedTransaction) :
    Keeps s (s.pushTransactionEntry env tx) := by
  refine Keeps.trans ?_ (keeps_pushCompact env _ tx)
  exact ⟨fun _ _ h => insertNew_of_some h, fun _ _ h => h, fun _ _ h => insertNew_of_some h,
    .refl _⟩

theorem keeps_addToBlockchain (env : Env) (s : InMemory) (tx : ConfirmedTransaction) :
    Keeps s (addToBlockchain env s tx).1 := by
  obtain ⟨events, heq, -⟩ := addToBlockchain_cases env s tx
  rw [heq]
  exact (keeps_pushTransactionEntry env s tx).trans
    ⟨fun _ _ h => h, fun _ _ h => h, fun _ _ h => h, .refl _⟩

/-- What is found by a ledger anchor is found again. -/
theorem Keeps.findByLedgerAnchor (h : Keeps s s') {ledgerAnchor : LedgerAnchor}
    {tx : ConfirmedTransaction} (htx : s.findByLedgerAnchor ledgerAnchor = some tx) :
    s'.findByLedgerAnchor ledgerAnchor = some tx := by
  obtain ⟨nr, hnr, hbyNr⟩ := Option.bind_eq_some_iff.1 htx
  rw [InMemory.findByLedgerAnchor, h.anchors _ _ hnr]
  exact h.byNr _ _ hbyNr

end InMemory

/-! ### All blockchains -/

namespace ConfirmTransaction

/-- All logs are extended, and all blockchains keep what they have stored. -/
structure Grows (p q : InMemoryProvider) : Prop where
  logs : Extends p q
  keeps : ∀ i, (p.findBlockchain i).Keeps (q.findBlockchain i)

theorem Grows.refl (p : InMemoryProvider) : Grows p p :=
  ⟨fun _ => List.prefix_rfl, fun _ => .refl _⟩

theorem Grows.trans {p q r : InMemoryProvider} (h : Grows p q) (h' : Grows q r) : Grows p r :=
  ⟨fun i => (h.logs i).trans (h'.logs i), fun i => (h.keeps i).trans (h'.keeps i)⟩

variable {env : Env} {direct : ℕ → Role → Prop} {p q : InMemoryProvider} {community : ℕ}

theorem grows_dropEvent (h : Reachable env direct p) (community : ℕ)
    (event : TransactionTriggerEvent) : Grows p (dropEvent p community event) := by
  refine ⟨h.logged.extends_dropEvent community event, ?_⟩
  intro i
  by_cases hi : i = community
  · subst hi
    rw [dropEvent, InMemoryProvider.findBlockchain_set_self]
    exact ⟨fun _ _ h => h, fun _ _ h => h, fun _ _ h => h, .refl _⟩
  · rw [findBlockchain_dropEvent_of_ne _ _ hi]
    exact .refl _

theorem grows_added (h : Reachable env direct p) {role : Role} {q : InMemoryProvider}
    {tx : ConfirmedTransaction} (htx : Confirms env community role q p tx) :
    Grows p (added env p community tx) := by
  refine ⟨h.logged.extends_added (confirm_spec htx.confirm), ?_⟩
  intro i
  by_cases hi : i = community
  · subst hi
    rw [added, InMemoryProvider.findBlockchain_set_self]
    exact InMemory.keeps_addToBlockchain env _ tx
  · rw [findBlockchain_added_of_ne _ _ _ hi]
    exact .refl _

/-- Trigger events only add. -/
theorem Triggered.grows (h : Triggered env community p q) (hp : Reachable env direct p) :
    Grows p q := by
  induction h with
  | refl => exact .refl _
  | drop hq hevent ih => exact (ih hp).trans (grows_dropEvent (.failed hp hq) _ _)
  | fire hq hevent hnested htx ih ihnested =>
    have hdropped := Reachable.failed hp (.drop hq hevent)
    exact (((ih hp).trans (grows_dropEvent (.failed hp hq) _ _)).trans (ihnested hdropped)).trans
      (grows_added (.failed hdropped hnested) htx)

/-- **A call only adds**, whatever it returns or throws. -/
theorem createAndAdd_grows (hp : Reachable env direct p) (depth : ℕ) (disableVerify : Bool)
    (community : ℕ) (role : Role) :
    Grows p (createAndAdd env depth disableVerify p community role).1 := by
  obtain ⟨q, hq, heq | ⟨tx, htx, heq⟩⟩ :=
    createAndAdd_cases env depth disableVerify p community role
  · rw [heq]
    exact hq.grows hp
  · rw [heq]
    exact (hq.grows hp).trans (grows_added (.failed hp hq) htx)

end ConfirmTransaction

theorem AddCall.exec_grows {env : Env} {p : InMemoryProvider}
    (hp : Reachable env (fun _ _ => True) p) (call : AddCall) : Grows p (call.exec env p) := by
  cases call with
  | node call => exact createAndAdd_grows hp _ _ _ _
  | given disableVerify community tx ledgerAnchor balances => exact createAndAdd_grows hp _ _ _ _

/-- By induction on the last calls: the state before each of them is reachable. -/
theorem runAdd_grows (env : Env) (calls more : List AddCall) :
    Grows (runAdd env calls) (runAdd env (calls ++ more)) := by
  induction more using List.reverseRecOn with
  | nil =>
    rw [List.append_nil]
    exact .refl _
  | append_singleton more call ih =>
    have hstep := call.exec_grows (reachable_runAdd env (calls ++ more))
    rw [← List.append_assoc]
    unfold runAdd at ih hstep ⊢
    rw [List.foldl_append]
    exact ih.trans hstep

/-- **Nothing is taken back.**  Further calls on any blockchains, successful or not, only extend the
log of every community.  What was found by its number, as rich or compact transaction, or by its
ledger anchor is still found, and an address that has a type keeps it. -/
theorem runAdd_append (env : Env) (calls more : List AddCall) (community : ℕ) :
    ((runAdd env calls).findBlockchain community).history <+:
        ((runAdd env (calls ++ more)).findBlockchain community).history ∧
      (∀ nr tx, ((runAdd env calls).findBlockchain community).mTransactionsByNr nr = some tx →
        ((runAdd env (calls ++ more)).findBlockchain community).mTransactionsByNr nr = some tx) ∧
      (∀ nr tx, ((runAdd env calls).findBlockchain community).mConfirmedTxByNr nr = some tx →
        ((runAdd env (calls ++ more)).findBlockchain community).mConfirmedTxByNr nr = some tx) ∧
      (∀ ledgerAnchor tx,
        ((runAdd env calls).findBlockchain community).findByLedgerAnchor ledgerAnchor = some tx →
        ((runAdd env (calls ++ more)).findBlockchain community).findByLedgerAnchor ledgerAnchor =
          some tx) ∧
      ∀ k, (((runAdd env calls).findBlockchain community).mTransactionsIndex.getAddressType k).2 ≠
          .none →
        (((runAdd env (calls ++ more)).findBlockchain
            community).mTransactionsIndex.getAddressType k).2 =
          (((runAdd env calls).findBlockchain
            community).mTransactionsIndex.getAddressType k).2 := by
  have hgrows := runAdd_grows env calls more
  have hkeeps := hgrows.keeps community
  refine ⟨hgrows.logs community, hkeeps.byNr, hkeeps.confirmed, ?_, ?_⟩
  · exact fun ledgerAnchor tx htx => hkeeps.findByLedgerAnchor htx
  · exact fun k hk => hkeeps.addresses.getAddressType hk

end Gradido
