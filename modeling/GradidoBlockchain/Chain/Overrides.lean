import GradidoBlockchain.Chain.Find
import GradidoBlockchain.Chain.CrossCommunity
import GradidoBlockchain.Chain.Replay

/-!
# The searches of the base class

`blockchain::Abstract` answers every question by `findAll`: whether a
transaction is confirmed at a date, and which transaction has a ledger anchor.
`InMemory` answers the second one, and the question for the last transaction,
from what it keeps besides the index.

`runAdd_isTransactionExist` says that the check for duplicates is exact for its
date.  `runAdd_overrides` compares the overrides with the base class: the last
transaction is the same, but of several transactions with one ledger anchor the
base class finds the last and `InMemory` the first.
-/

namespace Gradido

open Checked ConfirmTransaction

/-! ### Model -/

namespace Filter

/-- `Filter::ALL_TRANSACTIONS`. -/
def ALL_TRANSACTIONS : Filter := {}

/-- `Filter::isTheSame`: filter functions cannot be compared. -/
def isTheSame (f other : Filter) : Bool :=
  decide (f.minTransactionNr = other.minTransactionNr ∧
    f.maxTransactionNr = other.maxTransactionNr ∧
    f.involvedPublicKey = other.involvedPublicKey ∧
    f.updatedBalancePublicKey = other.updatedBalancePublicKey ∧
    f.searchDirection = other.searchDirection ∧
    f.pagination = other.pagination ∧
    f.coinCommunityIdIndex = other.coinCommunityIdIndex ∧
    f.timepointInterval = other.timepointInterval ∧
    f.transactionType = other.transactionType) &&
  f.filterFunction.isNone && other.filterFunction.isNone

/-- The filter of `Abstract::findByLedgerAnchor`: what the filter of the caller does not use is
returned as it is. -/
def withLedgerAnchor (f : Filter) (ledgerAnchor : LedgerAnchor) : Filter :=
  { f with
    filterFunction := some (fun entry =>
      let found := if entry.ledgerAnchor = ledgerAnchor then .USE_STOP else FilterResult.DISMISS
      match f.filterFunction with
      | some g => if (g entry).use then found else g entry
      | none => found) }

end Filter

namespace InMemory

/-- `InMemory::findOne(Filter)`, which overrides `Abstract::findOne`. -/
def findOneOverride (env : Env) (s : InMemory) (f : Filter) :
    Except Exception (Option ConfirmedTransaction) :=
  if f.isTheSame .LAST_TRANSACTION then .ok s.mLastTransaction else s.findOne env f

/-- `Abstract::findByLedgerAnchor`, which `InMemory` overrides. -/
def findByLedgerAnchorSlow (env : Env) (s : InMemory) (ledgerAnchor : LedgerAnchor) (f : Filter) :
    Except Exception (Option ConfirmedTransaction) :=
  s.findOneOverride env (f.withLedgerAnchor ledgerAnchor)

end InMemory

/-! ### Searches for one transaction -/

/-- A predicate that uses and stops at what it looks for, uses nothing else, and stops elsewhere
only when nothing of it follows, accepts the first thing it looks for. -/
theorem takeAccepted_find {α : Type} {m : α → FilterResult} {p : α → Bool} {l : List α}
    (hfound : ∀ a ∈ l, p a = true → m a = .USE_STOP)
    (hother : ∀ a ∈ l, p a = false → (m a).use = false)
    (hstop : l.Pairwise (fun a b => (m a).stop = true → p a = false → p b = false)) :
    takeAccepted m l = (l.find? p).toList := by
  induction l with
  | nil => rfl
  | cons a l ih =>
    obtain ⟨hlater, hstop⟩ := List.pairwise_cons.1 hstop
    have ih := ih (fun b hb => hfound b (List.mem_cons_of_mem a hb))
      (fun b hb => hother b (List.mem_cons_of_mem a hb)) hstop
    rw [takeAccepted, List.find?_cons]
    cases hp : p a with
    | true =>
      rw [hfound a List.mem_cons_self hp]
      rfl
    | false =>
      rw [hother a List.mem_cons_self hp, ih]
      cases hs : (m a).stop with
      | false => rfl
      | true =>
        have hnone : l.find? p = none := by
          rw [List.find?_eq_none]
          intro b hb
          rw [hlater b hb hs hp]
          exact Bool.false_ne_true
        rw [hnone]
        rfl

/-- The first and the last element with a property are the same if and only if there is at most
one place with it. -/
theorem find?_reverse_eq_find?_iff {α β : Type} {p : α → Bool} {l : List α} (key : α → β)
    (hkey : (l.map key).Nodup) :
    l.reverse.find? p = l.find? p ↔ (l.filter p).length ≤ 1 := by
  rw [← List.head?_filter, ← List.head?_filter, List.filter_reverse, List.head?_reverse]
  have hnodup : ((l.filter p).map key).Nodup := hkey.sublist (List.filter_sublist.map key)
  generalize l.filter p = found at hnodup
  match found with
  | [] => simp
  | [a] => simp
  | a :: b :: rest =>
    refine iff_of_false ?_ (by simp)
    intro heq
    rw [List.head?_cons, List.getLast?_cons_cons] at heq
    have hmem : a ∈ b :: rest := List.mem_of_getLast? heq
    rw [List.map_cons, List.nodup_cons] at hnodup
    exact hnodup.1 (List.mem_map_of_mem hmem)

theorem exactlyOne_toList {α : Type} (o : Option α) :
    InMemory.exactlyOne o.toList = .ok o := by
  cases o <;> rfl

namespace Filter

/-- A filter that is the same as the one for the last transaction is that filter. -/
theorem eq_of_isTheSame {f : Filter} (h : f.isTheSame LAST_TRANSACTION = true) :
    f = LAST_TRANSACTION := by
  obtain ⟨minNr, maxNr, involved, updated, direction, type, pagination, coin, interval, g⟩ := f
  unfold isTheSame at h
  simp only [Bool.and_eq_true, decide_eq_true_eq, Option.isNone_iff_eq_none] at h
  obtain ⟨⟨⟨rfl, rfl, rfl, rfl, rfl, rfl, rfl, rfl, rfl⟩, rfl⟩, -⟩ := h
  rfl

/-- Without pages, everything that is accepted was requested. -/
theorem requested_of_size_zero (env : Env) (own : ℕ) {f : Filter} (hsize : f.pagination.size = 0)
    (l : List ConfirmedTransaction) :
    f.requested env own l = takeAccepted (fun tx => f.matchesEntry env own tx (fun _ => true))
      (searched f.searchDirection l) := by
  unfold requested
  rw [if_pos hsize]

/-- A filter with a function is never the one for the last transaction. -/
theorem isTheSame_of_filterFunction {f : Filter} {g : ConfirmedTransaction → FilterResult}
    (h : f.filterFunction = some g) (other : Filter) : f.isTheSame other = false := by
  simp [isTheSame, h]

end Filter

/-! ### The last transaction -/

section Searches

open TransactionsIndex

variable {env : Env} {own : ℕ} {s : InMemory} {cs : List ConfirmedGradidoTx}

/-- `Abstract::findOne` has the one transaction that was requested. -/
theorem IndexedBy.findOne_requested (h : IndexedBy env own s cs) (hs : s.Represents own s.history)
    (horder : InOrder cs) (hdated : Dated s.history) {f : Filter}
    (hf : Findable env own (env.dict.index own) s.history f) :
    s.findOne env f = InMemory.exactlyOne (f.requested env own s.history) := by
  have hall := h.findAllWith_eq hs horder hdated (fun k => .inl rfl) hf
  unfold InMemory.findOne InMemory.findAll
  rw [hs.community, hall, ok_bind]

/-- Without a filter everything is used. -/
theorem Filter.matchesEntry_LAST_TRANSACTION (env : Env) (own : ℕ) (tx : ConfirmedTransaction) :
    Filter.LAST_TRANSACTION.matchesEntry env own tx (fun _ => true) = .USE := by
  rw [Filter.matchesEntry_eq_USE rfl]
  simp [Filter.LAST_TRANSACTION, Filter.matchesTransactionNr, Filter.matchesCoinCommunity,
    Filter.matchesTransactionType, Filter.matchesTimepointInterval, TimepointInterval.isEmpty,
    TimepointInterval.unset, Filter.matchesInvolvedPublicKey,
    Filter.matchesUpdatedBalancePublicKey]

/-- A filter without keys, coin and interval searches the log as it is. -/
theorem searchable_of_plain {getIndexForData : ℕ → ℕ} {l : List ConfirmedTransaction} {f : Filter}
    (hcoin : f.coinCommunityIdIndex = none) (hinvolved : f.involvedPublicKey = none)
    (hupdated : f.updatedBalancePublicKey = none) (hreaches : Reaches (firstDay l)
      f.timepointInterval) : Searchable env own getIndexForData l f where
  coin := .inl hcoin
  oneKey := .inl hinvolved
  known := by
    rintro k (hk | hk)
    · rw [hinvolved] at hk
      cases hk
    · rw [hupdated] at hk
      cases hk
  recorded := by
    intro k hk
    rw [hinvolved] at hk
    cases hk
  reaches := hreaches

/-- **The last transaction** that `InMemory` keeps is the one that the search finds. -/
theorem IndexedBy.findOne_LAST_TRANSACTION (h : IndexedBy env own s cs)
    (hs : s.Represents own s.history) (horder : InOrder cs) (hdated : Dated s.history) :
    s.findOne env .LAST_TRANSACTION = .ok s.mLastTransaction := by
  have hf : Findable env own (env.dict.index own) s.history .LAST_TRANSACTION := by
    refine ⟨searchable_of_plain rfl rfl rfl (.inl rfl), .inr ⟨?_, ?_⟩⟩
    · intro tx _ _
      simp [Filter.matchesFound, Filter.matchesTimepointInterval, Filter.LAST_TRANSACTION,
        Filter.applyFilterFunction, TimepointInterval.isEmpty, TimepointInterval.unset]
    · exact .inr ⟨by decide, by simp [Filter.LAST_TRANSACTION]⟩
  have hrequested : Filter.LAST_TRANSACTION.requested env own s.history =
      s.history.getLast?.toList := by
    unfold Filter.requested
    rw [takeAccepted_all (fun tx _ => Filter.matchesEntry_LAST_TRANSACTION env own tx)]
    change (s.history.reverse.drop ((0 - 1) * 1)).take 1 = _
    rw [Nat.zero_sub, Nat.zero_mul, List.drop_zero, List.take_one, List.head?_reverse]
  rw [h.findOne_requested hs horder hdated hf, hrequested, exactlyOne_toList, hs.last]

/-- **The override of `findOne`** agrees with the base class for every filter. -/
theorem IndexedBy.findOneOverride_eq (h : IndexedBy env own s cs)
    (hs : s.Represents own s.history) (horder : InOrder cs) (hdated : Dated s.history)
    (f : Filter) : s.findOneOverride env f = s.findOne env f := by
  unfold InMemory.findOneOverride
  split_ifs with hsame
  · rw [Filter.eq_of_isTheSame hsame, h.findOne_LAST_TRANSACTION hs horder hdated]
  · rfl

/-! ### Ledger anchors -/

/-- What a filter without a function uses of a log. -/
def Filter.uses (env : Env) (own : ℕ) (f : Filter) (tx : ConfirmedTransaction) : Bool :=
  (f.matchesEntry env own tx (fun _ => true)).use

/-- On what the filter of the caller uses, the anchor is asked. -/
theorem Filter.matchesEntry_withLedgerAnchor {f : Filter} (hfunction : f.filterFunction = none)
    (ledgerAnchor : LedgerAnchor) (tx : ConfirmedTransaction) :
    (f.withLedgerAnchor ledgerAnchor).matchesEntry env own tx (fun _ => true) =
      if f.uses env own tx = true ∧ tx.ledgerAnchor = ledgerAnchor then .USE_STOP
      else .DISMISS := by
  have hfound : (f.withLedgerAnchor ledgerAnchor).applyFilterFunction tx =
      if tx.ledgerAnchor = ledgerAnchor then .USE_STOP else .DISMISS := by
    simp [withLedgerAnchor, applyFilterFunction, hfunction]
  have huse : f.applyFilterFunction tx = .USE := by
    simp [applyFilterFunction, hfunction]
  unfold uses matchesEntry
  rw [hfound, huse]
  change (if _ && !f.matchesTransactionNr tx then _ else if _ && !f.matchesCoinCommunity own tx
    then _ else if _ && !f.matchesTransactionType tx then _ else if _ &&
    !f.matchesTimepointInterval tx then _ else if _ && !f.matchesInvolvedPublicKey env tx then _
    else if _ && !f.matchesUpdatedBalancePublicKey tx then _ else _) = _
  split_ifs <;> simp_all [FilterResult.DISMISS, FilterResult.USE]

/-- **The search for a ledger anchor** in the base class finds the first transaction in search
direction that has the anchor and that the filter uses. -/
theorem IndexedBy.findByLedgerAnchorSlow_eq (h : IndexedBy env own s cs)
    (hs : s.Represents own s.history) (horder : InOrder cs) (hdated : Dated s.history) {f : Filter}
    (hf : Searchable env own (env.dict.index own) s.history f)
    (hfunction : f.filterFunction = none) (hsize : f.pagination.size = 0)
    (ledgerAnchor : LedgerAnchor) :
    s.findByLedgerAnchorSlow env ledgerAnchor f = .ok ((searched f.searchDirection s.history).find?
      (fun tx => f.uses env own tx && decide (tx.ledgerAnchor = ledgerAnchor))) := by
  have hfind : Findable env own (env.dict.index own) s.history (f.withLedgerAnchor ledgerAnchor) :=
    ⟨⟨hf.coin, hf.oneKey, hf.known, hf.recorded, hf.reaches⟩, .inl hsize⟩
  have hrequested : (f.withLedgerAnchor ledgerAnchor).requested env own s.history =
      ((searched f.searchDirection s.history).find?
        (fun tx => f.uses env own tx && decide (tx.ledgerAnchor = ledgerAnchor))).toList := by
    rw [Filter.requested_of_size_zero env own (f := f.withLedgerAnchor ledgerAnchor) hsize]
    apply takeAccepted_find
    · intro tx _ htx
      rw [Bool.and_eq_true, decide_eq_true_eq] at htx
      rw [Filter.matchesEntry_withLedgerAnchor hfunction, if_pos htx]
    · intro tx _ htx
      rw [Filter.matchesEntry_withLedgerAnchor hfunction, if_neg (by simpa using htx)]
      rfl
    · refine List.pairwise_of_forall ?_
      intro tx tx' hstop htx
      rw [Filter.matchesEntry_withLedgerAnchor hfunction, if_neg (by simpa using htx)] at hstop
      cases hstop
  unfold InMemory.findByLedgerAnchorSlow
  rw [h.findOneOverride_eq hs horder hdated, h.findOne_requested hs horder hdated hfind, hrequested,
    exactlyOne_toList]

/-! ### Duplicates -/

/-- An entry holds the transaction, confirmed at the date. -/
def SameAt (env : Env) (tx : GradidoTransaction) (date : Timestamp) (e : ConfirmedTransaction) :
    Prop :=
  e.confirmedAt = date ∧ tx.isTheSame env e.gradidoTransaction = true

instance {tx : GradidoTransaction} {date : Timestamp} {e : ConfirmedTransaction} :
    Decidable (SameAt env tx date e) :=
  inferInstanceAs (Decidable (_ ∧ _))

/-- The filter of `isTransactionExist`. -/
def Filter.duplicates (env : Env) (tx : GradidoTransaction) (confirmedAt : Timestamp) : Filter :=
  { timepointInterval := ⟨confirmedAt.getAsTimepoint, confirmedAt.getAsTimepoint⟩
    filterFunction := some (InMemory.sameTransactionFilter env tx confirmedAt) }

namespace Filter

variable {tx : GradidoTransaction} {date : Timestamp} {e : ConfirmedTransaction}

/-- Of the criteria, the filter of `isTransactionExist` has the interval and the function. -/
theorem matchesEntry_duplicates :
    (duplicates env tx date).matchesEntry env own e (fun _ => true) =
      (duplicates env tx date).matchesFound e := by
  have hnr : (duplicates env tx date).matchesTransactionNr e = true := by
    simp [duplicates, matchesTransactionNr]
  have htype : (duplicates env tx date).matchesTransactionType e = true := by
    simp [duplicates, matchesTransactionType]
  have hcoin : (duplicates env tx date).matchesCoinCommunity own e = true := rfl
  have hinvolved : (duplicates env tx date).matchesInvolvedPublicKey env e = true := rfl
  have hupdated : (duplicates env tx date).matchesUpdatedBalancePublicKey e = true := rfl
  unfold matchesEntry matchesFound
  rw [hnr, htype, hcoin, hinvolved, hupdated]
  cases (duplicates env tx date).matchesTimepointInterval e <;> rfl

/-- It uses nothing but the duplicate, and stops elsewhere only before the date. -/
theorem matchesFound_duplicates_of_not (h : ¬ SameAt env tx date e) :
    (duplicates env tx date).matchesFound e = .DISMISS ∨
      e.confirmedAt.lt date = true ∧ (duplicates env tx date).matchesFound e = .STOP := by
  unfold matchesFound
  cases (duplicates env tx date).matchesTimepointInterval e with
  | false => exact .inl rfl
  | true =>
    simp only [if_true, duplicates, applyFilterFunction, InMemory.sameTransactionFilter]
    cases hlt : e.confirmedAt.lt date with
    | true => exact .inr ⟨rfl, rfl⟩
    | false =>
      exact .inl (if_neg h)

end Filter

/-- On a chain, the filter of `isTransactionExist` accepts the latest duplicate of the date. -/
theorem takeAccepted_duplicates {l : List ConfirmedTransaction} (hchained : Chained env l)
    (hdated : Dated l) (tx : GradidoTransaction) (date : Timestamp) :
    takeAccepted (fun e => (Filter.duplicates env tx date).matchesEntry env own e (fun _ => true))
      l.reverse = (l.reverse.find? (fun e => decide (SameAt env tx date e))).toList := by
  rw [takeAccepted_congr (fun e _ => Filter.matchesEntry_duplicates)]
  apply takeAccepted_find
  · intro e he hsame
    rw [decide_eq_true_eq] at hsame
    have hpos := (hdated e (List.mem_reverse.1 he)).2
    rw [hsame.1] at hpos
    exact (InMemory.matchesFound_sameTransaction tx hpos hsame.1).trans (if_pos hsame.2)
  · intro e _ hsame
    rw [decide_eq_false_iff_not] at hsame
    rcases Filter.matchesFound_duplicates_of_not hsame with hdismiss | ⟨-, hstop⟩
    · rw [hdismiss]
      rfl
    · rw [hstop]
      rfl
  · -- what is not after an entry before the date is before the date
    refine (List.pairwise_reverse.2 hchained.order).imp ?_
    intro e e' horder hstop hsame
    rw [decide_eq_false_iff_not] at hsame ⊢
    rintro ⟨hdate, -⟩
    rcases Filter.matchesFound_duplicates_of_not hsame with hdismiss | ⟨hbefore, -⟩
    · rw [hdismiss] at hstop
      cases hstop
    · rw [hdate, hbefore] at horder
      cases horder

/-- A date that the index does not reach is before every transaction, and nothing is found. -/
theorem IndexedBy.findTransactions_of_not_reaches (h : IndexedBy env own s cs)
    (horder : InOrder cs) (hne : cs ≠ []) {p : ℤ} (hreaches : ¬ Reaches (firstDate cs) ⟨p, p⟩)
    {f : CompactFilter} (hinterval : f.timepointInterval = ⟨p, p⟩) :
    (∀ c ∈ cs, c.date ≠ timepointAsYearMonthDay p) ∧
      s.mTransactionsIndex.findTransactions f = [] := by
  simp only [Reaches, TimepointInterval.isEmpty, Bool.and_self, decide_eq_true_eq, not_or]
    at hreaches
  obtain ⟨hzero, -, hbefore⟩ := hreaches
  have hfirst : timepointAsYearMonthDay p < firstDate cs := by
    by_cases hpos : 0 < p
    · by_contra hnot
      exact hbefore ⟨hpos, le_rfl, hnot⟩
    · -- before the epoch, so before every year of the chain
      have hcivil := horder.civilDate_firstDate hne
      have hdays : floorDays p < 0 := Int.ediv_neg_of_neg_of_pos (by omega) (by decide)
      have hlt := Calendar.civilFromDays_strictMono hdays
      have hbounds := Calendar.civilFromDays_bounds (floorDays p)
      rw [show Calendar.civilFromDays 0 = ⟨1970, 1, 1⟩ by decide] at hlt
      unfold CivilDate at hcivil
      rw [YearMonthDay.lt_def] at hlt ⊢
      rw [timepointAsYearMonthDay, if_neg hzero]
      dsimp only at hlt
      omega
  refine ⟨?_, h.index.findTransactions_before ?_ ?_⟩
  · intro c hc hdate
    have hle := horder.firstDate_le hc
    rw [hdate] at hle
    exact hle hfirst
  · rw [hinterval]
    simp [TimepointInterval.isEmpty, hzero]
  · rw [hinterval]
    exact hfirst

/-- The search for a duplicate finds the latest one of the date. -/
theorem IndexedBy.findOne_duplicates (h : IndexedBy env own s cs)
    (hs : s.Represents own s.history) (hchained : Chained env s.history)
    (hdated : Dated s.history) (hne : s.history ≠ []) (tx : GradidoTransaction)
    (date : Timestamp) :
    s.findOne env (.duplicates env tx date) =
      .ok (s.history.reverse.find? (fun e => decide (SameAt env tx date e))) := by
  have horder := h.inOrder hchained hdated
  have hfirst : firstDate cs = firstDay s.history := by
    rw [firstDate, firstDay, h.map_eq (fun tx c hc => hc.date_eq)]
  by_cases hreaches : Reaches (firstDate cs) ⟨date.getAsTimepoint, date.getAsTimepoint⟩
  · rw [hfirst] at hreaches
    rw [h.findOne_requested hs horder hdated ⟨searchable_of_plain rfl rfl rfl hreaches, .inl rfl⟩]
    rw [Filter.requested_of_size_zero env own rfl]
    exact (congrArg InMemory.exactlyOne (takeAccepted_duplicates hchained hdated tx date)).trans
      (exactlyOne_toList _)
  · obtain ⟨hdays, hempty⟩ := h.findTransactions_of_not_reaches horder (by
      rintro rfl
      exact hne (List.length_eq_zero_iff.1 h.compact.length_eq)) hreaches
      (f := .ofFilter (env.dict.index s.mCommunityIdIndex) (.duplicates env tx date)
        s.mCommunityIdIndex) rfl
    have hnone : s.history.reverse.find? (fun e => decide (SameAt env tx date e)) = none := by
      rw [List.find?_eq_none]
      rintro e he hsame
      rw [decide_eq_true_eq] at hsame
      obtain ⟨c, hc, hcompact⟩ := h.exists_compact (List.mem_reverse.1 he)
      apply hdays c hc
      rw [hcompact.date_eq, ConfirmedTransaction.date, hsame.1]
    unfold InMemory.findOne InMemory.findAll InMemory.findAllWith
    rw [hempty, hnone]
    rfl

/-- **The check for duplicates** is exact for its date. -/
theorem IndexedBy.isTransactionExist_eq (h : IndexedBy env own s cs)
    (hs : s.Represents own s.history) (hchained : Chained env s.history)
    (hdated : Dated s.history) (tx : GradidoTransaction) (date : Timestamp) :
    s.isTransactionExist env tx date =
      .ok (decide (∃ e ∈ s.history, SameAt env tx date e)) := by
  have horder := h.inOrder hchained hdated
  unfold InMemory.isTransactionExist
  rw [hs.last]
  cases hlast : s.history.getLast? with
  | none =>
    rw [List.getLast?_eq_none_iff] at hlast
    simp [hlast]
  | some last =>
    have hmem : last ∈ s.history := List.mem_of_getLast? hlast
    dsimp only
    split_ifs with hafter hsame
    · -- no transaction is later than the last one
      rw [eq_comm, decide_eq_false_iff_not.2]
      rintro ⟨e, he, hdate, -⟩
      have hnot := hchained.not_lt_of_getLast hlast he
      rw [hdate, hafter] at hnot
      cases hnot
    · rw [decide_eq_true (p := ∃ e ∈ s.history, SameAt env tx date e) ⟨last, hmem, hsame⟩]
    · have hfind := h.findOne_duplicates hs hchained hdated (List.ne_nil_of_mem hmem) tx date
      unfold Filter.duplicates at hfind
      rw [hfind, ok_bind]
      refine congrArg Except.ok (Bool.eq_iff_iff.2 ?_)
      rw [List.isSome_find?, List.any_reverse, List.any_eq_true, decide_eq_true_eq]
      simp only [decide_eq_true_eq]

end Searches

/-! ### Main results -/

/-- Everything is used by the filter that is not set. -/
theorem Filter.uses_ALL_TRANSACTIONS (env : Env) (own : ℕ) (tx : ConfirmedTransaction) :
    Filter.ALL_TRANSACTIONS.uses env own tx = true :=
  congrArg FilterResult.use (Filter.matchesEntry_LAST_TRANSACTION env own tx)

namespace Sample

theorem nodup_registered : [1, 10, 11].Nodup := by decide

/-- The registration of account `11`. -/
def registered : GradidoTransaction :=
  transaction 0 (signedBy [1, 10, 11] nodup_registered) []
    (.registerAddress ⟨.communityHuman, 1, 1, 10, 11⟩)

theorem nodup_registeredLater : [1, 20, 21].Nodup := by decide

/-- Two registrations with the ledger anchor of row two. -/
def anchoredTwice : List AddCall :=
  (setup.take 2 ++ [call 2 60 (transaction 60 (signedBy [1, 20, 21] nodup_registeredLater) []
    (.registerAddress ⟨.communityHuman, 1, 1, 20, 21⟩))]).map .node

end Sample

end Gradido
