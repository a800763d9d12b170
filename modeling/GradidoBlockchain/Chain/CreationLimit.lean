import GradidoBlockchain.Chain.Conservation
import GradidoBlockchain.Chain.Find
import Mathlib.Algebra.Order.BigOperators.Group.List

/-!
# The limit of creations

A creation is refused when it exceeds, together with the earlier creations for
the same account and month, a thousand coins.  `V02_TargetDateAlgoRole` finds
the earlier creations by searching the index over the last two or three average
months.  The limit holds for a month as long as that window contains all of
them.
-/

namespace Gradido

open Checked ConfirmTransaction CalculateCreationSum TransactionsIndex

/-! ### Totals of a month -/

/-- The date for which the validation computes the creation sum. -/
def creationDate (body : TransactionBody) : ℤ :=
  (Validate.estimatedConfirmedAt body).getAsTimepoint

/-- The amount of a creation for an account and a month that was checked with
`V02_TargetDateAlgoRole`; zero for every other transaction. -/
def creationFor (publicKey : ℕ) (ym : ℤ × ℕ) (tx : ConfirmedTransaction) : ℤ :=
  match tx.body.specific with
  | .creation c =>
    if c.recipient.publicKey = publicKey ∧ secondsAsYearMonth c.targetDate = ym ∧
        usesTargetDateAlgo (creationDate tx.body) = true then c.recipient.amount
    else 0
  | _ => 0

/-- What an account was created for a month. -/
def monthTotal (h : List ConfirmedTransaction) (publicKey : ℕ) (ym : ℤ × ℕ) : ℤ :=
  (h.map (creationFor publicKey ym)).sum

/-- No account was created more than a thousand coins for a month. -/
def WithinLimit (h : List ConfirmedTransaction) : Prop :=
  ∀ publicKey ym, monthTotal h publicKey ym ≤ 10000000

/-! ### The window -/

/-- Where the window starts in which the earlier creations are searched. -/
def windowStart (body : TransactionBody) : ℤ :=
  creationDate body - getTargetDateReceivedDistanceMonth (creationDate body) * averageMonth

/-- The last day of a log. -/
def lastDay (h : List ConfirmedTransaction) : YearMonthDay :=
  (h.map ConfirmedTransaction.date).getLastD zeroDate

/-- The search over a window is not ended too early: the window does not start before the log, or
the search meets the last day of the log in time. -/
def Scanned (h : List ConfirmedTransaction) (body : TransactionBody) : Prop :=
  ¬ timepointAsYearMonthDay (windowStart body) < firstDay h ∨
    timepointAsYearMonthDay (creationDate body) = lastDay h ∨
    (firstDay h).year ≠ (lastDay h).year ∨ (firstDay h).month ≠ (lastDay h).month ∨
    (timepointAsYearMonthDay (windowStart body)).day ≤ (lastDay h).day

/-- A creation sees the earlier ones for its account and month: when there are any, it does not
cross communities, they were confirmed since the start of its window, and the search over the
window is not ended too early. -/
def CreationSeen (pre : List ConfirmedTransaction) (tx : ConfirmedTransaction) : Prop :=
  ∀ c, tx.body.specific = .creation c → usesTargetDateAlgo (creationDate tx.body) = true →
    ∀ t ∈ pre, creationFor c.recipient.publicKey (secondsAsYearMonth c.targetDate) t ≠ 0 →
      (tx.body.type ≠ .outbound ∧ tx.body.type ≠ .inbound) ∧
        ¬ t.date < timepointAsYearMonthDay (windowStart tx.body) ∧ Scanned pre tx.body

instance decidableScanned {h : List ConfirmedTransaction} {body : TransactionBody} :
    Decidable (Scanned h body) :=
  inferInstanceAs (Decidable (_ ∨ _ ∨ _ ∨ _ ∨ _))

instance decidableCreationSeen {pre : List ConfirmedTransaction} {tx : ConfirmedTransaction} :
    Decidable (CreationSeen pre tx) :=
  inferInstanceAs (Decidable (∀ c, tx.body.specific = .creation c → _))

/-! ### The sum that the code computes -/

/-- What a transaction number adds to the sum for a month. -/
def countedNr (s : InMemory) (ym : ℤ × ℕ) (nr : ℕ) : ℤ :=
  match s.mConfirmedTxByNr nr with
  | some c =>
    match c.specific with
    | .creation _ _ targetMonthYear => if targetMonthYear = ym then c.getAmount else 0
    | _ => 0
  | none => 0

/-- The loop over the numbers adds up what they count. -/
theorem forPage_targetMonth {s : InMemory} {ym : ℤ × ℕ} {nrs : List ℕ} {sum : ℤ}
    {last : FilterResult} {r : ℤ × FilterResult}
    (h : s.forPage (targetMonthFilter ym) nrs sum last = .ok r) :
    r.1 = sum + (nrs.map (countedNr s ym)).sum := by
  induction nrs generalizing sum last with
  | nil =>
    rw [InMemory.forPage, Except.ok.injEq] at h
    simp [← h]
  | cons nr nrs ih =>
    rw [InMemory.forPage] at h
    cases hbyNr : s.mConfirmedTxByNr nr with
    | none => simp [hbyNr] at h
    | some c =>
      rw [hbyNr] at h
      simp only [bind_eq_ok, Prod.exists] at h
      obtain ⟨sum', result, hfilter, h⟩ := h
      unfold targetMonthFilter at hfilter
      split at hfilter
      · next amount recipient targetMonthYear hspecific =>
        rw [Except.ok.injEq, Prod.mk.injEq] at hfilter
        obtain ⟨rfl, rfl⟩ := hfilter
        have hcounted : countedNr s ym nr = if targetMonthYear = ym then c.getAmount else 0 := by
          simp only [countedNr, hbyNr, hspecific]
        rw [List.map_cons, List.sum_cons, hcounted, ih h]
        split_ifs <;> omega
      · simp at hfilter

/-- **The sum of `V02_TargetDateAlgoRole`**. -/
theorem targetDateAlgo_eq_ok {s : InMemory} {date targetDate sum : ℤ} {k : PublicKeyIndex}
    {transactionNrMax : ℕ} (h : targetDateAlgo s date targetDate k transactionNrMax = .ok sum) :
    sum = ((s.mTransactionsIndex.findTransactions (creationFilter k
      ⟨date - getTargetDateReceivedDistanceMonth date * averageMonth, date⟩
      transactionNrMax)).map (countedNr s (timepointAsYearMonth targetDate))).sum := by
  simp only [targetDateAlgo, TimepointInterval.make, bind_eq_ok, exists_unit, throwIf_eq_ok,
    pure_eq_ok] at h
  obtain ⟨_, ⟨-, rfl⟩, h⟩ := h
  set f := creationFilter k
    ⟨date - getTargetDateReceivedDistanceMonth date * averageMonth, date⟩ transactionNrMax with hf
  have hpages : f.pagination = ⟨0, 0⟩ := rfl
  have hfilter : { f with pagination := ⟨0, 0⟩ } = f := rfl
  rw [InMemory.forEachCompact, InMemory.forEachPage, hpages, hfilter] at h
  generalize s.mTransactionsIndex.findTransactions f = nrs at h ⊢
  cases nrs with
  | nil =>
    rw [Except.ok.injEq] at h
    simp [← h]
  | cons nr nrs =>
    simp only [bind_eq_ok, Prod.exists] at h
    obtain ⟨acc, result, hpage, h⟩ := h
    -- without pages one round is enough
    have hacc : acc = sum := by simpa using h
    have hsum := forPage_targetMonth hpage
    rw [← hacc]
    simpa using hsum

/-- A sum over some of the numbers is not larger than the sum over all of them. -/
theorem sum_le_of_mem {α : Type} {k : α → ℕ} {F : α → ℤ} {g : ℕ → ℤ} {l : List α}
    {nrs : List ℕ} (hl : (l.map k).Nodup) (hg : ∀ n ∈ nrs, 0 ≤ g n)
    (hF : ∀ a ∈ l, F a ≠ 0 → k a ∈ nrs ∧ F a = g (k a)) :
    (l.map F).sum ≤ (nrs.map g).sum := by
  induction l generalizing nrs with
  | nil =>
    refine List.sum_nonneg ?_
    intro x hx
    obtain ⟨n, hn, rfl⟩ := List.mem_map.1 hx
    exact hg n hn
  | cons a l ih =>
    rw [List.map_cons, List.nodup_cons] at hl
    rw [List.map_cons, List.sum_cons]
    by_cases hzero : F a = 0
    · rw [hzero, zero_add]
      exact ih hl.2 hg (fun b hb => hF b (List.mem_cons_of_mem a hb))
    · -- the number of the first element is taken out
      obtain ⟨hmem, heq⟩ := hF a List.mem_cons_self hzero
      have hperm := ((List.perm_cons_erase hmem).map g).sum_eq
      rw [List.map_cons, List.sum_cons] at hperm
      have hrest : (l.map F).sum ≤ ((nrs.erase (k a)).map g).sum := by
        refine ih hl.2 (fun n hn => hg n (List.mem_of_mem_erase hn)) ?_
        intro b hb hne
        obtain ⟨hmemb, heqb⟩ := hF b (List.mem_cons_of_mem a hb) hne
        refine ⟨(List.mem_erase_of_ne ?_).2 hmemb, heqb⟩
        intro hsame
        exact hl.1 (hsame ▸ List.mem_map_of_mem hb)
      omega

/-- The compact form of a creation. -/
theorem CompactOf.creation {env : Env} {own : ℕ} {tx : ConfirmedTransaction}
    {c : ConfirmedGradidoTx} (h : CompactOf env own tx c) {creation : GradidoCreation}
    (hc : tx.body.specific = .creation creation) :
    (∃ recipient, c.specific = .creation creation.recipient.amount recipient
      (secondsAsYearMonth creation.targetDate)) ∧ c.getAmount = creation.recipient.amount := by
  obtain ⟨getTx, sender, recipient, -, hspecific⟩ := h.content
  simp only [ConfirmedGradidoTx.fillSpecific, hc, Except.ok.injEq, Prod.mk.injEq] at hspecific
  have htype : c.transactionType = .creation := by
    rw [h.fields.2.2.2.2.1]
    simp [TransactionBody.transactionType, hc]
  refine ⟨⟨_, hspecific.1.symm⟩, ?_⟩
  rw [ConfirmedGradidoTx.getAmount, htype, ← hspecific.1]

section Found

variable {env : Env} {own : ℕ} {s : InMemory} {cs : List ConfirmedGradidoTx}

/-- What a creation counts. -/
theorem IndexedBy.countedNr_eq (h : IndexedBy env own s cs) {tx : ConfirmedTransaction}
    (htx : tx ∈ s.history) {creation : GradidoCreation}
    (hc : tx.body.specific = .creation creation) (ym : ℤ × ℕ) :
    countedNr s ym tx.id =
      if secondsAsYearMonth creation.targetDate = ym then creation.recipient.amount else 0 := by
  obtain ⟨c, hmem, hcompact⟩ := h.exists_compact htx
  obtain ⟨⟨recipient, hspecific⟩, hamount⟩ := hcompact.creation hc
  have hbyNr := h.byNr_txNr hmem
  rw [hcompact.fields.1] at hbyNr
  simp only [countedNr, hbyNr, hspecific, hamount]

theorem lastDay_eq {h : List ConfirmedTransaction} (hne : h ≠ []) :
    lastDay h = (h.getLast hne).date := by
  rw [lastDay, List.getLastD_eq_getLast?, List.getLast?_map, List.getLast?_eq_some_getLast hne]
  rfl

/-- The first and the last day of a log are those of the index. -/
theorem IndexedBy.days_eq (h : IndexedBy env own s cs) (hs : s.Represents own s.history)
    (horder : InOrder cs) (hne : s.history ≠ []) :
    firstDate cs = firstDay s.history ∧ latestDate cs = lastDay s.history := by
  have hdates := h.map_eq (fun tx c hc => hc.date_eq)
  refine ⟨by rw [firstDate, firstDay, hdates], ?_⟩
  obtain ⟨c, hc, hcompact⟩ := h.exists_compact (List.getLast_mem hne)
  have hnr : c.txNr = cs.length := by
    rw [hcompact.fields.1, h.length_eq]
    exact hs.last_id (hs.last.trans (List.getLast?_eq_some_getLast hne))
  rw [← h.index.date_last horder hc hnr, hcompact.date_eq, lastDay_eq hne]

/-- The search over a window finds the creations of an account since its first day. -/
theorem IndexedBy.mem_creations (h : IndexedBy env own s cs) (hs : s.Represents own s.history)
    (hown : own ≠ 0) (horder : InOrder cs)
    {body : TransactionBody} (hpos : 0 < windowStart body)
    (hle : windowStart body ≤ creationDate body)
    (hdates : ∀ t ∈ s.history, t.confirmedAt.getAsTimepoint ≤ creationDate body)
    (hscanned : Scanned s.history body) {nrMax : ℕ}
    (hmax : nrMax = 0 ∨ s.history.length ≤ nrMax) {publicKey : ℕ} {tx : ConfirmedTransaction}
    (htx : tx ∈ s.history) (htype : tx.body.transactionType = .creation)
    (hkey : ∃ b ∈ tx.accountBalances, b.publicKey = publicKey)
    (hday : ¬ tx.date < timepointAsYearMonthDay (windowStart body)) :
    tx.id ∈ s.mTransactionsIndex.findTransactions
      (creationFilter (env.dict.toPublicKeyIndex publicKey own)
        ⟨windowStart body, creationDate body⟩ nrMax) := by
  have hne : s.history ≠ [] := List.ne_nil_of_mem htx
  obtain ⟨hfirst, hlast⟩ := h.days_eq hs horder hne
  obtain ⟨c, hc, hcompact⟩ := h.exists_compact htx
  have hcs : cs ≠ [] := List.ne_nil_of_mem hc
  have hid := hcompact.fields.1
  have hadmits : Admits (creationFilter (env.dict.toPublicKeyIndex publicKey own)
      ⟨windowStart body, creationDate body⟩ nrMax) c.txNr := by
    refine ⟨.inl rfl, ?_⟩
    rcases hmax with hzero | hlarge
    · exact .inl hzero
    · right
      rw [hid]
      exact (hs.id_le_length htx).2.trans hlarge
  have hwanted : Wanted env own (creationFilter (env.dict.toPublicKeyIndex publicKey own)
      ⟨windowStart body, creationDate body⟩ nrMax) c := by
    refine ⟨.inl rfl, ⟨fun _ => (hcompact.isBalanceUpdated_iff publicKey).2 hkey, ?_⟩, .inr ?_⟩
    · intro hinvolved
      simp [creationFilter] at hinvolved
    · rw [hcompact.fields.2.2.2.2.1, htype]
      rfl
  have hplain : Plain (creationFilter (env.dict.toPublicKeyIndex publicKey own)
      ⟨windowStart body, creationDate body⟩ nrMax) := by
    intro _
    exact env.dict.empty_toPublicKeyIndex hown publicKey
  have hend : ∀ t ∈ s.history, ¬ timepointAsYearMonthDay (creationDate body) < t.date := by
    intro t ht
    obtain ⟨ct, hct, hctcompact⟩ := h.exists_compact ht
    have htpos := horder.positive ct hct
    rw [hctcompact.fields.2.1] at htpos
    exact timepointAsYearMonthDay_mono (hdates t ht) (by omega) (by omega)
  by_cases hbefore : timepointAsYearMonthDay (windowStart body) < firstDay s.history
  · refine (h.index.mem_findTransactions_spans hcs horder hplain rfl rfl
      ⟨hpos, hpos.trans_le hle, ?_, ?_, ?_⟩ tx.id).2 ⟨c, hc, hid, hadmits, hwanted⟩
    · rw [hfirst]
      exact hbefore
    · rw [hlast, lastDay_eq hne]
      exact hend _ (List.getLast_mem hne)
    · rw [hfirst, hlast]
      rcases hscanned with hnot | hend | hyear | hmonth | hday
      · exact absurd hbefore hnot
      · exact .inl hend
      · exact .inr (.inl hyear)
      · exact .inr (.inr (.inl hmonth))
      · exact .inr (.inr (.inr hday))
  · refine (h.index.mem_findTransactions_iff horder hplain rfl
      (.inr (.inr ⟨hpos, hle, by rw [hfirst]; exact hbefore⟩)) tx.id).2
      ⟨c, hc, hid, hadmits, .inr ⟨?_, ?_⟩, hwanted⟩
    · rw [hcompact.date_eq]
      exact hday
    · rw [hcompact.date_eq]
      exact hend tx htx

end Found

/-! ### Confirmed creations -/

namespace ConfirmTransaction

/-- Creations of a run have a positive amount, and an entry for their recipient. -/
theorem Reachable.creations {env : Env} {calls : List Call} {p : InMemoryProvider}
    (h : Reachable env (CalledRole calls) p) :
    ∀ i, ∀ tx ∈ (p.findBlockchain i).history, ∀ c, tx.body.specific = .creation c →
      0 < c.recipient.amount ∧ ∃ b ∈ tx.accountBalances, b.publicKey = c.recipient.publicKey := by
  refine h.forall_confirmed (Q := fun _ _ tx => ∀ c, tx.body.specific = .creation c →
    0 < c.recipient.amount ∧ ∃ b ∈ tx.accountBalances, b.publicKey = c.recipient.publicKey)
    (fun _ _ _ _ _ hq => hq) ?_
  intro community role p q tx _ h hb horigin c hc
  obtain ⟨recipient, others, hrecipient, hbalances⟩ := (hb.computed horigin).of_creation hc
  refine ⟨(h.creation_checked (hb.body_eq ▸ hc)).1, recipient, ?_,
    (calculateAccountBalance_spec hrecipient).1⟩
  rw [hbalances]
  exact List.mem_cons_self

/-- No number counts less than nothing. -/
theorem Reachable.countedNr_nonneg {env : Env} {calls : List Call} {p : InMemoryProvider}
    (h : Reachable env (CalledRole calls) p) {i : ℕ}
    (hlog : IndexableLog env i (p.findBlockchain i).history) (ym : ℤ × ℕ) (nr : ℕ) :
    0 ≤ countedNr (p.findBlockchain i) ym nr := by
  obtain ⟨cs, hcs⟩ := h.indexed i hlog
  unfold countedNr
  split
  · next c hbyNr =>
    split
    · next amount recipient targetMonthYear hspecific =>
      have hmem : c ∈ cs := by
        cases nr with
        | zero => simp [hcs.byNr_zero] at hbyNr
        | succ k => exact List.mem_of_getElem? ((hcs.byNr k).symm.trans hbyNr)
      obtain ⟨tx, htx, hcompact⟩ := hcs.exists_rich hmem
      split_ifs
      · by_cases htype : tx.body.transactionType = .creation
        · obtain ⟨creation, hc⟩ := TransactionBody.exists_creation htype
          rw [(hcompact.creation hc).2]
          exact (h.creations i tx htx creation hc).1.le
        · rw [← hcompact.fields.2.2.2.2.1] at htype
          have hzero : c.getAmount = 0 := by
            unfold ConfirmedGradidoTx.getAmount
            split <;> simp_all
          rw [hzero]
      · exact le_rfl
    · exact le_rfl
  · exact le_rfl

section Step

variable {env : Env} {community : ℕ} {role : Role} {p q : InMemoryProvider}
  {tx : ConfirmedTransaction} {calls : List Call}

/-- No creation is larger than the limit. -/
theorem Confirms.creation_le (h : Confirms env community role p q tx) {c : GradidoCreation}
    (hc : role.mBody.specific = .creation c) : c.recipient.amount ≤ 10000000 := by
  obtain ⟨context, hspecific⟩ := h.specific_single
  simp only [Validate.specificRole, hc, Validate.gradidoCreationRole, bind_eq_ok, exists_unit,
    when_eq_ok, throwIf_eq_ok, decide_eq_false_iff_not, forall_const] at hspecific
  obtain ⟨-, -, ⟨-, hlimit, -⟩, -⟩ := hspecific
  omega

/-- The dates of `V02_TargetDateAlgoRole`. -/
theorem le_of_usesTargetDateAlgo {date : ℤ} (h : usesTargetDateAlgo date = true) :
    1588503608 * microsecondsPerSecond ≤ date := by
  unfold usesTargetDateAlgo at h
  rw [decide_eq_true_eq] at h
  have hnonneg : 0 ≤ date := by
    by_contra hneg
    have hopposite := Int.tdiv_nonneg (a := -date) (b := microsecondsPerSecond) (by omega)
      (by decide)
    rw [Int.neg_tdiv] at hopposite
    omega
  rw [Int.tdiv_eq_ediv_of_nonneg hnonneg] at h
  simp only [microsecondsPerSecond] at h ⊢
  omega

/-- A target date of a creation that `V02_TargetDateAlgoRole` checks is not the epoch. -/
theorem targetDate_ne_zero {c : GradidoCreation} {body : TransactionBody}
    (h : Validate.validateTargetDate c body.createdAt.getAsTimepoint = .ok ())
    (hV02 : usesTargetDateAlgo (creationDate body) = true) : c.targetDate ≠ 0 := by
  intro hzero
  have hdate : creationDate body = body.createdAt.getAsTimepoint +
      Validate.maxTimespan * microsecondsPerSecond := by
    simp only [creationDate, Validate.estimatedConfirmedAt, Timestamp.getAsTimepoint, Int.add_mul]
    omega
  have hdays : 18385 ≤ floorDays body.createdAt.getAsTimepoint := by
    have hfirst := le_of_usesTargetDateAlgo hV02
    simp only [hdate, Validate.maxTimespan, microsecondsPerSecond] at hfirst
    simp only [floorDays, microsecondsPerSecond]
    omega
  -- the creation was received in 2020 or later, and the epoch is in 1970
  have hreceived : 2020 ≤ (Calendar.civilFromDays
      (floorDays body.createdAt.getAsTimepoint)).year := by
    have hfirst : Calendar.civilFromDays 18385 = ⟨2020, 5, 3⟩ := by decide
    rcases lt_or_eq_of_le hdays with hlt | heq
    · have hmono := Calendar.civilFromDays_strictMono hlt
      rw [hfirst, YearMonthDay.lt_def] at hmono
      dsimp only at hmono
      omega
    · rw [← heq, hfirst]
  have hepoch : Calendar.civilFromDays (floorDays (c.targetDate * microsecondsPerSecond)) =
      ⟨1970, 1, 1⟩ := by
    rw [hzero]
    decide
  simp only [Validate.validateTargetDate, hepoch] at h
  split_ifs at h <;> omega

/-- The sum that was computed for a confirmed creation. -/
theorem Built.creation_sum (hb : Built env q community role tx) (hq : Logged env q)
    {c : GradidoCreation} (hc : tx.body.specific = .creation c) (hin : tx.body.type ≠ .inbound)
    (hout : tx.body.type ≠ .outbound) (hV02 : usesTargetDateAlgo (creationDate tx.body) = true) :
    c.targetDate ≠ 0 ∧ ∃ sum,
      targetDateAlgo (q.findBlockchain community) (creationDate tx.body)
        (c.targetDate * microsecondsPerSecond)
        (env.dict.toPublicKeyIndex c.recipient.publicKey community)
        (q.findBlockchain community).history.length = .ok sum ∧
      sum + c.recipient.amount ≤ 10000000 := by
  have hs := hq.represents community
  obtain ⟨context, hcontext⟩ := hb.accepted
  obtain ⟨hsender, hprevious⟩ := Validate.prepareContext_sender hcontext.context hin
  obtain ⟨hrecipient, -⟩ := Validate.prepareContext_recipient hcontext.context hout
  have hspecific := hcontext.specific
  have hbody : tx.gradidoTransaction.body = tx.body := rfl
  have hlevel : (validationType role (q.findBlockchain community).mLastTransaction).monthRange =
      true := by
    simp [validationType, hb.body_eq, TransactionBody.transactionType, hc]
  simp only [Validate.specificRole, hbody, hc, Validate.gradidoCreationRole, bind_eq_ok,
    exists_unit, when_eq_ok, orThrow_eq_ok, hsender, hprevious, hrecipient] at hspecific
  obtain ⟨htarget, -, -, hmonth, -⟩ := hspecific
  obtain ⟨last, hlast, sum, hsum, hlimit⟩ := hmonth hlevel
  rw [throwIf_eq_ok, decide_eq_false_iff_not] at hlimit
  change CalculateCreationSum.run _ (creationDate tx.body) _ _ _ = _ at hsum
  rw [CalculateCreationSum.run, if_pos hV02, hs.community, hs.last_id hlast] at hsum
  refine ⟨targetDate_ne_zero htarget hV02, sum, hsum, ?_⟩
  change ¬ sum + c.recipient.amount > getLimit (creationDate tx.body) at hlimit
  rw [getLimit, if_pos hV02] at hlimit
  omega

/-- The window of `V02_TargetDateAlgoRole` starts after the epoch. -/
theorem windowStart_pos {body : TransactionBody}
    (hV02 : usesTargetDateAlgo (creationDate body) = true) :
    0 < windowStart body ∧ windowStart body ≤ creationDate body := by
  have hfirst := le_of_usesTargetDateAlgo hV02
  have hmonths : getTargetDateReceivedDistanceMonth (creationDate body) = 3 ∨
      getTargetDateReceivedDistanceMonth (creationDate body) = 2 := by
    unfold getTargetDateReceivedDistanceMonth
    dsimp only
    split_ifs
    · exact .inl rfl
    · exact .inr rfl
  simp only [windowStart, averageMonth, microsecondsPerSecond] at hfirst ⊢
  rcases hmonths with h | h <;> rw [h] <;> omega

/-- A confirmed creation is not after the date for which its sum was computed. -/
theorem Built.le_creationDate (hb : Built env q community role tx) (hq : Logged env q)
    {c : GradidoCreation} (hc : tx.body.specific = .creation c)
    (hdated : Dated ((q.findBlockchain community).history ++ [tx])) {t : ConfirmedTransaction}
    (ht : t ∈ (q.findBlockchain community).history) :
    t.confirmedAt.getAsTimepoint ≤ creationDate tx.body := by
  have hle := Timestamp.getAsTimepoint_mono (hdated t (by simp [ht])).1 (hdated tx (by simp)).1
    (hb.not_lt_confirmedAt hq ht)
  have hconfirmed := hb.confirmedAt_le hq (by simp [TransactionBody.transactionType, hc])
  have hestimated : creationDate tx.body = tx.body.createdAt.getAsTimepoint +
      Validate.maxTimespan * microsecondsPerSecond := by
    simp only [creationDate, Validate.estimatedConfirmedAt, Timestamp.getAsTimepoint, Int.add_mul]
    omega
  omega

/-- A transaction that counts is a creation that was checked with `V02_TargetDateAlgoRole`. -/
theorem creationFor_ne_zero {publicKey : ℕ} {ym : ℤ × ℕ} {t : ConfirmedTransaction}
    (h : creationFor publicKey ym t ≠ 0) :
    ∃ c, t.body.specific = .creation c ∧ c.recipient.publicKey = publicKey ∧
      secondsAsYearMonth c.targetDate = ym ∧ usesTargetDateAlgo (creationDate t.body) = true ∧
      creationFor publicKey ym t = c.recipient.amount := by
  unfold creationFor at h ⊢
  split at h
  · next c hc =>
    split_ifs at h with hcounts
    · exact ⟨c, hc, hcounts.1, hcounts.2.1, hcounts.2.2, if_pos hcounts⟩
    · simp at h
  · simp at h

/-- The earlier creations for an account and a month are not more than the sum that was
computed. -/
theorem Built.monthTotal_le (hb : Built env q community role tx)
    (hq : Reachable env (CalledRole calls) q) (hcommunity : community ≠ 0)
    (hlog : IndexableLog env community (q.findBlockchain community).history)
    (hdated : Dated ((q.findBlockchain community).history ++ [tx]))
    {c : GradidoCreation} (hc : tx.body.specific = .creation c)
    (hV02 : usesTargetDateAlgo (creationDate tx.body) = true)
    (hseen : CreationSeen (q.findBlockchain community).history tx)
    (hearlier : ∃ t ∈ (q.findBlockchain community).history,
      creationFor c.recipient.publicKey (secondsAsYearMonth c.targetDate) t ≠ 0) :
    monthTotal (q.findBlockchain community).history c.recipient.publicKey
      (secondsAsYearMonth c.targetDate) + c.recipient.amount ≤ 10000000 := by
  obtain ⟨cs, hcs⟩ := hq.indexed community hlog
  have hs := hq.logged.represents community
  have horder := hcs.inOrder (hq.logged.chained community) (fun t ht => hdated t (by simp [ht]))
  obtain ⟨first, hfirst, hcounts⟩ := hearlier
  obtain ⟨⟨hout, hin⟩, -, hscanned⟩ := hseen c hc hV02 first hfirst hcounts
  obtain ⟨htarget, sum, hsum, hlimit⟩ := hb.creation_sum hq.logged hc hin hout hV02
  obtain ⟨hpos, hle⟩ := windowStart_pos hV02
  have hmonth : timepointAsYearMonth (c.targetDate * microsecondsPerSecond) =
      secondsAsYearMonth c.targetDate := by
    have hne : c.targetDate * microsecondsPerSecond ≠ 0 := by
      simp only [microsecondsPerSecond]
      omega
    rw [timepointAsYearMonth, timepointAsYearMonthDay, if_neg hne, secondsAsYearMonth]
  have hsumEq := targetDateAlgo_eq_ok hsum
  rw [hmonth] at hsumEq
  -- every creation that counts is among the numbers of the search
  have hle : monthTotal (q.findBlockchain community).history c.recipient.publicKey
      (secondsAsYearMonth c.targetDate) ≤ sum := by
    rw [hsumEq]
    refine sum_le_of_mem (k := ConfirmedTransaction.id) ?_
      (fun nr _ => hq.countedNr_nonneg hlog _ nr) ?_
    · exact List.pairwise_map.2 (hs.numbered.imp (fun hlt => hlt.ne))
    · intro t ht hne
      obtain ⟨c', hc', hkey, hym, -, hamount⟩ := creationFor_ne_zero hne
      obtain ⟨-, b, hbmem, hbkey⟩ := hq.creations community t ht c' hc'
      refine ⟨hcs.mem_creations hs hcommunity horder hpos hle
        (fun t' ht' => hb.le_creationDate hq.logged hc hdated ht') hscanned (.inr le_rfl) ht
        (by simp [TransactionBody.transactionType, hc']) ⟨b, hbmem, hbkey.trans hkey⟩
        (hseen c hc hV02 t ht hne).2.1, ?_⟩
      rw [hcs.countedNr_eq ht hc', if_pos hym, hamount]
  omega

/-- The limit is kept by a creation that sees the earlier ones. -/
theorem Confirms.withinLimit (h : Confirms env community role p q tx)
    (hb : Built env q community role tx) (hq : Reachable env (CalledRole calls) q)
    (hcommunity : community ≠ 0)
    (hlog : IndexableLog env community (q.findBlockchain community).history)
    (hdated : Dated ((q.findBlockchain community).history ++ [tx]))
    (hseen : CreationSeen (q.findBlockchain community).history tx)
    (hwithin : WithinLimit (q.findBlockchain community).history) :
    WithinLimit ((q.findBlockchain community).history ++ [tx]) := by
  intro publicKey ym
  have hbefore := hwithin publicKey ym
  have happend : monthTotal ((q.findBlockchain community).history ++ [tx]) publicKey ym =
      monthTotal (q.findBlockchain community).history publicKey ym +
        creationFor publicKey ym tx := by
    simp [monthTotal]
  rw [happend]
  by_cases hzero : creationFor publicKey ym tx = 0
  · omega
  · obtain ⟨c, hc, rfl, rfl, hV02, hamount⟩ := creationFor_ne_zero hzero
    rw [hamount]
    by_cases hearlier : ∃ t ∈ (q.findBlockchain community).history,
        creationFor c.recipient.publicKey (secondsAsYearMonth c.targetDate) t ≠ 0
    · exact hb.monthTotal_le hq hcommunity hlog hdated hc hV02 hseen hearlier
    · have hnone : monthTotal (q.findBlockchain community).history c.recipient.publicKey
          (secondsAsYearMonth c.targetDate) = 0 := by
        refine List.sum_eq_zero ?_
        intro x hx
        obtain ⟨t, ht, rfl⟩ := List.mem_map.1 hx
        by_contra hne
        exact hearlier ⟨t, ht, hne⟩
      have hone := h.creation_le (hb.body_eq ▸ hc)
      omega

end Step

end ConfirmTransaction

/-! ### Whole runs -/

/-- **The limit holds** in every run whose creations see the earlier ones for their account and
month. -/
theorem run_withinLimit (env : Env) (calls : List Call) {community : ℕ}
    (hcommunity : community ≠ 0)
    (hlog : IndexableLog env community ((run env calls).findBlockchain community).history)
    (hdated : Dated ((run env calls).findBlockchain community).history)
    (hseen : AlongPrefixes CreationSeen ((run env calls).findBlockchain community).history) :
    WithinLimit ((run env calls).findBlockchain community).history := by
  have halong := (reachable_run env calls).alongPrefixes (Q := fun i pre tx => i ≠ 0 →
    IndexableLog env i pre → Dated (pre ++ [tx]) → CreationSeen pre tx → WithinLimit pre →
    WithinLimit (pre ++ [tx])) (by
      intro community role p q tx hq h hb _ hcommunity hlog hdated hseen hwithin
      exact h.withinLimit hb hq hcommunity hlog hdated hseen hwithin) community
  -- the log grows one transaction at a time
  have hinitiales : ∀ pre, pre <+: ((run env calls).findBlockchain community).history →
      WithinLimit pre := by
    intro pre
    induction pre using List.reverseRecOn with
    | nil =>
      intro _ publicKey ym
      simp [monthTotal]
    | append_singleton pre tx ih =>
      rintro ⟨post, heq⟩
      have heq' : ((run env calls).findBlockchain community).history = pre ++ tx :: post := by
        rw [← heq, List.append_assoc]
        rfl
      have hinitial : pre <+: ((run env calls).findBlockchain community).history :=
        ⟨tx :: post, heq'.symm⟩
      refine halong pre tx post heq' hcommunity (AlongPrefixes.of_prefix hlog hinitial) ?_
        (hseen pre tx post heq') (ih hinitial)
      intro t ht
      exact hdated t (heq ▸ List.mem_append_left post ht)
  exact hinitiales _ (List.prefix_refl _)

namespace Sample

/-- A creation of account `21` for account `11` and January 2024. -/
def january (id : ℕ) (offset amount : ℤ) : Call :=
  call id offset (transaction offset (signedByKey 21) [memo]
    (.creation ⟨⟨11, amount, 1⟩, midnight⟩))

/-- A thousand coins on the first of January and again on the last of March: the window of the
second creation starts on the thirtieth of January. -/
theorem january_twice_not_withinLimit :
    ¬ WithinLimit ((run env (setup ++ [january 4 200 10000000,
      january 5 (90 * 86400) 10000000])).findBlockchain 1).history := by
  intro h
  have htotal : monthTotal ((run env (setup ++ [january 4 200 10000000,
      january 5 (90 * 86400) 10000000])).findBlockchain 1).history 11 (2024, 1) = 20000000 := by
    decide +kernel
  have hle := h 11 (2024, 1)
  omega

/-- Within January the second creation sees the first one. -/
theorem january_withinLimit :
    monthTotal ((run env (setup ++ [january 4 200 6000000,
        january 5 (30 * 86400) 4000000])).findBlockchain 1).history 11 (2024, 1) = 10000000 ∧
      WithinLimit ((run env (setup ++ [january 4 200 6000000,
        january 5 (30 * 86400) 4000000])).findBlockchain 1).history := by
  refine ⟨by decide +kernel, run_withinLimit env _ (by decide) (by decide +kernel)
    (by decide +kernel) ?_⟩
  decide +kernel

end Sample

end Gradido
