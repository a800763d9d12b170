import GradidoBlockchain.Chain.Authority
import GradidoBlockchain.Chain.Independence

/-!
# Forged calls

A call is forged when a signature of its transaction is invalid.  A call that
verifies the signatures throws then and leaves no trace, and for all others the
verification makes no difference.  So the transactions with an invalid signature
come from the calls that do not verify (`runAdd_forged`).
-/

namespace Gradido

open Checked ConfirmTransaction

/-! ### The signature check -/

namespace Validate

variable {env : Env}

/-- A loop of checks depends on what each check returns. -/
theorem forM_congr_of_mem {α : Type} {f g : α → Except Exception Unit} {l : List α}
    (h : ∀ a ∈ l, f a = g a) : l.forM f = l.forM g := by
  induction l with
  | nil => rfl
  | cons a l ih =>
    show (f a >>= fun _ => l.forM f) = (g a >>= fun _ => l.forM g)
    rw [h a List.mem_cons_self, ih (fun b hb => h b (List.mem_cons_of_mem a hb))]

/-- Valid signatures pass with and without the verification. -/
theorem gradidoTransactionRole_of_verified {tx : GradidoTransaction} (h : tx.verified env = true)
    (p : InMemoryProvider) (disableVerify : Bool) (type : ValidationType) (c : ContextData) :
    gradidoTransactionRole env p disableVerify type c tx =
      gradidoTransactionRole env p false type c tx := by
  have hpairs : tx.signatureMap.signaturePairs.forM (verifySignature env disableVerify tx) =
      tx.signatureMap.signaturePairs.forM (verifySignature env false tx) := by
    refine forM_congr_of_mem (fun pair hpair => ?_)
    have hvalid := List.all_eq_true.1 h pair hpair
    simp [verifySignature, hvalid]
  unfold gradidoTransactionRole
  rw [hpairs]

end Validate

namespace ConfirmTransaction

variable {env : Env}

theorem validateSingle_of_verified {role : Role} (h : role.mGradidoTransaction.verified env = true)
    (p : InMemoryProvider) (community : ℕ) (disableVerify : Bool) :
    validateSingle env p community disableVerify role =
      validateSingle env p community false role := by
  unfold validateSingle
  dsimp only
  rw [Validate.gradidoTransactionRole_of_verified h]

/-- Without forged signatures the verification makes no difference. -/
theorem createAndAdd_of_verified {role : Role} (h : role.mGradidoTransaction.verified env = true)
    (depth : ℕ) (disableVerify : Bool) (p : InMemoryProvider) (community : ℕ) :
    createAndAdd env depth disableVerify p community role =
      createAndAdd env depth false p community role := by
  cases depth with
  | zero => rfl
  | succ depth =>
    rw [createAndAdd, createAndAdd, validateSingle_of_verified h]

end ConfirmTransaction

/-! ### Calls -/

namespace AddCall

variable {env : Env}

/-- All signatures of the call are valid. -/
def verified (env : Env) (c : AddCall) : Bool := c.role.mGradidoTransaction.verified env

/-- The same call with the verification: `createAndAddConfirmedTransactionExtern` in the place of
`createAndAddConfirmedTransactionExternFast`. -/
def checked : AddCall → AddCall
  | .node call => .node call
  | .given _ community gradidoTransaction ledgerAnchor accountBalances =>
    .given false community gradidoTransaction ledgerAnchor accountBalances

@[simp] theorem community_checked (c : AddCall) : c.checked.community = c.community := by
  cases c <;> rfl

@[simp] theorem role_checked (c : AddCall) : c.checked.role = c.role := by
  cases c <;> rfl

@[simp] theorem verified_checked (c : AddCall) : c.checked.verified env = c.verified env := by
  rw [verified, role_checked]
  rfl

@[simp] theorem disableVerify_checked (c : AddCall) : c.checked.disableVerify = false := by
  cases c <;> rfl

/-- **The fast call is the checked one** when no signature is forged. -/
theorem perform_checked {c : AddCall} (h : c.verified env = true) (p : InMemoryProvider) :
    c.checked.perform env p = c.perform env p := by
  rw [perform_eq, perform_eq, community_checked, role_checked, disableVerify_checked]
  exact (createAndAdd_of_verified h _ _ _ _).symm

/-- A forged call that verifies the signatures throws and changes nothing. -/
theorem perform_of_forged {c : AddCall} (hverify : c.disableVerify = false)
    (hforged : c.verified env = false) (p : InMemoryProvider) :
    ∃ e, c.perform env p = (p, .error e) := by
  rw [perform_eq, hverify, depthBound, createAndAdd]
  split
  · exact ⟨_, rfl⟩
  · exact ⟨_, rfl⟩
  · next hsingle =>
    have hverified := Validate.verified_of_validateSingle hsingle
    rw [← verified, hforged] at hverified
    cases hverified

end AddCall

/-! ### Forged transactions of a chain -/

/-- The transactions of a blockchain with an invalid signature. -/
def InMemory.forged (env : Env) (s : InMemory) : List ConfirmedTransaction :=
  s.history.filter (fun tx => !tx.gradidoTransaction.verified env)

namespace ConfirmTransaction

variable {env : Env} {direct : ℕ → Role → Prop} {community : ℕ} {p q : InMemoryProvider}

/-- A confirmed transaction is forged or not. -/
theorem forged_added (hq : Reachable env direct q) {role : Role} {tx : ConfirmedTransaction}
    (hb : Built env q community role tx) (i : ℕ) :
    ((added env q community tx).findBlockchain i).forged env =
      (q.findBlockchain i).forged env ++
        (if i = community ∧ role.mGradidoTransaction.verified env = false then [tx] else []) := by
  unfold InMemory.forged
  by_cases hi : i = community
  · subst hi
    rw [hq.logged.history_added hb, List.filter_append, ← hb.gradidoTransaction]
    cases hverified : tx.gradidoTransaction.verified env <;> simp [hverified]
  · rw [findBlockchain_added_of_ne _ _ _ hi, if_neg (fun h => hi h.1), List.append_nil]

/-- Trigger events forge nothing, for they carry no signature. -/
theorem Triggered.forged_eq (h : Triggered env community p q) (hp : Reachable env direct p)
    (i : ℕ) : (q.findBlockchain i).forged env = (p.findBlockchain i).forged env := by
  have hdrop : ∀ {r} event, Reachable env direct r →
      ((dropEvent r community event).findBlockchain i).forged env =
        (r.findBlockchain i).forged env := by
    intro r event hr
    unfold InMemory.forged
    rw [hr.logged.history_dropEvent]
  induction h with
  | refl => rfl
  | drop hq hevent ih => rw [hdrop _ (.failed hp hq), ih hp]
  | fire hq hevent hnested htx ih ihnested =>
    have hdropped := Reachable.failed hp (.drop hq hevent)
    rw [forged_added (.failed hdropped hnested) (confirm_spec htx.confirm), ihnested hdropped,
      hdrop _ (.failed hp hq), ih hp, if_neg (fun hforged => Bool.noConfusion hforged.2),
      List.append_nil]

end ConfirmTransaction

namespace AddCall

variable {env : Env} {p : InMemoryProvider}

/-- The call adds its transaction although a signature is invalid, as far as it may. -/
def forges (env : Env) (i : ℕ) (c : AddCall) : Bool :=
  decide (c.community = i) && c.disableVerify && !c.verified env

/-- **What a call forges.**  The forged transactions of a community change only by a call that
forges one there, which adds its own; when the call succeeds, it does. -/
theorem forged_exec (hp : Reachable env (fun _ _ => True) p) (c : AddCall) (i : ℕ) :
    ∃ new : List ConfirmedTransaction,
      ((c.exec env p).findBlockchain i).forged env = (p.findBlockchain i).forged env ++ new ∧
      (new = [] ∨ c.forges env i = true ∧
        new.map ConfirmedTransaction.gradidoTransaction = [c.role.mGradidoTransaction]) ∧
      ((c.perform env p).2 = .ok () → c.community = i → c.verified env = false → new ≠ []) := by
  rw [← perform_fst]
  by_cases hchecked : c.disableVerify = false ∧ c.verified env = false
  · obtain ⟨e, heq⟩ := perform_of_forged hchecked.1 hchecked.2 p
    refine ⟨[], by rw [heq, List.append_nil], .inl rfl, fun hok => ?_⟩
    rw [heq] at hok
    cases hok
  obtain ⟨q, hq, hcases⟩ :=
    createAndAdd_eq env (depthBound p c.community) c.disableVerify p c.community c.role
  rw [← perform_eq] at hcases
  rcases hcases with ⟨e, heq⟩ | ⟨tx, htx, heq⟩
  · refine ⟨[], by rw [heq, hq.forged_eq hp, List.append_nil], .inl rfl, fun hok => ?_⟩
    rw [heq] at hok
    cases hok
  · have hb := confirm_spec htx.confirm
    refine ⟨_, by rw [heq, forged_added (.failed hp hq) hb, hq.forged_eq hp], ?_, ?_⟩
    · by_cases hforged : i = c.community ∧ c.verified env = false
      · refine .inr ⟨?_, ?_⟩
        · have hdisabled : c.disableVerify = true := by
            cases hverify : c.disableVerify with
            | false => exact absurd ⟨hverify, hforged.2⟩ hchecked
            | true => rfl
          simp [forges, hforged.1.symm, hforged.2, hdisabled]
        · rw [if_pos (show i = c.community ∧ c.role.mGradidoTransaction.verified env = false from
            hforged), List.map_singleton, hb.gradidoTransaction]
      · exact .inl (if_neg hforged)
    · intro _ hcommunity hforged
      rw [if_pos ⟨hcommunity.symm, hforged⟩]
      exact List.cons_ne_nil _ _

end AddCall

/-! ### Runs -/

/-- The transactions of the calls that may forge one on a community. -/
def forgeable (env : Env) (i : ℕ) (calls : List AddCall) : List GradidoTransaction :=
  (calls.filter (AddCall.forges env i)).map (fun c => c.role.mGradidoTransaction)

/-- The forged transactions of the calls on a community that succeeded. -/
def forgedAnswers (env : Env) (i : ℕ) (answers : List (AddCall × Except Exception Unit)) :
    List GradidoTransaction :=
  (answers.filter (fun a => decide (a.1.community = i) && !a.1.verified env &&
    decide (a.2 = .ok ()))).map (fun a => a.1.role.mGradidoTransaction)

theorem forgeable_cons (env : Env) (i : ℕ) (c : AddCall) (calls : List AddCall) :
    forgeable env i (c :: calls) =
      (if c.forges env i = true then [c.role.mGradidoTransaction] else []) ++
        forgeable env i calls := by
  unfold forgeable
  rw [List.filter_cons]
  split_ifs <;> rfl

theorem forgedAnswers_cons (env : Env) (i : ℕ) (a : AddCall × Except Exception Unit)
    (answers : List (AddCall × Except Exception Unit)) :
    forgedAnswers env i (a :: answers) =
      (if a.1.community = i ∧ a.1.verified env = false ∧ a.2 = .ok () then
        [a.1.role.mGradidoTransaction] else []) ++ forgedAnswers env i answers := by
  unfold forgedAnswers
  rw [List.filter_cons]
  simp only [Bool.and_eq_true, decide_eq_true_eq, Bool.not_eq_true', and_assoc]
  split_ifs <;> rfl

/-- By induction on the calls, from any reachable state on. -/
theorem forged_foldl (env : Env) (i : ℕ) (calls : List AddCall) {p : InMemoryProvider}
    (hp : Reachable env (fun _ _ => True) p) :
    ∃ new : List ConfirmedTransaction,
      ((calls.foldl (AddCall.exec env) p).findBlockchain i).forged env =
        (p.findBlockchain i).forged env ++ new ∧
      (forgedAnswers env i (answersFrom env p calls)).Sublist
        (new.map ConfirmedTransaction.gradidoTransaction) ∧
      (new.map ConfirmedTransaction.gradidoTransaction).Sublist (forgeable env i calls) := by
  induction calls generalizing p with
  | nil => exact ⟨[], by simp, List.Sublist.refl _, List.Sublist.refl _⟩
  | cons c calls ih =>
    have hnext : Reachable env (fun _ _ => True) (c.exec env p) := by
      rw [← AddCall.perform_fst, AddCall.perform_eq]
      exact hp.createAndAdd trivial _ _
    obtain ⟨first, hfirst, hforges, hanswer⟩ := AddCall.forged_exec hp c i
    obtain ⟨rest, hrest, hlower, hupper⟩ := ih hnext
    refine ⟨first ++ rest, ?_, ?_, ?_⟩
    · rw [List.foldl_cons, hrest, hfirst, List.append_assoc]
    · rw [List.map_append, answersFrom, forgedAnswers_cons]
      refine List.Sublist.append ?_ hlower
      split_ifs with hforged
      · obtain ⟨hcommunity, hverified, hok⟩ := hforged
        obtain ⟨-, hnew⟩ := hforges.resolve_left (hanswer hok hcommunity hverified)
        rw [hnew]
      · exact List.nil_sublist _
    · rw [List.map_append, forgeable_cons]
      refine List.Sublist.append ?_ hupper
      rcases hforges with rfl | ⟨hforge, hnew⟩
      · exact List.nil_sublist _
      · rw [hnew, if_pos hforge]

/-- **Where forged transactions come from.**  In every run, the forged transactions of a community
are, in order, transactions of the forged calls on it that did not verify, and among them are those
of all that succeeded. -/
theorem runAdd_forged (env : Env) (calls : List AddCall) (i : ℕ) :
    (forgedAnswers env i (answers env calls)).Sublist
        ((((runAdd env calls).findBlockchain i).forged env).map
          ConfirmedTransaction.gradidoTransaction) ∧
      ((((runAdd env calls).findBlockchain i).forged env).map
        ConfirmedTransaction.gradidoTransaction).Sublist (forgeable env i calls) := by
  obtain ⟨new, hnew, hlower, hupper⟩ := forged_foldl env i calls .empty
  have hempty : (InMemoryProvider.empty.findBlockchain i).forged env = [] := rfl
  rw [hempty, List.nil_append] at hnew
  unfold runAdd
  rw [hnew]
  exact ⟨hlower, hupper⟩

/-! ### With and without verification -/

/-- A successful call that verifies the signatures is not forged. -/
theorem AddCall.verified_of_ok {env : Env} {p : InMemoryProvider} {c : AddCall}
    (hverify : c.disableVerify = false) (hok : (c.perform env p).2 = .ok ()) :
    c.verified env = true := by
  rw [← Bool.not_eq_false]
  intro hforged
  obtain ⟨e, heq⟩ := AddCall.perform_of_forged hverify hforged p
  rw [heq] at hok
  cases hok

/-- Without forged calls, the verification makes no difference to a run. -/
theorem answersFrom_checked {env : Env} {calls : List AddCall}
    (h : ∀ c ∈ calls, c.verified env = true) (p : InMemoryProvider) :
    (calls.map AddCall.checked).foldl (AddCall.exec env) p = calls.foldl (AddCall.exec env) p ∧
      (answersFrom env p (calls.map AddCall.checked)).map Prod.snd =
        (answersFrom env p calls).map Prod.snd := by
  induction calls generalizing p with
  | nil => exact ⟨rfl, rfl⟩
  | cons c calls ih =>
    have hperform := AddCall.perform_checked (h c List.mem_cons_self) p
    have hexec : c.checked.exec env p = c.exec env p := by
      rw [← AddCall.perform_fst, hperform, AddCall.perform_fst]
    obtain ⟨hstate, hanswers⟩ := ih (fun c' hc' => h c' (List.mem_cons_of_mem c hc')) (c.exec env p)
    simp only [List.map_cons, List.foldl_cons, answersFrom, hexec, hperform]
    exact ⟨hstate, by rw [hanswers]⟩

/-- All calls of a run succeed. -/
def AllOk (answers : List (AddCall × Except Exception Unit)) : Prop :=
  ∀ r ∈ answers.map Prod.snd, r = .ok ()

theorem map_fst_answersFrom (env : Env) (p : InMemoryProvider) (calls : List AddCall) :
    (answersFrom env p calls).map Prod.fst = calls := by
  induction calls generalizing p with
  | nil => rfl
  | cons c calls ih => rw [answersFrom, List.map_cons, ih]

/-- In a run in which all calls succeed, a forged one is among the forged answers. -/
theorem verified_of_forgedAnswers {env : Env} {p : InMemoryProvider} {calls : List AddCall}
    (hok : AllOk (answersFrom env p calls)) {c : AddCall} (hc : c ∈ calls)
    (hnone : forgedAnswers env c.community (answersFrom env p calls) = []) :
    c.verified env = true := by
  rw [← map_fst_answersFrom env p calls] at hc
  obtain ⟨a, ha, rfl⟩ := List.mem_map.1 hc
  have hanswer : a.2 = .ok () := hok a.2 (List.mem_map_of_mem ha)
  rw [forgedAnswers, List.map_eq_nil_iff, List.filter_eq_nil_iff] at hnone
  simpa [hanswer] using hnone a ha

theorem verified_of_allOk {env : Env} {calls : List AddCall}
    (hverify : ∀ c ∈ calls, c.disableVerify = false) {p : InMemoryProvider}
    (hok : AllOk (answersFrom env p calls)) : ∀ c ∈ calls, c.verified env = true := by
  induction calls generalizing p with
  | nil => exact fun c hc => absurd hc List.not_mem_nil
  | cons c calls ih =>
    unfold AllOk at hok
    rw [answersFrom, List.map_cons] at hok
    obtain ⟨hfirst, hrest⟩ := List.forall_mem_cons.1 hok
    refine List.forall_mem_cons.2 ⟨AddCall.verified_of_ok (hverify c List.mem_cons_self) hfirst, ?_⟩
    exact ih (fun c' hc' => hverify c' (List.mem_cons_of_mem c hc')) hrest

end Gradido
