import GradidoBlockchain.Concurrent.Notifications
import GradidoBlockchain.Concurrent.Verified

/-!
# No wake-up is lost

A run with the mutex and the notifications is a run of the steps that simply wait
(`run_blurred`), so what is known of these holds for it too.
-/

namespace Gradido

namespace Concurrent

open Steps

/-! ### What a step can do -/

namespace Verification

/-- A step of the master. -/
inductive MasterMoves (v : Verification) (s : BatchState) : BatchState → Prop
  | room : s.master = .checking → s.mtx = false → s.transactionQueue.length < v.queueSize →
      MasterMoves v s { s with master := .fetching }
  | full : s.master = .checking → s.mtx = false → v.queueSize ≤ s.transactionQueue.length →
      MasterMoves v s { s with master := .filled }
  | last : s.master = .fetching → v.findPage s.page = .ok [] →
      MasterMoves v s { s with done := true, master := .breaking }
  | page {transactions : List ConfirmedTransaction} : s.master = .fetching →
      v.findPage s.page = .ok transactions → transactions ≠ [] →
      MasterMoves v s { s with master := .pushing transactions }
  | push {transactions : List ConfirmedTransaction} : s.master = .pushing transactions →
      s.mtx = false → MasterMoves v s
        { s with transactionQueue := s.transactionQueue ++ transactions, master := .pushed }
  | leave : s.master = .breaking → s.mtx = false → MasterMoves v s { s with master := .filled }
  | notifyAll : s.master = .filled → MasterMoves v s
      { s with
        workers := fun w => (s.workers w).notified
        master := if s.done = true then .joining else .waiting }
  | go : s.master = .waiting → s.mtx = false → s.transactionQueue.length < v.queueSize →
      MasterMoves v s { s with master := .checking }
  | wait : s.master = .waiting → s.mtx = false → v.queueSize ≤ s.transactionQueue.length →
      MasterMoves v s { s with mtx := true, master := .drowsy }
  | sleep : s.master = .drowsy → MasterMoves v s { s with mtx := false, master := .asleep }
  | join : s.master = .joining →
      (List.range v.threadCount).all (fun w => (s.workers w).isFinished) = true →
      MasterMoves v s { s with master := .returned }

/-- A step of a worker. -/
inductive WorkerMoves (v : Verification) (s : BatchState) (w : ℕ) : BatchState → Prop
  | empty : s.workers w = .entering → s.mtx = false → s.transactionQueue = [] →
      WorkerMoves v s w (moveTo s w .notifying)
  | take : s.workers w = .entering ∨ s.workers w = .waiting → s.mtx = false →
      s.transactionQueue ≠ [] → WorkerMoves v s w (takeBatch s w)
  | notify : s.workers w = .notifying →
      WorkerMoves v s w (moveTo { s with master := s.master.notified } w .waiting)
  | finish : s.workers w = .waiting → s.mtx = false → s.transactionQueue = [] → s.done = true →
      WorkerMoves v s w (moveTo s w .finished)
  | wait : s.workers w = .waiting → s.mtx = false → s.transactionQueue = [] → s.done = false →
      WorkerMoves v s w (moveTo { s with mtx := true } w .drowsy)
  | sleep : s.workers w = .drowsy → WorkerMoves v s w (moveTo { s with mtx := false } w .asleep)
  | again : s.workers w = .verifying [] → WorkerMoves v s w (moveTo s w .entering)
  | valid {tx : ConfirmedTransaction} {batch : List ConfirmedTransaction} :
      s.workers w = .verifying (tx :: batch) → v.hasInvalidSignature tx = false →
      WorkerMoves v s w (moveTo s w (.verifying batch))
  | invalid {tx : ConfirmedTransaction} {batch : List ConfirmedTransaction} :
      s.workers w = .verifying (tx :: batch) → v.hasInvalidSignature tx = true → s.mtx = false →
      WorkerMoves v s w
        (moveTo { s with invalidTxNrs := s.invalidTxNrs ++ [tx.id] } w (.verifying batch))

/-- A step of whoever is next. -/
inductive Moves (v : Verification) (s : BatchState) : BatchEvent → BatchState → Prop
  | master {t : BatchState} : MasterMoves v s t → Moves v s .master t
  | notifies {w : ℕ} : s.master = .pushed → w < v.threadCount → (s.workers w).isAsleep = true →
      Moves v s (.notifyOne (some w))
        (moveTo { s with page := s.page + 1, master := .checking } w .waiting)
  | notifiesNobody : s.master = .pushed →
      ¬ (List.range v.threadCount).any (fun w => (s.workers w).isAsleep) = true →
      Moves v s (.notifyOne none) { s with page := s.page + 1, master := .checking }
  | worker {w : ℕ} {t : BatchState} : w < v.threadCount → WorkerMoves v s w t →
      Moves v s (.worker w) t
  | masterWakes : s.master = .asleep → Moves v s .masterWakes { s with master := .waiting }
  | workerWakes {w : ℕ} : w < v.threadCount → (s.workers w).isAsleep = true →
      Moves v s (.workerWakes w) (moveTo s w .waiting)

variable {v : Verification} {s s' : BatchState}

theorem masterMoves (h : v.masterNext s = some s') : MasterMoves v s s' := by
  unfold masterNext at h
  cases hplace : s.master <;> simp only [hplace] at h <;> try cases h
  case checking =>
    split_ifs at h with hmtx hroom <;> cases h
    · exact .room hplace (Bool.eq_false_of_not_eq_true hmtx) hroom
    · exact .full hplace (Bool.eq_false_of_not_eq_true hmtx) (Nat.le_of_not_lt hroom)
  case fetching =>
    cases hpage : v.findPage s.page with
    | error e => simp [hpage] at h
    | ok txs =>
      cases txs <;> simp only [hpage, Option.some.injEq] at h <;> subst h
      · exact .last hplace hpage
      · exact .page hplace hpage (List.cons_ne_nil _ _)
  case pushing transactions =>
    split_ifs at h with hmtx
    cases h
    exact .push hplace (Bool.eq_false_of_not_eq_true hmtx)
  case breaking =>
    split_ifs at h with hmtx
    cases h
    exact .leave hplace (Bool.eq_false_of_not_eq_true hmtx)
  case filled => exact .notifyAll hplace
  case waiting =>
    split_ifs at h with hmtx hroom <;> cases h
    · exact .go hplace (Bool.eq_false_of_not_eq_true hmtx) hroom
    · exact .wait hplace (Bool.eq_false_of_not_eq_true hmtx) (Nat.le_of_not_lt hroom)
  case drowsy => exact .sleep hplace
  case joining =>
    split_ifs at h with hall
    cases h
    exact .join hplace hall

theorem workerMoves {w : ℕ} (h : v.workerNext s w = some s') : WorkerMoves v s w s' := by
  unfold workerNext at h
  cases hplace : s.workers w <;> simp only [hplace] at h <;> try cases h
  case entering =>
    split_ifs at h with hmtx hempty <;> cases h
    · exact .empty hplace (Bool.eq_false_of_not_eq_true hmtx) hempty
    · exact .take (.inl hplace) (Bool.eq_false_of_not_eq_true hmtx) hempty
  case notifying => exact .notify hplace
  case waiting =>
    split_ifs at h with hmtx hne hdone <;> cases h
    · exact .take (.inr hplace) (Bool.eq_false_of_not_eq_true hmtx) hne
    · exact .finish hplace (Bool.eq_false_of_not_eq_true hmtx) (not_not.1 hne) hdone
    · exact .wait hplace (Bool.eq_false_of_not_eq_true hmtx) (not_not.1 hne)
        (Bool.eq_false_of_not_eq_true hdone)
  case drowsy => exact .sleep hplace
  case verifying batch =>
    cases batch with
    | nil =>
      cases h
      exact .again hplace
    | cons tx batch =>
      simp only at h
      split_ifs at h with hinvalid hmtx <;> cases h
      · exact .invalid hplace hinvalid (Bool.eq_false_of_not_eq_true hmtx)
      · exact .valid hplace (Bool.eq_false_of_not_eq_true hinvalid)

theorem moves {e : BatchEvent} (h : v.next s e = some s') : Moves v s e s' := by
  cases e with
  | master => exact .master (masterMoves h)
  | notifyOne woken =>
    cases hplace : s.master <;> simp only [next, notifyOne, hplace] at h <;> try cases h
    cases woken <;> simp only at h <;> split_ifs at h with hasleep <;> cases h
    · exact .notifiesNobody hplace hasleep
    · exact .notifies hplace hasleep.1 hasleep.2
  | worker w =>
    simp only [next] at h
    split_ifs at h with hw
    exact .worker hw (workerMoves h)
  | masterWakes =>
    cases hplace : s.master <;> simp only [next, hplace] at h <;> cases h
    exact .masterWakes hplace
  | workerWakes w =>
    simp only [next] at h
    split_ifs at h with hasleep
    cases h
    exact .workerWakes hasleep.1 hasleep.2

end Verification

/-! ### Without mutex and notifications -/

/-- Where the master is when nobody asks for the mutex and the notifications. -/
def MasterPlace.phase (done : Bool) : MasterPlace → MasterPhase
  | .checking => .checking
  | .fetching => .fetching
  | .pushing transactions => .pushing transactions
  | .pushed => .checking
  | .breaking => .joining
  | .filled => if done = true then .joining else .waiting
  | .waiting => .waiting
  | .drowsy => .waiting
  | .asleep => .waiting
  | .joining => .joining
  | .returned => .returned

def WorkerPlace.phase : WorkerPlace → WorkerPhase
  | .verifying batch => .verifying batch
  | .finished => .finished
  | _ => .waiting

/-- The page that is fetched next. -/
def BatchState.nextPage (s : BatchState) : ℕ :=
  match s.master with
  | .pushed => s.page + 1
  | _ => s.page

/-- The state without mutex and notifications. -/
def BatchState.blur (s : BatchState) : VerifyState where
  transactionQueue := s.transactionQueue
  invalidTxNrs := s.invalidTxNrs
  done := s.done
  page := s.nextPage
  master := s.master.phase s.done
  workers := fun w => (s.workers w).phase
  taken := s.taken

theorem WorkerPlace.phase_notified (place : WorkerPlace) : place.notified.phase = place.phase := by
  cases place <;> rfl

theorem MasterPlace.notified_of_ne {place : MasterPlace} (h : place ≠ .asleep) :
    place.notified = place := by
  cases place <;> first | rfl | exact absurd rfl h

theorem MasterPlace.phase_notified (done : Bool) (place : MasterPlace) :
    place.notified.phase done = place.phase done := by
  cases place <;> rfl

namespace Verification

variable {v : Verification} {s s' : BatchState}

/-- A worker that goes on, seen without mutex and notifications. -/
theorem blur_moveTo (s : BatchState) (w : ℕ) (place : WorkerPlace) :
    (moveTo s w place).blur = goTo s.blur w place.phase := by
  simp only [BatchState.blur, moveTo, goTo, BatchState.nextPage, VerifyState.mk.injEq, true_and,
    and_true]
  funext u
  by_cases hu : u = w
  · subst hu
    simp
  · simp [hu]

/-- When its phase stays the same, nothing is seen of a worker. -/
theorem blur_moveTo_of_phase {w : ℕ} {place : WorkerPlace}
    (h : place.phase = (s.workers w).phase) : (moveTo s w place).blur = s.blur := by
  rw [blur_moveTo, h, goTo]
  have hsame : Function.update s.blur.workers w (s.workers w).phase = s.blur.workers :=
    Function.update_eq_self w s.blur.workers
  rw [hsame]

theorem blur_takeBatch (s : BatchState) (w : ℕ) :
    (takeBatch s w).blur = goTo { s.blur with
      transactionQueue := s.transactionQueue.drop batchSize
      taken := s.taken ++ (s.transactionQueue.take batchSize).map (fun tx => (w, tx)) } w
      (.verifying (s.transactionQueue.take batchSize)) :=
  blur_moveTo _ w _

theorem isFinished_phase (place : WorkerPlace) : place.phase.isFinished = place.isFinished := by
  cases place <;> rfl

theorem phase_of_isAsleep {place : WorkerPlace} (h : place.isAsleep = true) :
    place.phase = .waiting := by
  cases place <;> first | rfl | cases h

/-- A step of the master is one of its steps without mutex and notifications, or nothing happens. -/
theorem MasterMoves.blur (h : MasterMoves v s s') (hinv : Inv v s.blur) :
    s'.blur = s.blur ∨ ∃ e, v.step s.blur e = some s'.blur := by
  have hended : s.done = true ↔ s.master.phase s.done = .joining ∨
      s.master.phase s.done = .returned := hinv.ended
  cases h with
  | room hplace _ hroom =>
    refine .inr ⟨.check, ?_⟩
    simp [step, masterStep, BatchState.blur, BatchState.nextPage, MasterPlace.phase, hplace, hroom]
  | full hplace _ hfull =>
    have hdone : s.done = false := by
      rw [hplace] at hended
      simpa [MasterPlace.phase] using hended
    refine .inr ⟨.check, ?_⟩
    simp [step, masterStep, BatchState.blur, BatchState.nextPage, MasterPlace.phase, hplace,
      Nat.not_lt_of_le hfull, hdone]
  | last hplace hpage =>
    refine .inr ⟨.fetch, ?_⟩
    simp [step, masterStep, BatchState.blur, BatchState.nextPage, MasterPlace.phase, hplace, hpage]
  | page hplace hpage hne =>
    obtain ⟨tx, txs, rfl⟩ := List.exists_cons_of_ne_nil hne
    refine .inr ⟨.fetch, ?_⟩
    simp [step, masterStep, BatchState.blur, BatchState.nextPage, MasterPlace.phase, hplace, hpage]
  | push hplace _ =>
    refine .inr ⟨.push, ?_⟩
    simp [step, masterStep, BatchState.blur, BatchState.nextPage, MasterPlace.phase, hplace]
  | leave hplace _ =>
    have hdone : s.done = true := by
      rw [hplace] at hended
      simpa [MasterPlace.phase] using hended
    exact .inl (by simp [BatchState.blur, BatchState.nextPage, MasterPlace.phase, hplace, hdone])
  | notifyAll hplace =>
    refine .inl ?_
    simp only [BatchState.blur, BatchState.nextPage, hplace, WorkerPlace.phase_notified]
    split_ifs with hdone <;> simp [MasterPlace.phase, hdone]
  | go hplace _ hroom =>
    refine .inr ⟨.wake, ?_⟩
    simp [step, masterStep, BatchState.blur, BatchState.nextPage, MasterPlace.phase, hplace, hroom]
  | wait hplace _ _ =>
    exact .inl (by simp [BatchState.blur, BatchState.nextPage, MasterPlace.phase, hplace])
  | sleep hplace =>
    exact .inl (by simp [BatchState.blur, BatchState.nextPage, MasterPlace.phase, hplace])
  | join hplace hall =>
    refine .inr ⟨.join, ?_⟩
    simp only [step, masterStep, BatchState.blur, BatchState.nextPage, MasterPlace.phase, hplace,
      isFinished_phase, if_pos hall]

/-- A step of a worker is one of its steps without mutex and notifications, or nothing happens. -/
theorem WorkerMoves.blur {w : ℕ} (h : WorkerMoves v s w s') (hw : w < v.threadCount) :
    s'.blur = s.blur ∨ ∃ e, v.step s.blur e = some s'.blur := by
  have hphase : s.blur.workers w = (s.workers w).phase := rfl
  cases h with
  | empty hplace _ _ => exact .inl (blur_moveTo_of_phase (by rw [hplace]; rfl))
  | take hplace _ hne =>
    have hwaiting : s.blur.workers w = .waiting := by
      rcases hplace with hplace | hplace <;> rw [hphase, hplace] <;> rfl
    refine .inr ⟨.take w, ?_⟩
    rw [step, if_pos hw, Verification.take, hwaiting, blur_takeBatch]
    exact if_neg hne
  | notify hplace =>
    have hmaster : ({ s with master := s.master.notified } : BatchState).blur = s.blur := by
      simp only [BatchState.blur, MasterPlace.phase_notified, VerifyState.mk.injEq, true_and,
        and_true, BatchState.nextPage]
      cases s.master <;> rfl
    rw [← hmaster]
    exact .inl (blur_moveTo_of_phase (by simp only [hplace]; rfl))
  | finish hplace _ hempty hdone =>
    refine .inr ⟨.take w, ?_⟩
    rw [step, if_pos hw, Verification.take, hphase, hplace, blur_moveTo]
    have hqueue : s.blur.transactionQueue = [] := hempty
    have hended : s.blur.done = true := hdone
    simp only [WorkerPlace.phase, if_pos hqueue, if_pos hended]
  | wait hplace _ _ _ =>
    exact .inl (blur_moveTo_of_phase (s := { s with mtx := true }) (by rw [hplace]; rfl))
  | sleep hplace =>
    exact .inl (blur_moveTo_of_phase (s := { s with mtx := false }) (by rw [hplace]; rfl))
  | again hplace =>
    refine .inr ⟨.verify w, ?_⟩
    rw [step, if_pos hw, verify, hphase, hplace, blur_moveTo]
    rfl
  | valid hplace hvalid =>
    refine .inr ⟨.verify w, ?_⟩
    rw [step, if_pos hw, verify, hphase, hplace, blur_moveTo]
    simp only [WorkerPlace.phase, hvalid, Bool.false_eq_true, if_false]
  | invalid hplace hinvalid _ =>
    refine .inr ⟨.verify w, ?_⟩
    rw [step, if_pos hw, verify, hphase, hplace, blur_moveTo]
    simp only [WorkerPlace.phase, if_pos hinvalid]
    rfl

/-- **Without mutex and notifications** every step is one of those that simply wait, or nothing
happens. -/
theorem blur_next (hinv : Inv v s.blur) {e : BatchEvent} (h : v.next s e = some s') :
    s'.blur = s.blur ∨ ∃ e', v.step s.blur e' = some s'.blur := by
  have hpushed : s.master = .pushed →
      ({ s with page := s.page + 1, master := .checking } : BatchState).blur = s.blur := by
    intro hplace
    simp [BatchState.blur, BatchState.nextPage, MasterPlace.phase, hplace]
  cases moves h with
  | master hmoves => exact hmoves.blur hinv
  | notifies hplace _ hasleep =>
    rw [← hpushed hplace]
    exact .inl (blur_moveTo_of_phase (phase_of_isAsleep hasleep).symm)
  | notifiesNobody hplace _ => exact .inl (hpushed hplace)
  | worker hw hmoves => exact hmoves.blur hw
  | masterWakes hplace =>
    exact .inl (by simp [BatchState.blur, BatchState.nextPage, MasterPlace.phase, hplace])
  | workerWakes _ hasleep =>
    exact .inl (blur_moveTo_of_phase (phase_of_isAsleep hasleep).symm)

theorem inv_next (hinv : Inv v s.blur) {e : BatchEvent} (h : v.next s e = some s') :
    Inv v s'.blur := by
  rcases blur_next hinv h with hsame | ⟨e', he'⟩
  · rwa [hsame]
  · exact hinv.step he'

/-- A run, seen without mutex and notifications, is a run of the steps that simply wait. -/
theorem run_blurred {es : List BatchEvent} (hrun : Steps.run v.next v.begin es = some s) :
    Inv v s.blur ∧ ∃ es', Steps.run v.step v.start es' = some s.blur :=
  ⟨invariant (I := fun s => Inv v s.blur) (fun _ _ _ h hstep => inv_next h hstep) (inv_start v)
      hrun,
    run_of_simulates (I := fun s => Inv v s.blur) (fun _ _ _ h hstep => inv_next h hstep)
      (fun _ _ _ h hstep => blur_next h hstep) (inv_start v) hrun⟩

/-! ### Who still has to notify -/

end Verification

/-- The master will notify all workers before it sleeps or joins them. -/
def MasterPlace.notifiesAll : MasterPlace → Bool
  | .checking | .fetching | .pushing _ | .pushed | .breaking | .filled => true
  | _ => false

/-- After this the master has nothing but `notify_all` to do before it joins the workers. -/
def MasterPlace.ending : MasterPlace → Bool
  | .breaking | .filled => true
  | _ => false

/-- The worker will notify the master, or take a batch before. -/
def WorkerPlace.notifies : WorkerPlace → Bool
  | .entering | .notifying | .verifying _ => true
  | _ => false

namespace Verification

variable {v : Verification} {s s' : BatchState}

/-- Why nobody sleeps for ever.

* Who holds the mutex between two steps is about to sleep: one worker, when the queue is empty and
  all is not done yet or the master has still to lock the mutex, or the master, when it is full.
* When a worker sleeps, and there is something to take or all is done, then the master will notify
  all workers.
* When the master sleeps, there is something to take, or a worker will notify the master. -/
structure Awake (v : Verification) (s : BatchState) : Prop where
  locked : s.mtx = true → s.master = .drowsy ∨ ∃ w < v.threadCount, s.workers w = .drowsy
  worker : ∀ w, s.workers w = .drowsy →
    s.mtx = true ∧ s.transactionQueue = [] ∧ (s.done = true → s.master = .breaking)
  unique : ∀ u w, s.workers u = .drowsy → s.workers w = .drowsy → u = w
  master : s.master = .drowsy → s.mtx = true ∧ s.transactionQueue ≠ []
  ended : ∀ w, s.workers w = .asleep → s.done = true → s.master.ending = true
  filled : ∀ w, s.workers w = .asleep → s.transactionQueue ≠ [] → s.master.notifiesAll = true
  waiting : s.master = .asleep →
    s.transactionQueue ≠ [] ∨ ∃ w < v.threadCount, (s.workers w).notifies = true

theorem awake_begin (v : Verification) : Awake v v.begin where
  locked h := by cases h
  worker w h := by cases h
  unique u w h := by cases h
  master h := by cases h
  ended w h := by cases h
  filled w h := by cases h
  waiting h := by cases h

/-- The mutex is free when nobody is about to sleep. -/
theorem Awake.free (h : Awake v s) (hmtx : ¬ s.mtx = true) (w : ℕ) : s.workers w ≠ .drowsy :=
  fun hw => hmtx (h.worker w hw).1

/-! ### Moves -/

@[simp] theorem workers_moveTo_self (s : BatchState) (w : ℕ) (place : WorkerPlace) :
    (moveTo s w place).workers w = place :=
  Function.update_self ..

theorem workers_moveTo_of_ne (s : BatchState) {u w : ℕ} (place : WorkerPlace) (hu : u ≠ w) :
    (moveTo s w place).workers u = s.workers u :=
  Function.update_of_ne hu ..

/-- Who is at another place than the one that a worker moved to. -/
theorem of_workers_moveTo {u w : ℕ} {place q : WorkerPlace} (h : (moveTo s w place).workers u = q)
    (hq : q ≠ place) : u ≠ w ∧ s.workers u = q := by
  by_cases huw : u = w
  · subst huw
    rw [workers_moveTo_self] at h
    exact absurd h.symm hq
  · exact ⟨huw, by rwa [workers_moveTo_of_ne s place huw] at h⟩

/-- The master goes on to a place where it neither sleeps nor is about to. -/
theorem Awake.move (h : Awake v s) {place : MasterPlace} (hdrowsy : place ≠ .drowsy)
    (hasleep : place ≠ .asleep) (hwas : s.master ≠ .drowsy)
    (hbreaking : s.mtx = true → s.master ≠ .breaking)
    (hended : s.master.ending = true → place.ending = true)
    (hfilled : s.master.notifiesAll = true → place.notifiesAll = true) :
    Awake v { s with master := place } where
  locked hmtx := .inr ((h.locked hmtx).resolve_left hwas)
  worker w hw := by
    obtain ⟨hmtx, hqueue, hdone⟩ := h.worker w hw
    exact ⟨hmtx, hqueue, fun hd => absurd (hdone hd) (hbreaking hmtx)⟩
  unique := h.unique
  master hplace := absurd hplace hdrowsy
  ended w hw hdone := hended (h.ended w hw hdone)
  filled w hw hqueue := hfilled (h.filled w hw hqueue)
  waiting hplace := absurd hplace hasleep

/-- A worker goes on to a place where it neither sleeps nor is about to. -/
theorem Awake.moveTo (h : Awake v s) {w : ℕ} {place : WorkerPlace} (hdrowsy : place ≠ .drowsy)
    (hasleep : place ≠ .asleep) (hwas : s.workers w ≠ .drowsy)
    (hnotifies : s.master = .asleep → (s.workers w).notifies = true → place.notifies = true) :
    Awake v (moveTo s w place) := by
  refine ⟨fun hmtx => ?_, fun u hu => ?_, fun u u' hu hu' => ?_, h.master, fun u hu => ?_,
    fun u hu => ?_, fun hmaster => ?_⟩
  · rcases h.locked hmtx with hmaster | ⟨u, hu, hplace⟩
    · exact .inl hmaster
    · have huw : u ≠ w := by
        rintro rfl
        exact hwas hplace
      exact .inr ⟨u, hu, by rwa [workers_moveTo_of_ne s place huw]⟩
  · exact h.worker u (of_workers_moveTo hu hdrowsy.symm).2
  · exact h.unique u u' (of_workers_moveTo hu hdrowsy.symm).2
      (of_workers_moveTo hu' hdrowsy.symm).2
  · exact h.ended u (of_workers_moveTo hu hasleep.symm).2
  · exact h.filled u (of_workers_moveTo hu hasleep.symm).2
  · rcases h.waiting hmaster with hqueue | ⟨u, hu, hplace⟩
    · exact .inl hqueue
    · refine .inr ⟨u, hu, ?_⟩
      by_cases huw : u = w
      · subst huw
        rw [workers_moveTo_self]
        exact hnotifies hmaster hplace
      · rwa [workers_moveTo_of_ne s place huw]

/-- The master is notified. -/
theorem Awake.notified (h : Awake v s) :
    Awake v { s with master := s.master.notified } := by
  by_cases hplace : s.master = .asleep
  · exact h.move (by simp [hplace, MasterPlace.notified]) (by simp [hplace, MasterPlace.notified])
      (by simp [hplace]) (by simp [hplace]) (by simp [hplace, MasterPlace.ending])
      (by simp [hplace, MasterPlace.notifiesAll])
  · rw [MasterPlace.notified_of_ne hplace]
    exact h

/-- A worker takes a batch. -/
theorem Awake.takeBatch (h : Awake v s) {w : ℕ} (hw : w < v.threadCount) (hmtx : ¬ s.mtx = true)
    (hwas : s.workers w ≠ .asleep) : Awake v (Verification.takeBatch s w) := by
  have hasleep : ∀ u, (Verification.takeBatch s w).workers u = .asleep → s.workers u = .asleep := by
    intro u hu
    by_cases huw : u = w
    · subst huw
      simp [Verification.takeBatch] at hu
    · rwa [Verification.takeBatch, workers_moveTo_of_ne _ _ huw] at hu
  have hdrowsy : ∀ u, (Verification.takeBatch s w).workers u ≠ .drowsy := by
    intro u hu
    by_cases huw : u = w
    · subst huw
      simp [Verification.takeBatch] at hu
    · rw [Verification.takeBatch, workers_moveTo_of_ne _ _ huw] at hu
      exact h.free hmtx u hu
  refine ⟨fun hlocked => absurd hlocked hmtx, fun u hu => absurd hu (hdrowsy u),
    fun u _ hu => absurd hu (hdrowsy u), fun hmaster => absurd (h.master hmaster).1 hmtx,
    fun u hu => h.ended u (hasleep u hu), fun u hu hqueue => h.filled u (hasleep u hu) ?_,
    fun _ => .inr ⟨w, hw, ?_⟩⟩
  · rintro hempty
    have hqueue' : s.transactionQueue.drop batchSize ≠ [] := hqueue
    rw [hempty] at hqueue'
    exact hqueue' rfl
  · simp [Verification.takeBatch, WorkerPlace.notifies]

/-- A worker finds nothing to do and is about to sleep. -/
theorem Awake.drowsy (h : Awake v s) {w : ℕ} (hw : w < v.threadCount) (hmtx : ¬ s.mtx = true)
    (hqueue : s.transactionQueue = []) (hdone : ¬ s.done = true) (hwas : s.workers w = .waiting) :
    Awake v (Verification.moveTo { s with mtx := true } w .drowsy) := by
  refine ⟨fun _ => .inr ⟨w, hw, workers_moveTo_self ..⟩,
    fun u _ => ⟨rfl, hqueue, fun hd => absurd hd hdone⟩, fun u u' hu hu' => ?_,
    fun hmaster => absurd (h.master hmaster).1 hmtx, fun u _ hd => absurd hd hdone,
    fun u _ hne => absurd hqueue hne, fun hmaster => ?_⟩
  · -- nobody else is about to sleep, for the mutex was free
    have honly : ∀ x, (Verification.moveTo { s with mtx := true } w .drowsy).workers x = .drowsy →
        x = w := by
      intro x hx
      by_contra hxw
      rw [workers_moveTo_of_ne _ _ hxw] at hx
      exact h.free hmtx x hx
    rw [honly u hu, honly u' hu']
  · obtain hne | ⟨u, hu, hplace⟩ := h.waiting hmaster
    · exact absurd hqueue hne
    · have huw : u ≠ w := by
        rintro rfl
        rw [hwas] at hplace
        cases hplace
      exact .inr ⟨u, hu, by rwa [workers_moveTo_of_ne _ _ huw]⟩

/-- A worker falls asleep. -/
theorem Awake.asleep (h : Awake v s) {w : ℕ} (hwas : s.workers w = .drowsy) :
    Awake v (Verification.moveTo { s with mtx := false } w .asleep) := by
  obtain ⟨-, hqueue, hbreaking⟩ := h.worker w hwas
  have hmaster : s.master ≠ .drowsy := fun hm => (h.master hm).2 hqueue
  refine ⟨fun hmtx => absurd hmtx Bool.false_ne_true, fun u hu => ?_, fun u u' hu hu' => ?_,
    fun hm => absurd hm hmaster, fun u hu hdone => ?_, fun u _ hne => absurd hqueue hne,
    fun hm => ?_⟩
  · obtain ⟨huw, hplace⟩ := of_workers_moveTo hu (by simp)
    exact absurd (h.unique u w hplace hwas) huw
  · exact h.unique u u' (of_workers_moveTo hu (by simp)).2 (of_workers_moveTo hu' (by simp)).2
  · by_cases huw : u = w
    · have hplace : s.master = .breaking := hbreaking hdone
      change s.master.ending = true
      rw [hplace]
      rfl
    · rw [workers_moveTo_of_ne _ _ huw] at hu
      exact h.ended u hu hdone
  · obtain hne | ⟨u, hu, hplace⟩ := h.waiting hm
    · exact absurd hqueue hne
    · have huw : u ≠ w := by
        rintro rfl
        rw [hwas] at hplace
        cases hplace
      exact .inr ⟨u, hu, by rwa [workers_moveTo_of_ne _ _ huw]⟩

/-! ### Steps -/

/-- After `notify_all` nobody sleeps. -/
theorem Awake.notifyAll (h : Awake v s) (hplace : s.master = .filled) :
    Awake v { s with
      workers := fun w => (s.workers w).notified
      master := if s.done = true then .joining else .waiting } := by
  have hdrowsy : ∀ w, (s.workers w).notified = .drowsy → s.workers w = .drowsy := by
    intro w hw
    cases hworker : s.workers w <;> simp [hworker, WorkerPlace.notified] at hw ⊢
  have hasleep : ∀ w, (s.workers w).notified ≠ .asleep := by
    intro w hw
    cases hworker : s.workers w <;> simp [hworker, WorkerPlace.notified] at hw
  refine ⟨fun hmtx => ?_, fun w hw => ?_, fun u w hu hw => h.unique u w (hdrowsy u hu)
    (hdrowsy w hw), fun hm => ?_, fun w hw => absurd hw (hasleep w),
    fun w hw => absurd hw (hasleep w), fun hm => ?_⟩
  · obtain ⟨w, hw, hworker⟩ := (h.locked hmtx).resolve_left (by simp [hplace])
    exact .inr ⟨w, hw, by simp [hworker, WorkerPlace.notified]⟩
  · obtain ⟨hmtx, hqueue, hbreaking⟩ := h.worker w (hdrowsy w hw)
    refine ⟨hmtx, hqueue, fun hdone => ?_⟩
    rw [hplace] at hbreaking
    cases hbreaking hdone
  · dsimp only at hm
    split_ifs at hm
  · dsimp only at hm
    split_ifs at hm

/-- While the master neither ends nor notifies, no worker sleeps in vain. -/
theorem Awake.of_master (h : Awake v s) (hending : s.master.ending = false)
    (hnotifies : s.master.notifiesAll = false) {w : ℕ} (hw : s.workers w = .asleep) :
    s.done = false ∧ s.transactionQueue = [] := by
  constructor
  · rw [← Bool.not_eq_true]
    intro hdone
    rw [h.ended w hw hdone] at hending
    cases hending
  · by_contra hne
    rw [h.filled w hw hne] at hnotifies
    cases hnotifies

theorem MasterMoves.awake (h' : MasterMoves v s s') (h : Awake v s) : Awake v s' := by
  have hfree : s.mtx = false → ∀ w, s.workers w ≠ .drowsy :=
    fun hmtx w => h.free (by simp [hmtx]) w
  cases h' with
  | room hplace hmtx _ =>
    exact h.move (by simp) (by simp) (by simp [hplace]) (by simp [hplace])
      (by simp [hplace, MasterPlace.ending]) (by simp [MasterPlace.notifiesAll])
  | full hplace hmtx _ =>
    exact h.move (by simp) (by simp) (by simp [hplace]) (by simp [hplace])
      (by simp [MasterPlace.ending]) (by simp [MasterPlace.notifiesAll])
  | last hplace _ =>
    refine ⟨fun hmtx => .inr ((h.locked hmtx).resolve_left (by simp [hplace])), fun w hw => ?_,
      h.unique, fun hm => by simp at hm, fun _ _ _ => rfl, fun _ _ _ => rfl,
      fun hm => by simp at hm⟩
    obtain ⟨hmtx, hqueue, -⟩ := h.worker w hw
    exact ⟨hmtx, hqueue, fun _ => rfl⟩
  | page hplace _ _ =>
    exact h.move (by simp) (by simp) (by simp [hplace]) (by simp [hplace])
      (by simp [hplace, MasterPlace.ending]) (by simp [MasterPlace.notifiesAll])
  | push hplace hmtx =>
    refine ⟨fun hlocked => by simp [hmtx] at hlocked, fun w hw => absurd hw (hfree hmtx w),
      h.unique, fun hm => by simp at hm, fun w hw hdone => ?_, fun _ _ _ => rfl,
      fun hm => by simp at hm⟩
    have hending := h.ended w hw hdone
    rw [hplace] at hending
    cases hending
  | leave hplace hmtx =>
    exact h.move (by simp) (by simp) (by simp [hplace]) (by simp [hmtx])
      (by simp [MasterPlace.ending]) (by simp [MasterPlace.notifiesAll])
  | notifyAll hplace => exact h.notifyAll hplace
  | go hplace _ _ =>
    exact h.move (by simp) (by simp) (by simp [hplace]) (by simp [hplace])
      (by simp [hplace, MasterPlace.ending]) (by simp [MasterPlace.notifiesAll])
  | wait hplace hmtx hfull =>
    -- a full queue is not empty, so no worker sleeps
    have hne : s.transactionQueue ≠ [] := by
      rintro hempty
      rw [hempty, List.length_nil, queueSize] at hfull
      omega
    have hsleepers : ∀ w, s.workers w = .asleep → s.done = false ∧ s.transactionQueue = [] :=
      fun w hw => h.of_master (by rw [hplace]; rfl) (by rw [hplace]; rfl) hw
    refine ⟨fun _ => .inl rfl, fun w hw => absurd hw (hfree hmtx w), h.unique,
      fun _ => ⟨rfl, hne⟩, fun w hw => absurd (hsleepers w hw).2 hne,
      fun w hw => absurd (hsleepers w hw).2 hne, fun hm => by simp at hm⟩
  | sleep hplace =>
    obtain ⟨-, hne⟩ := h.master hplace
    have hsleepers : ∀ w, s.workers w = .asleep → s.done = false ∧ s.transactionQueue = [] :=
      fun w hw => h.of_master (by rw [hplace]; rfl) (by rw [hplace]; rfl) hw
    exact ⟨fun hmtx => by simp at hmtx, fun w hw => absurd (h.worker w hw).2.1 hne, h.unique,
      fun hm => by simp at hm, fun w hw => absurd (hsleepers w hw).2 hne,
      fun w hw => absurd (hsleepers w hw).2 hne, fun _ => .inl hne⟩
  | join hplace _ =>
    exact h.move (by simp) (by simp) (by simp [hplace]) (by simp [hplace])
      (by simp [hplace, MasterPlace.ending]) (by simp [hplace, MasterPlace.notifiesAll])

theorem WorkerMoves.awake {w : ℕ} (h' : WorkerMoves v s w s') (hw : w < v.threadCount)
    (h : Awake v s) : Awake v s' := by
  cases h' with
  | empty hplace _ _ => exact h.moveTo (by simp) (by simp) (by simp [hplace]) (fun _ _ => rfl)
  | take hplace hmtx _ =>
    refine h.takeBatch hw (by simp [hmtx]) ?_
    rcases hplace with hplace | hplace <;> simp [hplace]
  | notify hplace =>
    refine h.notified.moveTo (by simp) (by simp) (by simp [hplace]) (fun hm => ?_)
    cases hmaster : s.master <;> simp [hmaster, MasterPlace.notified] at hm
  | finish hplace _ _ _ =>
    exact h.moveTo (by simp) (by simp) (by simp [hplace]) (by simp [hplace, WorkerPlace.notifies])
  | wait hplace hmtx hempty hdone =>
    exact h.drowsy hw (by simp [hmtx]) hempty (by simp [hdone]) hplace
  | sleep hplace => exact h.asleep hplace
  | again hplace => exact h.moveTo (by simp) (by simp) (by simp [hplace]) (fun _ _ => rfl)
  | valid hplace _ => exact h.moveTo (by simp) (by simp) (by simp [hplace]) (fun _ _ => rfl)
  | @invalid tx batch hplace _ _ =>
    have hmoved : Awake v (moveTo s w (.verifying batch)) :=
      h.moveTo (by simp) (by simp) (by simp [hplace]) (fun _ _ => rfl)
    exact ⟨hmoved.locked, hmoved.worker, hmoved.unique, hmoved.master, hmoved.ended,
      hmoved.filled, hmoved.waiting⟩

/-- The master has notified, and checks the queue again. -/
theorem Awake.checks (h : Awake v s) (hplace : s.master = .pushed) :
    Awake v { s with page := s.page + 1, master := .checking } := by
  have hmove : Awake v { s with master := .checking } :=
    h.move (by simp) (by simp) (by simp [hplace]) (by simp [hplace])
      (by simp [hplace, MasterPlace.ending]) (by simp [MasterPlace.notifiesAll])
  exact ⟨hmove.locked, hmove.worker, hmove.unique, hmove.master, hmove.ended, hmove.filled,
    hmove.waiting⟩

/-- A worker wakes. -/
theorem Awake.wakes (h : Awake v s) {w : ℕ} (hasleep : (s.workers w).isAsleep = true) :
    Awake v (Verification.moveTo s w .waiting) := by
  refine h.moveTo (by simp) (by simp) ?_ ?_
  · intro hdrowsy
    rw [hdrowsy] at hasleep
    cases hasleep
  · intro _ hnotifies
    cases hworker : s.workers w <;>
      simp [hworker, WorkerPlace.isAsleep, WorkerPlace.notifies] at hasleep hnotifies

theorem Awake.next (h : Awake v s) {e : BatchEvent} (h' : v.next s e = some s') : Awake v s' := by
  cases moves h' with
  | master hmoves => exact hmoves.awake h
  | notifies hplace _ hasleep => exact (h.checks hplace).wakes hasleep
  | notifiesNobody hplace _ => exact h.checks hplace
  | worker hw hmoves => exact hmoves.awake hw h
  | masterWakes hplace =>
    exact h.move (by simp) (by simp) (by simp [hplace]) (by simp [hplace])
      (by simp [hplace, MasterPlace.ending]) (by simp [hplace, MasterPlace.notifiesAll])
  | workerWakes _ hasleep => exact h.wakes hasleep

/-! ### Progress -/

/-- The search brings something on the first `k` pages, and nothing on the next one. -/
structure Searches (v : Verification) (k : ℕ) : Prop where
  before : ∀ i < k, ∃ txs, v.findPage (v.startPage + i) = .ok txs ∧ txs ≠ []
  last : v.findPage (v.startPage + k) = .ok []

/-- The pages that were read are not behind the first empty one. -/
theorem Searches.read_le {k j : ℕ} (h : v.Searches k)
    (hread : ∀ i < j, v.pageTxs (v.startPage + i) ≠ []) : j ≤ k := by
  by_contra hlt
  exact hread k (by omega) (by rw [pageTxs, h.last])

/-- A worker that is neither asleep nor finished can go on when the mutex is free. -/
theorem workerNext_isSome {w : ℕ} (hmtx : ¬ s.mtx = true) (hasleep : s.workers w ≠ .asleep)
    (hfinished : s.workers w ≠ .finished) : ∃ s', v.workerNext s w = some s' := by
  unfold workerNext
  rw [← Option.isSome_iff_exists]
  cases hplace : s.workers w with
  | entering => simp only [if_neg hmtx]; split_ifs <;> rfl
  | notifying => rfl
  | waiting => simp only [if_neg hmtx]; split_ifs <;> rfl
  | drowsy => rfl
  | asleep => exact absurd hplace hasleep
  | finished => exact absurd hplace hfinished
  | verifying batch =>
    cases batch with
    | nil => rfl
    | cons tx batch => simp only [if_neg hmtx]; split_ifs <;> rfl

/-- Until it notifies one worker, sleeps or joins the workers, the master can go on when the mutex
is free. -/
theorem masterNext_isSome (hinv : Inv v s.blur) {k : ℕ} (hsearches : v.Searches k)
    (hmtx : ¬ s.mtx = true) (hpushed : s.master ≠ .pushed) (hasleep : s.master ≠ .asleep)
    (hjoining : s.master ≠ .joining) (hreturned : s.master ≠ .returned) :
    ∃ s', v.masterNext s = some s' := by
  unfold masterNext
  cases hplace : s.master with
  | checking => simp only [if_neg hmtx]; split_ifs <;> exact ⟨_, rfl⟩
  | fetching =>
    obtain ⟨j, hpage, hread, -⟩ := hinv.read
    have hpage' : s.page = v.startPage + j := by
      rw [← hpage, BatchState.blur, BatchState.nextPage, hplace]
    rcases Nat.lt_or_eq_of_le (hsearches.read_le hread) with hlt | rfl
    · obtain ⟨txs, htxs, hne⟩ := hsearches.before j hlt
      obtain ⟨tx, txs, rfl⟩ := List.exists_cons_of_ne_nil hne
      exact ⟨_, by rw [hpage', htxs]⟩
    · exact ⟨_, by rw [hpage', hsearches.last]⟩
  | pushing transactions => exact ⟨_, if_neg hmtx⟩
  | pushed => exact absurd hplace hpushed
  | breaking => exact ⟨_, if_neg hmtx⟩
  | filled => exact ⟨_, rfl⟩
  | waiting => simp only [if_neg hmtx]; split_ifs <;> exact ⟨_, rfl⟩
  | drowsy => exact ⟨_, rfl⟩
  | asleep => exact absurd hplace hasleep
  | joining => exact absurd hplace hjoining
  | returned => exact absurd hplace hreturned

/-- `cvMasterWorker.notify_one` wakes a worker, or nobody sleeps. -/
theorem exists_notifyOne (hplace : s.master = .pushed) :
    ∃ woken s', v.notifyOne s woken = some s' := by
  simp only [notifyOne, hplace]
  by_cases hany : (List.range v.threadCount).any (fun w => (s.workers w).isAsleep) = true
  · obtain ⟨w, hw, hasleep⟩ := List.any_eq_true.1 hany
    exact ⟨some w, _, if_pos ⟨List.mem_range.1 hw, hasleep⟩⟩
  · exact ⟨none, _, if_neg hany⟩

/-- While the master sleeps, a worker neither sleeps nor is finished. -/
theorem Awake.exists_worker (h : Awake v s) (hinv : Inv v s.blur) (hworkers : 0 < v.threadCount)
    (hplace : s.master = .asleep) :
    ∃ w < v.threadCount, s.workers w ≠ .asleep ∧ s.workers w ≠ .finished := by
  have hfinished : ∀ w, s.workers w ≠ .finished := by
    intro w hw
    have hdone : s.done = true := (hinv.finished w (by simp [BatchState.blur, hw]; rfl)).1
    have hended : s.done = true ↔ s.master.phase s.done = .joining ∨
        s.master.phase s.done = .returned := hinv.ended
    rw [hended, hplace] at hdone
    simp [MasterPlace.phase] at hdone
  -- a worker sleeps beside a queue that is not empty only while the master will notify it
  rcases h.waiting hplace with hne | ⟨w, hw, hnotifies⟩
  · refine ⟨0, hworkers, fun hasleep => ?_, hfinished 0⟩
    have hfilled := h.filled 0 hasleep hne
    rw [hplace] at hfilled
    cases hfilled
  · refine ⟨w, hw, fun hasleep => ?_, hfinished w⟩
    rw [hasleep] at hnotifies
    cases hnotifies

/-- While the master joins them, a worker that is not finished does not sleep. -/
theorem Awake.exists_unfinished (h : Awake v s) (hinv : Inv v s.blur)
    (hplace : s.master = .joining)
    (hall : ¬ (List.range v.threadCount).all (fun w => (s.workers w).isFinished) = true) :
    ∃ w < v.threadCount, s.workers w ≠ .asleep ∧ s.workers w ≠ .finished := by
  have hended : s.done = true ↔ s.master.phase s.done = .joining ∨
      s.master.phase s.done = .returned := hinv.ended
  have hdone : s.done = true := hended.2 (.inl (by rw [hplace]; rfl))
  obtain ⟨w, hw, hnot⟩ : ∃ w, w < v.threadCount ∧ ¬ (s.workers w).isFinished = true := by
    simpa using hall
  refine ⟨w, hw, fun hasleep => ?_, fun hfinished => hnot (by rw [hfinished]; rfl)⟩
  have hending := h.ended w hasleep hdone
  rw [hplace] at hending
  cases hending

/-- **No wake-up is lost**: until it returns, someone can go on without a spurious wake-up. -/
theorem exists_next (h : Awake v s) (hinv : Inv v s.blur) {k : ℕ} (hsearches : v.Searches k)
    (hworkers : 0 < v.threadCount) (hreturned : s.master ≠ .returned) :
    ∃ e, e.isSpurious = false ∧ ∃ s', v.next s e = some s' := by
  by_cases hmtx : s.mtx = true
  · -- who holds the mutex falls asleep
    rcases h.locked hmtx with hmaster | ⟨w, hw, hworker⟩
    · exact ⟨.master, rfl, _, by rw [next, masterNext, hmaster]⟩
    · exact ⟨.worker w, rfl, _, by rw [next, if_pos hw, workerNext, hworker]⟩
  have hworker : (∃ w < v.threadCount, s.workers w ≠ .asleep ∧ s.workers w ≠ .finished) →
      ∃ e, e.isSpurious = false ∧ ∃ s', v.next s e = some s' := by
    rintro ⟨w, hw, hasleep, hfinished⟩
    obtain ⟨s', hs'⟩ := workerNext_isSome (v := v) hmtx hasleep hfinished
    exact ⟨.worker w, rfl, s', by rw [next, if_pos hw, hs']⟩
  by_cases hpushed : s.master = .pushed
  · obtain ⟨woken, hnext⟩ := exists_notifyOne (v := v) hpushed
    exact ⟨.notifyOne woken, rfl, hnext⟩
  by_cases hasleep : s.master = .asleep
  · exact hworker (h.exists_worker hinv hworkers hasleep)
  by_cases hjoining : s.master = .joining
  · by_cases hall : (List.range v.threadCount).all (fun w => (s.workers w).isFinished) = true
    · exact ⟨.master, rfl, _, by rw [next, masterNext, hjoining]; exact if_pos hall⟩
    · exact hworker (h.exists_unfinished hinv hjoining hall)
  · exact ⟨.master, rfl, masterNext_isSome hinv hsearches hmtx hpushed hasleep hjoining hreturned⟩

/-- What holds in every state of a run. -/
theorem inv_run {es : List BatchEvent} (hrun : Steps.run v.next v.begin es = some s) :
    Inv v s.blur ∧ Awake v s :=
  invariant (I := fun s => Inv v s.blur ∧ Awake v s)
    (fun _ _ _ h hstep => ⟨inv_next h.1 hstep, h.2.next hstep⟩) ⟨inv_start v, awake_begin v⟩ hrun

end Verification

end Concurrent

end Gradido
