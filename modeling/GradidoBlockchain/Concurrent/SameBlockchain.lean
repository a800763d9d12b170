import GradidoBlockchain.Concurrent.InMemoryProvider

/-!
# Provider and context

`InMemoryProvider::findBlockchain` looks a community up under one lock and adds
it under another one, and sets the context of the community before it inserts
into its map.  The map and the context agree exactly as long as no thread adds a
community that another thread has added since it looked (`run_agrees_iff`); what
is returned is the object in the map in any case.
-/

namespace Gradido

namespace Concurrent

open Application

variable {Uuid : Type}

/-! ### Contexts -/

namespace AppContext

theorem arrayIndex_injective {i j : UInt32} (h : arrayIndex i = arrayIndex j) : i = j := by
  have hsub : i - 1 = j - 1 := UInt32.toNat_inj.1 h
  have hadd := congrArg (· + 1) hsub
  simpa using hadd

/-- The blockchain of a community stays when contexts are added behind. -/
theorem getBlockchain_append {ctx ctx' : AppContext Uuid} {l : List (CommunityContext Uuid)}
    (h : ctx'.mCommunityContexts = ctx.mCommunityContexts ++ l) {i : UInt32} {b : Blockchain}
    (hb : ctx.getBlockchain i = some b) : ctx'.getBlockchain i = some b := by
  obtain ⟨c, hc, hcb⟩ := Option.bind_eq_some_iff.1 hb
  refine Option.bind_eq_some_iff.2 ⟨c, ?_, hcb⟩
  rw [h, List.getElem?_append_left (List.getElem?_eq_some_iff.1 hc).1, hc]

theorem getOrAddCommunityIdIndex_contexts [DecidableEq Uuid] (ids : CommunityIds Uuid)
    (ctx : AppContext Uuid)
    (communityId : String) : ∃ l, (ctx.getOrAddCommunityIdIndex ids communityId
      ).1.mCommunityContexts = ctx.mCommunityContexts ++ l := by
  have hsame : ∀ uuid, (ctx.getOrAddIndexForData uuid).1.mCommunityContexts =
      ctx.mCommunityContexts := by
    intro uuid
    unfold getOrAddIndexForData
    split_ifs <;> rfl
  unfold getOrAddCommunityIdIndex
  dsimp only
  split_ifs
  · exact ⟨[], (List.append_nil _).symm⟩
  · exact ⟨[], (List.append_nil _).symm⟩
  · exact ⟨[], by rw [List.append_nil]; exact hsame _⟩
  · exact ⟨[_], by dsimp only; rw [hsame]⟩
  · exact ⟨[], by rw [List.append_nil]; exact hsame _⟩
  · exact ⟨[], by rw [List.append_nil]; exact hsame _⟩

/-- A community that has a blockchain has a context. -/
theorem lt_of_getBlockchain {ctx : AppContext Uuid} {i : UInt32} {b : Blockchain}
    (hb : ctx.getBlockchain i = some b) : arrayIndex i < ctx.mCommunityContexts.length := by
  obtain ⟨c, hc, -⟩ := Option.bind_eq_some_iff.1 hb
  exact (List.getElem?_eq_some_iff.1 hc).1

theorem addBlockchain_eq_ok {ids : CommunityIds Uuid} {ctx ctx' : AppContext Uuid} {i : UInt32}
    {b : Blockchain} (h : ctx.addBlockchain ids i b = .ok ctx') :
    ctx'.getBlockchain i = some b ∧ ∀ j, j ≠ i → ctx'.getBlockchain j = ctx.getBlockchain j := by
  unfold addBlockchain at h
  split_ifs at h with hlength
  cases h
  rw [Nat.not_le] at hlength
  constructor
  · simp [getBlockchain, List.getElem?_eq_getElem hlength]
  · intro j hj
    have hne : arrayIndex i ≠ arrayIndex j := fun heq => hj (arrayIndex_injective heq).symm
    simp [getBlockchain, hne]

end AppContext

/-! ### Steps -/

namespace Application

variable {ids : CommunityIds Uuid} {s s' : Application Uuid} {e : Event}

/-- A blockchain is inserted. -/
structure Inserts (ids : CommunityIds Uuid) (s : Application Uuid) (e : Event)
    (s' : Application Uuid) (i : UInt32) (new : Blockchain) : Prop where
  event : ∃ thread id, e = .insert thread ∧ s.phase thread = .resolved id i ∧
    s'.phase thread = .returned i (emplace s.mBlockchainsPerGroup i new).2
  address : new.address = s.nextAddress
  context : s.appContext.addBlockchain ids i new = .ok s'.appContext
  map : s'.mBlockchainsPerGroup = (emplace s.mBlockchainsPerGroup i new).1
  next : s'.nextAddress = s.nextAddress + 1

theorem emplace_of_some {m : UInt32 → Option Blockchain} {i : UInt32} {old new : Blockchain}
    (h : m i = some old) : emplace m i new = (m, old) := by
  rw [emplace, h]

theorem emplace_of_none {m : UInt32 → Option Blockchain} {i : UInt32} {new : Blockchain}
    (h : m i = none) : emplace m i new = (Function.update m i (some new), new) := by
  rw [emplace, h]

/-- What `insert` returns is in the map afterwards. -/
theorem emplace_self (m : UInt32 → Option Blockchain) (i : UInt32) (new : Blockchain) :
    (emplace m i new).1 i = some (emplace m i new).2 := by
  cases h : m i with
  | none => simp [emplace_of_none h]
  | some old => simp [emplace_of_some h, h]

theorem emplace_keeps {m : UInt32 → Option Blockchain} {i j : UInt32} {b new : Blockchain}
    (h : m j = some b) : (emplace m i new).1 j = some b := by
  cases hi : m i with
  | none =>
    have hne : j ≠ i := by
      rintro rfl
      simp [h] at hi
    rw [emplace_of_none hi]
    exact (Function.update_of_ne hne _ _).trans h
  | some old =>
    rw [emplace_of_some hi]
    exact h

theorem Inserts.map_of_none {i : UInt32} {new : Blockchain} (h : Inserts ids s e s' i new)
    (hi : s.mBlockchainsPerGroup i = none) :
    s'.mBlockchainsPerGroup = Function.update s.mBlockchainsPerGroup i (some new) := by
  rw [h.map, emplace_of_none hi]

theorem Inserts.map_of_some {i : UInt32} {old new : Blockchain} (h : Inserts ids s e s' i new)
    (hi : s.mBlockchainsPerGroup i = some old) :
    s'.mBlockchainsPerGroup = s.mBlockchainsPerGroup := by
  rw [h.map, emplace_of_some hi]

variable [DecidableEq Uuid]

/-- **What a step can do**: leave the map alone and add contexts behind, insert a blockchain, or
clear the map. -/
theorem step_cases (h : step ids s e = some s') :
    (s'.mBlockchainsPerGroup = s.mBlockchainsPerGroup ∧ s.nextAddress ≤ s'.nextAddress ∧
      (∃ l, s'.appContext.mCommunityContexts = s.appContext.mCommunityContexts ++ l)) ∨
    (∃ i new, Inserts ids s e s' i new) ∨
    ((∃ thread, e = .clear thread) ∧ s'.mBlockchainsPerGroup = (fun _ => none) ∧
      s'.nextAddress = s.nextAddress ∧ s'.appContext = s.appContext) := by
  have hsame : ∃ l, s.appContext.mCommunityContexts = s.appContext.mCommunityContexts ++ l :=
    ⟨[], (List.append_nil _).symm⟩
  cases e with
  | findBlockchainByIndex thread index =>
    unfold step at h
    dsimp only at h
    split_ifs at h
    cases h
    exact .inl ⟨rfl, Nat.le_refl _, hsame⟩
  | findBlockchainById thread communityId =>
    unfold step at h
    dsimp only at h
    split_ifs at h
    have hcontexts := AppContext.getOrAddCommunityIdIndex_contexts ids s.appContext communityId
    split at h
    · cases h
      exact .inl ⟨rfl, Nat.le_refl _, hcontexts⟩
    · cases h
      exact .inl ⟨rfl, Nat.le_refl _, hcontexts⟩
  | lookup thread =>
    unfold step at h
    dsimp only at h
    split at h
    · split at h
      · cases h
        exact .inl ⟨rfl, Nat.le_refl _, hsame⟩
      · cases h
        exact .inl ⟨rfl, Nat.le_refl _, hsame⟩
    · cases h
  | addBlockchain thread =>
    unfold step at h
    dsimp only at h
    split at h
    · split at h
      · cases h
        exact .inl ⟨rfl, Nat.le_refl _, hsame⟩
      · cases h
        exact .inl ⟨rfl, Nat.le_refl _, hsame⟩
    · cases h
  | insert thread =>
    unfold step at h
    dsimp only at h
    split at h
    · next id i hphase =>
      split at h
      · cases h
        exact .inl ⟨rfl, Nat.le_succ _, hsame⟩
      · next ctx hctx =>
        cases h
        refine .inr (.inl ⟨i, ⟨s.nextAddress, id, i⟩, ⟨thread, id, rfl, hphase, ?_⟩, rfl, hctx, rfl,
          rfl⟩)
        simp [goTo]
    · cases h
  | clear thread =>
    unfold step at h
    dsimp only at h
    split_ifs at h
    cases h
    exact .inr (.inr ⟨⟨thread, rfl⟩, rfl, rfl, rfl⟩)

/-- Only `clear` takes a blockchain out of the map. -/
theorem held_of_step {i : UInt32} {b : Blockchain} (hb : s.mBlockchainsPerGroup i = some b)
    (hclear : ∀ thread, e ≠ .clear thread) (h : step ids s e = some s') :
    s'.mBlockchainsPerGroup i = some b := by
  rcases step_cases h with ⟨hmap, -⟩ | ⟨j, new, hins⟩ | ⟨⟨thread, rfl⟩, -⟩
  · rw [hmap, hb]
  · rw [hins.map]
    exact emplace_keeps hb
  · exact absurd rfl (hclear thread)

/-- Every object is made once. -/
def Numbered (s : Application Uuid) : Prop :=
  ∀ i b, s.mBlockchainsPerGroup i = some b → b.address < s.nextAddress

theorem numbered_step (hs : Numbered s) (h : step ids s e = some s') : Numbered s' := by
  intro i b hb
  rcases step_cases h with ⟨hmap, hnext, -⟩ | ⟨j, new, hins⟩ | ⟨-, hmap, -⟩
  · exact Nat.lt_of_lt_of_le (hs i b (hmap ▸ hb)) hnext
  · rw [hins.next]
    cases hj : s.mBlockchainsPerGroup j with
    | some old =>
      rw [hins.map_of_some hj] at hb
      exact Nat.lt_succ_of_lt (hs i b hb)
    | none =>
      rw [hins.map_of_none hj] at hb
      by_cases hij : i = j
      · subst hij
        rw [Function.update_self, Option.some.injEq] at hb
        rw [← hb, hins.address]
        exact Nat.lt_succ_self _
      · rw [Function.update_of_ne hij] at hb
        exact Nat.lt_succ_of_lt (hs i b hb)
  · rw [hmap] at hb
    simp at hb

/-! ### Agreement -/

/-- Every blockchain of the provider is that of its community's context. -/
def Agrees (s : Application Uuid) : Prop :=
  ∀ i b, s.mBlockchainsPerGroup i = some b → s.appContext.getBlockchain i = some b

/-- No blockchain is inserted for a community that has one. -/
def InsertsFirst (s : Application Uuid) (e : Event) : Prop :=
  ∀ thread id i, e = .insert thread → s.phase thread = .resolved id i →
    s.mBlockchainsPerGroup i = none

theorem agrees_step (hs : Agrees s) (hfirst : InsertsFirst s e) (h : step ids s e = some s') :
    Agrees s' := by
  intro i b hb
  rcases step_cases h with ⟨hmap, -, l, hl⟩ | ⟨j, new, hins⟩ | ⟨-, hmap, -⟩
  · rw [hmap] at hb
    exact AppContext.getBlockchain_append hl (hs i b hb)
  · obtain ⟨thread, id, rfl, hphase, -⟩ := hins.event
    have hnone := hfirst thread id j rfl hphase
    obtain ⟨hself, hother⟩ := AppContext.addBlockchain_eq_ok hins.context
    rw [hins.map_of_none hnone] at hb
    by_cases hij : i = j
    · subst hij
      rw [Function.update_self] at hb
      rw [hself, hb]
    · rw [Function.update_of_ne hij] at hb
      rw [hother i hij, hs i b hb]
  · rw [hmap] at hb
    simp at hb

/-- A second object for a community stands in the context only. -/
theorem not_agrees_step (hnumbered : Numbered s) (hs : Agrees s) (hsecond : ¬ InsertsFirst s e)
    (h : step ids s e = some s') : ¬ Agrees s' := by
  unfold InsertsFirst at hsecond
  push Not at hsecond
  obtain ⟨thread, id, i, rfl, hphase, hsome⟩ := hsecond
  obtain ⟨old, hold⟩ := Option.ne_none_iff_exists'.1 hsome
  have hlt := AppContext.lt_of_getBlockchain (hs i old hold)
  obtain ⟨ctx, hctx⟩ : ∃ ctx, s.appContext.addBlockchain ids i ⟨s.nextAddress, id, i⟩ = .ok ctx :=
    ⟨_, if_neg (Nat.not_le.2 hlt)⟩
  obtain ⟨hself, -⟩ := AppContext.addBlockchain_eq_ok hctx
  intro hs'
  unfold step at h
  simp only [hphase, hctx, emplace_of_some hold] at h
  cases h
  have hsame : some ⟨s.nextAddress, id, i⟩ = some old := hself.symm.trans (hs' i old hold)
  have haddress := hnumbered i old hold
  rw [← Option.some.inj hsame] at haddress
  exact Nat.lt_irrefl _ haddress

/-! ### What is returned -/

/-- A thread returns from `findBlockchain`. -/
def Returns (ids : CommunityIds Uuid) (s : Application Uuid) (e : Event) (i : UInt32)
    (b : Blockchain) : Prop :=
  ∃ thread s', (e = .lookup thread ∨ e = .insert thread) ∧ step ids s e = some s' ∧
    s'.phase thread = .returned i b

/-- What is returned is in the map. -/
theorem Returns.held {i : UInt32} {b : Blockchain} (hreturns : Returns ids s e i b)
    (h : step ids s e = some s') : s'.mBlockchainsPerGroup i = some b := by
  obtain ⟨thread, t, he, ht, hphase⟩ := hreturns
  obtain rfl : s' = t := Option.some.inj (h.symm.trans ht)
  clear ht
  rcases he with rfl | rfl
  · unfold step at h
    dsimp only at h
    split at h
    · next id j _ =>
      split at h
      · next found hfound =>
        cases h
        simp only [goTo, Function.update_self, Phase.returned.injEq] at hphase
        obtain ⟨rfl, rfl⟩ := hphase
        exact hfound
      · cases h
        simp [goTo] at hphase
    · cases h
  · unfold step at h
    dsimp only at h
    split at h
    · next id j _ =>
      split at h
      · cases h
        simp [goTo] at hphase
      · cases h
        simp only [goTo, Function.update_self, Phase.returned.injEq] at hphase
        obtain ⟨rfl, rfl⟩ := hphase
        exact emplace_self _ _ _
    · cases h

/-- Between two clears all calls for a community return one object. -/
def ReturnsSame (ids : CommunityIds Uuid) (s : Application Uuid) (es : List Event) : Prop :=
  ∀ pre e mid e', pre ++ [e] ++ mid ++ [e'] <+: es → (∀ x ∈ mid, ∀ thread, x ≠ .clear thread) →
    ∀ s₁ s₂ i b b', Steps.run (step ids) s pre = some s₁ → Returns ids s₁ e i b →
      Steps.run (step ids) s (pre ++ [e] ++ mid) = some s₂ → Returns ids s₂ e' i b' → b = b'

theorem held_of_run {i : UInt32} {b : Blockchain} (hb : s.mBlockchainsPerGroup i = some b)
    {es : List Event} (hes : ∀ e ∈ es, ∀ thread, e ≠ .clear thread)
    (hrun : Steps.run (step ids) s es = some s') : s'.mBlockchainsPerGroup i = some b := by
  induction es generalizing s with
  | nil =>
    obtain rfl := Option.some.inj hrun
    exact hb
  | cons e es ih =>
    obtain ⟨t, ht, hrun⟩ := Steps.run_cons_eq_some.1 hrun
    have hheld := held_of_step hb (hes e List.mem_cons_self) ht
    exact ih hheld (fun x hx => hes x (List.mem_cons_of_mem e hx)) hrun

theorem run_returnsSame (s : Application Uuid) (es : List Event) : ReturnsSame ids s es := by
  intro pre e mid e' _ hmid s₁ s₂ i b b' hpre hreturns hrun hreturns'
  obtain ⟨t, ht, hrun⟩ := Steps.run_append_eq_some.1 hrun
  obtain ⟨s₁', hs₁', hstep⟩ := Steps.run_concat_eq_some.1 ht
  obtain rfl : s₁ = s₁' := Option.some.inj (hpre.symm.trans hs₁')
  have hheld := held_of_run (hreturns.held hstep) hmid hrun
  -- the second call leaves it in the map, and returns what is there
  obtain ⟨thread, u, he', hu, hphase⟩ := hreturns'
  have hnotclear : ∀ thread, e' ≠ .clear thread := by
    rintro thread' rfl
    rcases he' with he' | he' <;> cases he'
  have hkept := held_of_step hheld hnotclear hu
  have hfound := Returns.held ⟨thread, u, he', hu, hphase⟩ hu
  exact Option.some.inj (hkept.symm.trans hfound)

/-- **Provider and context.**  In every interleaving, the map and the contexts agree in every state
and all calls between two clears return one object, exactly when no thread inserts a blockchain for
a community that has got one since the thread looked. -/
theorem run_agrees_iff (ids : CommunityIds Uuid) (ctx : AppContext Uuid) {es : List Event}
    {u : Application Uuid} (hrun : Steps.run (step ids) (start ctx) es = some u) :
    (Steps.Throughout (step ids) Agrees (start ctx) es ∧ ReturnsSame ids (start ctx) es) ↔
      Steps.Meets (step ids) InsertsFirst (start ctx) es := by
  rw [and_iff_left (run_returnsSame _ _)]
  refine Steps.throughout_iff_meets (fun _ _ _ hs h => numbered_step hs h)
    (fun _ _ _ _ hs hfirst h => agrees_step hs hfirst h)
    (fun _ _ _ hnumbered hs hsecond h => not_agrees_step hnumbered hs hsecond h) ?_ ?_ hrun
  · intro i b hb
    cases hb
  · intro i b hb
    cases hb

end Application

/-! ### Two threads -/

namespace Sample

/-- Community ids that are their own uuids. -/
def ids : CommunityIds String where
  uuidFromString id := id
  uuidToString uuid := uuid
  isValidCommunityAlias _ := true

/-- One community, without a blockchain. -/
def oneCommunity : AppContext String where
  mCommunityIds := ["gradido"]
  mCommunityContexts := [⟨"gradido", 1, none⟩]

/-- Two threads look for the blockchain of the community before one of them adds it. -/
def bothLook : List Event :=
  [.findBlockchainByIndex 0 1, .findBlockchainByIndex 1 1, .lookup 0, .lookup 1, .addBlockchain 0,
    .addBlockchain 1, .insert 0, .insert 1]

/-- One looks after the other one is done. -/
def oneAfterTheOther : List Event :=
  [.findBlockchainByIndex 0 1, .lookup 0, .addBlockchain 0, .insert 0,
    .findBlockchainById 1 "gradido", .lookup 1]

/-- The thread that adds second leaves its object in the context, and returns the first one. -/
theorem bothLook_not_agrees :
    (Steps.run (step ids) (start oneCommunity) bothLook).isSome = true ∧
      ¬ (Steps.Throughout (step ids) Agrees (start oneCommunity) bothLook ∧
        ReturnsSame ids (start oneCommunity) bothLook) := by
  have hheld : (Steps.run (step ids) (start oneCommunity) bothLook).map
      (fun u => u.mBlockchainsPerGroup 1) = some (some ⟨0, "gradido", 1⟩) := by decide
  have hcontext : (Steps.run (step ids) (start oneCommunity) bothLook).map
      (fun u => u.appContext.getBlockchain 1) = some (some ⟨1, "gradido", 1⟩) := by decide
  refine ⟨by decide, fun h => ?_⟩
  obtain ⟨u, hu, hmap⟩ := Option.map_eq_some_iff.1 hheld
  rw [hu, Option.map_some, h.1 bothLook (List.prefix_refl _) u hu 1 _ hmap] at hcontext
  exact absurd hcontext (by decide)

theorem oneAfterTheOther_agrees :
    Steps.Throughout (step ids) Agrees (start oneCommunity) oneAfterTheOther ∧
      ReturnsSame ids (start oneCommunity) oneAfterTheOther := by
  obtain ⟨u, hu⟩ := Option.isSome_iff_exists.1
    (show (Steps.run (step ids) (start oneCommunity) oneAfterTheOther).isSome = true by decide)
  refine (run_agrees_iff ids oneCommunity hu).2 ?_
  rintro pre _ hpre t ht thread id i rfl -
  -- the only insertion is the fourth step, and the map is empty before it
  obtain ⟨post, hpost⟩ := hpre
  have hget : oneAfterTheOther[pre.length]? = some (.insert thread) := by
    rw [← hpost, List.append_assoc, List.getElem?_append_right (Nat.le_refl _), Nat.sub_self]
    rfl
  have htake : pre = oneAfterTheOther.take pre.length := by
    rw [← hpost, List.append_assoc, List.take_left']
    rfl
  have hthree : pre.length = 3 := by
    rcases hn : pre.length with _ | _ | _ | _ | _ | _ | n <;> rw [hn] at hget
    all_goals first | rfl | cases hget
  rw [htake, hthree] at ht
  obtain rfl := Option.some.inj ht
  rfl

end Sample

end Concurrent

end Gradido
