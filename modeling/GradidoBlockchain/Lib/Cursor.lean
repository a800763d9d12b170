import GradidoBlockchain.Lib.Checked
import GradidoBlockchain.Lib.Paging

/-!
# Cursors

A cursor stands on an element and knows what lies ahead of it; a step goes to
the next element that is used, or comes to a stop.

* `seek` is what lies ahead of a step, `collect` the loop that reads the value
  of a cursor and goes on until it is done;
* `collect_of_lands` says that the loop collects what is used, up to the first
  element that stops, when each step lands where `seek` says;
* `collect_of_fixed` says that a cursor which does not move is never done.
-/

namespace Cursor

open Checked Paging

variable {σ α β ε : Type} {use stop : α → Bool}

/-- Going on to the first element that is used, unless one stops the search before. -/
def seek (use stop : α → Bool) : List α → List α
  | [] => []
  | a :: l => if use a then a :: l else if stop a then [] else seek use stop l

theorem seek_of_use {a : α} (l : List α) (h : use a = true) :
    seek use stop (a :: l) = a :: l := by
  rw [seek, if_pos h]

theorem seek_of_stop {a : α} (l : List α) (huse : use a = false) (hstop : stop a = true) :
    seek use stop (a :: l) = [] := by
  simp [seek, huse, hstop]

theorem seek_of_skip {a : α} (l : List α) (huse : use a = false) (hstop : stop a = false) :
    seek use stop (a :: l) = seek use stop l := by
  simp [seek, huse, hstop]

theorem length_seek_le (l : List α) : (seek use stop l).length ≤ l.length := by
  induction l with
  | nil => exact Nat.le_refl _
  | cons a l ih =>
    unfold seek
    split_ifs
    · exact Nat.le_refl _
    · exact Nat.zero_le _
    · exact Nat.le_succ_of_le ih

/-- Where nothing is used and nothing stops, the search goes on behind. -/
theorem seek_append (l l' : List α) : seek use stop (l ++ l') =
    match seek use stop l with
    | [] => if l.any stop then [] else seek use stop l'
    | a :: rest => a :: (rest ++ l') := by
  induction l with
  | nil => rfl
  | cons a l ih =>
    rw [List.cons_append]
    cases huse : use a with
    | true => rw [seek_of_use _ huse, seek_of_use _ huse]
    | false =>
      cases hstop : stop a with
      | true => simp [seek_of_stop _ huse hstop, hstop]
      | false => simp [seek_of_skip _ huse hstop, ih, hstop]

theorem seek_suffix (l : List α) : seek use stop l <:+ l := by
  induction l with
  | nil => exact List.suffix_refl _
  | cons a l ih =>
    unfold seek
    split_ifs
    · exact List.suffix_refl _
    · exact List.nil_suffix
    · exact ih.trans (List.suffix_cons a l)

/-- What is taken from a list is what the cursor goes to first, and what is taken behind it. -/
theorem taken_eq_seek (hkeeps : ∀ a, use a = true → stop a = false) (l : List α) :
    taken use stop l =
      match seek use stop l with
      | [] => []
      | a :: rest => a :: taken use stop rest := by
  induction l with
  | nil => rfl
  | cons a l ih =>
    rw [taken_cons]
    cases huse : use a with
    | true => simp [seek_of_use l huse, hkeeps a huse]
    | false =>
      cases hstop : stop a with
      | true => simp [seek_of_stop l huse hstop]
      | false => simp [seek_of_skip l huse hstop, ih]

/-! ### The loop -/

/-- `for (; !done(s); s = next(s)) { .. value(s) .. }`, with at most `n` rounds; `endless` stands
for a loop that does not end. -/
def collect (done : σ → Bool) (value : σ → β) (next : σ → Except ε σ) (endless : ε) :
    ℕ → σ → Except ε (List β)
  | 0, _ => .error endless
  | n + 1, s =>
    if done s then .ok []
    else do
      let s' ← next s
      let values ← collect done value next endless n s'
      return value s :: values

variable {done : σ → Bool} {value : σ → β} {next : σ → Except ε σ} {endless : ε}

theorem collect_of_done {s : σ} (h : done s = true) (n : ℕ) :
    collect done value next endless (n + 1) s = .ok [] := by
  rw [collect, if_pos h]

/-- A cursor that does not move is never done. -/
theorem collect_of_fixed {s : σ} (hdone : done s = false) (hnext : next s = .ok s) (n : ℕ) :
    collect done value next endless n s = .error endless := by
  induction n with
  | zero => rfl
  | succ n ih =>
    rw [collect, if_neg (by simp [hdone]), hnext, ok_bind, ih]
    rfl

/-- Where a cursor stands with a list before it: on the first element, or nowhere. -/
def Lands (Stands : σ → α → List α → Prop) (Stopped : σ → Prop) (s : σ) : List α → Prop
  | [] => Stopped s
  | a :: rest => Stands s a rest

/-- **The loop** collects what is used, when each step lands where the search for the next element
does. -/
theorem collect_of_lands {Stands : σ → α → List α → Prop} {Stopped : σ → Prop} {nr : α → β}
    (hkeeps : ∀ a, use a = true → stop a = false)
    (hstopped : ∀ s, Stopped s → done s = true)
    (hstands : ∀ s a rest, Stands s a rest → done s = false ∧ value s = nr a)
    (hnext : ∀ s a rest, Stands s a rest →
      ∃ s', next s = .ok s' ∧ Lands Stands Stopped s' (seek use stop rest))
    {l : List α} {n : ℕ} (hn : l.length < n) {s : σ}
    (hs : Lands Stands Stopped s (seek use stop l)) :
    collect done value next endless n s = .ok ((taken use stop l).map nr) := by
  induction n generalizing l s with
  | zero => omega
  | succ n ih =>
    have hlength := @length_seek_le α use stop l
    rw [taken_eq_seek hkeeps l]
    cases hseek : seek use stop l with
    | nil =>
      rw [hseek] at hs
      rw [collect_of_done (hstopped s hs)]
      rfl
    | cons a rest =>
      rw [hseek] at hs hlength
      rw [List.length_cons] at hlength
      obtain ⟨hdone, hvalue⟩ := hstands s a rest hs
      obtain ⟨s', hstep, hs'⟩ := hnext s a rest hs
      rw [collect, if_neg (by simp [hdone]), hstep, ok_bind, ih (by omega) hs', ok_bind, hvalue]
      rfl

end Cursor
