import Mathlib.Data.List.Perm.Basic
import Mathlib.Order.Nat
import SpecSw.Library.Run

/-!
# Receipts taken in turn

A caller posts one message after the other. Every message gets a receipt, which may be lost; the
receipts come in the order of the messages, into a queue. A call takes the first receipt that it
finds in the queue, whichever message it is for, or gives up; a message may also be refused, and
then there is no receipt to wait for. The calls are numbered, and a message has the number of its
call.

A call that gives up leaves its receipt to the next one, and this goes on: a receipt is taken as
many messages late as calls have given up, but for the receipts that have been lost (`lag`).

## Main definitions

* `Receipts`, `Receipts.Event`, `Receipts.step`.
* `Receipts.kept`: the messages whose receipts are not lost.

## Main results

* `Receipts.lag`, `Receipts.own_iff`, `Receipts.lag_of_faithful`.
-/

open EventRun

/-- How a call ends. -/
inductive ReceiptOutcome
  | refused
  | gaveUp
  | got (k : ℕ)
  deriving DecidableEq, Repr

/-- The caller and its receipts. -/
structure Receipts where
  /-- The messages that have been posted. -/
  posted : List ℕ
  /-- The receipts that are still to come. -/
  coming : List ℕ
  queue : List ℕ
  lost : List ℕ
  /-- How the calls have ended. -/
  outcomes : List ReceiptOutcome
  /-- A call waits for a receipt. -/
  waiting : Bool

namespace ReceiptOutcome

/-- The receipt that has been taken. -/
def got? : ReceiptOutcome → Option ℕ
  | got k => some k
  | _ => none

/-- The message has been posted. -/
def posted : ReceiptOutcome → Bool
  | refused => false
  | _ => true

/-- The message has been posted and no receipt has been taken. -/
def isGaveUp : ReceiptOutcome → Bool
  | gaveUp => true
  | _ => false

end ReceiptOutcome

namespace Receipts

/-- What happens: a call begins, a receipt comes or is lost, the call that waits takes a receipt or
gives up. -/
inductive Event
  | post
  | refuse
  | arrive
  | lose (j : ℕ)
  | take
  | giveUp
  deriving DecidableEq, Repr

def start : Receipts := ⟨[], [], [], [], [], false⟩

/-- The call that waits has ended. -/
def ends (s : Receipts) (o : ReceiptOutcome) : Receipts :=
  { s with outcomes := s.outcomes ++ [o], waiting := false }

/-- A message is posted, and the call waits. -/
def posts (s : Receipts) : Receipts :=
  { s with
    posted := s.posted ++ [s.outcomes.length]
    coming := s.coming ++ [s.outcomes.length]
    waiting := true }

/-- Each event. -/
def step (s : Receipts) : Event → Receipts
  | .post => if s.waiting then s else s.posts
  | .refuse => if s.waiting then s else s.ends .refused
  | .arrive =>
    match s.coming with
    | [] => s
    | k :: rest => { s with coming := rest, queue := s.queue ++ [k] }
  | .lose j =>
    match s.coming[j]? with
    | none => s
    | some k => { s with coming := s.coming.eraseIdx j, lost := s.lost ++ [k] }
  | .take =>
    match s.waiting, s.queue with
    | true, k :: rest => ({ s with queue := rest } : Receipts).ends (.got k)
    | _, _ => s
  | .giveUp => if s.waiting then s.ends .gaveUp else s

/-- The receipts that have been taken. -/
def taken (s : Receipts) : List ℕ := s.outcomes.filterMap ReceiptOutcome.got?

/-- The messages whose receipts are not lost. -/
def kept (s : Receipts) : List ℕ := s.taken ++ (s.queue ++ s.coming)

/-- How the calls have ended, and what becomes of the one that waits if it takes nothing. -/
def calls (s : Receipts) : List ReceiptOutcome :=
  s.outcomes ++ if s.waiting then [.gaveUp] else []

/-! ### The invariant -/

/-- The receipts are in order, those of the messages posted, and none is taken before its message
is posted. -/
structure InOrder (s : Receipts) : Prop where
  sorted : s.kept.Pairwise (· < ·)
  perm : s.posted.Perm (s.kept ++ s.lost)
  count : ∀ n, s.posted.countP (· < n) = (s.calls.take n).countP ReceiptOutcome.posted
  lt : ∀ k ∈ s.posted, k < s.calls.length
  causal : ∀ i k, s.outcomes[i]? = some (ReceiptOutcome.got k) → k ≤ i

variable {s : Receipts}

theorem countP_take_concat {α : Type*} (p : α → Bool) (l : List α) (a : α) (n : ℕ) :
    ((l ++ [a]).take n).countP p =
      (l.take n).countP p + if l.length < n ∧ p a = true then 1 else 0 := by
  rw [List.take_append, List.countP_append]
  congr 1
  cases hn : n - l.length with
  | zero =>
    have hle : ¬ l.length < n := by omega
    simp [hle]
  | succ m =>
    have hlt : l.length < n := by omega
    simp [hlt, List.countP_singleton]

theorem length_calls (s : Receipts) :
    s.calls.length = s.outcomes.length + if s.waiting then 1 else 0 := by
  rw [calls, List.length_append]
  split <;> rfl

theorem inOrder_start : InOrder start :=
  ⟨.nil, .nil, fun n => by simp [start, calls], fun k hk => absurd hk List.not_mem_nil,
    fun i k h => by simp [start] at h⟩

namespace InOrder

theorem mem_kept (h : InOrder s) {k : ℕ} (hk : k ∈ s.kept) : k < s.calls.length :=
  h.lt k (h.perm.mem_iff.mpr (List.mem_append_left _ hk))

/-- One more call has ended. -/
theorem causal_concat (h : InOrder s) {o : ReceiptOutcome}
    (ho : ∀ k, o = .got k → k ≤ s.outcomes.length) {i k : ℕ}
    (hi : (s.outcomes ++ [o])[i]? = some (.got k)) : k ≤ i := by
  rcases Nat.lt_or_ge i s.outcomes.length with hlt | hge
  · rw [List.getElem?_append_left hlt] at hi
    exact h.causal i k hi
  · have hlen := (List.getElem?_eq_some_iff.mp hi).1
    rw [List.length_append, List.length_singleton] at hlen
    obtain rfl : i = s.outcomes.length := by omega
    rw [List.getElem?_concat_length] at hi
    exact ho k (Option.some.inj hi)

/-- A call ends that waits: its message has been posted. -/
theorem ends (h : InOrder s) (hwaiting : s.waiting = true) {t : Receipts} {o : ReceiptOutcome}
    (ho : o.posted = true) (ht : t.posted = s.posted) (hlost : t.lost = s.lost)
    (houtcomes : t.outcomes = s.outcomes) (hkept : (t.ends o).kept = s.kept)
    (hcausal : ∀ k, o = .got k → k ≤ s.outcomes.length) : InOrder (t.ends o) := by
  have hcalls : s.calls = s.outcomes ++ [.gaveUp] := by rw [calls, if_pos hwaiting]
  have hcalls' : (t.ends o).calls = s.outcomes ++ [o] := by
    simp [calls, Receipts.ends, houtcomes]
  refine ⟨hkept ▸ h.sorted, ?_, fun n => ?_, fun k hk => ?_, fun i k hi => ?_⟩
  · rw [hkept]
    exact ht ▸ hlost ▸ h.perm
  · have hcount := h.count n
    rw [hcalls, countP_take_concat] at hcount
    rw [hcalls', countP_take_concat, ho]
    exact ht ▸ hcount
  · have hlt := h.lt k (ht ▸ hk)
    rw [hcalls, List.length_append] at hlt
    rw [hcalls', List.length_append]
    exact hlt
  · exact h.causal_concat hcausal (houtcomes ▸ hi)

theorem post (h : InOrder s) (hwaiting : s.waiting = false) : InOrder s.posts := by
  have hcalls : s.calls = s.outcomes := by simp [calls, hwaiting]
  have hcalls' : s.posts.calls = s.outcomes ++ [.gaveUp] := rfl
  have hkept : s.posts.kept = s.kept ++ [s.outcomes.length] := by simp [kept, taken, posts]
  refine ⟨?_, ?_, fun n => ?_, fun k hk => ?_, h.causal⟩
  · rw [hkept]
    refine List.pairwise_append.mpr ⟨h.sorted, List.pairwise_singleton _ _, fun k hk j hj => ?_⟩
    rw [List.mem_singleton.mp hj, ← hcalls]
    exact h.mem_kept hk
  · have hperm := h.perm.append_right [s.outcomes.length]
    rw [List.append_assoc] at hperm
    refine hperm.trans ?_
    rw [hkept, List.append_assoc]
    exact List.perm_append_comm.append_left _
  · have hcount := h.count n
    rw [hcalls] at hcount
    rw [hcalls', countP_take_concat, ← hcount, posts, List.countP_append, List.countP_singleton]
    simp [ReceiptOutcome.posted]
  · rw [hcalls', List.length_append]
    rcases List.mem_append.mp hk with hk | hk
    · have hlt := h.lt k hk
      rw [hcalls] at hlt
      exact Nat.lt_succ_of_lt hlt
    · rw [List.mem_singleton.mp hk]
      exact Nat.lt_succ_self _

theorem refuse (h : InOrder s) (hwaiting : s.waiting = false) : InOrder (s.ends .refused) := by
  have hcalls : s.calls = s.outcomes := by simp [calls, hwaiting]
  have hcalls' : (s.ends .refused).calls = s.outcomes ++ [.refused] := by
    simp [calls, Receipts.ends]
  have hkept : (s.ends .refused).kept = s.kept := by
    simp [kept, taken, Receipts.ends, ReceiptOutcome.got?]
  refine ⟨hkept ▸ h.sorted, hkept ▸ h.perm, fun n => ?_, fun k hk => ?_, fun i k hi => ?_⟩
  · have hcount := h.count n
    rw [hcalls] at hcount
    rw [hcalls', countP_take_concat, ← hcount]
    simp [ReceiptOutcome.posted, Receipts.ends]
  · have hlt := h.lt k hk
    rw [hcalls] at hlt
    rw [hcalls', List.length_append]
    exact Nat.lt_succ_of_lt hlt
  · exact h.causal_concat (fun j hj => by simp at hj) hi

theorem step (h : InOrder s) (e : Event) : InOrder (s.step e) := by
  cases e with
  | post =>
    simp only [Receipts.step]
    split_ifs with hwaiting
    · exact h
    · exact h.post (Bool.not_eq_true _ ▸ hwaiting)
  | refuse =>
    simp only [Receipts.step]
    split_ifs with hwaiting
    · exact h
    · exact h.refuse (Bool.not_eq_true _ ▸ hwaiting)
  | arrive =>
    cases hcoming : s.coming with
    | nil => simpa only [Receipts.step, hcoming] using h
    | cons k rest =>
      simp only [Receipts.step, hcoming]
      have hkept : kept { s with coming := rest, queue := s.queue ++ [k] } = s.kept := by
        simp [kept, taken, hcoming]
      exact ⟨hkept ▸ h.sorted, hkept ▸ h.perm, h.count, h.lt, h.causal⟩
  | lose j =>
    cases hj : s.coming[j]? with
    | none => simpa only [Receipts.step, hj] using h
    | some k =>
      simp only [Receipts.step, hj]
      obtain ⟨hlt, rfl⟩ := List.getElem?_eq_some_iff.mp hj
      have hsub : (s.coming.eraseIdx j).Sublist s.coming := List.eraseIdx_sublist _ _
      refine ⟨?_, ?_, h.count, h.lt, h.causal⟩
      · exact h.sorted.sublist ((hsub.append_left s.queue).append_left s.taken)
      · have hcoming : s.coming.Perm (s.coming.eraseIdx j ++ [s.coming[j]]) :=
          (List.getElem_cons_eraseIdx_perm hlt).symm.trans (List.perm_append_singleton _ _).symm
        have hkept : s.kept.Perm
            (s.taken ++ (s.queue ++ s.coming.eraseIdx j) ++ [s.coming[j]]) := by
          rw [List.append_assoc, List.append_assoc]
          exact (hcoming.append_left s.queue).append_left s.taken
        refine h.perm.trans ((hkept.append_right s.lost).trans ?_)
        rw [List.append_assoc]
        exact List.perm_append_comm.append_left _
  | take =>
    cases hwaiting : s.waiting with
    | false => simpa only [Receipts.step, hwaiting] using h
    | true =>
      cases hqueue : s.queue with
      | nil => simpa only [Receipts.step, hwaiting, hqueue] using h
      | cons k rest =>
        simp only [Receipts.step, hwaiting, hqueue]
        refine h.ends hwaiting rfl rfl rfl rfl ?_ fun j hj => ?_
        · simp [kept, taken, Receipts.ends, ReceiptOutcome.got?, hqueue]
        · obtain rfl := ReceiptOutcome.got.inj hj
          have hlt := h.mem_kept (k := k) (by simp [kept, hqueue])
          rw [length_calls, if_pos hwaiting] at hlt
          exact Nat.lt_succ_iff.mp hlt
  | giveUp =>
    simp only [Receipts.step]
    split_ifs with hwaiting
    · refine h.ends hwaiting rfl rfl rfl rfl ?_ fun j hj => by simp at hj
      simp [kept, taken, Receipts.ends, ReceiptOutcome.got?]
    · exact h

end InOrder

theorem inOrder_run (es : List Event) : InOrder (run step start es) :=
  @run_invariant _ _ step (fun _ s => InOrder s) start inOrder_start (fun _ _ e h => h.step e) es

theorem outcomes_step (s : Receipts) (e : Event) : s.outcomes <+: (s.step e).outcomes := by
  cases e with
  | post =>
    simp only [step]
    split_ifs <;> exact List.prefix_refl _
  | refuse =>
    simp only [step]
    split_ifs
    · exact List.prefix_refl _
    · exact List.prefix_append _ _
  | arrive =>
    simp only [step]
    split <;> exact List.prefix_refl _
  | lose j =>
    simp only [step]
    split <;> exact List.prefix_refl _
  | take =>
    simp only [step]
    split
    · exact List.prefix_append _ _
    · exact List.prefix_refl _
  | giveUp =>
    simp only [step]
    split_ifs
    · exact List.prefix_append _ _
    · exact List.prefix_refl _

theorem outcomes_run (s : Receipts) (es : List Event) :
    s.outcomes <+: (run step s es).outcomes := by
  induction es generalizing s with
  | nil => exact List.prefix_refl _
  | cons e es ih => exact (s.outcomes_step e).trans (ih (s.step e))

theorem lost_step (s : Receipts) {e : Event} (he : ∀ j, e ≠ .lose j) :
    (s.step e).lost = s.lost := by
  cases e with
  | post =>
    simp only [step]
    split_ifs <;> rfl
  | refuse =>
    simp only [step]
    split_ifs <;> rfl
  | arrive =>
    simp only [step]
    split <;> rfl
  | lose j => exact absurd rfl (he j)
  | take =>
    simp only [step]
    split <;> rfl
  | giveUp =>
    simp only [step]
    split_ifs <;> rfl

/-- Receipts are lost by `lose` only. -/
theorem lost_run (s : Receipts) {es : List Event} (hes : ∀ e ∈ es, ∀ j, e ≠ .lose j) :
    (run step s es).lost = s.lost := by
  induction es generalizing s with
  | nil => rfl
  | cons e es ih =>
    rw [List.forall_mem_cons] at hes
    rw [run_cons, ih _ hes.2, s.lost_step hes.1]

/-! ### How late a receipt is taken -/

theorem countP_posted (l : List ReceiptOutcome) :
    l.countP ReceiptOutcome.posted =
      (l.filterMap ReceiptOutcome.got?).length + l.countP ReceiptOutcome.isGaveUp := by
  induction l with
  | nil => rfl
  | cons o l ih =>
    rw [List.countP_cons, List.countP_cons, ih]
    cases o with
    | refused => rfl
    | gaveUp => exact Nat.add_assoc _ _ _
    | got k => exact Nat.add_right_comm _ _ _

theorem countP_lt_split (l : List ℕ) {k i : ℕ} (hki : k ≤ i) :
    l.countP (· < i) = l.countP (· < k) + l.countP fun j => k ≤ j && j < i := by
  induction l with
  | nil => rfl
  | cons j l ih =>
    simp only [List.countP_cons, ih, Bool.and_eq_true, decide_eq_true_eq]
    split_ifs <;> omega

namespace InOrder

variable {i k : ℕ}

/-- The receipts before `k` are those that have been taken before it. -/
theorem countP_kept_lt (h : InOrder s) (hi : s.outcomes[i]? = some (.got k)) :
    s.kept.countP (· < k) = ((s.outcomes.take i).filterMap ReceiptOutcome.got?).length := by
  obtain ⟨hlt, hgot⟩ := List.getElem?_eq_some_iff.mp hi
  have hsplit : s.taken = (s.outcomes.take i).filterMap ReceiptOutcome.got? ++
      k :: (s.outcomes.drop (i + 1)).filterMap ReceiptOutcome.got? := by
    conv_lhs =>
      rw [taken, ← List.take_append_drop i s.outcomes, List.drop_eq_getElem_cons hlt, hgot]
    rw [List.filterMap_append]
    rfl
  have hsorted := h.sorted
  rw [kept, hsplit, List.append_assoc, List.cons_append] at hsorted ⊢
  obtain ⟨-, hrest, hbefore⟩ := List.pairwise_append.mp hsorted
  have hfirst : (List.filterMap ReceiptOutcome.got? (s.outcomes.take i)).countP (· < k) = _ :=
    List.countP_eq_length.mpr fun a ha => decide_eq_true (hbefore a ha k List.mem_cons_self)
  rw [List.countP_append, hfirst, Nat.add_eq_left, List.countP_eq_zero]
  intro b hb
  have hle : k ≤ b := by
    rcases List.mem_cons.mp hb with rfl | hb
    · exact le_rfl
    · exact (List.rel_of_pairwise_cons hrest hb).le
  simpa using hle

theorem mem_kept_of_got (hi : s.outcomes[i]? = some (.got k)) : k ∈ s.kept :=
  List.mem_append_left _ (List.mem_filterMap.mpr ⟨_, List.mem_of_getElem? hi, rfl⟩)

theorem countP_posted_lt (h : InOrder s) {n : ℕ} (hn : n ≤ s.outcomes.length) :
    s.kept.countP (· < n) + s.lost.countP (· < n) =
      (s.outcomes.take n).countP ReceiptOutcome.posted := by
  rw [← List.countP_append, ← h.perm.countP_eq, h.count, calls, List.take_append_of_le_length hn]

/-- **How late a receipt is taken.** The messages after `k` whose receipts are not lost, up to the
one of the call that takes the receipt of `k`, are as many as the calls before it that gave up, less
the receipts lost of the messages before it. -/
theorem lag (h : InOrder s) (hi : s.outcomes[i]? = some (.got k)) :
    (s.kept.countP fun j => k ≤ j && j < i) + s.lost.countP (· < i) =
      (s.outcomes.take i).countP ReceiptOutcome.isGaveUp := by
  have hlen : i ≤ s.outcomes.length := (List.getElem?_eq_some_iff.mp hi).1.le
  have hposted := h.countP_posted_lt hlen
  have hsplit := countP_lt_split s.kept (h.causal i k hi)
  have hbefore := h.countP_kept_lt hi
  rw [countP_posted] at hposted
  omega

/-- A call takes the receipt of its own message exactly when as many receipts have been lost before
as calls have given up. -/
theorem own_iff (h : InOrder s) (hi : s.outcomes[i]? = some (.got k)) :
    k = i ↔ s.lost.countP (· < i) = (s.outcomes.take i).countP ReceiptOutcome.isGaveUp := by
  have hlag := h.lag hi
  constructor
  · rintro rfl
    have hnone : (s.kept.countP fun j => k ≤ j && j < k) = 0 := by
      refine List.countP_eq_zero.mpr fun j _ => ?_
      simp
    omega
  · intro heq
    have hnone : (s.kept.countP fun j => k ≤ j && j < i) = 0 := by omega
    have hk := List.countP_eq_zero.mp hnone k (mem_kept_of_got hi)
    simp only [le_refl, decide_true, Bool.true_and, decide_eq_true_eq, Nat.not_lt] at hk
    exact le_antisymm (h.causal i k hi) hk

/-- When nothing has been refused or lost, a receipt is taken one call later for each call before
that gave up. -/
theorem lag_of_faithful (h : InOrder s) (hi : s.outcomes[i]? = some (.got k)) (hlost : s.lost = [])
    (hposted : ∀ o ∈ s.outcomes, o ≠ .refused) :
    k + (s.outcomes.take i).countP ReceiptOutcome.isGaveUp = i := by
  have hall : ∀ n ≤ s.outcomes.length, s.kept.countP (· < n) = n := by
    intro n hn
    have hcount := h.countP_posted_lt hn
    have hlength : (s.outcomes.take n).countP ReceiptOutcome.posted =
        (s.outcomes.take n).length := by
      refine List.countP_eq_length.mpr fun o ho => ?_
      have hne := hposted o (List.mem_of_mem_take ho)
      cases o with
      | refused => exact absurd rfl hne
      | gaveUp => rfl
      | got j => rfl
    rwa [hlost, List.countP_nil, Nat.add_zero, hlength, List.length_take, min_eq_left hn] at hcount
  have hlen : i ≤ s.outcomes.length := (List.getElem?_eq_some_iff.mp hi).1.le
  have hki := h.causal i k hi
  have hlag := h.lag hi
  have hsplit := countP_lt_split s.kept hki
  rw [hall i hlen, hall k (hki.trans hlen)] at hsplit
  rw [hlost, List.countP_nil] at hlag
  omega

end InOrder

end Receipts
