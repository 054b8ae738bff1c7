import Mathlib.Algebra.Order.Group.Defs
import Mathlib.Algebra.Order.Sub.Defs
import Mathlib.Data.List.Infix
import Mathlib.Data.List.TakeWhile

set_option autoImplicit false

/-!
# ProxyGateway.Lib.Window

Sliding windows: a queue of times from which the old ones are dropped at its front, when it is
looked at.

* `prune queue cutoff` drops the times up to `cutoff`;
* `Kept width last queue times`: the queue holds the end of `times`, and what was dropped is at
  least `width` older than the last time at which the queue was looked at;
* `Bounded width n times`: no window of this width holds more than `n` of the times.
-/

namespace ProxyGateway.Window

variable {T : Type} [LinearOrder T]

/-- Drop the times up to `cutoff` at the front. -/
def prune (queue : List T) (cutoff : T) : List T := queue.dropWhile (· ≤ cutoff)

theorem prune_suffix (queue : List T) (cutoff : T) : prune queue cutoff <:+ queue := List.dropWhile_suffix _

theorem prune_eq_self {queue : List T} {cutoff : T} (h : ∀ t ∈ queue, cutoff < t) : prune queue cutoff = queue := by
  cases queue with
  | nil => rfl
  | cons t queue =>
      have hnew : ¬ t ≤ cutoff := not_le.mpr (h t List.mem_cons_self)
      rw [prune, List.dropWhile_cons_of_neg (by simpa using hnew)]

/-- Of a queue in order, the times behind `cutoff` are left. -/
theorem prune_eq_filter {queue : List T} (h : queue.Pairwise (· ≤ ·)) (cutoff : T) :
    prune queue cutoff = queue.filter (cutoff < ·) := by
  induction queue with
  | nil => rfl
  | cons t queue ih =>
      obtain ⟨hfirst, hrest⟩ := List.pairwise_cons.mp h
      by_cases hold : t ≤ cutoff
      · rw [prune, List.dropWhile_cons_of_pos (by simpa using hold), List.filter_cons_of_neg (by simpa using hold)]
        exact ih hrest
      · have hnew : ∀ s ∈ t :: queue, cutoff < s := by
          intro s hs
          rcases List.mem_cons.mp hs with rfl | hs
          · exact not_le.mp hold
          · exact (not_le.mp hold).trans_le (hfirst s hs)
        rw [prune_eq_self hnew, List.filter_eq_self.mpr (fun s hs => decide_eq_true (hnew s hs))]

variable [AddCommGroup T] {width last now t : T} {queue times : List T} {n : Nat}

/-- The times of the window that ends at `t`. -/
def within (width t : T) (times : List T) : List T := times.filter (fun s => t - width < s ∧ s ≤ t)

/-- No window holds more than `n` times. -/
def Bounded (width : T) (n : Nat) (times : List T) : Prop := ∀ t, (within width t times).length ≤ n

/-- The queue holds the times that were not old when it was last looked at. -/
structure Kept (width last : T) (queue times : List T) : Prop where
  ordered : times.Pairwise (· ≤ ·)
  past : ∀ t ∈ times, t ≤ last
  dropped : ∃ old, times = old ++ queue ∧ ∀ t ∈ old, t ≤ last - width

theorem kept_nil (width last : T) : Kept width last ([] : List T) [] :=
  ⟨List.Pairwise.nil, List.forall_mem_nil _, [], rfl, List.forall_mem_nil _⟩

theorem Kept.concat (h : Kept width last queue times) : Kept width last (queue ++ [last]) (times ++ [last]) := by
  obtain ⟨old, heq, hold⟩ := h.dropped
  refine ⟨?_, ?_, old, by rw [heq, List.append_assoc], hold⟩
  · refine List.pairwise_append.mpr ⟨h.ordered, List.pairwise_singleton _ _, fun s hs t ht => ?_⟩
    rw [List.mem_singleton.mp ht]
    exact h.past s hs
  · intro t ht
    rcases List.mem_append.mp ht with ht | ht
    · exact h.past t ht
    · exact (List.mem_singleton.mp ht).le

theorem bounded_nil (width : T) (n : Nat) : Bounded width n ([] : List T) := fun _ => Nat.zero_le n

/-- A part of the times is bounded as they are. -/
theorem Bounded.sublist {some : List T} (h : Bounded width n times) (hsub : List.Sublist some times) :
    Bounded width n some := fun t => (hsub.filter _).length_le.trans (h t)

/-- The window that ends with one more time. -/
theorem length_within_concat_le (width now : T) (times : List T) :
    (within width now (times ++ [now])).length ≤ (within width now times).length + 1 := by
  rw [within, List.filter_append, List.length_append]
  exact Nat.add_le_add_left (List.length_filter_le _ _) _

variable [IsOrderedAddMonoid T]

theorem Kept.later (h : Kept width last queue times) (hle : last ≤ now) : Kept width now queue times := by
  obtain ⟨old, heq, hold⟩ := h.dropped
  exact ⟨h.ordered, fun t ht => (h.past t ht).trans hle, old, heq,
    fun t ht => (hold t ht).trans (sub_le_sub_right hle width)⟩

/-- What is left after looking at it is the window that ends now. -/
theorem Kept.prune_eq (h : Kept width last queue times) (hle : last ≤ now) :
    prune queue (now - width) = within width now times := by
  obtain ⟨old, heq, hold⟩ := h.dropped
  have hqueue : queue.Pairwise (· ≤ ·) := by
    have hordered := h.ordered
    rw [heq] at hordered
    exact (List.pairwise_append.mp hordered).2.1
  have hnone : old.filter (fun s => now - width < s ∧ s ≤ now) = [] := by
    rw [List.filter_eq_nil_iff]
    intro s hs hin
    rw [decide_eq_true_eq] at hin
    exact absurd hin.1 (not_lt.mpr ((hold s hs).trans (sub_le_sub_right hle width)))
  rw [within, heq, List.filter_append, hnone, List.nil_append, prune_eq_filter hqueue]
  refine List.filter_congr fun s hs => ?_
  have hpast : s ≤ now := (h.past s (heq ▸ List.mem_append_right old hs)).trans hle
  simp [hpast]

theorem Kept.pruned (h : Kept width last queue times) (hle : last ≤ now) :
    Kept width now (prune queue (now - width)) times := by
  obtain ⟨old, heq, hold⟩ := (h.later hle).dropped
  refine ⟨h.ordered, (h.later hle).past, old ++ queue.takeWhile (· ≤ now - width), ?_, ?_⟩
  · rw [List.append_assoc, prune, List.takeWhile_append_dropWhile, heq]
  · intro s hs
    rcases List.mem_append.mp hs with hs | hs
    · exact hold s hs
    · simpa using List.mem_takeWhile_imp hs

/-- Later on, the window holds no more of the same times. -/
theorem within_later (hle : last ≤ now) (hpast : ∀ t ∈ times, t ≤ last) :
    (within width now times).length ≤ (within width last times).length := by
  have hlast : within width last times = times.filter (last - width < ·) :=
    List.filter_congr fun s hs => by simp [hpast s hs]
  rw [hlast]
  refine List.Sublist.length_le (List.monotone_filter_right times fun s hs => ?_)
  rw [decide_eq_true_eq] at hs ⊢
  exact (sub_le_sub_right hle width).trans_lt hs.1

/-- One more time, when the window that ends with it was not full. -/
theorem Bounded.concat (h : Bounded width n times) (hroom : (within width now times).length < n)
    (hpast : ∀ s ∈ times, s ≤ now) : Bounded width n (times ++ [now]) := by
  intro t
  rw [within, List.filter_append, List.length_append]
  by_cases hin : t - width < now ∧ now ≤ t
  · -- the window that ends at `t` holds no more of the old times than the one that ends at `now`
    have hsub : (times.filter (fun s => t - width < s ∧ s ≤ t)).length ≤ (within width now times).length :=
      within_later hin.2 hpast
    have hlast : ([now].filter (fun s => t - width < s ∧ s ≤ t)).length = 1 := by simp [hin]
    omega
  · have hlast : ([now].filter (fun s => t - width < s ∧ s ≤ t)).length = 0 := by
      rw [List.filter_cons_of_neg (by simpa using hin)]
      rfl
    have hold := h t
    rw [within] at hold
    omega

end ProxyGateway.Window
