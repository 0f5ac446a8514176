import Mathlib

/-!
# Pages of an ordered list

A list in ascending order is asked for by pages: those not below a start, as many as a limit says.
A client that asks again from the last entry it received, as long as there is more, gets every entry
not below its first start; each page after the first begins with that last entry again.
-/

universe u v

namespace Paging

variable {α : Type u} {σ : Type v}

/-- No limit is `0`. -/
def limit (n : Nat) (xs : List α) : List α := if n = 0 then xs else xs.take n

/-- Entries behind the page. -/
def exceeds (n : Nat) (xs : List α) : Bool := decide (n ≠ 0 ∧ n < xs.length)

/-- The pages a client receives that asks from `s`, then from the last entry of each page. -/
inductive Walk (ask : σ → List α × Bool) (next : α → σ) : σ → List (List α) → Prop
  | last {s : σ} : (ask s).2 = false → Walk ask next s [(ask s).1]
  | more {s : σ} {t : α} {pages : List (List α)} : (ask s).2 = true → (ask s).1.getLast? = some t →
    Walk ask next (next t) pages → Walk ask next s ((ask s).1 :: pages)

/-- What the pages bring, the first entry of each later page being known already. -/
def joined : List (List α) → List α
  | [] => []
  | page :: pages => page ++ (pages.map List.tail).flatten

/-- Each later page begins with the last entry of the page before it. -/
def Overlaps (pages : List (List α)) : Prop :=
  pages.IsChain fun p q => p.getLast? = q.head?

theorem Walk.functional {ask : σ → List α × Bool} {next : α → σ} {s : σ} {ps qs : List (List α)}
    (h : Walk ask next s ps) (h' : Walk ask next s qs) : ps = qs := by
  induction h generalizing qs with
  | last hmore =>
    cases h' with
    | last => rfl
    | more hmore' => cases hmore.symm.trans hmore'
  | more hmore hlast _ ih =>
    cases h' with
    | last hmore' => cases hmore'.symm.trans hmore
    | more _ hlast' hwalk =>
      obtain rfl := Option.some.inj (hlast.symm.trans hlast')
      rw [ih hwalk]

section

variable [LinearOrder α] {sorted : List α} (hs : sorted.Pairwise (· < ·))
include hs

/-- From an entry on there are those behind it. -/
theorem filter_from {k : Nat} {t : α} (hk : sorted[k]? = some t) :
    sorted.filter (t ≤ ·) = sorted.drop k := by
  obtain ⟨hlt, ht⟩ := List.getElem?_eq_some_iff.mp hk
  rw [List.pairwise_iff_getElem] at hs
  have hbefore : (sorted.take k).filter (t ≤ ·) = [] := by
    rw [List.filter_eq_nil_iff]
    intro a ha
    obtain ⟨i, hi, rfl⟩ := List.getElem_of_mem ha
    rw [List.length_take] at hi
    rw [List.getElem_take, ← ht]
    simpa using hs i k (by omega) hlt (by omega)
  have hbehind : (sorted.drop k).filter (t ≤ ·) = sorted.drop k := by
    rw [List.filter_eq_self]
    intro a ha
    obtain ⟨i, hi, rfl⟩ := List.getElem_of_mem ha
    rw [List.length_drop] at hi
    rw [List.getElem_drop, ← ht]
    rcases Nat.eq_zero_or_pos i with rfl | hpos
    · simp
    · simpa using (hs k (k + i) hlt (by omega) (by omega)).le
  calc
    sorted.filter (t ≤ ·) = (sorted.take k ++ sorted.drop k).filter (t ≤ ·) := by
      rw [List.take_append_drop]
    _ = sorted.drop k := by rw [List.filter_append, hbefore, hbehind, List.nil_append]

variable {ask : σ → List α × Bool} {next : α → σ} {key : σ → α} {n : Nat}

/-- With pages of two entries at least the client comes to the end, and has then received every entry
not below its first start, in order. -/
theorem exists_walk (hn : 2 ≤ n)
    (hask : ∀ s, ask s = (limit n (sorted.filter (key s ≤ ·)), exceeds n (sorted.filter (key s ≤ ·))))
    (hnext : ∀ t ∈ sorted, key (next t) = t) (s : σ) :
    ∃ pages, Walk ask next s pages ∧ joined pages = sorted.filter (key s ≤ ·) ∧
      Overlaps pages := by
  generalize hlen : (sorted.filter (key s ≤ ·)).length = m
  induction m using Nat.strongRecOn generalizing s with
  | _ m ih =>
    set found := sorted.filter (key s ≤ ·) with hfound
    have hpage : (ask s).1 = found.take n := by
      rw [hask, limit, if_neg (by omega)]
    have hmore : (ask s).2 = decide (n < found.length) := by
      rw [hask, exceeds, ← hfound, decide_eq_decide]
      exact and_iff_right (by omega)
    by_cases hfull : n < found.length
    · obtain ⟨t, ht⟩ : ∃ t, found[n - 1]? = some t :=
        ⟨found[n - 1], List.getElem?_eq_getElem (by omega)⟩
      have hlast : (ask s).1.getLast? = some t := by
        rw [hpage, List.getLast?_eq_getElem?, List.length_take, Nat.min_eq_left hfull.le,
          List.getElem?_take_of_lt (by omega), ht]
      have htmem : t ∈ found := List.mem_of_getElem? ht
      have hst : key s ≤ t := by simpa using (List.mem_filter.mp htmem).2
      -- the next page begins with the last entry of this one
      have hrest : sorted.filter (key (next t) ≤ ·) = found.drop (n - 1) := by
        rw [hnext t (List.mem_filter.mp htmem).1, ← filter_from (hs.filter _) ht,
          List.filter_filter]
        refine List.filter_congr fun a _ => ?_
        rw [Bool.eq_iff_iff]
        simpa using fun h => hst.trans h
      have hdrop : found.drop (n - 1) = t :: found.drop n := by
        obtain ⟨hlt, rfl⟩ := List.getElem?_eq_some_iff.mp ht
        rw [List.drop_eq_getElem_cons hlt, Nat.sub_add_cancel (by omega)]
      obtain ⟨pages, hwalk, hjoined, hover⟩ := ih _ (by
        rw [hrest, List.length_drop]
        omega) (next t) rfl
      rw [hrest, hdrop] at hjoined
      obtain ⟨rest, rfl⟩ : ∃ rest, pages = (t :: (found.drop n).take (n - 1)) :: rest := by
        have hfirst : (ask (next t)).1 = t :: (found.drop n).take (n - 1) := by
          rw [hask, hrest, hdrop, limit, if_neg (by omega), List.take_cons (by omega)]
        rw [← hfirst]
        cases hwalk with
        | last => exact ⟨_, rfl⟩
        | more => exact ⟨_, rfl⟩
      have htail : (found.drop n).take (n - 1) ++ (rest.map List.tail).flatten = found.drop n :=
        List.tail_eq_of_cons_eq hjoined
      refine ⟨(ask s).1 :: _, .more (hmore.trans (decide_eq_true hfull)) hlast hwalk, ?_,
        List.isChain_cons_cons.mpr ⟨hlast, hover⟩⟩
      rw [joined, List.map_cons, List.flatten_cons, List.tail_cons, htail, hpage,
        List.take_append_drop]
    · have hall : found.take n = found := List.take_of_length_le (by omega)
      refine ⟨[(ask s).1], .last (hmore.trans (decide_eq_false hfull)), ?_, List.isChain_singleton _⟩
      rw [joined, hpage, hall]
      exact List.append_nil _

end

end Paging
