import Mathlib.Data.Multiset.Filter
import Mathlib.Logic.Function.Basic
import Mathlib.Tactic.Common

/-! # Tables of slots

A table with finitely many places, each empty or taken, stands for the bag of what is in it. -/
namespace SlotTables

universe u v

variable {κ : Type u} {α : Type v} {places : List κ} {table : κ → Option α}

/-- What is in the table, wherever it is. -/
def bag (places : List κ) (table : κ → Option α) : Multiset α := (places.filterMap table : List α)

theorem mem_bag {a : α} : a ∈ bag places table ↔ ∃ i ∈ places, table i = some a := by
  rw [bag, Multiset.mem_coe, List.mem_filterMap]

theorem card_bag_le : (bag places table).card ≤ places.length := by
  rw [bag, Multiset.coe_card]
  exact List.length_filterMap_le table places

theorem bag_congr {table' : κ → Option α} (h : ∀ i ∈ places, table' i = table i) :
    bag places table' = bag places table := by
  rw [bag, bag, List.filterMap_congr h]

/-- The table has an empty place exactly if the bag is smaller than the table. -/
theorem find?_free_isSome :
    (places.find? fun i => (table i).isNone).isSome ↔ (bag places table).card < places.length := by
  rw [bag, Multiset.coe_card, List.find?_isSome]
  induction places with
  | nil => simp
  | cons i places ih =>
    have hle := List.length_filterMap_le table places
    cases hi : table i with
    | none =>
      rw [List.filterMap_cons_none hi, List.length_cons]
      refine iff_of_true ⟨i, List.mem_cons_self, by rw [hi]; rfl⟩ ?_
      omega
    | some a =>
      rw [List.filterMap_cons_some hi, List.length_cons, List.length_cons, Nat.add_lt_add_iff_right,
        ← ih, List.exists_mem_cons_iff, hi]
      simp

/-- Filling an empty place adds to the bag, and nothing else. -/
theorem bag_fill [DecidableEq κ] (hnodup : places.Nodup) {i : κ} (hi : i ∈ places)
    (hfree : table i = none) (a : α) :
    bag places (Function.update table i (some a)) = a ::ₘ bag places table := by
  obtain ⟨before, later, rfl⟩ := List.append_of_mem hi
  obtain ⟨-, hlater, hapart⟩ := List.nodup_append.mp hnodup
  have hbefore : ∀ j ∈ before, Function.update table i (some a) j = table j := by
    intro j hj
    exact Function.update_of_ne (hapart j hj i List.mem_cons_self) _ _
  have hbehind : ∀ j ∈ later, Function.update table i (some a) j = table j := by
    intro j hj
    refine Function.update_of_ne ?_ _ _
    rintro rfl
    exact (List.nodup_cons.mp hlater).1 hj
  rw [bag, bag, List.filterMap_append, List.filterMap_append,
    List.filterMap_cons_some (Function.update_self ..), List.filterMap_cons_none hfree,
    List.filterMap_congr hbefore, List.filterMap_congr hbehind, Multiset.cons_coe,
    Multiset.coe_eq_coe]
  exact List.perm_middle

/-- Clearing the places whose content fails a test filters the bag. -/
theorem bag_filter (p : α → Prop) [DecidablePred p] :
    bag places (fun i => (table i).filter fun a => p a) = (bag places table).filter p := by
  rw [bag, bag, Multiset.filter_coe, List.filter_filterMap]

end SlotTables
