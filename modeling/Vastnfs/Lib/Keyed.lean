import Mathlib.Algebra.Order.Ring.Int
import Mathlib.Algebra.BigOperators.Group.List.Basic
import Mathlib.Data.List.Nodup

/-!
# Lists of records with keys

A list whose entries have distinct keys, as a store: an entry is replaced by one with the same key,
or taken out by its key.

* `sum_replace`, `sum_erase`, `sum_filter_add`: what a change does to a sum over the entries.
-/

namespace Keyed

open List

variable {α κ : Type*} [DecidableEq κ] (key : α → κ)

/-- The entry with the key of `a` becomes `a`. -/
def replace (a : α) (l : List α) : List α := l.map fun b => if key b = key a then a else b

def erase (k : κ) (l : List α) : List α := l.filter fun b => key b ≠ k

variable {key} {a s : α} {l : List α}

@[simp] theorem map_key_replace : (replace key a l).map key = l.map key := by
  induction l with
  | nil => rfl
  | cons b l ih =>
    unfold replace at ih ⊢
    rw [map_cons, map_cons, ih, map_cons]
    by_cases hb : key b = key a
    · rw [if_pos hb, hb]
    · rw [if_neg hb]

theorem mem_replace {b : α} (h : b ∈ replace key a l) : b = a ∨ b ∈ l ∧ key b ≠ key a := by
  obtain ⟨c, hc, rfl⟩ := mem_map.1 h
  split_ifs with hk
  · exact .inl rfl
  · exact .inr ⟨hc, hk⟩

theorem mem_replace_self (hs : s ∈ l) (hk : key s = key a) : a ∈ replace key a l :=
  mem_map.2 ⟨s, hs, if_pos hk⟩

theorem replace_eq_self (h : ∀ b ∈ l, key b ≠ key a) : replace key a l = l := by
  calc replace key a l = l.map fun b => b := map_congr_left fun b hb => if_neg (h b hb)
    _ = l := map_id' l

theorem replace_replace {b : α} (hk : key b = key a) : replace key a (replace key b l) = replace key a l := by
  unfold replace
  rw [map_map]
  refine map_congr_left fun c _ => ?_
  by_cases hc : key c = key b
  · simp [hc, hk]
  · simp [hc]

theorem erase_eq_self {k : κ} (h : ∀ b ∈ l, key b ≠ k) : erase key k l = l :=
  filter_eq_self.2 fun b hb => decide_eq_true (h b hb)

theorem mem_erase {k : κ} {b : α} : b ∈ erase key k l ↔ b ∈ l ∧ key b ≠ k := by
  simp [erase, mem_filter]

theorem exists_split (hnodup : (l.map key).Nodup) (hs : s ∈ l) :
    ∃ l₁ l₂, l = l₁ ++ s :: l₂ ∧ erase key (key s) l = l₁ ++ l₂ ∧ ∀ a, key s = key a → replace key a l = l₁ ++ a :: l₂ := by
  obtain ⟨l₁, l₂, rfl⟩ := append_of_mem hs
  rw [map_append, map_cons, nodup_middle, nodup_cons, ← map_append] at hnodup
  have hne : ∀ b ∈ l₁ ++ l₂, key b ≠ key s := fun b hb hk => hnodup.1 (mem_map.2 ⟨b, hb, hk⟩)
  refine ⟨l₁, l₂, rfl, ?_, fun a hk => ?_⟩
  · rw [← erase_eq_self hne]
    simp [erase]
  · have hsame := replace_eq_self fun b hb => hk ▸ hne b hb
    simp only [replace, map_append, map_cons, if_pos hk] at hsame ⊢
    obtain ⟨h₁, h₂⟩ := append_inj hsame (length_map _)
    rw [h₁, h₂]

variable (g : α → Nat)

theorem sum_filter_add (p : α → Prop) [DecidablePred p] :
    ((l.filter fun b => ¬ p b).map g).sum + ((l.filter fun b => p b).map g).sum = (l.map g).sum := by
  induction l with
  | nil => rfl
  | cons b l ih =>
    by_cases hb : p b <;> simp [hb] at ih ⊢ <;> omega

variable (hnodup : (l.map key).Nodup) (hs : s ∈ l)
include hnodup hs

theorem sum_replace (hk : key s = key a) : ((replace key a l).map g).sum + g s = (l.map g).sum + g a := by
  obtain ⟨l₁, l₂, rfl, -, hreplace⟩ := exists_split hnodup hs
  rw [hreplace a hk]
  simp only [map_append, map_cons, sum_append, sum_cons]
  omega

theorem sum_erase : ((erase key (key s) l).map g).sum + g s = (l.map g).sum := by
  obtain ⟨l₁, l₂, rfl, herase, -⟩ := exists_split hnodup hs
  rw [herase]
  simp only [map_append, map_cons, sum_append, sum_cons]
  omega

end Keyed
