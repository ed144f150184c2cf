import Mathlib.Algebra.Order.Ring.Int
import Mathlib.Data.Tree.Basic
import Mathlib.Tactic.Tauto

/-!
# Search trees

Binary trees whose nodes are ordered by a key, searched and extended by one walk down from the root.
How the tree is balanced does not matter: all facts are about the list of its nodes from left to right.

* `find_of_mem`, `mem_of_find`: a search finds exactly the node with the key.
* `insert_eq_some`, `exists_of_insert_eq_none`: what an insertion does, and when it finds the key there.
-/

namespace SearchTrees

open List

variable {α κ : Type*} [LinearOrder κ]

def toList : BinaryTree α → List α
  | .nil => []
  | .node a l r => toList l ++ a :: toList r

/-- The node with key `k`. -/
def find (key : α → κ) (k : κ) : BinaryTree α → Option α
  | .nil => none
  | .node a l r => if k = key a then some a else if k < key a then find key k l else find key k r

/-- `new` becomes a leaf; nothing if its key is already there. -/
def insert (key : α → κ) (new : α) : BinaryTree α → Option (BinaryTree α)
  | .nil => some (.node new .nil .nil)
  | .node a l r =>
    if key new = key a then none
    else if key new < key a then (insert key new l).map fun l => .node a l r
    else (insert key new r).map fun r => .node a l r

def Sorted (key : α → κ) (t : BinaryTree α) : Prop := (toList t).Pairwise fun a b => key a < key b

variable {key key' : α → κ} {t t' l r : BinaryTree α} {a b new : α} {k : κ}

theorem sorted_node : Sorted key (.node a l r) ↔
    Sorted key l ∧ Sorted key r ∧ (∀ b ∈ toList l, key b < key a) ∧ ∀ b ∈ toList r, key a < key b := by
  simp only [Sorted, toList, pairwise_append, pairwise_cons, mem_cons]
  constructor
  · rintro ⟨hl, ⟨ha, hr⟩, hcross⟩
    exact ⟨hl, hr, fun b hb => hcross b hb a (.inl rfl), ha⟩
  · rintro ⟨hl, hr, hla, har⟩
    refine ⟨hl, ⟨har, hr⟩, fun b hb c hc => ?_⟩
    rcases hc with rfl | hc
    · exact hla b hb
    · exact lt_trans (hla b hb) (har c hc)

theorem Sorted.nodup (ht : Sorted key t) : (toList t).Nodup :=
  List.Pairwise.imp (fun hlt heq => ne_of_lt hlt (congrArg key heq)) ht

theorem Sorted.congr (ht : Sorted key t) (h : ∀ a ∈ toList t, key' a = key a) : Sorted key' t := by
  refine List.Pairwise.imp_of_mem (fun {a b} ha hb hlt => ?_) ht
  rw [h a ha, h b hb]
  exact hlt

theorem mem_of_find (h : find key k t = some a) : a ∈ toList t ∧ key a = k := by
  induction t with
  | nil => cases h
  | node b l r ihl ihr =>
    rw [find] at h
    simp only [toList, mem_append, mem_cons]
    split at h
    · cases h
      exact ⟨.inr (.inl rfl), by simp_all⟩
    split at h
    · exact ⟨.inl (ihl h).1, (ihl h).2⟩
    · exact ⟨.inr (.inr (ihr h).1), (ihr h).2⟩

theorem find_of_mem (ht : Sorted key t) (ha : a ∈ toList t) : find key (key a) t = some a := by
  induction t with
  | nil => cases ha
  | node b l r ihl ihr =>
    obtain ⟨hl, hr, hlb, hbr⟩ := sorted_node.1 ht
    simp only [toList, mem_append, mem_cons] at ha
    rw [find]
    rcases ha with hal | rfl | har
    · have hlt := hlb a hal
      rw [if_neg (ne_of_lt hlt), if_pos hlt]
      exact ihl hl hal
    · rw [if_pos rfl]
    have hlt := hbr a har
    rw [if_neg (ne_of_gt hlt), if_neg (lt_asymm hlt)]
    exact ihr hr har

theorem Sorted.eq_of_key (ht : Sorted key t) (ha : a ∈ toList t) (hb : b ∈ toList t) (h : key a = key b) : a = b := by
  have hfind := find_of_mem ht ha
  rw [h, find_of_mem ht hb] at hfind
  exact (Option.some.inj hfind).symm

theorem exists_of_insert_eq_none (h : insert key new t = none) : ∃ a ∈ toList t, key a = key new := by
  induction t with
  | nil => cases h
  | node b l r ihl ihr =>
    rw [insert] at h
    simp only [toList, mem_append, mem_cons]
    split at h
    · exact ⟨b, .inr (.inl rfl), by simp_all⟩
    split at h
    · obtain ⟨a, ha, hkey⟩ := ihl (Option.map_eq_none_iff.1 h)
      exact ⟨a, .inl ha, hkey⟩
    · obtain ⟨a, ha, hkey⟩ := ihr (Option.map_eq_none_iff.1 h)
      exact ⟨a, .inr (.inr ha), hkey⟩

theorem insert_eq_some (ht : Sorted key t) (h : insert key new t = some t') :
    Sorted key t' ∧ ∀ a, a ∈ toList t' ↔ a = new ∨ a ∈ toList t := by
  induction t generalizing t' with
  | nil =>
    cases h
    simp [Sorted, toList]
  | node b l r ihl ihr =>
    obtain ⟨hl, hr, hlb, hbr⟩ := sorted_node.1 ht
    rw [insert] at h
    split at h
    · cases h
    rename_i hne
    split_ifs at h with hlt
    · obtain ⟨l', hl', rfl⟩ := Option.map_eq_some_iff.1 h
      obtain ⟨hsorted, hmem⟩ := ihl hl hl'
      refine ⟨sorted_node.2 ⟨hsorted, hr, fun a ha => ?_, hbr⟩, fun a => ?_⟩
      · rcases (hmem a).1 ha with rfl | ha
        · exact hlt
        · exact hlb a ha
      · simp [toList, hmem, or_assoc]
    obtain ⟨r', hr', rfl⟩ := Option.map_eq_some_iff.1 h
    obtain ⟨hsorted, hmem⟩ := ihr hr hr'
    refine ⟨sorted_node.2 ⟨hl, hsorted, hlb, fun a ha => ?_⟩, fun a => ?_⟩
    · rcases (hmem a).1 ha with rfl | ha
      · exact lt_of_le_of_ne (not_lt.1 hlt) (Ne.symm hne)
      · exact hbr a ha
    · simp only [toList, List.mem_append, List.mem_cons, hmem]
      tauto

end SearchTrees
