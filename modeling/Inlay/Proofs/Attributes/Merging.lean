import Inlay.Attributes.Basic
import Inlay.Proofs.Distinct

/-!
# Merging class names

Merged class lists are the union of both in the order of first places. So it does not matter in which order the
neighbours in a row of class lists are merged, and class names that are there already are not moved.

* `Grouping` — a way to merge a row of class lists, two neighbours at a time.

Main statements: `mergeClasses_assoc`, `mergeClasses_eq_left_iff`, `mergeClasses_eq_right_iff` (merging what is there
already) and `Grouping.merged_eq_of_lists_eq` (only the row counts).
-/

namespace Inlay

variable {a c : List Text}

/-! ## Two lists and three -/

theorem nodup_mergeClasses (a b : List Text) : (mergeClasses a b).Nodup := nodup_eraseDups _

theorem mergeClasses_nil_of_nodup (h : a.Nodup) : mergeClasses a [] = a := by
  rw [mergeClasses, List.append_nil, eraseDups_of_nodup h]

theorem nil_mergeClasses_of_nodup (h : a.Nodup) : mergeClasses [] a = a := eraseDups_of_nodup h

theorem mergeClasses_assoc (a b c : List Text) :
    mergeClasses (mergeClasses a b) c = mergeClasses a (mergeClasses b c) := by
  unfold mergeClasses
  rw [eraseDups_eraseDups_append, eraseDups_append_eraseDups, List.append_assoc]

theorem prefix_mergeClasses (a b : List Text) : mergeClasses a [] <+: mergeClasses a b := by
  unfold mergeClasses
  rw [List.append_nil, List.eraseDups_append]
  exact List.prefix_append _ _

theorem mergeClasses_eq_nil_iff : mergeClasses a c = mergeClasses a [] ↔ c ⊆ a := by
  constructor
  · intro h word hword
    have hmerged : word ∈ mergeClasses a [] := h ▸ mem_mergeClasses.mpr (.inr hword)
    exact (mem_mergeClasses.mp hmerged).resolve_right List.not_mem_nil
  · intro h
    have hnone : c.removeAll a = [] := List.filter_eq_nil_iff.mpr fun word hword => by simp [h hword]
    unfold mergeClasses
    rw [List.eraseDups_append, hnone, List.eraseDups_nil, List.append_nil, List.append_nil]

/-- Class names that come behind change nothing if and only if all of them are there. -/
theorem mergeClasses_eq_left_iff (ha : a.Nodup) : mergeClasses a c = a ↔ c ⊆ a := by
  rw [← mergeClasses_eq_nil_iff, mergeClasses_nil_of_nodup ha]

/-- Class names that come in front change nothing if and only if they stand in front. -/
theorem mergeClasses_eq_right_iff (ha : a.Nodup) : mergeClasses c a = a ↔ mergeClasses c [] <+: a := by
  constructor
  · intro h
    have hfront := prefix_mergeClasses c a
    rwa [h] at hfront
  · rintro ⟨more, rfl⟩
    have hmerged : mergeClasses (mergeClasses c []) more = mergeClasses c [] ++ more := eraseDups_of_nodup ha
    have hagain : mergeClasses c (mergeClasses c []) = mergeClasses c [] := by
      have hself : mergeClasses c c = mergeClasses c [] := mergeClasses_eq_nil_iff.mpr (List.Subset.refl c)
      rw [← mergeClasses_assoc, hself, mergeClasses_nil_of_nodup (nodup_mergeClasses c [])]
    calc mergeClasses c (mergeClasses c [] ++ more)
        = mergeClasses c (mergeClasses (mergeClasses c []) more) := by rw [hmerged]
      _ = mergeClasses (mergeClasses c (mergeClasses c [])) more := (mergeClasses_assoc ..).symm
      _ = mergeClasses c [] ++ more := by rw [hagain, hmerged]

/-! ## A row of lists -/

/-- A way to merge a row of class lists: a list is left as it is, or two neighbours are merged. -/
inductive Grouping
  | list (classes : List Text)
  | merge (left right : Grouping)
  deriving DecidableEq, Repr

namespace Grouping

/-- The row of class lists. -/
def lists : Grouping → List (List Text)
  | list classes => [classes]
  | merge left right => left.lists ++ right.lists

/-- What the row is merged to. -/
def merged : Grouping → List Text
  | list classes => classes
  | merge left right => mergeClasses left.merged right.merged

variable {s t : Grouping}

theorem lists_ne_nil (g : Grouping) : g.lists ≠ [] := by
  induction g with
  | list classes => exact List.cons_ne_nil _ _
  | merge left right ihleft _ => exact List.append_ne_nil_of_left_ne_nil ihleft _

/-- But for copies the lists are merged to what they hold one after the other. -/
theorem eraseDups_merged (g : Grouping) : g.merged.eraseDups = g.lists.flatten.eraseDups := by
  induction g with
  | list classes => rw [lists, List.flatten_singleton, merged]
  | merge left right ihleft ihright =>
    calc (merge left right).merged.eraseDups
        = (left.merged ++ right.merged).eraseDups := eraseDups_of_nodup (nodup_mergeClasses _ _)
      _ = (left.merged.eraseDups ++ right.merged.eraseDups).eraseDups := by
        rw [eraseDups_eraseDups_append, eraseDups_append_eraseDups]
      _ = (left.lists.flatten ++ right.lists.flatten).eraseDups := by
        rw [ihleft, ihright, eraseDups_eraseDups_append, eraseDups_append_eraseDups]
      _ = (merge left right).lists.flatten.eraseDups := by rw [lists, List.flatten_append]

theorem merged_merge (left right : Grouping) :
    (merge left right).merged = (merge left right).lists.flatten.eraseDups := by
  rw [← eraseDups_merged]
  exact (eraseDups_of_nodup (nodup_mergeClasses _ _)).symm

/-- A list that is left as it is stands alone in its row. -/
theorem lists_merge_ne {classes : List Text} {left right : Grouping} :
    (merge left right).lists ≠ (list classes).lists := by
  intro h
  rcases List.append_eq_singleton_iff.mp h with ⟨hleft, -⟩ | ⟨-, hright⟩
  · exact left.lists_ne_nil hleft
  · exact right.lists_ne_nil hright

/-- **What a row is merged to does not depend on the grouping.** -/
theorem merged_eq_of_lists_eq (h : s.lists = t.lists) : s.merged = t.merged := by
  cases s with
  | list classes =>
    cases t with
    | list classes' => exact List.singleton_inj.mp h
    | merge left right => exact absurd h.symm lists_merge_ne
  | merge left right =>
    cases t with
    | list classes => exact absurd h lists_merge_ne
    | merge left' right' => rw [merged_merge, merged_merge, h]

end Grouping

end Inlay
