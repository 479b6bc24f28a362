import Inlay.Proofs.Page.Chain

/-!
# Merging class names along a chain

The class names at the end of a chain of wrapping components are merged from a row of class lists: those of the last
link stand first, and those of the tag at the end. The passes merge them from the tag on, link by link, and any other
grouping of the row would do as well.

* `Grouping.through` — the grouping in which class names go through a chain.

Main statements: `Grouping.merged_through` and `mergeClasses_stable` (merging is a stable union).
-/

namespace Inlay

namespace Grouping

variable {g : Grouping}

/-- The grouping with the class names of each link merged in front, one after the other. -/
def through (g : Grouping) (chain : List Link) : Grouping :=
  chain.foldl (fun g link => merge (list link.tokens) g) g

theorem lists_through (g : Grouping) (chain : List Link) :
    (g.through chain).lists = (chain.map Link.tokens).reverse ++ g.lists := by
  induction chain generalizing g with
  | nil => rfl
  | cons link rest ih =>
    rw [List.map_cons, List.reverse_cons, List.append_assoc]
    exact ih (merge (list link.tokens) g)

theorem merged_through (g : Grouping) (chain : List Link) :
    (g.through chain).merged = chainClasses chain g.merged := by
  induction chain generalizing g with
  | nil => rfl
  | cons link rest ih => exact ih (merge (list link.tokens) g)

theorem merged_eq_chainClasses {chain : List Link} {classes : List Text}
    (h : g.lists = (chain.map Link.tokens).reverse ++ [classes]) : g.merged = chainClasses chain classes := by
  have hrow : g.lists = ((list classes).through chain).lists := by rw [lists_through, h, lists]
  rw [merged_eq_of_lists_eq hrow, merged_through, merged]

end Grouping

/-- **Merging is a stable union.** The merged list is the one list with the members of both in first order, so it
begins with what the first list is without copies. Groups can be merged in any order, also along a chain, and class
names that are there already change nothing. -/
theorem mergeClasses_stable (a b c : List Text) :
    (∀ ds, ds = mergeClasses a b ↔ InFirstOrder ds (a ++ b)) ∧
      mergeClasses a [] <+: mergeClasses a b ∧
      mergeClasses (mergeClasses a b) c = mergeClasses a (mergeClasses b c) ∧
      (mergeClasses (mergeClasses a b) c = mergeClasses a b ↔ c ⊆ mergeClasses a b) ∧
      (mergeClasses c (mergeClasses a b) = mergeClasses a b ↔ mergeClasses c [] <+: mergeClasses a b) ∧
      ∀ (chain : List Link) (g : Grouping), g.lists = (chain.map Link.tokens).reverse ++ [c] →
        g.merged = chainClasses chain c := by
  have hnodup : (mergeClasses a b).Nodup := nodup_mergeClasses a b
  exact ⟨fun _ => eq_eraseDups_iff, prefix_mergeClasses a b, mergeClasses_assoc a b c,
    mergeClasses_eq_left_iff hnodup, mergeClasses_eq_right_iff hnodup, fun _ _ => Grouping.merged_eq_chainClasses⟩

/-- Two links that share a class name with each other and with the tag, merged before the tag is reached. -/
theorem mergeClasses_stable_card_note :
    let card : Link := ⟨"card".toList, ["a".toList, "b".toList, "a".toList]⟩
    let note : Link := ⟨"note".toList, ["b".toList, "c".toList]⟩
    let tag := ["x".toList, "a".toList]
    let g : Grouping := .merge (.merge (.list note.tokens) (.list card.tokens)) (.list tag)
    g.lists = ([card, note].map Link.tokens).reverse ++ [tag] ∧ g.merged = chainClasses [card, note] tag ∧
      g.merged = ["b".toList, "c".toList, "a".toList, "x".toList] := by
  intro card note tag g
  have hlists : g.lists = ([card, note].map Link.tokens).reverse ++ [tag] := rfl
  exact ⟨hlists, (mergeClasses_stable [] [] tag).2.2.2.2.2 [card, note] g hlists, by decide⟩

end Inlay
