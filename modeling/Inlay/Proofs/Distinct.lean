import Mathlib

/-!
# Lists without copies

Striking out the copies of a list keeps each member at its first place, so it does not matter whether the
copies in a part of the list have been struck out before.

* `InFirstOrder` — a list that holds the members of another one once, in the order of their first places.

Main statements: `nodup_eraseDups`, `eraseDups_of_nodup`, `eraseDups_eraseDups_append` and
`eraseDups_append_eraseDups` (a part without its copies does as well as the part), `eraseDups_concat` (one more
member) and `eq_eraseDups_iff` (no other list is in first order).
-/

namespace Inlay

variable {α : Type} [BEq α] [LawfulBEq α]

theorem nodup_eraseDups (as : List α) : as.eraseDups.Nodup := by
  match as with
  | [] => exact List.nodup_nil
  | a :: rest =>
    rw [List.eraseDups_cons, List.nodup_cons]
    exact ⟨by simp, nodup_eraseDups _⟩
termination_by as.length
decreasing_by exact Nat.lt_succ_of_le (List.length_filter_le _ _)

theorem eraseDups_of_nodup {as : List α} (h : as.Nodup) : as.eraseDups = as := by
  induction as with
  | nil => rfl
  | cons a rest ih =>
    obtain ⟨hnew, hrest⟩ := List.nodup_cons.mp h
    rw [List.eraseDups_cons, List.filter_eq_self.mpr fun b hb => ?_, ih hrest]
    simpa using fun heq : b = a => hnew (heq ▸ hb)

theorem eraseDups_filter (p : α → Bool) (as : List α) : (as.filter p).eraseDups = as.eraseDups.filter p := by
  match as with
  | [] => rfl
  | a :: rest =>
    have hrest := eraseDups_filter p (rest.filter fun b => !b == a)
    rw [List.eraseDups_cons, List.filter_cons, List.filter_cons, ← hrest]
    cases hp : p a with
    | true => rw [if_pos rfl, if_pos rfl, List.eraseDups_cons, List.filter_comm]
    | false =>
      rw [if_neg Bool.false_ne_true, if_neg Bool.false_ne_true, List.filter_comm]
      -- No copy of `a` is kept, so nothing more is struck out for its sake.
      refine congrArg List.eraseDups (List.filter_eq_self.mpr fun b hb => ?_).symm
      have hb : p b = true := (List.mem_filter.mp hb).2
      simpa using fun heq : b = a => Bool.false_ne_true (hp ▸ heq ▸ hb)
termination_by as.length
decreasing_by exact Nat.lt_succ_of_le (List.length_filter_le _ _)

theorem eraseDups_eraseDups_append (as bs : List α) :
    (as.eraseDups ++ bs).eraseDups = (as ++ bs).eraseDups := by
  have hkept : bs.removeAll as.eraseDups = bs.removeAll as :=
    List.filter_congr fun b _ => by simp
  rw [List.eraseDups_append, List.eraseDups_append, eraseDups_of_nodup (nodup_eraseDups as), hkept]

theorem eraseDups_append_eraseDups (as bs : List α) :
    (as ++ bs.eraseDups).eraseDups = (as ++ bs).eraseDups := by
  rw [List.eraseDups_append, List.eraseDups_append]
  unfold List.removeAll
  rw [eraseDups_filter, eraseDups_filter, eraseDups_of_nodup (nodup_eraseDups bs)]

/-- A further member comes last, unless it is a copy. -/
theorem eraseDups_concat (as : List α) (a : α) :
    (as ++ [a]).eraseDups = if a ∈ as then as.eraseDups else as.eraseDups ++ [a] := by
  rw [List.eraseDups_append]
  split
  · next hold =>
    have hnone : [a].removeAll as = [] := by simpa [List.removeAll] using hold
    rw [hnone, List.eraseDups_nil, List.append_nil]
  · next hnew =>
    have hone : [a].removeAll as = [a] := by simpa [List.removeAll] using hnew
    rw [hone, eraseDups_of_nodup (List.nodup_singleton a)]

/-! ## The order of first places -/

/-- The list `ds` holds each member of `as` once, in the order of their first places in `as`. -/
structure InFirstOrder (ds as : List α) : Prop where
  nodup : ds.Nodup
  mem_iff (a : α) : a ∈ ds ↔ a ∈ as
  order : ds.Pairwise fun a b => as.idxOf a < as.idxOf b

namespace InFirstOrder

variable {as ds es : List α} {a : α}

omit [LawfulBEq α] in
theorem unique (hd : InFirstOrder ds as) (he : InFirstOrder es as) : ds = es := by
  have hperm : ds.Perm es :=
    (List.perm_ext_iff_of_nodup hd.nodup he.nodup).mpr fun a => (hd.mem_iff a).trans (he.mem_iff a).symm
  exact hperm.eq_of_pairwise (fun a b _ _ hab hba => absurd hab hba.not_gt) hd.order he.order

/-- What follows behind does not move the first places. -/
theorem order_append (h : InFirstOrder ds as) (bs : List α) :
    ds.Pairwise fun a b => (as ++ bs).idxOf a < (as ++ bs).idxOf b := by
  refine h.order.imp_of_mem fun ha hb hab => ?_
  rwa [List.idxOf_append_of_mem ((h.mem_iff _).mp ha), List.idxOf_append_of_mem ((h.mem_iff _).mp hb)]

theorem concat_of_mem (h : InFirstOrder ds as) (ha : a ∈ as) : InFirstOrder ds (as ++ [a]) where
  nodup := h.nodup
  mem_iff b := by
    rw [h.mem_iff, List.mem_append, List.mem_singleton]
    exact ⟨.inl, fun hb => hb.elim id fun heq => heq ▸ ha⟩
  order := h.order_append [a]

theorem concat_of_not_mem (h : InFirstOrder ds as) (ha : a ∉ as) : InFirstOrder (ds ++ [a]) (as ++ [a]) where
  nodup := by
    have hnew : a ∉ ds := mt (h.mem_iff a).mp ha
    simpa [List.nodup_append, h.nodup] using fun b hb (heq : b = a) => hnew (heq ▸ hb)
  mem_iff b := by rw [List.mem_append, h.mem_iff, List.mem_append]
  order := by
    refine List.pairwise_append.mpr ⟨h.order_append [a], List.pairwise_singleton _ _, fun b hb c hc => ?_⟩
    obtain rfl := List.mem_singleton.mp hc
    have hb : b ∈ as := (h.mem_iff b).mp hb
    calc (as ++ [c]).idxOf b
        = as.idxOf b := List.idxOf_append_of_mem hb
      _ < as.length := List.idxOf_lt_length_of_mem hb
      _ ≤ as.length + [c].idxOf c := Nat.le_add_right _ _
      _ = (as ++ [c]).idxOf c := (List.idxOf_append_of_notMem ha).symm

end InFirstOrder

/-- Striking out keeps the first places, so it keeps their order. -/
theorem inFirstOrder_eraseDups (as : List α) : InFirstOrder as.eraseDups as := by
  induction as using List.reverseRecOn with
  | nil => exact ⟨List.nodup_nil, fun _ => Iff.rfl, List.Pairwise.nil⟩
  | append_singleton as a ih =>
    rw [eraseDups_concat]
    split
    · next hold => exact ih.concat_of_mem hold
    · next hnew => exact ih.concat_of_not_mem hnew

/-- **Only the list without its copies is in first order.** -/
theorem eq_eraseDups_iff {as ds : List α} : ds = as.eraseDups ↔ InFirstOrder ds as :=
  ⟨fun h => h ▸ inFirstOrder_eraseDups as, fun h => h.unique (inFirstOrder_eraseDups as)⟩

end Inlay
