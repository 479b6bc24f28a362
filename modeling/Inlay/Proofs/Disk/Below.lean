import Inlay.Proofs.Disk.Select

/-!
# Patterns that stay below their directory

A glob pattern may hold two dots. What it selects still lies below its directory if the two dots never take away more
than the steps before them have added; a double star may add nothing.

* `Path.staysBelow`, `Glob.staysBelow` — names, and steps of a pattern, that never lead above where they start.

Main statements: `Path.exists_walk_eq` (such names lead to a place below any directory), `Glob.exists_of_selectFrom`
(what a pattern selects is written below its directory, and stays below it if the pattern does).
-/

namespace Inlay

open Disk

namespace Path

variable {depth : Nat} {names more : List Text}

/-- Whether the names, begun `depth` directories below a directory, never lead above it. -/
def staysBelow : Nat → List Text → Bool
  | _, [] => true
  | depth, name :: rest =>
    if name = upward then decide (0 < depth) && staysBelow (depth - 1) rest else staysBelow (depth + 1) rest

/-- **Names that stay below lead to the same place below every directory.** -/
theorem exists_walk_eq (h : staysBelow depth names = true) (below : List Text) (hbelow : below.length = depth) :
    ∃ rest, ∀ l, walk (l ++ below) names = l ++ rest := by
  induction names generalizing depth below with
  | nil => exact ⟨below, fun l => rfl⟩
  | cons name rest ih =>
    unfold staysBelow at h
    split at h
    · rename_i hup
      subst hup
      simp only [Bool.and_eq_true, decide_eq_true_eq] at h
      have hne : below ≠ [] := by
        rintro rfl
        exact absurd h.1 (by simp [← hbelow])
      obtain ⟨rest', hrest⟩ := ih h.2 below.dropLast (by simp [hbelow])
      exact ⟨rest', fun l => by rw [walk_upward, List.dropLast_append_of_ne_nil hne, hrest]⟩
    · rename_i hup
      obtain ⟨rest', hrest⟩ := ih h (below ++ [name]) (by simp [hbelow])
      exact ⟨rest', fun l => by rw [walk_cons hup, List.append_assoc, hrest]⟩

theorem staysBelow_mono {depth' : Nat} (h : staysBelow depth names = true) (hle : depth ≤ depth') :
    staysBelow depth' names = true := by
  induction names generalizing depth depth' with
  | nil => rfl
  | cons name rest ih =>
    unfold staysBelow at h ⊢
    split
    · rename_i hup
      rw [if_pos hup] at h
      simp only [Bool.and_eq_true, decide_eq_true_eq] at h ⊢
      exact ⟨by omega, ih h.2 (by omega)⟩
    · rename_i hup
      rw [if_neg hup] at h
      exact ih h (by omega)

/-- Names that lead straight down take the ones behind them further down. -/
theorem staysBelow_append (hlevel : upward ∉ names) :
    staysBelow depth (names ++ more) = staysBelow (depth + names.length) more := by
  induction names generalizing depth with
  | nil => rfl
  | cons name rest ih =>
    obtain ⟨hname, hrest⟩ := List.ne_and_not_mem_of_not_mem_cons hlevel
    rw [List.cons_append, staysBelow, if_neg hname.symm, ih hrest, List.length_cons]
    congr 1
    omega

end Path

namespace Glob

variable {d : Disk} {only : Bool} {p q : Path} {qs : List Path} {steps : List GlobStep}

/-- Whether the steps of a pattern, begun `depth` directories below a directory, never lead above it. -/
def staysBelow : Nat → List GlobStep → Bool
  | _, [] => true
  | depth, .name text :: rest =>
    if text = Path.upward then decide (0 < depth) && staysBelow (depth - 1) rest else staysBelow (depth + 1) rest
  | depth, .pattern _ :: rest => staysBelow (depth + 1) rest
  | depth, .anyDepth :: rest => staysBelow depth rest

/-- **What a pattern selects is written below its directory, and stays below it if the pattern does.** -/
theorem exists_of_selectFrom (hd : d.IsTree) (h : selectFrom d only steps p = .ok qs) (hq : q ∈ qs) :
    ∃ names, q = p.join ⟨.working, names⟩ ∧
      ∀ depth, staysBelow depth steps = true → Path.staysBelow depth names = true := by
  induction steps generalizing p q qs with
  | nil =>
    cases h
    obtain rfl := List.mem_singleton.mp hq
    exact ⟨[], (Path.join_nil q).symm, fun _ _ => rfl⟩
  | cons step rest ih =>
    rcases selectFrom_cases h with
      ⟨text, rfl, rfl | hqs⟩ | ⟨wildcards, found, rfl, hsub, hall, rfl⟩ | ⟨rfl, hall, rfl⟩
    · cases hq
    · obtain ⟨names, rfl, hstays⟩ := ih hqs hq
      refine ⟨text :: names, by rw [Path.child_eq_join, Path.join_join]; rfl, fun depth h => ?_⟩
      unfold staysBelow at h
      unfold Path.staysBelow
      split at h
      · rename_i hup
        simp only [Bool.and_eq_true] at h
        rw [if_pos hup, h.1, hstays _ h.2]
        rfl
      · rename_i hup
        rw [if_neg hup]
        exact hstays _ h
    · obtain ⟨name, hname, hmem⟩ := List.mem_flatMap.mp hq
      obtain ⟨qs', hqs'⟩ := hall name hname
      rw [hqs'] at hmem
      obtain ⟨names, rfl, hstays⟩ := ih hqs' hmem
      obtain ⟨node, hn⟩ := hd.mem_namesIn_iff.mp (hsub.subset hname)
      have hlevel : name ≠ Path.upward := (hd.isName hn (by simp)).level
      refine ⟨name :: names, by rw [Path.child_eq_join, Path.join_join]; rfl, fun depth h => ?_⟩
      unfold Path.staysBelow
      rw [if_neg hlevel]
      exact hstays _ h
    · obtain ⟨dir, hdir, hmem⟩ := List.mem_flatMap.mp (List.mem_eraseDups.mp hq)
      obtain ⟨qs', hqs'⟩ := hall dir hdir
      rw [hqs'] at hmem
      obtain ⟨names, rfl, hstays⟩ := ih hqs' hmem
      obtain ⟨-, down, rfl, hn⟩ := (mem_directories_iff hd).mp hdir
      have hlevel : Path.upward ∉ down := fun hup => hd.level hn (List.mem_append_right _ hup)
      refine ⟨down ++ names, Path.join_join p down names, fun depth h => ?_⟩
      rw [Path.staysBelow_append hlevel]
      exact Path.staysBelow_mono (hstays depth h) (Nat.le_add_right _ _)

end Glob

end Inlay
