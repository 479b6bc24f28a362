import Inlay.Disk.Exchange
import Inlay.Proofs.Disk.Place

/-!
# Disks that are trees

* `Disk.IsName` — what the system takes for a name in a directory.
* `Disk.IsTree` — every entry has its own location, lies in a directory, and has proper names.
* `Disk.holding` — a disk made from a table of files.

Main statements: `IsTree.put` and `IsTree.clear` (the changes of a disk keep it a tree), `IsTree.opensFrom`
(the way to an entry is open), `IsTree.mem_namesIn_iff` and `IsTree.nodup_namesIn` (a directory lists each
of its entries once).
-/

namespace Inlay.Disk

/-- What the system takes for a name in a directory. -/
structure IsName (name : Text) : Prop where
  nonempty : name ≠ []
  undotted : name ≠ ['.']
  level : name ≠ Path.upward
  unslashed : '/' ∉ name
  plain : '\x00' ∉ name
  short : Utf8.size name ≤ longestName

instance (name : Text) : Decidable (IsName name) :=
  decidable_of_iff (name ≠ [] ∧ name ≠ ['.'] ∧ name ≠ Path.upward ∧ '/' ∉ name ∧ '\x00' ∉ name ∧
      Utf8.size name ≤ longestName)
    ⟨fun ⟨h₁, h₂, h₃, h₄, h₅, h₆⟩ => ⟨h₁, h₂, h₃, h₄, h₅, h₆⟩,
      fun h => ⟨h.nonempty, h.undotted, h.level, h.unslashed, h.plain, h.short⟩⟩

/-- Every entry has its own location, lies in a directory, and has proper names. -/
structure IsTree (d : Disk) : Prop where
  rooted : ∀ e ∈ d.entries, d.node? e.1.dropLast = some .directory
  distinct : (d.entries.map Prod.fst).Nodup
  named : ∀ e ∈ d.entries, ∀ name ∈ e.1, IsName name

instance (d : Disk) : Decidable d.IsTree :=
  decidable_of_iff ((∀ e ∈ d.entries, d.node? e.1.dropLast = some .directory) ∧
      (d.entries.map Prod.fst).Nodup ∧ ∀ e ∈ d.entries, ∀ name ∈ e.1, IsName name)
    ⟨fun ⟨h₁, h₂, h₃⟩ => ⟨h₁, h₂, h₃⟩, fun h => ⟨h.rooted, h.distinct, h.named⟩⟩

/-- A disk that holds the given files, the directories above them, and nothing else. Its working directory is
the top. -/
def holding (files : List (Text × Text)) : Disk where
  working := []
  entries :=
    ((files.flatMap fun f => (above (Path.ofText f.1).names).tail).eraseDups.map (·, .directory)) ++
      files.map fun f => ((Path.ofText f.1).names, .file (Utf8.encode f.2))

variable {d : Disk} {p : Path} {l k : Location} {name : Text} {names : List Text} {node : Node}

theorem node?_nil (d : Disk) : d.node? [] = some .directory := if_pos rfl

/-- What is no directory is not the top. -/
theorem ne_nil_of_not_directory (h : d.node? l ≠ some .directory) : l ≠ [] := by
  rintro rfl
  exact h (node?_nil d)

theorem mem_entries_of_node? (hl : l ≠ []) (h : d.node? l = some node) : (l, node) ∈ d.entries := by
  unfold node? at h
  rw [if_neg hl, List.lookup_eq_some_iff] at h
  obtain ⟨before, after, he, -⟩ := h
  simp [he]

theorem isBelow_iff : isBelow k l = true ↔ k <+: l ∧ l ≠ k := by
  simp [isBelow]

theorem isBelow_of_prefix {l' : Location} (h : isBelow k l = true) (hpre : l <+: l') : isBelow k l' = true := by
  obtain ⟨hk, hne⟩ := isBelow_iff.mp h
  refine isBelow_iff.mpr ⟨hk.trans hpre, ?_⟩
  rintro rfl
  exact hne (hpre.eq_of_length (Nat.le_antisymm hpre.length_le hk.length_le))

namespace IsTree

variable (hd : d.IsTree)

include hd

theorem node?_eq_of_mem (hl : l ≠ []) (h : (l, node) ∈ d.entries) : d.node? l = some node := by
  unfold node?
  rw [if_neg hl, List.lookup_eq_some_iff]
  obtain ⟨before, after, he⟩ := List.append_of_mem h
  refine ⟨before, after, he, fun e hmem => ?_⟩
  have hdistinct := hd.distinct
  rw [he, List.map_append, List.map_cons, List.nodup_append] at hdistinct
  have := hdistinct.2.2 e.1 (List.mem_map_of_mem hmem) l List.mem_cons_self
  simpa using Ne.symm this

/-- What holds an entry is a directory. -/
theorem parent (h : d.node? (l ++ [name]) = some node) : d.node? l = some .directory := by
  have := hd.rooted _ (mem_entries_of_node? (by simp) h)
  rwa [List.dropLast_concat] at this

theorem above (h : d.node? (l ++ names) = some node) (hn : names ≠ []) :
    d.node? l = some .directory := by
  induction names generalizing l with
  | nil => exact absurd rfl hn
  | cons name rest ih =>
    rw [← List.singleton_append, ← List.append_assoc] at h
    cases rest with
    | nil =>
      rw [List.append_nil] at h
      exact hd.parent h
    | cons next more => exact hd.parent (ih h (by simp))

theorem isName (h : d.node? l = some node) (hn : name ∈ l) : IsName name := by
  have hl : l ≠ [] := List.ne_nil_of_mem hn
  exact hd.named _ (mem_entries_of_node? hl h) name hn

theorem level (h : d.node? l = some node) : Path.upward ∉ l :=
  fun hup => (hd.isName h hup).level rfl

/-- The way down to an entry is open. -/
theorem opensFrom (h : d.node? (l ++ names) = some node) : d.OpensFrom l names := by
  induction names generalizing l with
  | nil => trivial
  | cons name rest ih =>
    have hname : IsName name := hd.isName h (by simp)
    refine ⟨hd.above h (by simp), ?_⟩
    rw [if_neg hname.level]
    refine ⟨hname.short, ih ?_⟩
    rwa [List.append_assoc, List.singleton_append]

theorem put (hl : l ≠ []) (habove : d.node? l.dropLast = some .directory)
    (hname : ∀ name, l.getLast? = some name → IsName name) (hfree : d.node? l ≠ some .directory) :
    (d.put l node).IsTree where
  rooted e he := by
    rw [node?_put d hl]
    rcases List.mem_cons.mp he with rfl | he
    · rw [if_neg, habove]
      intro h
      have hlen := congrArg List.length h
      have hpos := List.length_pos_iff.mpr hl
      dsimp only at hlen
      rw [List.length_dropLast] at hlen
      omega
    · have hparent := hd.rooted e (List.mem_filter.mp he).1
      rw [if_neg, hparent]
      intro h
      rw [h] at hparent
      exact hfree hparent
  distinct := by
    unfold Disk.put
    rw [List.map_cons, List.nodup_cons]
    constructor
    · intro h
      obtain ⟨e, he, rfl⟩ := List.mem_map.mp h
      simp at he
    · exact hd.distinct.sublist (List.filter_sublist.map _)
  named e he := by
    rcases List.mem_cons.mp he with rfl | he
    · intro name hmem
      rw [← List.dropLast_concat_getLast hl, List.mem_append, List.mem_singleton] at hmem
      rcases hmem with hmem | rfl
      · exact hd.isName habove hmem
      · exact hname _ (List.getLast?_eq_some_getLast hl)
    · exact hd.named e (List.mem_filter.mp he).1

theorem clear (k : Location) : (d.clear k).IsTree where
  rooted e he := by
    obtain ⟨hmem, hk⟩ := List.mem_filter.mp he
    rw [node?_clear, if_neg, hd.rooted e hmem]
    -- What lies above an entry that stays is not below the emptied location either.
    intro hb
    obtain ⟨hpre, hne⟩ := isBelow_iff.mp hb
    have hbelow : isBelow k e.1 = true := by
      refine isBelow_iff.mpr ⟨hpre.trans (List.dropLast_prefix _), fun h => ?_⟩
      have := hpre.length_le
      rw [← h, List.length_dropLast] at this
      have hnil : e.1 = [] := List.length_eq_zero_iff.mp (by omega)
      rw [← h, hnil] at hne
      exact hne rfl
    rw [hbelow] at hk
    cases hk
  distinct := hd.distinct.sublist (List.filter_sublist.map _)
  named e he := hd.named e (List.mem_filter.mp he).1

theorem locate_join (h : d.node? (d.locate p ++ names) = some node) :
    d.locate (p.join ⟨.working, names⟩) = d.locate p ++ names := by
  rw [Disk.locate_join, walk_eq_append]
  exact fun hup => hd.level h (List.mem_append_right _ hup)

/-- What lies below a directory that is found can be reached, unless its path is too long. -/
theorem opens_join (hp : d.isDirectory p = .ok true) (h : d.node? (d.locate p ++ names) = some node)
    (hlong : ¬ d.Overlong (p.join ⟨.working, names⟩)) : d.Opens (p.join ⟨.working, names⟩) := by
  obtain ⟨ho, -⟩ := isDirectory_eq_true_iff.mp hp
  have hplain : (p.join ⟨.working, names⟩).names.any (·.contains '\x00') = false := by
    show (p.names ++ names).any _ = false
    rw [List.any_append, ho.usable.plain, Bool.false_or, List.any_eq_false]
    intro name hname
    simpa using (hd.isName h (List.mem_append_right _ hname)).plain
  refine ⟨⟨hplain, ?_⟩, ?_⟩
  · by_contra hs
    apply hlong
    unfold Overlong follow
    rw [hplain, if_neg Bool.false_ne_true, if_pos (Nat.not_lt.mp hs)]
  · show d.OpensFrom (d.base p.root) (p.names ++ names)
    exact opensFrom_append.mpr ⟨ho.steps, hd.opensFrom h⟩

/-- A directory below a directory that is found is found, unless its path is too long. -/
theorem isDirectory_join_iff (hp : d.isDirectory p = .ok true)
    (h : d.node? (d.locate p ++ names) = some .directory) :
    d.isDirectory (p.join ⟨.working, names⟩) = .ok true ↔ ¬ d.Overlong (p.join ⟨.working, names⟩) := by
  constructor
  · intro hdir
    exact exists_isDirectory_iff.mp ⟨true, hdir⟩
  · intro hlong
    exact isDirectory_eq_true_iff.mpr ⟨hd.opens_join hp h hlong, by rw [hd.locate_join h, h]⟩

/-! ## Listing a directory -/

theorem mem_namesIn_iff : name ∈ d.namesIn l ↔ ∃ node, d.node? (l ++ [name]) = some node := by
  unfold namesIn
  rw [(List.mergeSort_perm _ _).mem_iff, List.mem_filterMap]
  constructor
  · rintro ⟨⟨key, node⟩, he, hname⟩
    split at hname
    · rename_i hkey
      have hne : key ≠ [] := by rintro rfl; cases hname
      have hlast := List.dropLast_append_getLast? _ hname
      dsimp only at hkey hlast
      rw [hkey] at hlast
      exact ⟨node, hlast ▸ hd.node?_eq_of_mem hne he⟩
    · cases hname
  · rintro ⟨node, hn⟩
    exact ⟨(l ++ [name], node), mem_entries_of_node? (by simp) hn, by simp⟩

theorem nodup_namesIn (l : Location) : (d.namesIn l).Nodup := by
  unfold namesIn
  apply List.Nodup.mergeSort
  have hkeys := hd.distinct
  rw [List.Nodup, List.pairwise_map] at hkeys
  rw [List.Nodup, List.pairwise_filterMap]
  refine hkeys.imp fun {e f} hne name he name' hf => ?_
  rintro rfl
  split at he <;> split at hf
  · rename_i hel hfl
    apply hne
    have h₁ := List.dropLast_append_getLast? _ he
    have h₂ := List.dropLast_append_getLast? _ hf
    rw [hel] at h₁
    rw [hfl] at h₂
    rw [← h₁, ← h₂]
  all_goals simp_all

end IsTree

end Inlay.Disk
