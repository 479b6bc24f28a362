import Mathlib
import Inlay.Disk.Path

/-!
# Written paths

A path that comes from a text has proper names only: none is empty, a single dot, or holds a slash. Such
a path is told from its text.

* `Path.Written` — the paths that some text writes.

Main statements: `Path.written_ofText`, `Path.ofText_text` (writing and reading a path gives it back) and
`Path.Written.text_inj`.
-/

namespace Inlay

namespace Text

variable {separator : Char} {t piece : Text}

theorem splitOn_ne_nil (separator : Char) (t : Text) : splitOn separator t ≠ [] := by
  cases t with
  | nil => simp [splitOn]
  | cons c rest =>
    unfold splitOn
    split
    · simp
    · split <;> simp

theorem splitOn_separator (separator : Char) (t : Text) :
    splitOn separator (separator :: t) = [] :: splitOn separator t := by
  conv => lhs; unfold splitOn
  split
  · rename_i h
    exact absurd h (splitOn_ne_nil separator t)
  · rename_i h
    rw [if_pos rfl, h]

theorem splitOn_eq_singleton (h : separator ∉ t) : splitOn separator t = [t] := by
  induction t with
  | nil => rfl
  | cons c rest ih =>
    obtain ⟨hc, hrest⟩ := List.ne_and_not_mem_of_not_mem_cons h
    unfold splitOn
    rw [ih hrest]
    exact if_neg hc.symm

/-- A piece ends at the first separator. -/
theorem splitOn_append (h : separator ∉ piece) (t : Text) :
    splitOn separator (piece ++ separator :: t) = piece :: splitOn separator t := by
  induction piece with
  | nil => exact splitOn_separator separator t
  | cons c rest ih =>
    obtain ⟨hc, hrest⟩ := List.ne_and_not_mem_of_not_mem_cons h
    conv => lhs; rw [List.cons_append]; unfold splitOn
    rw [ih hrest]
    exact if_neg hc.symm

/-- A text without separators goes into the first piece of what follows it. -/
theorem exists_splitOn_append (h : separator ∉ piece) (t : Text) :
    ∃ first rest, splitOn separator t = first :: rest ∧
      splitOn separator (piece ++ t) = (piece ++ first) :: rest := by
  induction piece with
  | nil =>
    obtain ⟨first, rest, ht⟩ := List.exists_cons_of_ne_nil (splitOn_ne_nil separator t)
    exact ⟨first, rest, ht, ht⟩
  | cons c more ih =>
    obtain ⟨hc, hmore⟩ := List.ne_and_not_mem_of_not_mem_cons h
    obtain ⟨first, rest, ht, happend⟩ := ih hmore
    refine ⟨first, rest, ht, ?_⟩
    rw [List.cons_append]
    unfold splitOn
    rw [happend]
    exact if_neg hc.symm

theorem not_mem_of_mem_splitOn (h : piece ∈ splitOn separator t) : separator ∉ piece := by
  induction t generalizing piece with
  | nil =>
    obtain rfl : piece = [] := by simpa [splitOn] using h
    exact List.not_mem_nil
  | cons c rest ih =>
    obtain ⟨first, pieces, hrest⟩ := List.exists_cons_of_ne_nil (splitOn_ne_nil separator rest)
    unfold splitOn at h
    rw [hrest] at h ih
    dsimp only at h
    split at h
    · rcases List.mem_cons.mp h with rfl | h
      · exact List.not_mem_nil
      · exact ih h
    · rename_i hc
      rcases List.mem_cons.mp h with rfl | h
      · exact List.not_mem_cons_of_ne_of_not_mem (Ne.symm hc) (ih List.mem_cons_self)
      · exact ih (List.mem_cons_of_mem _ h)

theorem splitOn_join {pieces : List Text} (hne : pieces ≠ []) (h : ∀ piece ∈ pieces, separator ∉ piece) :
    splitOn separator (join [separator] pieces) = pieces := by
  induction pieces with
  | nil => exact absurd rfl hne
  | cons piece rest ih =>
    have hpiece := h piece List.mem_cons_self
    cases rest with
    | nil =>
      rw [show join [separator] [piece] = piece by simp [join, List.intercalate]]
      exact splitOn_eq_singleton hpiece
    | cons next more =>
      rw [show join [separator] (piece :: next :: more) =
          piece ++ separator :: join [separator] (next :: more) by simp [join, List.intercalate],
        splitOn_append hpiece, ih (by simp) fun q hq => h q (List.mem_cons_of_mem _ hq)]

end Text

namespace Path

variable {p q : Path}

/-- The paths that some text writes: each name is proper. -/
def Written (p : Path) : Prop := ∀ name ∈ p.names, name ≠ [] ∧ name ≠ ['.'] ∧ '/' ∉ name

instance (p : Path) : Decidable p.Written := inferInstanceAs (Decidable (∀ name ∈ p.names, _))

theorem written_ofText (t : Text) : (ofText t).Written := by
  intro name hname
  obtain ⟨hmem, hproper⟩ := List.mem_filter.mp hname
  simp only [Bool.and_eq_true, Bool.not_eq_true', List.isEmpty_eq_false_iff, bne_iff_ne] at hproper
  exact ⟨hproper.1, hproper.2, Text.not_mem_of_mem_splitOn hmem⟩

/-- What a text without slashes writes in front of another text is the beginning of one more name. -/
theorem ofText_append {name : Text} (hne : name ≠ []) (hslash : '/' ∉ name) (t : Text) :
    (ofText (name ++ t)).root = .working ∧
      ∀ other ∈ (ofText (name ++ t)).names, other ∈ (ofText t).names ∨ name <+: other := by
  constructor
  · obtain ⟨c, rest, rfl⟩ := List.exists_cons_of_ne_nil hne
    have hc : c ≠ '/' := (List.ne_and_not_mem_of_not_mem_cons hslash).1.symm
    simp [ofText, hc]
  · intro other hother
    obtain ⟨first, rest, ht, happend⟩ := Text.exists_splitOn_append hslash t
    obtain ⟨hmem, hproper⟩ := List.mem_filter.mp hother
    rw [happend] at hmem
    rcases List.mem_cons.mp hmem with rfl | hmem
    · exact .inr (List.prefix_append _ _)
    · refine .inl (List.mem_filter.mpr ⟨?_, hproper⟩)
      rw [ht]
      exact List.mem_cons_of_mem _ hmem

theorem ofText_of_proper {name : Text} (hne : name ≠ []) (hdot : name ≠ ['.']) (hslash : '/' ∉ name) :
    ofText name = ⟨.working, [name]⟩ := by
  obtain ⟨c, rest, rfl⟩ := List.exists_cons_of_ne_nil hne
  have hc : c ≠ '/' := (List.ne_and_not_mem_of_not_mem_cons hslash).1.symm
  simp [ofText, hc, Text.splitOn_eq_singleton hslash, hdot]

theorem Written.parent (h : p.Written) : p.parent.Written :=
  fun name hname => h name (List.dropLast_subset _ hname)

theorem Written.join (h : p.Written) (hq : q.Written) : (p.join q).Written := by
  unfold Path.join
  cases q with
  | mk root names =>
    cases root with
    | working =>
      intro name hname
      rcases List.mem_append.mp hname with hname | hname
      · exact h name hname
      · exact hq name hname
    | top => exact hq
    | doubled => exact hq

/-- The slashes of the root alone stand at the head of what is written. -/
theorem takeWhile_bareText (h : p.Written) : p.bareText.takeWhile (· = '/') = p.root.text := by
  have hnames : (Text.join ['/'] p.names).takeWhile (· = '/') = [] := by
    match hn : p.names with
    | [] => rfl
    | [] :: rest => exact absurd rfl (h [] (by simp [hn])).1
    | (c :: name) :: rest =>
      have hc : c ≠ '/' := by
        have := (h (c :: name) (by simp [hn])).2.2
        exact (List.ne_and_not_mem_of_not_mem_cons this).1.symm
      cases rest <;> simp [Text.join, List.intercalate, hc]
  unfold bareText
  cases p.root <;> simp [PathRoot.text, hnames]

theorem splitOn_bareText (h : p.Written) :
    (Text.splitOn '/' p.bareText).filter (fun name => !name.isEmpty && name != ['.']) = p.names := by
  have hproper : p.names.filter (fun name => !name.isEmpty && name != ['.']) = p.names := by
    rw [List.filter_eq_self]
    intro name hname
    obtain ⟨h₁, h₂, -⟩ := h name hname
    simp [h₁, h₂]
  have hnames : (Text.splitOn '/' (Text.join ['/'] p.names)).filter
      (fun name => !name.isEmpty && name != ['.']) = p.names := by
    by_cases hn : p.names = []
    · simp [hn, Text.join, List.intercalate, Text.splitOn]
    · rw [Text.splitOn_join hn fun name hname => (h name hname).2.2, hproper]
  unfold bareText
  cases p.root <;> simp [PathRoot.text, Text.splitOn_separator, hnames]

/-- Writing a path and reading it gives it back. -/
theorem ofText_text (h : p.Written) : ofText p.text = p := by
  have hroot := takeWhile_bareText h
  have hnames := splitOn_bareText h
  obtain ⟨root, names⟩ := p
  unfold text
  split
  · rename_i hempty
    rw [List.isEmpty_iff] at hempty
    rw [hempty] at hroot hnames
    cases root <;> simp [PathRoot.text] at hroot
    simp only [Text.splitOn, List.filter_cons, List.isEmpty_nil, Bool.not_true, Bool.false_and,
      List.filter_nil, Bool.false_eq_true, if_false] at hnames
    rw [← hnames]
    rfl
  · unfold ofText
    rw [hroot, hnames]
    cases root <;> rfl

theorem Written.text_inj (hp : p.Written) (hq : q.Written) (h : p.text = q.text) : p = q := by
  rw [← ofText_text hp, h, ofText_text hq]

end Path

end Inlay
