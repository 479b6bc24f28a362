import Inlay.Proofs.Attributes.Groups

/-!
# One group for each name

The pairs of a tag are sorted by their names: what begins with `data-` goes to the one table, `class` becomes class
names, and all else goes to the other table. A name that has several values carries the last one. What has a value
is never a name without a value as well.

* `lastValue?` — the value that the last pair with a name has.
* `tagPairs` — the pairs of an opening tag.
* `Attributes.texts` — all texts that attributes hold.
* `Attributes.Sorts` — attributes that have each name of some pairs in its one group.

Main statements: `lookup_putPair`, `Pairs.lookup_ofList` (a table yields the last value that was put) and
`Attributes.sorts_ofTag`.
-/

namespace Inlay

open Markup

/-- The value that the last pair called `name` has, if there is such a pair. -/
def lastValue? (pairs : List QuotedPair) (name : Text) : Option Text :=
  ((pairs.filter (·.name = name)).getLast?).map (·.value)

/-- The pairs that stand in the attribute text of the first opening tag in `t`. -/
def tagPairs (t : Text) : List QuotedPair := ((attributeText? t).map quotedPairs).getD []

/-! ## Tables -/

section

variable {name value other : Text} {ps : Pairs}

/-- The name that is put has the new value, and all others keep theirs. -/
theorem lookup_putPair :
    (putPair name value ps).lookup other = if other = name then some value else ps.lookup other := by
  induction ps with
  | nil => by_cases ho : other = name <;> simp [putPair, List.lookup_cons, beq_eq_decide, ho]
  | cons p rest ih =>
    obtain ⟨n, v⟩ := p
    unfold putPair
    by_cases hn : n = name
    · subst hn
      by_cases ho : other = n <;> simp [List.lookup_cons, beq_eq_decide, ho]
    · rw [if_neg hn, List.lookup_cons, List.lookup_cons, ih]
      by_cases ho : other = n
      · simp [ho, hn]
      · simp [beq_eq_decide, ho]

/-- **A table yields the last value that was put under a name.** -/
theorem Pairs.lookup_ofList (ps : Pairs) (name : Text) :
    (ofList ps).lookup name = ((ps.filter (·.1 = name)).getLast?).map Prod.snd := by
  induction ps using List.reverseRecOn with
  | nil => rfl
  | append_singleton ps p ih =>
    have hput : ofList (ps ++ [p]) = putPair p.1 p.2 (ofList ps) := by simp [ofList]
    rw [hput, lookup_putPair, ih, List.filter_append]
    by_cases hp : p.1 = name
    · simp [hp]
    · simp [hp, Ne.symm hp]

end

namespace Attributes

/-- All names, values and class names of the attributes. -/
def texts (a : Attributes) : List Text :=
  a.classes ++ (a.data ++ a.other).flatMap (fun p => [p.1, p.2]) ++ a.flags

/-- The attributes have each name of the pairs in one group, with the value of the last pair. -/
structure Sorts (pairs : List QuotedPair) (a : Attributes) : Prop where
  data_start : ∀ p ∈ a.data, dataStart <+: p.1
  other_start : ∀ p ∈ a.other, ¬ dataStart <+: p.1 ∧ p.1 ≠ className
  flags_free : ∀ name ∈ a.flags, ∀ p ∈ a.data ++ a.other, p.1 ≠ name
  flags_class : (∃ p ∈ pairs, p.name = className) → className ∉ a.flags
  data_last : ∀ name, dataStart <+: name → a.data.lookup name = lastValue? pairs name
  other_last : ∀ name, ¬ dataStart <+: name → name ≠ className → a.other.lookup name = lastValue? pairs name
  classes_last : a.classes = ((lastValue? pairs className).map Text.words).elim [] List.eraseDups
  keys_nodup : ((a.data ++ a.other).map Prod.fst).Nodup
  isName : ∀ name ∈ (a.data ++ a.other).map Prod.fst ++ a.flags, isName name = true
  classes_nodup : a.classes.Nodup
  classes_word : ∀ word ∈ a.classes, word ≠ [] ∧ ∀ c ∈ word, Text.isBlank c = false
  closed : ∀ t ∈ a.texts, '>' ∉ t

variable {a : Attributes} {t name : Text} {belongs : Text → Bool}

/-- The group of a name has the value of its last pair. -/
theorem lookup_groupOf (hname : belongs name = true) :
    (Pairs.ofList (groupOf belongs t)).lookup name = lastValue? (quotedPairs t) name := by
  have hgroup : (groupOf belongs t).filter (·.1 = name) = ((quotedPairs t).filter (·.name = name)).map entry := by
    rw [groupOf, List.filter_map, List.filter_filter]
    refine congrArg (List.map entry) (List.filter_congr fun p _ => ?_)
    by_cases hp : p.name = name
    · simp [entry, hp, hname]
    · simp [entry, hp]
  rw [Pairs.lookup_ofList, hgroup, List.getLast?_map, Option.map_map]
  rfl

theorem InOrder.mem_texts (h : a.InOrder) : ∀ t ∈ a.texts, '>' ∉ t := by
  have hpairs : ∀ p ∈ a.data ++ a.other, '>' ∉ p.1 ∧ '>' ∉ p.2 := by
    intro p hp
    rcases List.mem_append.mp hp with hp | hp
    · exact ⟨not_mem_of_isName (h.data.isName p hp) (by decide), h.data.closed p hp⟩
    · exact ⟨not_mem_of_isName (h.other.isName p hp) (by decide), h.other.closed p hp⟩
  intro t ht
  rcases List.mem_append.mp ht with ht | hflag
  · rcases List.mem_append.mp ht with hclass | hpair
    · exact h.classes_closed t hclass
    · obtain ⟨p, hp, ht⟩ := List.mem_flatMap.mp hpair
      have hp := hpairs p hp
      simp only [List.mem_cons, List.not_mem_nil, or_false] at ht
      rcases ht with rfl | rfl
      · exact hp.1
      · exact hp.2
  · exact not_mem_of_isName (h.flags_isName t hflag) (by decide)

/-- The two tables have no name in common. -/
theorem InOrder.nodup_keys (h : a.InOrder) : ((a.data ++ a.other).map Prod.fst).Nodup := by
  rw [List.map_append, List.nodup_append]
  refine ⟨h.data.nodup, h.other.nodup, ?_⟩
  intro name hdata name' hother heq
  obtain ⟨p, hp, rfl⟩ := List.mem_map.mp hdata
  obtain ⟨q, hq, rfl⟩ := List.mem_map.mp hother
  have hstart := h.data.belongs p hp
  rw [heq, isData_of_isOtherName (h.other.belongs q hq)] at hstart
  cases hstart

/-- Attributes in order sort the pairs whose last values they have. -/
theorem InOrder.sorts {pairs : List QuotedPair} (h : a.InOrder)
    (hclass : (∃ p ∈ pairs, p.name = className) → className ∉ a.flags)
    (hdata : ∀ name, dataStart.isPrefixOf name = true → a.data.lookup name = lastValue? pairs name)
    (hother : ∀ name, isOtherName name = true → a.other.lookup name = lastValue? pairs name)
    (hclasses : a.classes = ((lastValue? pairs className).map Text.words).elim [] List.eraseDups) :
    a.Sorts pairs where
  data_start p hp := List.isPrefixOf_iff_prefix.mp (h.data.belongs p hp)
  other_start p hp := by
    have hp := h.other.belongs p hp
    refine ⟨fun hstart => ?_, ne_className_of_isOtherName hp⟩
    rw [← List.isPrefixOf_iff_prefix, isData_of_isOtherName hp] at hstart
    cases hstart
  flags_free name hname p hp heq := by
    obtain ⟨hdata, hother⟩ := h.flags_free name hname
    rcases List.mem_append.mp hp with hp | hp
    · exact hdata (heq ▸ List.mem_map_of_mem hp)
    · exact hother (heq ▸ List.mem_map_of_mem hp)
  flags_class := hclass
  data_last name hstart := hdata name (List.isPrefixOf_iff_prefix.mpr hstart)
  other_last name hstart hne := by
    refine hother name ?_
    rw [← List.isPrefixOf_iff_prefix] at hstart
    simp [isOtherName, hne, hstart]
  classes_last := hclasses
  keys_nodup := h.nodup_keys
  isName name hname := by
    rcases List.mem_append.mp hname with hkey | hflag
    · obtain ⟨p, hp, rfl⟩ := List.mem_map.mp hkey
      exact (List.mem_append.mp hp).elim (h.data.isName p) (h.other.isName p)
    · exact h.flags_isName name hflag
  classes_nodup := h.classes_nodup
  classes_word word hword := ⟨(h.classes_word word hword).ne_nil, (h.classes_word word hword).solid⟩
  closed := h.mem_texts

/-- **Each name of a tag's attributes is in one group, and carries the last value that it has been given.** -/
theorem sorts_ofTag (t : Text) : (ofTag t).Sorts (tagPairs t) := by
  have horder := inOrder_ofTag t
  unfold tagPairs
  unfold ofTag at horder ⊢
  cases htext : attributeText? t with
  | none =>
    rw [htext] at horder
    exact horder.sorts (by simp) (by simp [lastValue?]) (by simp [lastValue?]) rfl
  | some raw =>
    rw [htext] at horder
    refine horder.sorts ?_ ?_ ?_ ?_
    · rintro ⟨p, hp, hname⟩ hflag
      exact (of_mem_flags hflag).2 p hp hname
    · intro name hname
      exact (congrArg _ (data_foldl_put_empty _)).trans (lookup_groupOf hname)
    · intro name hname
      exact (congrArg _ (other_foldl_put_empty _)).trans (lookup_groupOf hname)
    · refine (classes_foldl_put (quotedPairs raw) {}).trans ?_
      show _ = ((lastValue? (quotedPairs raw) className).map Text.words).elim [] List.eraseDups
      unfold lastValue?
      cases ((quotedPairs raw).filter (·.name = className)).getLast? <;> rfl

end Attributes

end Inlay
