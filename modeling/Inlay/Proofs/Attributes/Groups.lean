import Inlay.Attributes.Write
import Inlay.Proofs.Attributes.Merging
import Inlay.Proofs.Attributes.Written

/-!
# The groups of attributes

What has been read from a tag is in order: every class name is a word and stands once, every pair stands once
and in the group of its name, and a name without a value is not the name of a pair. Attributes that are in
order are read back from the list in which they are written.

* `Pairs.InOrder`, `Attributes.InOrder` — attributes as they are read from a tag.
* `Attributes.rest`, `Attributes.list` — the attributes in the order in which they are written.

Main statements: `Attributes.inOrder_ofTag` (what is read is in order), `Attributes.ofList_cons_rest` (a class
attribute in front of the others is read) and `Attributes.ofList_list` (attributes in order are read back).
-/

namespace Inlay

open Markup

/-! ## Tables -/

section

variable {name value : Text} {ps : Pairs} {p : Text × Text}

theorem mem_putPair (h : p ∈ putPair name value ps) : p = (name, value) ∨ p ∈ ps := by
  induction ps with
  | nil => exact .inl (List.mem_singleton.mp h)
  | cons q rest ih =>
    unfold putPair at h
    split at h
    · next heq =>
      rcases List.mem_cons.mp h with rfl | h
      · exact .inl (by rw [heq])
      · exact .inr (List.mem_cons_of_mem _ h)
    · rcases List.mem_cons.mp h with rfl | h
      · exact .inr List.mem_cons_self
      · exact (ih h).imp_right (List.mem_cons_of_mem _)

theorem putPair_of_not_mem (h : name ∉ ps.map Prod.fst) : putPair name value ps = ps ++ [(name, value)] := by
  induction ps with
  | nil => rfl
  | cons q rest ih =>
    rw [List.map_cons, List.mem_cons, not_or] at h
    rw [putPair, if_neg (Ne.symm h.1), ih h.2]
    rfl

theorem nodup_keys_putPair (h : (ps.map Prod.fst).Nodup) :
    ((putPair name value ps).map Prod.fst).Nodup := by
  rw [keys_putPair]
  split
  · exact h
  · next hnew => simpa using h.concat hnew

theorem foldl_putPair_of_nodup (table : Pairs) (h : ((table ++ ps).map Prod.fst).Nodup) :
    ps.foldl (fun table p => putPair p.1 p.2 table) table = table ++ ps := by
  induction ps generalizing table with
  | nil => rw [List.foldl_nil, List.append_nil]
  | cons p rest ih =>
    have hassoc : table ++ p :: rest = table ++ [p] ++ rest := by simp
    have hnew : p.1 ∉ table.map Prod.fst := by
      rw [List.map_append, List.nodup_append] at h
      exact fun hmem => h.2.2 _ hmem _ (List.mem_map_of_mem List.mem_cons_self) rfl
    rw [List.foldl_cons, putPair_of_not_mem hnew, ih _ (hassoc ▸ h), hassoc]

/-- A table without copies is the table of its own pairs. -/
theorem Pairs.ofList_of_nodup (h : (ps.map Prod.fst).Nodup) : Pairs.ofList ps = ps :=
  foldl_putPair_of_nodup [] h

end

/-- The names are names that belong to the group, each stands once, and no value holds a greater-than sign. -/
structure Pairs.InOrder (belongs : Text → Bool) (ps : Pairs) : Prop where
  nodup : (ps.map Prod.fst).Nodup
  isName : ∀ p ∈ ps, isName p.1 = true
  belongs : ∀ p ∈ ps, belongs p.1 = true
  closed : ∀ p ∈ ps, '>' ∉ p.2

namespace Pairs

variable {belongs : Text → Bool} {ps table : Pairs}

theorem InOrder.put (h : table.InOrder belongs) {p : Text × Text} (hname : Markup.isName p.1 = true)
    (hbelongs : belongs p.1 = true) (hclosed : '>' ∉ p.2) : (putPair p.1 p.2 table).InOrder belongs where
  nodup := nodup_keys_putPair h.nodup
  isName q hq := (mem_putPair hq).elim (fun heq => heq ▸ hname) (h.isName q)
  belongs q hq := (mem_putPair hq).elim (fun heq => heq ▸ hbelongs) (h.belongs q)
  closed q hq := (mem_putPair hq).elim (fun heq => heq ▸ hclosed) (h.closed q)

theorem inOrder_ofList (hname : ∀ p ∈ ps, Markup.isName p.1 = true) (hbelongs : ∀ p ∈ ps, belongs p.1 = true)
    (hclosed : ∀ p ∈ ps, '>' ∉ p.2) : (ofList ps).InOrder belongs := by
  have hrun {table : Pairs} (htable : table.InOrder belongs) :
      (ps.foldl (fun table p => putPair p.1 p.2 table) table).InOrder belongs := by
    induction ps generalizing table with
    | nil => exact htable
    | cons p rest ih =>
      obtain ⟨hname, hnames⟩ := List.forall_mem_cons.mp hname
      obtain ⟨hbelongs, hbelong⟩ := List.forall_mem_cons.mp hbelongs
      obtain ⟨hclosed, hcloseds⟩ := List.forall_mem_cons.mp hclosed
      exact ih hnames hbelong hcloseds (htable.put hname hbelongs hclosed)
  exact hrun ⟨List.nodup_nil, by simp, by simp, by simp⟩

theorem keys_ofList_subset : ∀ name ∈ (ofList ps).map Prod.fst, name ∈ ps.map Prod.fst := by
  have hrun {table : Pairs} :
      ∀ name ∈ (ps.foldl (fun table p => putPair p.1 p.2 table) table).map Prod.fst,
        name ∈ table.map Prod.fst ∨ name ∈ ps.map Prod.fst := by
    induction ps generalizing table with
    | nil => exact fun name h => .inl h
    | cons p rest ih =>
      intro name h
      rcases ih name h with hput | hrest
      · rw [keys_putPair] at hput
        split at hput
        · exact .inl hput
        · rcases List.mem_append.mp hput with hold | hnew
          · exact .inl hold
          · exact .inr (by simp [List.mem_singleton.mp hnew])
      · exact .inr (List.mem_cons_of_mem _ hrest)
  intro name h
  exact (hrun name h).resolve_left List.not_mem_nil

end Pairs

namespace Attributes

/-! ## Putting pairs one after the other -/

/-- The group of the pairs that are neither class names nor `data-` pairs. -/
def isOtherName (name : Text) : Bool := name ≠ className && !dataStart.isPrefixOf name

/-- The pair as an entry of a table. -/
def entry (p : QuotedPair) : Text × Text := (p.name, p.value)

variable {a : Attributes} {pairs : List QuotedPair}

/-- A table that takes the pairs with certain names takes them one after the other. -/
theorem table_foldl_put {table : Attributes → Pairs} {belongs : Text → Bool}
    (hput : ∀ a p, table (put a p) = if belongs p.name then putPair p.name p.value (table a) else table a)
    (pairs : List QuotedPair) (a : Attributes) :
    table (pairs.foldl put a) =
      ((pairs.filter fun p => belongs p.name).map entry).foldl
        (fun table p => putPair p.1 p.2 table) (table a) := by
  induction pairs generalizing a with
  | nil => rfl
  | cons p pairs ih =>
    rw [List.foldl_cons, ih, hput]
    split
    · next h =>
      rw [List.filter_cons_of_pos (by exact h)]
      rfl
    · next h => rw [List.filter_cons_of_neg (by exact h)]

theorem data_foldl_put (pairs : List QuotedPair) (a : Attributes) :
    (pairs.foldl put a).data =
      ((pairs.filter fun p => dataStart.isPrefixOf p.name).map entry).foldl
        (fun table p => putPair p.1 p.2 table) a.data := by
  refine table_foldl_put (fun a p => ?_) pairs a
  unfold put
  split
  · next hclass => rw [hclass, if_neg (by decide)]
  · split <;> rfl

theorem other_foldl_put (pairs : List QuotedPair) (a : Attributes) :
    (pairs.foldl put a).other =
      ((pairs.filter fun p => isOtherName p.name).map entry).foldl
        (fun table p => putPair p.1 p.2 table) a.other := by
  refine table_foldl_put (fun a p => ?_) pairs a
  unfold put
  split
  · next hclass => rw [hclass, if_neg (by decide)]
  · next hclass =>
    split
    · next hdata => rw [if_neg (by simp [isOtherName, hdata])]
    · next hdata => rw [if_pos (by simp [isOtherName, hclass, hdata])]

theorem classes_foldl_put (pairs : List QuotedPair) (a : Attributes) :
    (pairs.foldl put a).classes =
      ((pairs.filter (·.name = className)).getLast?.map fun p => mergeClasses [] (Text.words p.value)).getD
        a.classes := by
  induction pairs generalizing a with
  | nil => rfl
  | cons p pairs ih =>
    rw [List.foldl_cons, ih]
    unfold put
    split
    · next hclass =>
      rw [List.filter_cons_of_pos (by simpa using hclass), List.getLast?_cons]
      cases (pairs.filter (·.name = className)).getLast? <;> rfl
    · next hclass =>
      rw [List.filter_cons_of_neg (by simpa using hclass)]
      split <;> rfl

theorem data_foldl_put_empty (pairs : List QuotedPair) :
    (pairs.foldl put {}).data = Pairs.ofList ((pairs.filter fun p => dataStart.isPrefixOf p.name).map entry) :=
  data_foldl_put pairs {}

theorem other_foldl_put_empty (pairs : List QuotedPair) :
    (pairs.foldl put {}).other = Pairs.ofList ((pairs.filter fun p => isOtherName p.name).map entry) :=
  other_foldl_put pairs {}

/-! ## What is read is in order -/

theorem of_readPair? {t name value after : Text} (h : readPair? t = some (name, value, after)) :
    isName name = true ∧ value ⊆ t := by
  obtain ⟨gap, gap', quote, hname, -, -, -, -, rfl⟩ := exists_of_readPair? h
  refine ⟨hname, fun c hc => ?_⟩
  simp [hc]

/-- A pair that is found has a name, and its value stands in the text. -/
theorem of_mem_quotedPairs {t : Text} {p : QuotedPair} (h : p ∈ quotedPairs t) :
    isName p.name = true ∧ p.value ⊆ t := by
  induction t using quotedPairs.induct with
  | case1 => rw [quotedPairs] at h; cases h
  | case2 c rest name value after hread ih =>
    rw [quotedPairs_of_some hread] at h
    rcases List.mem_cons.mp h with rfl | h
    · exact of_readPair? hread
    · have hsuffix := List.Subset.trans (suffix_of_readPair? hread).subset (List.subset_cons_self c rest)
      exact ⟨(ih h).1, List.Subset.trans (ih h).2 hsuffix⟩
  | case3 c rest hread ih =>
    rw [quotedPairs_of_none hread] at h
    exact ⟨(ih h).1, List.Subset.trans (ih h).2 (List.subset_cons_self ..)⟩

/-- The attributes are in order: each class name is a word and stands once, each pair stands once and in its
group, and no name without a value is the name of a pair. -/
structure InOrder (a : Attributes) : Prop where
  classes_nodup : a.classes.Nodup
  classes_word : ∀ word ∈ a.classes, Text.IsWord word
  classes_closed : ∀ word ∈ a.classes, '>' ∉ word
  data : a.data.InOrder dataStart.isPrefixOf
  other : a.other.InOrder isOtherName
  flags_isName : ∀ name ∈ a.flags, isName name = true
  flags_free : ∀ name ∈ a.flags, name ∉ a.data.map Prod.fst ∧ name ∉ a.other.map Prod.fst
  flags_class : className ∈ a.flags → a.classes = []

theorem of_mem_flags {t name : Text} (h : name ∈ (ofText t).flags) :
    isName name = true ∧ ∀ p ∈ quotedPairs t, p.name ≠ name := by
  simpa using (List.mem_filter.mp h).2

/-- The class names are those of a pair that is called `class`, if there are any. -/
theorem classes_ofText (t : Text) : (ofText t).classes = [] ∨ ∃ p ∈ quotedPairs t,
    p.name = className ∧ (ofText t).classes = mergeClasses [] (Text.words p.value) := by
  have heq : (ofText t).classes = _ := classes_foldl_put (quotedPairs t) {}
  cases hlast : ((quotedPairs t).filter (·.name = className)).getLast? with
  | none => exact .inl (by rw [heq, hlast]; rfl)
  | some p =>
    obtain ⟨hp, hname⟩ := List.mem_filter.mp (List.mem_of_getLast? hlast)
    exact .inr ⟨p, hp, by simpa using hname, by rw [heq, hlast]; rfl⟩

section

variable {t : Text} {belongs : Text → Bool}

/-- The pairs of a group of the text, one after the other. -/
def groupOf (belongs : Text → Bool) (t : Text) : Pairs :=
  ((quotedPairs t).filter fun p => belongs p.name).map entry

theorem exists_of_mem_groupOf {q : Text × Text} (h : q ∈ groupOf belongs t) :
    ∃ p ∈ quotedPairs t, belongs p.name = true ∧ entry p = q := by
  obtain ⟨p, hp, rfl⟩ := List.mem_map.mp h
  obtain ⟨hp, hbelongs⟩ := List.mem_filter.mp hp
  exact ⟨p, hp, hbelongs, rfl⟩

theorem inOrder_groupOf (h : '>' ∉ t) : (Pairs.ofList (groupOf belongs t)).InOrder belongs := by
  refine Pairs.inOrder_ofList ?_ ?_ ?_ <;> intro q hq <;>
    obtain ⟨p, hp, hbelongs, rfl⟩ := exists_of_mem_groupOf hq
  · exact (of_mem_quotedPairs hp).1
  · exact hbelongs
  · exact fun hmem => h ((of_mem_quotedPairs hp).2 hmem)

theorem not_mem_keys_of_mem_flags {name : Text} (h : name ∈ (ofText t).flags) :
    name ∉ (Pairs.ofList (groupOf belongs t)).map Prod.fst := by
  intro hkey
  obtain ⟨q, hq, rfl⟩ := List.mem_map.mp (Pairs.keys_ofList_subset _ hkey)
  obtain ⟨p, hp, -, rfl⟩ := exists_of_mem_groupOf hq
  exact (of_mem_flags h).2 p hp rfl

theorem inOrder_ofText (h : '>' ∉ t) : (ofText t).InOrder := by
  have hdata : (ofText t).data = Pairs.ofList (groupOf dataStart.isPrefixOf t) := data_foldl_put_empty _
  have hother : (ofText t).other = Pairs.ofList (groupOf isOtherName t) := other_foldl_put_empty _
  have hwords : ∀ word ∈ (ofText t).classes, Text.IsWord word ∧ '>' ∉ word := by
    rcases classes_ofText t with hnil | ⟨p, hp, -, hmerge⟩
    · simp [hnil]
    · intro word hword
      rw [hmerge, mem_mergeClasses] at hword
      have hword := hword.resolve_left List.not_mem_nil
      have hsubset := List.Subset.trans (Text.subset_of_mem_words hword) (of_mem_quotedPairs hp).2
      exact ⟨Text.isWord_of_mem_words hword, fun hmem => h (hsubset hmem)⟩
  exact {
    classes_nodup := by
      rcases classes_ofText t with hnil | ⟨p, -, -, hmerge⟩
      · exact hnil ▸ List.nodup_nil
      · exact hmerge ▸ nodup_mergeClasses _ _
    classes_word := fun word hword => (hwords word hword).1
    classes_closed := fun word hword => (hwords word hword).2
    data := hdata ▸ inOrder_groupOf h
    other := hother ▸ inOrder_groupOf h
    flags_isName := fun name hname => (of_mem_flags hname).1
    flags_free := fun name hname =>
      ⟨hdata ▸ not_mem_keys_of_mem_flags hname, hother ▸ not_mem_keys_of_mem_flags hname⟩
    flags_class := fun hclass =>
      (classes_ofText t).resolve_right fun ⟨p, hp, hname, _⟩ => (of_mem_flags hclass).2 p hp hname }

end

theorem not_mem_of_attributeText? {t raw : Text} (h : attributeText? t = some raw) : '>' ∉ raw := by
  induction t with
  | nil => cases h
  | cons c rest ih =>
    unfold attributeText? at h
    split at h
    · dsimp only at h
      split at h
      · obtain rfl := Option.some.inj h
        exact fun hmem => by simpa using Text.of_mem_takeWhile (Text.mem_of_mem_strip hmem)
      · cases h
    · exact ih h

theorem inOrder_empty : InOrder {} where
  classes_nodup := List.nodup_nil
  classes_word := by simp
  classes_closed := by simp
  data := ⟨List.nodup_nil, by simp, by simp, by simp⟩
  other := ⟨List.nodup_nil, by simp, by simp, by simp⟩
  flags_isName := by simp
  flags_free := by simp
  flags_class := by simp

/-- **What is read from a tag is in order.** -/
theorem inOrder_ofTag (t : Text) : (ofTag t).InOrder := by
  unfold ofTag
  split
  · next raw hraw => exact inOrder_ofText (not_mem_of_attributeText? hraw)
  · exact inOrder_empty

/-! ## Attributes in order are read back -/

/-- The class attribute as it is written. -/
def classAttribute (classes : List Text) : Attribute := .pair className '\x22' (Text.join [' '] classes)

/-- The attributes without the class names, in the order in which they are written. -/
def rest (a : Attributes) : List Attribute :=
  (a.data ++ a.other).map (fun p => .pair p.1 '\x22' p.2) ++ a.flags.map .flag

/-- The attributes in the order in which they are written. -/
def list (a : Attributes) : List Attribute :=
  if a.classes.isEmpty then a.rest else classAttribute a.classes :: a.rest

/-- An entry of a table as a pair that is found in a text. -/
def found (p : Text × Text) : QuotedPair := ⟨p.1, p.2, (Attribute.pair p.1 '\x22' p.2).write⟩

theorem quoted_rest (a : Attributes) :
    a.rest.filterMap Attribute.quoted? = (a.data ++ a.other).map found := by
  have hflags : (a.flags.map Attribute.flag).filterMap Attribute.quoted? = [] := by
    simp [List.filterMap_map, Function.comp_def, Attribute.quoted?]
  rw [rest, List.filterMap_append, hflags, List.append_nil, List.filterMap_map]
  exact congrFun (List.filterMap_eq_map : List.filterMap (some ∘ found) = List.map found) _

theorem flags_rest (a : Attributes) : a.rest.filterMap Attribute.flag? = a.flags := by
  have hpairs : ((a.data ++ a.other).map fun p => Attribute.pair p.1 '\x22' p.2).filterMap Attribute.flag? =
      [] := by
    simp [List.filterMap_map, Function.comp_def, Attribute.flag?]
  rw [rest, List.filterMap_append, hpairs, List.nil_append, List.filterMap_map]
  exact List.filterMap_some

theorem flags_foldl_put (pairs : List QuotedPair) (a : Attributes) : (pairs.foldl put a).flags = a.flags := by
  induction pairs generalizing a with
  | nil => rfl
  | cons p pairs ih =>
    rw [List.foldl_cons, ih]
    unfold put
    split
    · rfl
    · split <;> rfl

section

variable {b : Attributes} {belongs : Text → Bool}

theorem isOtherName_of_data {name : Text} (h : dataStart.isPrefixOf name = true) : isOtherName name = false := by
  simp [isOtherName, h]

theorem isData_of_isOtherName {name : Text} (h : isOtherName name = true) :
    dataStart.isPrefixOf name = false := by
  simpa using (Bool.and_eq_true_iff.mp h).2

theorem ne_className_of_isOtherName {name : Text} (h : isOtherName name = true) : name ≠ className := by
  simpa using (Bool.and_eq_true_iff.mp h).1

theorem ne_className_of_data {name : Text} (h : dataStart.isPrefixOf name = true) : name ≠ className := by
  rintro rfl
  exact absurd h (by decide)

theorem filter_found (belongs : Text → Bool) (ps : Pairs) :
    ((ps.map found).filter fun p => belongs p.name).map entry = ps.filter fun p => belongs p.1 := by
  rw [List.filter_map, List.map_map]
  exact List.map_id' _

theorem InOrder.filter_data (h : a.InOrder) :
    (a.data ++ a.other).filter (fun p => dataStart.isPrefixOf p.1) = a.data := by
  rw [List.filter_append, List.filter_eq_self.mpr h.data.belongs,
    List.filter_eq_nil_iff.mpr fun p hp => by simp [isData_of_isOtherName (h.other.belongs p hp)],
    List.append_nil]

theorem InOrder.filter_other (h : a.InOrder) :
    (a.data ++ a.other).filter (fun p => isOtherName p.1) = a.other := by
  rw [List.filter_append, List.filter_eq_self.mpr h.other.belongs,
    List.filter_eq_nil_iff.mpr fun p hp => by simp [isOtherName_of_data (h.data.belongs p hp)],
    List.nil_append]

theorem InOrder.ne_className (h : a.InOrder) : ∀ p ∈ a.data ++ a.other, p.1 ≠ className := by
  intro p hp
  rcases List.mem_append.mp hp with hp | hp
  · exact ne_className_of_data (h.data.belongs p hp)
  · exact ne_className_of_isOtherName (h.other.belongs p hp)

/-- The pairs of attributes in order fill two empty groups with their own pairs. -/
theorem foldl_put_found (h : a.InOrder) (hdata : b.data = []) (hother : b.other = []) :
    ((a.data ++ a.other).map found).foldl put b = { b with data := a.data, other := a.other } := by
  have hdatas : (((a.data ++ a.other).map found).foldl put b).data = a.data := by
    rw [data_foldl_put, filter_found dataStart.isPrefixOf, h.filter_data, hdata]
    exact Pairs.ofList_of_nodup h.data.nodup
  have hothers : (((a.data ++ a.other).map found).foldl put b).other = a.other := by
    rw [other_foldl_put, filter_found isOtherName, h.filter_other, hother]
    exact Pairs.ofList_of_nodup h.other.nodup
  have hclasses : (((a.data ++ a.other).map found).foldl put b).classes = b.classes := by
    have hnone : ((a.data ++ a.other).map found).filter (·.name = className) = [] := by
      refine List.filter_eq_nil_iff.mpr fun p hp => ?_
      obtain ⟨q, hq, rfl⟩ := List.mem_map.mp hp
      exact fun hname => h.ne_className q hq (of_decide_eq_true hname)
    rw [classes_foldl_put, hnone]
    rfl
  have hflags := flags_foldl_put ((a.data ++ a.other).map found) b
  generalize ((a.data ++ a.other).map found).foldl put b = c at hdatas hothers hclasses hflags
  rw [← hdatas, ← hothers, ← hclasses, ← hflags]

/-- The names without a value are not struck out by the pairs that stand with them. -/
theorem InOrder.filter_flags (h : a.InOrder) :
    a.flags.filter (fun name => !((a.data ++ a.other).map found).any (·.name = name)) = a.flags := by
  refine List.filter_eq_self.mpr fun name hname => ?_
  obtain ⟨hdata, hother⟩ := h.flags_free name hname
  rw [Bool.not_eq_true', List.any_eq_false]
  intro p hp heq
  obtain ⟨q, hq, rfl⟩ := List.mem_map.mp hp
  obtain rfl : q.1 = name := of_decide_eq_true heq
  rcases List.mem_append.mp hq with hq | hq
  · exact hdata (List.mem_map_of_mem hq)
  · exact hother (List.mem_map_of_mem hq)

theorem ofList_rest (h : a.InOrder) : ofList a.rest = { a with classes := [] } := by
  unfold ofList
  rw [quoted_rest, flags_rest, h.filter_flags, foldl_put_found h rfl rfl]

/-- **A class attribute in front of the others is read.** -/
theorem ofList_cons_rest (h : a.InOrder) (hflags : className ∉ a.flags) (quote : Char) (value : Text) :
    ofList (.pair className quote value :: a.rest) =
      { a with classes := mergeClasses [] (Text.words value) } := by
  have hquoted : (Attribute.pair className quote value :: a.rest).filterMap Attribute.quoted? =
      ⟨className, value, (Attribute.pair className quote value).write⟩ :: (a.data ++ a.other).map found := by
    rw [filterMap_cons_toList, quoted_rest]
    rfl
  have hflag : (Attribute.pair className quote value :: a.rest).filterMap Attribute.flag? = a.flags := by
    rw [filterMap_cons_toList, flags_rest]
    rfl
  have hkept : a.flags.filter (fun name => !(⟨className, value,
      (Attribute.pair className quote value).write⟩ :: (a.data ++ a.other).map found).any (·.name = name)) =
      a.flags := by
    refine (List.filter_congr fun name hname => ?_).trans h.filter_flags
    have hne : className ≠ name := fun heq => hflags (heq ▸ hname)
    simp [hne]
  unfold ofList
  rw [hquoted, hflag, hkept, List.foldl_cons, foldl_put_found h rfl rfl]
  rfl

/-- **Attributes in order are read back.** -/
theorem ofList_list (h : a.InOrder) : ofList a.list = a := by
  unfold list
  split
  · next hempty =>
    rw [ofList_rest h, ← List.isEmpty_iff.mp hempty]
  · next hne =>
    have hflags : className ∉ a.flags := fun hmem => hne (by rw [h.flags_class hmem]; rfl)
    have hwords : mergeClasses [] (Text.words (Text.join [' '] a.classes)) = a.classes := by
      rw [Text.words_join h.classes_word]
      exact nil_mergeClasses_of_nodup h.classes_nodup
    rw [classAttribute, ofList_cons_rest h hflags, hwords]

end

/-! ## Attributes as they are written -/

/-- Attributes with a space in front of each. -/
def spaced (as : List Attribute) : SpacedAttributes := as.map fun a => ([' '], a)

theorem areSpaced_spaced {as : List Attribute} (h : ∀ a ∈ as, a.IsProper) : AreSpaced (spaced as) := by
  intro item hitem
  obtain ⟨a, ha, rfl⟩ := List.mem_map.mp hitem
  exact ⟨List.cons_ne_nil _ _, rfl, h a ha⟩

theorem map_spaced (as : List Attribute) : (spaced as).map (·.2) = as := by
  rw [spaced, List.map_map]
  exact List.map_id _

theorem writeSpaced_append (as bs : SpacedAttributes) :
    writeSpaced (as ++ bs) = writeSpaced as ++ writeSpaced bs := List.flatMap_append

/-- The appendix is the attributes without the class names. -/
theorem writeSpaced_rest (a : Attributes) : writeSpaced (spaced a.rest) = a.appendix := by
  unfold spaced rest appendix
  rw [List.map_append, writeSpaced_append]
  simp only [writeSpaced, List.map_map, List.flatMap_map]
  rfl

/-- No class name and no value holds the quote that is written around it. -/
def IsQuotable (a : Attributes) : Prop :=
  (∀ word ∈ a.classes, '\x22' ∉ word) ∧ ∀ p ∈ a.data ++ a.other, '\x22' ∉ p.2

instance (a : Attributes) : Decidable a.IsQuotable :=
  inferInstanceAs (Decidable (_ ∧ _))

theorem InOrder.isProper_rest (h : a.InOrder) (hquote : a.IsQuotable) : ∀ b ∈ a.rest, b.IsProper := by
  intro b hb
  rcases List.mem_append.mp hb with hb | hb
  · obtain ⟨p, hp, rfl⟩ := List.mem_map.mp hb
    refine ⟨?_, by decide, hquote.2 p hp, ?_⟩
    · exact (List.mem_append.mp hp).elim (h.data.isName p) (h.other.isName p)
    · exact (List.mem_append.mp hp).elim (h.data.closed p) (h.other.closed p)
  · obtain ⟨name, hname, rfl⟩ := List.mem_map.mp hb
    exact h.flags_isName name hname

/-- A class attribute is proper if its class names can stand between its quotes. -/
theorem isProper_classAttribute {classes : List Text}
    (h : ∀ word ∈ classes, '\x22' ∉ word ∧ '>' ∉ word) : (classAttribute classes).IsProper :=
  ⟨by decide, by decide, fun hmem => (Text.of_mem_join hmem).elim (by decide) fun ⟨word, hword, hc⟩ =>
    (h word hword).1 hc, fun hmem => (Text.of_mem_join hmem).elim (by decide) fun ⟨word, hword, hc⟩ =>
    (h word hword).2 hc⟩

theorem InOrder.isProper_list (h : a.InOrder) (hquote : a.IsQuotable) : ∀ b ∈ a.list, b.IsProper := by
  have hclass : (classAttribute a.classes).IsProper :=
    isProper_classAttribute fun word hword => ⟨hquote.1 word hword, h.classes_closed word hword⟩
  unfold list
  split
  · exact h.isProper_rest hquote
  · exact List.forall_mem_cons.mpr ⟨hclass, h.isProper_rest hquote⟩

end Attributes

end Inlay
