import Inlay.Markup.Tag
import Inlay.Proofs.Text.Span

/-!
# Scanning neighbouring texts

A tag of a text stays a tag when more text follows, and what follows cannot become part of it. A text
in which every less-than sign has a greater-than sign behind it is scanned on its own.

* `isTagName` — whether a whole text is the name of a page tag.
* `Tag.IsClosed` — every less-than sign has a greater-than sign behind it.
* `Tag.shift` — a tag moved to the right.

Main statements: `Tag.read?_eq_some_iff` (what an opening tag is), `Tag.scanFrom_append` (the scan of a
closed text and of what follows), `Tag.scanFrom_append_of_eq` (a tag of the scan stays when text
follows), `Tag.exists_of_mem_scanFrom` and `Tag.pairwise_scanFrom` (the tags of a scan stand in the
text, one after the other).
-/

namespace Inlay.Markup

/-- Whether the whole of `t` is the name of a page tag. -/
def isTagName : Text → Bool
  | [] => false
  | c :: rest => isTagStart c && rest.all isTagChar

theorem isTagChar_of_isTagName {t : Text} (h : isTagName t = true) :
    ∀ c ∈ t, isTagChar c = true := by
  cases t with
  | nil => simp
  | cons c rest =>
    simp only [isTagName, Bool.and_eq_true, List.all_eq_true] at h
    intro d hd
    rcases List.mem_cons.mp hd with rfl | hd
    · exact isTagChar_of_isTagStart h.1
    · exact h.2 d hd

/-- Whether `t` cannot carry on a tag name: it is empty or begins with another character. -/
def endsName (t : Text) : Bool := !t.head?.any isTagChar

namespace Tag

/-! ## Reading one tag -/

/-- What makes `opening name attributes` an opening tag with this name and this attribute text. -/
structure IsOpening (name attributes : Text) : Prop where
  isName : isTagName name = true
  endsName : endsName attributes = true
  not_mem : '>' ∉ attributes

theorem isOpening_bare {name : Text} (h : isTagName name = true) : IsOpening name [] :=
  ⟨h, rfl, by simp⟩

theorem isTagChar_gt : isTagChar '>' = false := by decide

theorem length_opening (name attributes : Text) :
    (opening name attributes).length = name.length + attributes.length + 2 := by
  simp [opening]
  omega

theorem opening_append (name attributes after : Text) :
    opening name attributes ++ after = '<' :: (name ++ attributes ++ '>' :: after) := by
  simp [opening]

theorem IsOpening.ne_gt {name attributes : Text} (h : IsOpening name attributes) :
    ∀ c ∈ name ++ attributes, (c != '>') = true := by
  intro c hc
  simp only [bne_iff_ne, ne_eq]
  rintro rfl
  rcases List.mem_append.mp hc with hc | hc
  · have := isTagChar_of_isTagName h.isName _ hc
    rw [isTagChar_gt] at this
    cases this
  · exact h.not_mem hc

theorem IsOpening.read? {name attributes : Text} (h : IsOpening name attributes) (after : Text) :
    read? (name ++ attributes ++ '>' :: after) = some (name, attributes, after) := by
  cases name with
  | nil => exact absurd h.isName (by simp [isTagName])
  | cons c rest =>
    have hn := h.isName
    simp only [isTagName, Bool.and_eq_true, List.all_eq_true] at hn
    have hspan : (rest ++ (attributes ++ '>' :: after)).takeWhile isTagChar = rest ∧
        (rest ++ (attributes ++ '>' :: after)).dropWhile isTagChar =
          attributes ++ '>' :: after := by
      cases attributes with
      | nil =>
        exact ⟨Text.takeWhile_append_cons hn.2 isTagChar_gt,
          Text.dropWhile_append_cons hn.2 isTagChar_gt⟩
      | cons d attributes =>
        have hd : isTagChar d = false := by simpa [Markup.endsName] using h.endsName
        exact ⟨Text.takeWhile_append_cons hn.2 hd, Text.dropWhile_append_cons hn.2 hd⟩
    have hne : ∀ d ∈ attributes, (d != '>') = true :=
      fun d hd => h.ne_gt d (List.mem_append_right _ hd)
    unfold Tag.read?
    simp only [List.cons_append, List.append_assoc, hn.1, if_true, hspan.1, hspan.2,
      Text.takeWhile_append_cons hne (x := '>') rfl, Text.dropWhile_append_cons hne (x := '>') rfl]

/-- **An opening tag is a name, raw attribute text that does not carry on the name, and the first
greater-than sign.** -/
theorem read?_eq_some_iff {t name attributes after : Text} :
    read? t = some (name, attributes, after) ↔
      t = name ++ attributes ++ '>' :: after ∧ IsOpening name attributes := by
  constructor
  · intro h
    refine ⟨eq_of_read? h, ?_⟩
    cases t with
    | nil => simp [read?] at h
    | cons c rest =>
      unfold read? at h
      dsimp only at h
      split at h
      · rename_i hc
        split at h
        · cases h
        · simp only [Option.some.injEq, Prod.mk.injEq] at h
          obtain ⟨rfl, rfl, rfl⟩ := h
          refine ⟨?_, ?_, ?_⟩
          · simp only [isTagName, hc, Bool.true_and, List.all_eq_true]
            intro d hd
            exact Text.of_mem_takeWhile hd
          · have hhead := List.head?_dropWhile_not isTagChar rest
            unfold Markup.endsName
            cases hd : rest.dropWhile isTagChar with
            | nil => rfl
            | cons d tail =>
              rw [hd] at hhead
              simp only [List.head?_cons] at hhead
              rw [List.takeWhile_cons]
              split <;> simp [hhead]
          · intro hgt
            have := Text.of_mem_takeWhile hgt
            simp at this
      · cases h
  · rintro ⟨rfl, h⟩
    exact h.read? after

/-- A greater-than sign ends every tag that begins before it, so what follows is not looked at. -/
theorem read?_append_eq_none {t : Text} (ht : '>' ∈ t) (hr : read? t = none) (u : Text) :
    read? (t ++ u) = none := by
  rw [Option.eq_none_iff_forall_not_mem]
  rintro ⟨name, attributes, after⟩ h
  obtain ⟨heq, ho⟩ := read?_eq_some_iff.mp h
  -- the first greater-than sign of `t` is the one that ends the tag read
  obtain ⟨front, y, back, rfl, hfront, hy⟩ := Text.exists_span (p := (· != '>')) ht (by simp)
  rw [List.append_assoc, List.cons_append] at heq
  obtain ⟨rfl, rfl, -⟩ := Text.append_cons_inj hfront hy ho.ne_gt (by simp) heq
  rw [ho.read?] at hr
  cases hr

/-! ## Closed texts -/

/-- Every less-than sign of `t` has a greater-than sign behind it. -/
def IsClosed (t : Text) : Prop := ∀ before after, t = before ++ '<' :: after → '>' ∈ after

theorem isClosed_nil : IsClosed [] := by
  intro before after h
  simp at h

theorem isClosed_cons {c : Char} {t : Text} :
    IsClosed (c :: t) ↔ (c = '<' → '>' ∈ t) ∧ IsClosed t := by
  constructor
  · intro h
    refine ⟨?_, fun before after ht => h (c :: before) after (by rw [ht]; rfl)⟩
    rintro rfl
    exact h [] t rfl
  · rintro ⟨hc, ht⟩ before after h
    cases before with
    | nil =>
      obtain ⟨rfl, rfl⟩ := List.cons.inj h
      exact hc rfl
    | cons d before => exact ht before after (List.cons.inj h).2

theorem IsClosed.of_append {t u : Text} (h : IsClosed (t ++ u)) : IsClosed u := by
  intro before after hu
  exact h (t ++ before) after (by rw [hu, List.append_assoc])

theorem isClosed_of_not_mem {t : Text} (h : '<' ∉ t) : IsClosed t := by
  intro before after ht
  rw [ht] at h
  simp at h

/-! ## The scan -/

/-- The tag `n` characters further right. -/
def shift (n : Nat) (tag : Tag) : Tag := { tag with start := tag.start + n, stop := tag.stop + n }

theorem scanFrom_of_ne {c : Char} (hc : c ≠ '<') (i : Nat) (t : Text) :
    scanFrom i (c :: t) = scanFrom (i + 1) t := by
  rw [scanFrom, if_neg hc]

theorem scanFrom_opening {name attributes : Text} (h : IsOpening name attributes) (i : Nat)
    (after : Text) :
    scanFrom i (opening name attributes ++ after) =
      ⟨i, i + (opening name attributes).length, name, attributes⟩ ::
        scanFrom (i + (opening name attributes).length) after := by
  rw [opening_append, length_opening, scanFrom, if_pos rfl]
  split
  · rename_i name' attributes' after' h'
    rw [h.read?] at h'
    cases h'
    rfl
  · rename_i h'
    rw [h.read?] at h'
    cases h'

theorem scanFrom_of_read?_none {t : Text} (h : read? t = none) (i : Nat) :
    scanFrom i ('<' :: t) = scanFrom (i + 1) t := by
  rw [scanFrom, if_pos rfl]
  split
  · rename_i h'
    rw [h] at h'
    cases h'
  · rfl

/-- Induction along the scan: over a tag at once, over all else character by character. -/
theorem scan_induction {motive : Nat → Text → Prop} (nil : ∀ i, motive i [])
    (other : ∀ i c t, c ≠ '<' → motive (i + 1) t → motive i (c :: t))
    (tag : ∀ i name attributes after, IsOpening name attributes →
      motive (i + (opening name attributes).length) after →
      motive i (opening name attributes ++ after))
    (stray : ∀ i t, read? t = none → motive (i + 1) t → motive i ('<' :: t)) :
    ∀ i t, motive i t := by
  intro i t
  fun_induction scanFrom i t with
  | case1 i => exact nil i
  | case2 i rest name attributes after h stop ih =>
    obtain ⟨rfl, ho⟩ := read?_eq_some_iff.mp h
    rw [← opening_append]
    apply tag i name attributes after ho
    rw [length_opening]
    exact ih
  | case3 i rest h ih => exact stray i rest h ih
  | case4 i c rest hc ih => exact other i c rest hc ih

theorem scanFrom_add (n i : Nat) (t : Text) :
    scanFrom (i + n) t = (scanFrom i t).map (shift n) := by
  induction i, t using scan_induction with
  | nil i => rw [scanFrom, scanFrom, List.map_nil]
  | other i c t hc ih =>
    rw [scanFrom_of_ne hc, scanFrom_of_ne hc, ← ih, show i + n + 1 = i + 1 + n by omega]
  | tag i name attributes after ho ih =>
    rw [scanFrom_opening ho, scanFrom_opening ho, List.map_cons, ← ih]
    unfold shift
    dsimp only
    rw [show i + n + (opening name attributes).length =
      i + (opening name attributes).length + n by omega]
  | stray i t hr ih =>
    rw [scanFrom_of_read?_none hr, scanFrom_of_read?_none hr, ← ih,
      show i + n + 1 = i + 1 + n by omega]

/-- **A closed text is scanned on its own, and so is what follows it.** -/
theorem scanFrom_append {t : Text} (ht : IsClosed t) (i : Nat) (u : Text) :
    scanFrom i (t ++ u) = scanFrom i t ++ scanFrom (i + t.length) u := by
  induction i, t using scan_induction with
  | nil i => rw [scanFrom]; rfl
  | other i c t hc ih =>
    rw [isClosed_cons] at ht
    rw [List.cons_append, scanFrom_of_ne hc, scanFrom_of_ne hc, ih ht.2, List.length_cons,
      show i + 1 + t.length = i + (t.length + 1) by omega]
  | tag i name attributes after ho ih =>
    rw [List.append_assoc, scanFrom_opening ho, scanFrom_opening ho, ih ht.of_append,
      List.length_append, List.cons_append, Nat.add_assoc]
  | stray i t hr ih =>
    rw [isClosed_cons] at ht
    rw [List.cons_append, scanFrom_of_read?_none hr,
      scanFrom_of_read?_none (read?_append_eq_none (ht.1 rfl) hr u), ih ht.2, List.length_cons,
      show i + 1 + t.length = i + (t.length + 1) by omega]

/-- The tags of a scan stand in the text where they say. -/
theorem exists_of_mem_scanFrom {i : Nat} {t : Text} {tag : Tag} (h : tag ∈ scanFrom i t) :
    IsOpening tag.name tag.attributes ∧ ∃ before after,
      t = before ++ opening tag.name tag.attributes ++ after ∧ tag.start = i + before.length ∧
        tag.stop = i + (before ++ opening tag.name tag.attributes).length := by
  induction i, t using scan_induction with
  | nil i =>
    rw [scanFrom] at h
    cases h
  | other i c t hc ih =>
    rw [scanFrom_of_ne hc] at h
    obtain ⟨ho, before, after, rfl, hstart, hstop⟩ := ih h
    refine ⟨ho, c :: before, after, rfl, ?_, ?_⟩
    · rw [hstart, List.length_cons]; omega
    · rw [hstop, List.cons_append, List.length_cons]; omega
  | tag i name attributes rest ho ih =>
    rw [scanFrom_opening ho] at h
    rcases List.mem_cons.mp h with rfl | h
    · exact ⟨ho, [], rest, rfl, rfl, rfl⟩
    · obtain ⟨ho', before, after, rfl, hstart, hstop⟩ := ih h
      refine ⟨ho', opening name attributes ++ before, after, ?_, ?_, ?_⟩
      · simp only [List.append_assoc]
      · rw [hstart, List.length_append]; omega
      · rw [hstop]; simp only [List.length_append]; omega
  | stray i t hr ih =>
    rw [scanFrom_of_read?_none hr] at h
    obtain ⟨ho, before, after, rfl, hstart, hstop⟩ := ih h
    refine ⟨ho, '<' :: before, after, rfl, ?_, ?_⟩
    · rw [hstart, List.length_cons]; omega
    · rw [hstop, List.cons_append, List.length_cons]; omega

/-- The tags of a page end inside it. -/
theorem stop_le_of_mem_scan {page : Text} {tag : Tag} (h : tag ∈ scan page) :
    tag.stop ≤ page.length := by
  obtain ⟨-, before, after, rfl, -, hstop⟩ := exists_of_mem_scanFrom h
  rw [hstop, Nat.zero_add]
  simp only [List.length_append]
  omega

/-- A tag of the scan, and all tags before it, stay when text follows. -/
theorem scanFrom_append_of_eq {i : Nat} {t : Text} {before after : List Tag} {tag : Tag}
    (h : scanFrom i t = before ++ tag :: after) (u : Text) :
    ∃ after', scanFrom i (t ++ u) = before ++ tag :: after' := by
  induction i, t using scan_induction generalizing before with
  | nil i =>
    rw [scanFrom] at h
    simp at h
  | other i c t hc ih =>
    rw [scanFrom_of_ne hc] at h
    rw [List.cons_append, scanFrom_of_ne hc]
    exact ih h
  | tag i name attributes rest ho ih =>
    rw [scanFrom_opening ho] at h
    rw [List.append_assoc, scanFrom_opening ho]
    cases before with
    | nil =>
      obtain ⟨rfl, -⟩ := List.cons.inj h
      exact ⟨_, rfl⟩
    | cons first before =>
      obtain ⟨rfl, hrest⟩ := List.cons.inj h
      obtain ⟨after', h'⟩ := ih hrest
      exact ⟨after', by rw [h', List.cons_append]⟩
  | stray i t hr ih =>
    rw [scanFrom_of_read?_none hr] at h
    have hgt : '>' ∈ t := by
      have hmem : tag ∈ scanFrom (i + 1) t := by simp [h]
      obtain ⟨-, _, _, rfl, -, -⟩ := exists_of_mem_scanFrom hmem
      simp [opening]
    rw [List.cons_append, scanFrom_of_read?_none (read?_append_eq_none hgt hr u)]
    exact ih h

/-- The tags of a scan stand one after the other. -/
theorem pairwise_scanFrom (i : Nat) (t : Text) :
    (scanFrom i t).Pairwise fun a b => a.stop ≤ b.start := by
  induction i, t using scan_induction with
  | nil i => rw [scanFrom]; exact .nil
  | other i c t hc ih => rwa [scanFrom_of_ne hc]
  | tag i name attributes rest ho ih =>
    rw [scanFrom_opening ho]
    refine .cons ?_ ih
    intro tag htag
    obtain ⟨-, before, -, -, hstart, -⟩ := exists_of_mem_scanFrom htag
    rw [hstart]
    dsimp only
    omega
  | stray i t hr ih => rwa [scanFrom_of_read?_none hr]

end Tag

end Inlay.Markup
