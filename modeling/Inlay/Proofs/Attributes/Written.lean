import Inlay.Attributes.Read
import Inlay.Proofs.Markup.Token
import Inlay.Proofs.Text.Words

/-!
# Reading attributes that are written

The attributes of a tag that is written with care, each with blanks in front of it, are read as they stand
there: the pairs from left to right, and then the names without a value.

* `Attribute` — an attribute as it stands in a tag, with its written form `Attribute.write`.
* `Attribute.IsProper`, `AreSpaced` — attributes whose written forms can be told apart.
* `Attributes.ofList` — the attributes in their four groups.

Main statements: `quotedPairs_writeSpaced` (the pairs that are found), `Attributes.leftover_writeSpaced` (what
is left when they are taken out) and `Attributes.ofTag_writeSpaced` (a tag is read as its attributes say).
-/

namespace Inlay

open Markup

/-- An attribute as it stands in a tag: a name by itself, or a name with a value in quotes. -/
inductive Attribute where
  | flag (name : Text)
  | pair (name : Text) (quote : Char) (value : Text)
  deriving DecidableEq, Repr

namespace Attribute

def name : Attribute → Text
  | flag name => name
  | pair name _ _ => name

def write : Attribute → Text
  | flag name => name
  | pair name quote value => name ++ '=' :: quote :: (value ++ [quote])

/-- The attribute as a pair that is found in a text. -/
def quoted? : Attribute → Option QuotedPair
  | flag _ => none
  | pair name quote value => some ⟨name, value, (pair name quote value).write⟩

/-- The name of an attribute without a value. -/
def flag? : Attribute → Option Text
  | flag name => some name
  | pair .. => none

/-- What stands in a text for the attribute when the pairs have been taken out. -/
def residue : Attribute → Text
  | flag name => name
  | pair .. => [' ']

/-- The name is a name, and the value holds neither its quote nor a greater-than sign. -/
def IsProper : Attribute → Prop
  | flag name => isName name = true
  | pair name quote value => isName name = true ∧ isQuote quote = true ∧ quote ∉ value ∧ '>' ∉ value

instance : DecidablePred IsProper
  | flag name => inferInstanceAs (Decidable (isName name = true))
  | pair name quote value =>
    inferInstanceAs (Decidable (isName name = true ∧ isQuote quote = true ∧ quote ∉ value ∧ '>' ∉ value))

theorem IsProper.isName {a : Attribute} (h : a.IsProper) : isName a.name = true := by
  cases a with
  | flag name => exact h
  | pair name quote value => exact h.1

end Attribute

/-- Attributes, each with the blanks in front of it. -/
abbrev SpacedAttributes := List (Text × Attribute)

/-- The attributes as they are written one after the other. -/
def writeSpaced (items : SpacedAttributes) : Text := items.flatMap fun item => item.1 ++ item.2.write

/-- The attributes are proper, and something blank stands in front of each. -/
def AreSpaced (items : SpacedAttributes) : Prop :=
  ∀ item ∈ items, item.1 ≠ [] ∧ Text.isAllBlank item.1 = true ∧ item.2.IsProper

instance (items : SpacedAttributes) : Decidable (AreSpaced items) :=
  inferInstanceAs (Decidable (∀ item ∈ items, _))

/-- The attributes in their four groups: the pairs one after the other, and the names without a value that no
pair has. -/
def Attributes.ofList (as : List Attribute) : Attributes :=
  { (as.filterMap Attribute.quoted?).foldl Attributes.put {} with
    flags := (as.filterMap Attribute.flag?).filter fun name =>
      !(as.filterMap Attribute.quoted?).any (·.name = name) }

/-! ## Characters of attributes -/

section

variable {c : Char} {name : Text}

theorem isTagChar_of_isNameChar (h : isNameChar c = true) : isTagChar c = true := by
  simp [isTagChar, h]

theorem isBlank_of_isNameChar (h : isNameChar c = true) : Text.isBlank c = false :=
  isBlank_of_isTagChar (isTagChar_of_isNameChar h)

theorem isNameChar_of_isBlank (h : Text.isBlank c = true) : isNameChar c = false := by
  cases hc : isNameChar c with
  | false => rfl
  | true => rw [isBlank_of_isNameChar hc] at h; cases h

theorem eq_of_isQuote (h : isQuote c = true) : c = '\x22' ∨ c = '\x27' := by
  simpa [isQuote] using h

theorem isBlank_of_isQuote (h : isQuote c = true) : Text.isBlank c = false := by
  rcases eq_of_isQuote h with rfl | rfl <;> decide

theorem exists_cons_of_isName (h : isName name = true) :
    ∃ c rest, name = c :: rest ∧ isNameStart c = true ∧ ∀ d ∈ rest, isNameChar d = true := by
  cases name with
  | nil => cases h
  | cons c rest =>
    simp only [isName, Bool.and_eq_true, List.all_eq_true] at h
    exact ⟨c, rest, rfl, h⟩

theorem isNameChar_of_isName (h : isName name = true) : ∀ c ∈ name, isNameChar c = true := by
  obtain ⟨c, rest, rfl, hc, hrest⟩ := exists_cons_of_isName h
  exact List.forall_mem_cons.mpr ⟨isNameChar_of_isNameStart hc, hrest⟩

theorem isWord_of_isName (h : isName name = true) : Text.IsWord name where
  ne_nil hnil := by
    rw [hnil] at h
    cases h
  solid c hc := isBlank_of_isNameChar (isNameChar_of_isName h c hc)

theorem isTagName_of_isName (h : isName name = true) : isTagName name = true := by
  obtain ⟨c, rest, rfl, hc, hrest⟩ := exists_cons_of_isName h
  simp only [isTagName, Bool.and_eq_true, List.all_eq_true]
  exact ⟨by simp [isTagStart, hc], fun d hd => isTagChar_of_isNameChar (hrest d hd)⟩

/-- The equals sign of a pair ends the name in front of it. -/
theorem head?_append_equals {gap : Text} (h : Text.isAllBlank gap = true) (t : Text) :
    (gap ++ '=' :: t).head?.any isNameChar = false := by
  cases gap with
  | nil => rfl
  | cons c gap => exact isNameChar_of_isBlank (List.all_eq_true.mp h c List.mem_cons_self)

theorem not_mem_of_isName (h : isName name = true) (hc : isNameChar c = false) : c ∉ name :=
  fun hmem => by rw [isNameChar_of_isName h c hmem] at hc; cases hc

end

/-! ## One pair -/

section

variable {quote : Char} {name value t : Text}

/-- A value in quotes is read, whatever blanks stand around the equals sign. -/
theorem readValue?_quoted {gap gap' : Text} (hgap : Text.isAllBlank gap = true) (hgap' : Text.isAllBlank gap' = true)
    (hquote : isQuote quote = true) (hvalue : quote ∉ value) (t : Text) :
    readValue? (gap ++ '=' :: (gap' ++ quote :: (value ++ quote :: t))) = some (value, t) := by
  have hne := Text.ne_of_not_mem hvalue
  have hequals : (gap ++ '=' :: (gap' ++ quote :: (value ++ quote :: t))).dropWhile Text.isBlank =
      '=' :: (gap' ++ quote :: (value ++ quote :: t)) :=
    Text.dropWhile_append_cons (List.all_eq_true.mp hgap) (by decide)
  have hquoted : (gap' ++ quote :: (value ++ quote :: t)).dropWhile Text.isBlank = quote :: (value ++ quote :: t) :=
    Text.dropWhile_append_cons (List.all_eq_true.mp hgap') (isBlank_of_isQuote hquote)
  unfold readValue?
  simp only [hequals, hquoted, hquote, if_true,
    Text.dropWhile_append_cons hne (by simp : (quote != quote) = false),
    Text.takeWhile_append_cons hne (by simp : (quote != quote) = false)]

/-- No value begins where anything but an equals sign comes after the blanks. -/
theorem readValue?_eq_none (h : (t.dropWhile Text.isBlank).head? ≠ some '=') : readValue? t = none := by
  unfold readValue?
  split
  · rename_i tail ht
    rw [ht] at h
    exact absurd rfl h
  · rfl

theorem readPair?_of_isName (h : isName name = true) (hends : t.head?.any isNameChar = false) :
    readPair? (name ++ t) = (readValue? t).map fun found => (name, found.1, found.2) := by
  obtain ⟨d, rest, rfl, hd, hrest⟩ := exists_cons_of_isName h
  rw [List.cons_append, readPair?, if_pos hd, Text.dropWhile_append_stop hrest hends,
    Text.takeWhile_append_stop hrest hends]

theorem readPair?_write (h : (Attribute.pair name quote value).IsProper) (t : Text) :
    readPair? ((Attribute.pair name quote value).write ++ t) = some (name, value, t) := by
  obtain ⟨hname, hquote, hvalue, -⟩ := h
  have hread : readValue? ('=' :: quote :: (value ++ quote :: t)) = some (value, t) :=
    @readValue?_quoted quote value [] [] rfl rfl hquote hvalue t
  unfold Attribute.write
  rw [List.append_assoc, List.cons_append, List.cons_append, List.append_assoc, List.singleton_append,
    readPair?_of_isName hname rfl, hread]
  rfl

theorem quotedPairs_of_some {after : Text} (h : readPair? t = some (name, value, after)) :
    quotedPairs t = ⟨name, value, t.take (t.length - after.length)⟩ :: quotedPairs after := by
  cases t with
  | nil => cases h
  | cons c rest =>
    rw [quotedPairs]
    split
    · rename_i hsome
      rw [h] at hsome
      cases hsome
      rfl
    · rename_i hnone
      rw [h] at hnone
      cases hnone

theorem quotedPairs_of_none {c : Char} (h : readPair? (c :: t) = none) :
    quotedPairs (c :: t) = quotedPairs t := by
  rw [quotedPairs]
  split
  · rename_i hsome
    rw [h] at hsome
    cases hsome
  · rfl

theorem quotedPairs_write (h : (Attribute.pair name quote value).IsProper) (t : Text) :
    quotedPairs ((Attribute.pair name quote value).write ++ t) =
      ⟨name, value, (Attribute.pair name quote value).write⟩ :: quotedPairs t := by
  rw [quotedPairs_of_some (readPair?_write h t), List.length_append, Nat.add_sub_cancel, List.take_left]

/-- No pair begins at a blank. -/
theorem quotedPairs_append_blank {gap : Text} (h : Text.isAllBlank gap = true) (t : Text) :
    quotedPairs (gap ++ t) = quotedPairs t := by
  induction gap with
  | nil => rfl
  | cons c gap ih =>
    obtain ⟨hc, hgap⟩ := List.forall_mem_cons.mp (List.all_eq_true.mp h)
    have hstart : ¬ isNameStart c = true := fun hstart => by
      rw [isBlank_of_isNameChar (isNameChar_of_isNameStart hstart)] at hc
      cases hc
    rw [List.cons_append, quotedPairs_of_none, ih (List.all_eq_true.mpr hgap)]
    unfold readPair?
    exact if_neg hstart

/-- No pair begins in a name that is followed by something else than a value. -/
theorem quotedPairs_append_name {s : Text} (hs : ∀ c ∈ s, isNameChar c = true)
    (hends : t.head?.any isNameChar = false) (hread : readValue? t = none) :
    quotedPairs (s ++ t) = quotedPairs t := by
  induction s with
  | nil => rfl
  | cons c s ih =>
    obtain ⟨-, hs⟩ := List.forall_mem_cons.mp hs
    rw [List.cons_append, quotedPairs_of_none, ih hs]
    unfold readPair?
    dsimp only
    rw [Text.dropWhile_append_stop hs hends, hread]
    split <;> rfl

end

/-! ## Attributes one after the other -/

section

variable {item : Text × Attribute} {items : SpacedAttributes}

theorem writeSpaced_cons (item : Text × Attribute) (items : SpacedAttributes) :
    writeSpaced (item :: items) = item.1 ++ item.2.write ++ writeSpaced items := rfl

theorem AreSpaced.tail (h : AreSpaced (item :: items)) : AreSpaced items :=
  fun other hother => h other (List.mem_cons_of_mem _ hother)

theorem AreSpaced.isProper (h : AreSpaced items) : ∀ a ∈ items.map (·.2), a.IsProper := by
  intro a ha
  obtain ⟨item, hitem, rfl⟩ := List.mem_map.mp ha
  exact (h item hitem).2.2

theorem Attribute.IsProper.exists_cons {a : Attribute} (h : a.IsProper) :
    ∃ c rest, a.write = c :: rest ∧ isNameStart c = true := by
  obtain ⟨c, rest, hname, hc, -⟩ := exists_cons_of_isName h.isName
  cases a with
  | flag name =>
    obtain rfl : name = c :: rest := hname
    exact ⟨c, rest, rfl, hc⟩
  | pair name quote value =>
    obtain rfl : name = c :: rest := hname
    exact ⟨c, _, rfl, hc⟩

/-- What is written with something blank in front of each attribute begins with a blank, if with anything. -/
theorem head?_writeSpaced (h : ∀ item ∈ items, item.1 ≠ [] ∧ Text.isAllBlank item.1 = true) :
    (writeSpaced items).head?.all Text.isBlank = true := by
  cases items with
  | nil => rfl
  | cons item items =>
    obtain ⟨hne, hblank⟩ := h item List.mem_cons_self
    obtain ⟨c, rest, hgap⟩ := List.exists_cons_of_ne_nil hne
    rw [writeSpaced_cons, hgap]
    exact List.all_eq_true.mp hblank c (hgap ▸ List.mem_cons_self)

theorem AreSpaced.head?_writeSpaced (h : AreSpaced items) : (writeSpaced items).head?.all Text.isBlank = true :=
  Inlay.head?_writeSpaced fun item hitem => ⟨(h item hitem).1, (h item hitem).2.1⟩

/-- What is written is empty or begins with a blank. -/
theorem AreSpaced.writeSpaced_cases (h : AreSpaced items) :
    writeSpaced items = [] ∨ ∃ c rest, writeSpaced items = c :: rest ∧ Text.isBlank c = true := by
  have hhead := h.head?_writeSpaced
  cases hwritten : writeSpaced items with
  | nil => exact .inl rfl
  | cons c rest =>
    rw [hwritten] at hhead
    exact .inr ⟨c, rest, rfl, hhead⟩

theorem AreSpaced.endsName (h : AreSpaced items) : (writeSpaced items).head?.any isNameChar = false := by
  rcases h.writeSpaced_cases with hnil | ⟨c, rest, hcons, hc⟩
  · rw [hnil]
    rfl
  · rw [hcons]
    exact isNameChar_of_isBlank hc

/-- After the blanks the next attribute begins with a letter. -/
theorem AreSpaced.head?_dropWhile (h : AreSpaced items) :
    ((writeSpaced items).dropWhile Text.isBlank).head?.all isNameStart = true := by
  cases items with
  | nil => rfl
  | cons item items =>
    obtain ⟨-, hblank, hproper⟩ := h item List.mem_cons_self
    obtain ⟨c, rest, hwrite, hc⟩ := hproper.exists_cons
    rw [writeSpaced_cons, List.append_assoc, List.dropWhile_append_of_pos (List.all_eq_true.mp hblank), hwrite,
      List.cons_append,
      List.dropWhile_cons_of_neg (by simp [isBlank_of_isNameChar (isNameChar_of_isNameStart hc)])]
    exact hc

theorem AreSpaced.readValue? (h : AreSpaced items) : readValue? (writeSpaced items) = none := by
  refine readValue?_eq_none fun heq => ?_
  have hhead := h.head?_dropWhile
  rw [heq] at hhead
  exact absurd hhead (by decide)

/-- A proper attribute in front of others is found if it is a pair. -/
theorem quotedPairs_append_write {a : Attribute} (ha : a.IsProper) (h : AreSpaced items) :
    quotedPairs (a.write ++ writeSpaced items) = a.quoted?.toList ++ quotedPairs (writeSpaced items) := by
  cases a with
  | flag name => exact quotedPairs_append_name (isNameChar_of_isName ha) h.endsName h.readValue?
  | pair name quote value => exact quotedPairs_write ha _

/-- **The pairs that are written are found.** -/
theorem quotedPairs_writeSpaced (h : AreSpaced items) :
    quotedPairs (writeSpaced items) = (items.map (·.2)).filterMap Attribute.quoted? := by
  induction items with
  | nil => rw [writeSpaced, List.flatMap_nil, quotedPairs]; rfl
  | cons item items ih =>
    obtain ⟨-, hblank, hproper⟩ := h item List.mem_cons_self
    rw [writeSpaced_cons, List.append_assoc, quotedPairs_append_blank hblank,
      quotedPairs_append_write hproper h.tail, ih h.tail, List.map_cons, List.filterMap_cons]
    cases item.2.quoted? <;> rfl

/-- What stands in the place of the attributes when the pairs have been taken out. -/
def residues (items : SpacedAttributes) : Text := items.flatMap fun item => item.1 ++ item.2.residue

theorem residues_cons (item : Text × Attribute) (items : SpacedAttributes) :
    residues (item :: items) = item.1 ++ item.2.residue ++ residues items := rfl

end

/-! ## What is left without the pairs -/

namespace Text

/-- A text that begins nowhere earlier is found where it stands. -/
theorem breakOn?_of_first {n p u : Text} (hne : n ≠ [])
    (hfirst : ∀ a c b, p = a ++ c :: b → ¬ n <+: c :: b ++ (n ++ u)) :
    breakOn? n (p ++ (n ++ u)) = some (p, u) := by
  induction p with
  | nil =>
    obtain ⟨d, rest, rfl⟩ := List.exists_cons_of_ne_nil hne
    have hprefix : (d :: rest).isPrefixOf (d :: (rest ++ u)) = true :=
      List.isPrefixOf_iff_prefix.mpr ⟨u, rfl⟩
    have hdrop : (d :: (rest ++ u)).drop (d :: rest).length = u := by
      rw [← List.cons_append, List.drop_left]
    rw [List.nil_append, List.cons_append, breakOn?, if_pos hprefix, hdrop]
  | cons c p ih =>
    have hnot : ¬ n.isPrefixOf (c :: (p ++ (n ++ u))) = true := by
      rw [List.isPrefixOf_iff_prefix]
      exact hfirst [] c p rfl
    rw [List.cons_append, breakOn?, if_neg hnot, ih fun a d b hp => hfirst (c :: a) d b (by rw [hp]; rfl)]
    rfl

/-- A text does not begin earlier if one of its characters would have to stand earlier too. -/
theorem not_prefix_of_not_mem {c d : Char} {n b : Text} (hn : c ∉ n) (hb : c ∉ d :: b) (m u : Text) :
    ¬ n ++ c :: m <+: d :: b ++ (n ++ c :: m ++ u) := by
  rintro ⟨v, hv⟩
  have hfront : c ∉ d :: b ++ n := fun hmem => (List.mem_append.mp hmem).elim hb hn
  have heq : n ++ c :: (m ++ v) = (d :: b ++ n) ++ c :: (m ++ u) := by simpa using hv
  have hlength := congrArg List.length
    (append_cons_inj (ne_of_not_mem hn) (by simp) (ne_of_not_mem hfront) (by simp) heq).1
  simp at hlength
  omega

/-- A text with a character that stands nowhere before is found where it stands. -/
theorem breakOn?_append {c : Char} {n p : Text} (hp : c ∉ p) (hn : c ∉ n) (m u : Text) :
    breakOn? (n ++ c :: m) (p ++ (n ++ c :: m ++ u)) = some (p, u) := by
  refine breakOn?_of_first (by simp) fun a d b hpieces => not_prefix_of_not_mem hn ?_ m u
  rw [hpieces] at hp
  exact fun hmem => hp (List.mem_append_right a hmem)

end Text

namespace Attributes

variable {item : Text × Attribute} {items : SpacedAttributes} {a : Attribute} {p : Text}

theorem filterMap_cons_toList {α β : Type} (f : α → Option β) (a : α) (as : List α) :
    (a :: as).filterMap f = (f a).toList ++ as.filterMap f := by
  rw [List.filterMap_cons]
  cases f a <;> rfl

theorem leftover_append (before after : List QuotedPair) (t : Text) :
    leftover (before ++ after) t = leftover after (leftover before t) :=
  List.foldl_append ..

/-- A pair in the place where the first equals sign stands becomes a space. -/
theorem leftover_append_write (ha : a.IsProper) (hp : '=' ∉ p) (t : Text) :
    leftover a.quoted?.toList (p ++ (a.write ++ t)) = p ++ (a.residue ++ t) := by
  cases a with
  | flag name => rfl
  | pair name quote value =>
    have hfind : Text.breakOn? (Attribute.pair name quote value).write
        (p ++ ((Attribute.pair name quote value).write ++ t)) = some (p, t) :=
      Text.breakOn?_append hp (not_mem_of_isName ha.1 (by decide)) (quote :: (value ++ [quote])) t
    change Text.replaceFirst (Attribute.pair name quote value).write [' '] _ = _
    rw [Text.replaceFirst, hfind]
    exact List.append_assoc ..

theorem not_mem_residue (ha : a.IsProper) : '=' ∉ a.residue := by
  cases a with
  | flag name => exact not_mem_of_isName ha (by decide)
  | pair => simp [Attribute.residue]

/-- **The names without a value are left, and blanks.** -/
theorem leftover_writeSpaced (h : AreSpaced items) (hp : '=' ∉ p) :
    leftover ((items.map (·.2)).filterMap Attribute.quoted?) (p ++ writeSpaced items) = p ++ residues items := by
  induction items generalizing p with
  | nil => rfl
  | cons item items ih =>
    obtain ⟨-, hblank, hproper⟩ := h item List.mem_cons_self
    have hgap : '=' ∉ item.1 := fun hmem => absurd (List.all_eq_true.mp hblank _ hmem) (by decide)
    have hfront : '=' ∉ p ++ item.1 := by simp [hp, hgap]
    have hnext : '=' ∉ p ++ item.1 ++ item.2.residue := by simp [hp, hgap, not_mem_residue hproper]
    calc
      _ = leftover ((items.map (·.2)).filterMap Attribute.quoted?)
            (leftover item.2.quoted?.toList (p ++ item.1 ++ (item.2.write ++ writeSpaced items))) := by
        rw [List.map_cons, filterMap_cons_toList, leftover_append, writeSpaced_cons]
        simp only [List.append_assoc]
      _ = leftover ((items.map (·.2)).filterMap Attribute.quoted?)
            (p ++ item.1 ++ item.2.residue ++ writeSpaced items) := by
        rw [leftover_append_write hproper hfront]
        simp only [List.append_assoc]
      _ = p ++ residues (item :: items) := by
        rw [ih h.tail hnext, residues_cons]
        simp only [List.append_assoc]

/-- The names without a value are the words that are left. -/
theorem words_append_residues (ha : a.IsProper) (h : AreSpaced items) :
    Text.words (a.residue ++ residues items) = a.flag?.toList ++ Text.words (residues items) := by
  cases a with
  | pair => exact Text.words_cons_blank (by decide) _
  | flag name =>
    cases items with
    | nil =>
      rw [show residues [] = [] from rfl, List.append_nil]
      exact (isWord_of_isName ha).words
    | cons item items =>
      obtain ⟨hne, hblank, -⟩ := h item List.mem_cons_self
      obtain ⟨c, gap, hgap⟩ := List.exists_cons_of_ne_nil hne
      have hc : Text.isBlank c = true := List.all_eq_true.mp hblank c (hgap ▸ List.mem_cons_self)
      rw [residues_cons, hgap, List.cons_append, List.cons_append, Text.words_append_blank hc,
        Text.words_cons_blank hc, show (Attribute.flag name).residue = name from rfl,
        (isWord_of_isName ha).words]
      rfl

theorem words_residues (h : AreSpaced items) :
    Text.words (residues items) = (items.map (·.2)).filterMap Attribute.flag? := by
  induction items with
  | nil => rfl
  | cons item items ih =>
    obtain ⟨-, hblank, hproper⟩ := h item List.mem_cons_self
    rw [residues_cons, List.append_assoc, Text.words_append_of_isAllBlank hblank,
      words_append_residues hproper h.tail, ih h.tail, List.map_cons, filterMap_cons_toList]

/-! ## Reading what is written -/

/-- An attribute ends with a character that is not blank. -/
theorem stripEnd_write (ha : a.IsProper) : Text.stripEnd a.write = a.write := by
  have hlast : ∃ t c, a.write = t ++ [c] ∧ Text.isBlank c = false := by
    cases a with
    | flag name =>
      have hword := isWord_of_isName ha
      exact ⟨_, _, (List.dropLast_concat_getLast hword.ne_nil).symm, hword.solid _ (List.getLast_mem _)⟩
    | pair name quote value =>
      exact ⟨name ++ '=' :: quote :: value, quote, by simp [Attribute.write], isBlank_of_isQuote ha.2.1⟩
  obtain ⟨t, c, hwrite, hc⟩ := hlast
  rw [hwrite, Text.stripEnd_concat hc]

theorem isAllBlank_write (ha : a.IsProper) (t : Text) : Text.isAllBlank (a.write ++ t) = false := by
  obtain ⟨c, rest, hwrite, hc⟩ := ha.exists_cons
  rw [hwrite]
  simp [Text.isAllBlank, isBlank_of_isNameChar (isNameChar_of_isNameStart hc)]

theorem stripEnd_writeSpaced (h : AreSpaced items) : Text.stripEnd (writeSpaced items) = writeSpaced items := by
  induction items with
  | nil => rfl
  | cons item items ih =>
    obtain ⟨-, -, hproper⟩ := h item List.mem_cons_self
    rw [writeSpaced_cons, List.append_assoc, Text.stripEnd_append_solid (isAllBlank_write hproper _),
      Text.stripEnd_append_of_end (stripEnd_write hproper), ih h.tail]

/-- Stripping takes the blanks away that stand in front of the first attribute. -/
theorem strip_writeSpaced_cons (h : AreSpaced (item :: items)) :
    Text.strip (writeSpaced (item :: items)) = item.2.write ++ writeSpaced items := by
  obtain ⟨-, hblank, hproper⟩ := h item List.mem_cons_self
  obtain ⟨c, rest, hwrite, hc⟩ := hproper.exists_cons
  have hdrop : (item.2.write ++ writeSpaced items).dropWhile Text.isBlank =
      item.2.write ++ writeSpaced items := by
    rw [hwrite, List.cons_append,
      List.dropWhile_cons_of_neg (by simp [isBlank_of_isNameChar (isNameChar_of_isNameStart hc)])]
  unfold Text.strip
  rw [writeSpaced_cons, List.append_assoc, Text.dropWhile_append_blank hblank, hdrop,
    Text.stripEnd_append_of_end (stripEnd_write hproper), stripEnd_writeSpaced h.tail]

theorem isName_of_mem_flags {as : List Attribute} (h : ∀ a ∈ as, a.IsProper) {name : Text}
    (hname : name ∈ as.filterMap Attribute.flag?) : isName name = true := by
  obtain ⟨a, ha, hflag⟩ := List.mem_filterMap.mp hname
  cases a with
  | flag other =>
    obtain rfl : other = name := Option.some.inj hflag
    exact h _ ha
  | pair => cases hflag

/-- A first attribute without blanks in front of it, and others behind it, are read. -/
theorem ofText_write (ha : a.IsProper) (h : AreSpaced items) :
    ofText (a.write ++ writeSpaced items) = ofList (a :: items.map (·.2)) := by
  have hproper : ∀ b ∈ a :: items.map (·.2), b.IsProper := List.forall_mem_cons.mpr ⟨ha, h.isProper⟩
  have hpairs : quotedPairs (a.write ++ writeSpaced items) =
      (a :: items.map (·.2)).filterMap Attribute.quoted? := by
    rw [quotedPairs_append_write ha h, quotedPairs_writeSpaced h, filterMap_cons_toList]
  have hleft : leftover ((a :: items.map (·.2)).filterMap Attribute.quoted?) (a.write ++ writeSpaced items) =
      a.residue ++ residues items := by
    rw [filterMap_cons_toList, leftover_append]
    exact (congrArg _ (leftover_append_write ha List.not_mem_nil _)).trans
      (leftover_writeSpaced h (not_mem_residue ha))
  have hwords : Text.words (a.residue ++ residues items) = (a :: items.map (·.2)).filterMap Attribute.flag? := by
    rw [words_append_residues ha h, words_residues h, filterMap_cons_toList]
  have hflags := List.filter_congr (l := (a :: items.map (·.2)).filterMap Attribute.flag?)
    (p := fun word => isName word &&
      !((a :: items.map (·.2)).filterMap Attribute.quoted?).any (·.name = word))
    (q := fun word => !((a :: items.map (·.2)).filterMap Attribute.quoted?).any (·.name = word))
    fun name hname => by rw [isName_of_mem_flags hproper hname, Bool.true_and]
  simp only [ofText, ofList, hpairs, hleft, hwords, hflags]

theorem ofText_strip_writeSpaced (h : AreSpaced items) :
    ofText (Text.strip (writeSpaced items)) = ofList (items.map (·.2)) := by
  cases items with
  | nil => simp [writeSpaced, Text.strip, Text.stripEnd, ofText, ofList, quotedPairs, leftover, Text.words,
      Text.pieces]
  | cons item items =>
    rw [strip_writeSpaced_cons h, ofText_write (h item List.mem_cons_self).2.2 h.tail, List.map_cons]

theorem not_mem_write (ha : a.IsProper) : '>' ∉ a.write := by
  have hname : '>' ∉ a.name := not_mem_of_isName ha.isName (by decide)
  cases a with
  | flag name => exact hname
  | pair name quote value =>
    obtain ⟨-, hquote, -, hvalue⟩ := ha
    have hne : '>' ≠ quote := by
      rintro rfl
      cases hquote
    simp only [Attribute.write, List.mem_append, List.mem_cons, List.not_mem_nil, not_or]
    exact ⟨hname, by decide, hne, hvalue, hne, id⟩

theorem not_mem_writeSpaced (h : AreSpaced items) : '>' ∉ writeSpaced items := by
  unfold writeSpaced
  rw [List.mem_flatMap]
  rintro ⟨item, hitem, hmem⟩
  obtain ⟨-, hblank, hproper⟩ := h item hitem
  rcases List.mem_append.mp hmem with hgap | hwrite
  · exact absurd (List.all_eq_true.mp hblank _ hgap) (by decide)
  · exact not_mem_write hproper hwrite

/-- Nothing ends a tag before its end. -/
theorem not_mem_name_writeSpaced {name : Text} (hname : isName name = true) (h : AreSpaced items) :
    '>' ∉ name ++ writeSpaced items := fun hmem =>
  (List.mem_append.mp hmem).elim (not_mem_of_isName hname (by decide)) (not_mem_writeSpaced h)

theorem attributeText?_writeSpaced {name : Text} (hname : isName name = true) (h : AreSpaced items)
    (after : Text) :
    attributeText? ('<' :: (name ++ writeSpaced items ++ '>' :: after)) =
      some (Text.strip (writeSpaced items)) := by
  obtain ⟨c, rest, rfl, hc, hrest⟩ := exists_cons_of_isName hname
  have htail : ((c :: rest) ++ (writeSpaced items ++ '>' :: after)).dropWhile isNameChar =
      writeSpaced items ++ '>' :: after := by
    rw [List.dropWhile_append_of_pos (isNameChar_of_isName hname)]
    rcases h.writeSpaced_cases with hnil | ⟨d, more, hcons, hd⟩
    · rw [hnil]
      exact List.dropWhile_cons_of_neg (by decide)
    · rw [hcons]
      exact List.dropWhile_cons_of_neg (by simp [isNameChar_of_isBlank hd])
  rw [List.append_assoc, attributeText?, htail, if_pos (by simp [hc]), if_pos (by simp),
    Text.takeWhile_append_cons (Text.ne_of_not_mem (not_mem_writeSpaced h)) (by decide)]

/-- **A tag is read as the attributes say that are written in it.** -/
theorem ofTag_writeSpaced {name : Text} (hname : isName name = true) (h : AreSpaced items) (after : Text) :
    ofTag ('<' :: (name ++ writeSpaced items ++ '>' :: after)) = ofList (items.map (·.2)) := by
  unfold ofTag
  rw [attributeText?_writeSpaced hname h]
  exact ofText_strip_writeSpaced h

end Attributes

end Inlay
