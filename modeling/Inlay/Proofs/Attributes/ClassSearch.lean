import Inlay.Proofs.Attributes.ClassPlace

/-!
# The class attribute among the others

Of several class attributes the last one counts when a tag is read. When class names are added to a tag, its class
attribute is looked for in the raw text instead, where the first thing counts that reads like one: a class attribute
whose value holds a quote does not, and a part of a value may. The two come to the same attribute under a condition on
the attributes, and only under it.

* `lastClass?` — the class attribute that counts.
* `mentionsClass` — a value in which a class attribute seems to begin.
* `classIsPlain` — attributes among which the one that counts is found.

Main statements: `isSome_readClass?_append_quote` (what a class attribute seems to be at the end of a value),
`breakAtClass?_append_value` and `exists_of_mentionsClass` (what becomes of the search in a value) and
`breakAtClass?_eq_lastClass?_iff`.
-/

namespace Inlay

open Markup

/-- No attribute is called `class` and has a value. -/
def LackClass (as : List Attribute) : Prop := ∀ p ∈ as.filterMap Attribute.quoted?, p.name ≠ className

instance : DecidablePred LackClass := fun as =>
  inferInstanceAs (Decidable (∀ p ∈ as.filterMap Attribute.quoted?, p.name ≠ className))

/-- The quote of the first value. -/
def nextQuote? (as : List Attribute) : Option Char :=
  as.findSome? fun
    | .flag _ => none
    | .pair _ quote _ => some quote

/-- Whether a class attribute seems to begin with the text `t`, which a quote ends: the name, an equals sign and a
value, with blanks around the equals sign. The value stands in quotes in `t`, or its first quote is the one that ends
`t`; `closes` tells whether the next quote behind `t` is the same one again. -/
def beginsClass (closes : Bool) (t : Text) : Bool :=
  className.isPrefixOf t &&
    match (t.drop className.length).dropWhile Text.isBlank with
    | '=' :: tail =>
      match tail.dropWhile Text.isBlank with
      | [] => closes
      | quote :: body => isQuote quote && body.contains quote
    | _ => false

/-- Whether a class attribute seems to begin somewhere in `t` behind a blank. `afterBlank` tells whether a blank
stands before `t`. -/
def mentionsClass (closes afterBlank : Bool) : Text → Bool
  | [] => false
  | c :: rest => afterBlank && beginsClass closes (c :: rest) || mentionsClass closes (Text.isBlank c) rest

/-- The class attribute that counts is the first thing that reads like one: its value holds no quote, those of the
class attributes in front of it do, and no value in front of it mentions a class attribute. Where no class attribute
counts, no value mentions one. -/
def classIsPlain : List Attribute → Bool
  | [] => true
  | .flag _ :: rest => classIsPlain rest
  | .pair name quote value :: rest =>
    if name = className ∧ value.any isQuote = false then decide (LackClass rest)
    else
      !mentionsClass (nextQuote? rest = some quote) false value &&
        !(name = className && decide (LackClass rest)) && classIsPlain rest

/-- What is found behind a text that has been passed over. -/
def behind (s : Text) (found : Text × Text × Text) : Text × Text × Text := (s ++ found.1, found.2.1, found.2.2)

/-- The class attribute that counts in the attribute `a` and the text `t` behind it, of which `later?` is the one that
counts: the text before it, its value, and the text after it. -/
def Attribute.classWith? (a : Attribute) (t : Text) (later? : Option (Text × Text × Text)) :
    Option (Text × Text × Text) :=
  match later?, a with
  | some later, a => some (behind a.write later)
  | none, .pair name _ value => if name = className then some ([], value, t) else none
  | none, .flag _ => none

/-- The class attribute that counts among attributes. -/
def lastClass? : SpacedAttributes → Option (Text × Text × Text)
  | [] => none
  | (gap, a) :: rest => (a.classWith? (writeSpaced rest) (lastClass? rest)).map (behind gap)

variable {s t gap value name : Text} {quote c : Char} {a : Attribute} {as : List Attribute} {items : SpacedAttributes}

/-! ## Plain attributes -/

/-- The class attribute that counts among plain attributes holds no quote. -/
theorem any_isQuote_of_classIsPlain (h : classIsPlain (.pair className quote value :: as) = true)
    (hlack : LackClass as) : value.any isQuote = false := by
  unfold classIsPlain at h
  split at h
  · next hclass => exact hclass.2
  · simp [hlack] at h

/-- Plain attributes are plain behind each one but that which counts. -/
theorem classIsPlain_of_cons (h : classIsPlain (.pair name quote value :: as) = true)
    (hother : ¬ (name = className ∧ LackClass as)) : classIsPlain as = true := by
  unfold classIsPlain at h
  split at h
  · next hclass => exact absurd ⟨hclass.1, of_decide_eq_true h⟩ hother
  · exact (Bool.and_eq_true_iff.mp h).2

/-! ## What is passed over -/

theorem map_behind_append (s t : Text) (found : Option (Text × Text × Text)) :
    found.map (behind (s ++ t)) = (found.map (behind t)).map (behind s) := by
  cases found with
  | none => rfl
  | some found => simp [behind]

theorem map_behind_inj {found found' : Option (Text × Text × Text)} :
    found.map (behind s) = found'.map (behind s) ↔ found = found' := by
  refine (Option.map_injective fun x y h => ?_).eq_iff
  obtain ⟨hbefore, hrest⟩ := Prod.mk.inj h
  exact Prod.ext (List.append_cancel_left hbefore) hrest

/-- Class attributes with different texts in front of them are not the same. -/
theorem map_behind_ne {found : Option (Text × Text × Text)} {before value after : Text}
    (h : before.length < s.length) : found.map (behind s) ≠ some (before, value, after) := by
  intro heq
  obtain ⟨⟨b, v, a⟩, -, hfound⟩ := Option.map_eq_some_iff.mp heq
  have hlength := congrArg (fun x => x.1.length) hfound
  simp only [behind, List.length_append] at hlength
  omega

theorem breakAtClass?_of_none {afterBlank : Bool}
    (h : (if afterBlank then readClass? (c :: t) else none) = none) :
    breakAtClass? afterBlank (c :: t) = (breakAtClass? (Text.isBlank c) t).map (behind [c]) := by
  rw [breakAtClass?, h]
  rfl

theorem breakAtClass?_of_some {after : Text} (h : readClass? t = some (value, after)) :
    breakAtClass? true t = some ([], value, after) := by
  cases t with
  | nil => cases h
  | cons c t =>
    rw [breakAtClass?, if_pos rfl, h]

/-- No class attribute begins in a text without blanks. -/
theorem breakAtClass?_append_solid (h : ∀ c ∈ s, Text.isBlank c = false) (t : Text) :
    breakAtClass? false (s ++ t) = (breakAtClass? false t).map (behind s) := by
  induction s with
  | nil => exact Option.map_id'.symm
  | cons c s ih =>
    obtain ⟨hc, hs⟩ := List.forall_mem_cons.mp h
    rw [List.cons_append, breakAtClass?_of_none rfl, hc, ih hs, ← map_behind_append, List.singleton_append]

/-- A class attribute may begin behind blanks. -/
theorem breakAtClass?_append_blank (hne : gap ≠ []) (hblank : Text.isAllBlank gap = true) (afterBlank : Bool)
    (t : Text) : breakAtClass? afterBlank (gap ++ t) = (breakAtClass? true t).map (behind gap) := by
  induction gap generalizing afterBlank with
  | nil => exact absurd rfl hne
  | cons c gap ih =>
    obtain ⟨hc, hgap⟩ := List.forall_mem_cons.mp (List.all_eq_true.mp hblank)
    have hne : ¬ 'c' = c := by
      rintro rfl
      exact absurd hc (by decide)
    have hnone : readClass? (c :: (gap ++ t)) = none := by
      simp [readClass?, className, hne]
    rw [List.cons_append, breakAtClass?_of_none (by simp [hnone]), hc]
    cases gap with
    | nil => rfl
    | cons d gap =>
      rw [ih (List.cons_ne_nil _ _) (List.all_eq_true.mpr hgap), ← map_behind_append, List.singleton_append]

/-! ## Names -/

/-- A name with something behind it reads like a class attribute only if it is `class` and an equals sign
follows. -/
theorem of_readClass?_name {found : Text × Text} (hname : isName name = true)
    (hends : t.head?.any isNameChar = false) (h : readClass? (name ++ t) = some found) :
    name = className ∧ (t.dropWhile Text.isBlank).head? = some '=' := by
  obtain ⟨written, ⟨blanks, blanks', quote, hblanks, -, -, -, rfl⟩, heq⟩ := readClass?_eq_some_iff.mp h
  have hclass : isName className = true := by decide
  rw [List.append_assoc, List.append_assoc, List.cons_append] at heq
  obtain rfl : name = className := by
    rw [← Text.takeWhile_append_stop (isNameChar_of_isName hname) hends, heq,
      Text.takeWhile_append_stop (isNameChar_of_isName hclass) (head?_append_equals hblanks _)]
  refine ⟨rfl, ?_⟩
  rw [List.append_cancel_left heq, Text.dropWhile_append_blank hblanks]
  rfl

/-! ## Values -/

/-- The next quote behind a text. -/
theorem head?_dropWhile_writeSpaced (h : AreSpaced items) :
    ((writeSpaced items).dropWhile fun c => !isQuote c).head? = nextQuote? (items.map (·.2)) := by
  induction items with
  | nil => rfl
  | cons item items ih =>
    obtain ⟨gap, a⟩ := item
    obtain ⟨-, hblank, hproper⟩ := h _ List.mem_cons_self
    have hgap : ∀ c ∈ gap, (!isQuote c) = true := by
      intro c hc
      have hc := List.all_eq_true.mp hblank c hc
      cases hquote : isQuote c with
      | false => rfl
      | true => rw [isBlank_of_isQuote hquote] at hc; cases hc
    have hname : ∀ c ∈ a.name, (!isQuote c) = true := by
      intro c hc
      have hc := isNameChar_of_isName hproper.isName c hc
      cases hquote : isQuote c with
      | false => rfl
      | true => rcases eq_of_isQuote hquote with rfl | rfl <;> exact absurd hc (by decide)
    rw [writeSpaced_cons, List.append_assoc, List.dropWhile_append_of_pos hgap]
    cases a with
    | flag name => exact (congrArg List.head? (List.dropWhile_append_of_pos hname)).trans (ih h.tail)
    | pair name quote value =>
      have hequals : ∀ c ∈ name ++ ['='], (!isQuote c) = true := by
        intro c hc
        rcases List.mem_append.mp hc with hc | hc
        · exact hname c hc
        · rw [List.mem_singleton.mp hc]
          decide
      have hwrite : (Attribute.pair name quote value).write ++ writeSpaced items =
          name ++ ['='] ++ quote :: (value ++ quote :: writeSpaced items) := by
        simp [Attribute.write]
      rw [hwrite, Text.dropWhile_append_cons hequals (by simp [hproper.2.1])]
      rfl

/-- Two quotes that differ from a third one are the same. -/
theorem eq_of_ne_quote {q q' : Char} (h : isQuote q = true) (h' : isQuote q' = true) (hquote : isQuote quote = true)
    (hne : q ≠ quote) (hne' : q' ≠ quote) : q = q' := by
  rcases eq_of_isQuote h with rfl | rfl <;> rcases eq_of_isQuote h' with rfl | rfl <;>
    rcases eq_of_isQuote hquote with rfl | rfl <;> simp_all

/-- In front of a quote, the next quote is another one exactly if that stands there. -/
theorem head?_dropWhile_append_iff {q : Char} {body : Text} (hquote : isQuote quote = true)
    (hbody : ∀ c ∈ body, c ≠ quote) (hne : q ≠ quote) :
    ((body ++ quote :: t).dropWhile fun c => !isQuote c).head? = some q ↔ isQuote q = true ∧ q ∈ body := by
  induction body with
  | nil => simp [hquote, hne.symm]
  | cons c body ih =>
    obtain ⟨hc, hbody⟩ := List.forall_mem_cons.mp hbody
    cases hisQuote : isQuote c with
    | false =>
      rw [List.cons_append, List.dropWhile_cons_of_pos (by simp [hisQuote]), ih hbody, List.mem_cons]
      refine and_congr_right fun hq => (or_iff_right ?_).symm
      rintro rfl
      rw [hisQuote] at hq
      cases hq
    | true =>
      rw [List.cons_append, List.dropWhile_cons_of_neg (by simp [hisQuote]), List.head?_cons, Option.some.injEq]
      constructor
      · rintro rfl
        exact ⟨hisQuote, List.mem_cons_self⟩
      · rintro ⟨hq, -⟩
        exact eq_of_ne_quote hisQuote hq hquote hc hne

/-- The name `class` that begins in a value ends in it. -/
theorem className_isPrefixOf_append (hquote : isQuote quote = true) (value t : Text) :
    className.isPrefixOf (value ++ quote :: t) = className.isPrefixOf value := by
  rw [Bool.eq_iff_iff, List.isPrefixOf_iff_prefix, List.isPrefixOf_iff_prefix]
  refine ⟨fun h => ?_, fun h => h.trans (List.prefix_append ..)⟩
  rcases List.prefix_or_prefix_of_prefix h (List.prefix_append ..) with h | ⟨u, hu⟩
  · exact h
  · cases u with
    | nil =>
      rw [List.append_nil] at hu
      exact ⟨[], by rw [hu, List.append_nil]⟩
    | cons d u =>
      rw [← hu, List.prefix_append_right_inj] at h
      obtain ⟨rfl, -⟩ := List.cons_prefix_cons.mp h
      have hmem : d ∈ className := hu ▸ List.mem_append_right _ List.mem_cons_self
      rcases eq_of_isQuote hquote with rfl | rfl <;> exact absurd hmem (by decide)

/-- **A class attribute seems to begin with a value** exactly if one can be read from there on. -/
theorem isSome_readClass?_append_quote (hquote : isQuote quote = true) (hvalue : quote ∉ value) (t : Text) :
    (readClass? (value ++ quote :: t)).isSome =
      beginsClass ((t.dropWhile fun c => !isQuote c).head? = some quote) value := by
  have hstop : ∀ {p : Char → Bool}, p quote = false → (quote :: t).head?.any p = false := id
  have hblank := hstop (isBlank_of_isQuote hquote)
  unfold readClass? beginsClass
  rw [className_isPrefixOf_append hquote]
  cases hstart : className.isPrefixOf value with
  | false => rfl
  | true =>
    obtain ⟨u, rfl⟩ := List.isPrefixOf_iff_prefix.mp hstart
    rw [if_pos rfl, Bool.true_and, List.append_assoc, List.drop_left, List.drop_left,
      Text.dropWhile_append_of_head hblank]
    have hu : ∀ c ∈ u.dropWhile Text.isBlank, c ≠ quote := by
      rintro c hc rfl
      exact hvalue (List.mem_append_right _ (List.dropWhile_subset _ hc))
    cases htext : u.dropWhile Text.isBlank with
    | nil => rcases eq_of_isQuote hquote with rfl | rfl <;> rfl
    | cons e tail =>
      rw [htext] at hu
      rw [List.cons_append]
      by_cases he : e = '='
      · subst he
        have htail : ∀ c ∈ tail.dropWhile Text.isBlank, c ≠ quote := fun c hc =>
          hu c (List.mem_cons_of_mem _ (List.dropWhile_subset _ hc))
        simp only [Text.dropWhile_append_of_head hblank]
        cases hbody : tail.dropWhile Text.isBlank with
        | nil =>
          simp only [List.nil_append, hquote, Bool.true_and, decide_eq_true_eq]
          cases t.dropWhile fun c => !isQuote c with
          | nil => rfl
          | cons close after =>
            by_cases hclose : close = quote <;> simp [hclose]
        | cons q body =>
          rw [hbody] at htail
          have hq := htail q List.mem_cons_self
          have hnext := head?_dropWhile_append_iff (q := q) (t := t) hquote (fun c hc => htail c (List.mem_cons_of_mem _ hc))
            hq
          simp only [List.cons_append]
          cases hisQuote : isQuote q with
          | false => split <;> simp
          | true =>
            rw [hisQuote] at hnext
            cases hdrop : (body ++ quote :: t).dropWhile fun c => !isQuote c with
            | nil => simpa [hdrop] using hnext
            | cons close after =>
              rw [hdrop] at hnext
              by_cases hclose : close = q <;> simp_all
      · split
        · rename_i heq
          exact absurd (List.cons.inj heq).1 he
        · split
          · rename_i heq
            exact absurd (List.cons.inj heq).1 he
          · rfl

section

variable {afterBlank : Bool} (hquote : isQuote quote = true) (hvalue : quote ∉ value) (t : Text)

include hquote hvalue

theorem readClass?_append_quote_eq_none
    (h : beginsClass ((t.dropWhile fun c => !isQuote c).head? = some quote) value = false) :
    readClass? (value ++ quote :: t) = none := by
  rw [← isSome_readClass?_append_quote hquote hvalue] at h
  simpa using h

/-- A value that mentions no class attribute is passed over. -/
theorem breakAtClass?_append_value
    (h : mentionsClass ((t.dropWhile fun c => !isQuote c).head? = some quote) afterBlank value = false) :
    breakAtClass? afterBlank (value ++ quote :: t) =
      (breakAtClass? false t).map (behind (value ++ [quote])) := by
  induction value generalizing afterBlank with
  | nil =>
    have hnone : readClass? ([] ++ quote :: t) = none := readClass?_append_quote_eq_none hquote hvalue t rfl
    rw [List.nil_append] at hnone ⊢
    rw [List.nil_append, breakAtClass?_of_none (by simp [hnone]), isBlank_of_isQuote hquote]
  | cons c value ih =>
    rw [mentionsClass, Bool.or_eq_false_iff] at h
    have hnone : (if afterBlank then readClass? (c :: (value ++ quote :: t)) else none) = none := by
      cases afterBlank with
      | false => rfl
      | true => exact readClass?_append_quote_eq_none hquote hvalue t (by simpa using h.1)
    rw [List.cons_append, breakAtClass?_of_none hnone, ih (List.not_mem_of_not_mem_cons hvalue) h.2,
      ← map_behind_append, List.singleton_append, List.cons_append]

/-- In a value that mentions a class attribute the search ends. -/
theorem exists_of_mentionsClass
    (h : mentionsClass ((t.dropWhile fun c => !isQuote c).head? = some quote) afterBlank value = true) :
    ∃ before v after, breakAtClass? afterBlank (value ++ quote :: t) = some (before, v, after) ∧
      before.length < value.length := by
  induction value generalizing afterBlank with
  | nil => cases h
  | cons c value ih =>
    rw [mentionsClass, Bool.or_eq_true] at h
    cases hread : if afterBlank then readClass? (c :: (value ++ quote :: t)) else none with
    | some found =>
      exact ⟨[], found.1, found.2, by rw [List.cons_append, breakAtClass?, hread], Nat.succ_pos _⟩
    | none =>
      rcases h with hbegins | hlater
      · obtain ⟨rfl, hbegins⟩ := Bool.and_eq_true_iff.mp hbegins
        rw [← isSome_readClass?_append_quote hquote hvalue, List.cons_append] at hbegins
        rw [if_pos rfl] at hread
        rw [hread] at hbegins
        cases hbegins
      · obtain ⟨before, v, after, hfound, hlength⟩ := ih (List.not_mem_of_not_mem_cons hvalue) hlater
        refine ⟨c :: before, v, after, ?_, Nat.succ_lt_succ hlength⟩
        rw [List.cons_append, breakAtClass?_of_none hread, hfound]
        rfl

end

/-! ## One attribute -/

/-- A flag is passed over: no equals sign follows it. -/
theorem breakAtClass?_append_flag (hname : isName name = true) (h : AreSpaced items) :
    breakAtClass? true ((Attribute.flag name).write ++ writeSpaced items) =
      (breakAtClass? false (writeSpaced items)).map (behind (Attribute.flag name).write) := by
  obtain ⟨c, rest, rfl, hc, hrest⟩ := exists_cons_of_isName hname
  have hnone : readClass? (c :: rest ++ writeSpaced items) = none := by
    cases hread : readClass? (c :: rest ++ writeSpaced items) with
    | none => rfl
    | some found =>
      have hhead := h.head?_dropWhile
      rw [(of_readClass?_name hname h.endsName hread).2] at hhead
      exact absurd hhead (by decide)
  rw [Attribute.write, List.cons_append, breakAtClass?_of_none (by simpa using hnone),
    isBlank_of_isNameChar (isNameChar_of_isNameStart hc),
    breakAtClass?_append_solid fun d hd => isBlank_of_isNameChar (hrest d hd), ← map_behind_append,
    List.singleton_append]

section

variable (h : (Attribute.pair name quote value).IsProper) (t : Text)

include h

/-- A pair is read as a class attribute if it is one and its value holds no quote. -/
theorem readClass?_append_pair :
    readClass? ((Attribute.pair name quote value).write ++ t) =
      if name = className ∧ value.any isQuote = false then some (value, t) else none := by
  obtain ⟨hname, hquote, hvalue, -⟩ := h
  split
  · next hclass =>
    obtain ⟨rfl, hnone⟩ := hclass
    have hwritten : IsClassText value (Attribute.pair className quote value).write :=
      ⟨[], [], quote, rfl, rfl, hquote, hnone, rfl⟩
    exact hwritten.readClass? t
  · next hclass =>
    cases hread : readClass? ((Attribute.pair name quote value).write ++ t) with
    | none => rfl
    | some found =>
      have htext : (Attribute.pair name quote value).write ++ t = name ++ '=' :: quote :: (value ++ quote :: t) := by
        simp [Attribute.write]
      rw [htext] at hread
      obtain ⟨rfl, -⟩ := of_readClass?_name hname rfl hread
      obtain ⟨written, ⟨blanks, blanks', q, hblanks, hblanks', hq, hv, rfl⟩, heq⟩ := readClass?_eq_some_iff.mp hread
      have hequals : '=' :: quote :: (value ++ quote :: t) =
          blanks ++ '=' :: (blanks' ++ q :: (found.1 ++ q :: found.2)) := by
        simpa using heq
      -- no blanks stand around the equals sign, so the two values begin at the same place
      obtain ⟨rfl, -, hvalues⟩ := Text.append_cons_inj (List.forall_mem_nil _) (by decide)
        (List.all_eq_true.mp hblanks) (by decide) hequals
      obtain ⟨rfl, rfl, hrest⟩ := Text.append_cons_inj (List.forall_mem_nil _) (isBlank_of_isQuote hquote)
        (List.all_eq_true.mp hblanks') (isBlank_of_isQuote hq) hvalues
      have hquoteFree : quote ∉ found.1 := fun hmem => List.any_eq_false.mp hv quote hmem hquote
      obtain ⟨rfl, -⟩ := Text.append_cons_inj (Text.ne_of_not_mem hvalue) (by simp) (Text.ne_of_not_mem hquoteFree)
        (by simp) hrest
      exact absurd ⟨rfl, hv⟩ hclass

theorem breakAtClass?_append_pair (hclass : ¬ (name = className ∧ value.any isQuote = false)) :
    breakAtClass? true ((Attribute.pair name quote value).write ++ t) =
      (breakAtClass? false (value ++ quote :: t)).map (behind (name ++ ['=', quote])) := by
  have hread := readClass?_append_pair h t
  rw [if_neg hclass] at hread
  obtain ⟨hname, hquote, -, -⟩ := h
  obtain ⟨c, rest, rfl, hc, hrest⟩ := exists_cons_of_isName hname
  have hsolid : ∀ d ∈ rest ++ ['=', quote], Text.isBlank d = false := by
    intro d hd
    rcases List.mem_append.mp hd with hd | hd
    · exact isBlank_of_isNameChar (hrest d hd)
    · obtain rfl | rfl : d = '=' ∨ d = quote := by simpa using hd
      · decide
      · exact isBlank_of_isQuote hquote
  have hwrite : (Attribute.pair (c :: rest) quote value).write ++ t =
      c :: (rest ++ ['=', quote] ++ (value ++ quote :: t)) := by
    simp [Attribute.write]
  rw [hwrite] at hread ⊢
  rw [breakAtClass?_of_none (by simpa using hread), isBlank_of_isNameChar (isNameChar_of_isNameStart hc),
    breakAtClass?_append_solid hsolid, ← map_behind_append, List.singleton_append, List.cons_append]

end

/-! ## Which class attribute counts -/

section

variable {later? : Option (Text × Text × Text)}

/-- Where another class attribute counts, or an attribute is none, it makes no difference. -/
theorem classWith?_eq_map (t : Text) (h : (∀ p ∈ a.quoted?, p.name ≠ className) ∨ later? ≠ none) :
    a.classWith? t later? = later?.map (behind a.write) := by
  cases later? with
  | some later => rfl
  | none =>
    have hname := h.resolve_right (fun hne => hne rfl)
    cases a with
    | flag name => rfl
    | pair name quote value =>
      have hne : name ≠ className := hname _ rfl
      simp [Attribute.classWith?, hne]

theorem lackClass_cons_iff : LackClass (a :: as) ↔ (∀ p ∈ a.quoted?, p.name ≠ className) ∧ LackClass as := by
  unfold LackClass
  rw [Attributes.filterMap_cons_toList]
  simp only [List.mem_append, Option.mem_toList, Option.mem_def, or_imp, forall_and]

/-- No class attribute counts where there is none. -/
theorem lastClass?_eq_none_iff : lastClass? items = none ↔ LackClass (items.map (·.2)) := by
  induction items with
  | nil => exact iff_of_true rfl nofun
  | cons item items ih =>
    obtain ⟨gap, a⟩ := item
    rw [List.map_cons, lackClass_cons_iff, ← ih, lastClass?, Option.map_eq_none_iff]
    cases lastClass? items with
    | some later => simp [Attribute.classWith?]
    | none => cases a <;> simp [Attribute.classWith?, Attribute.quoted?]

section

variable (h : (Attribute.pair name quote value).IsProper)

include h

/-- What is read as a class attribute counts if no later one does. -/
theorem breakAtClass?_eq_classWith?_of_read (hclass : name = className ∧ value.any isQuote = false) :
    breakAtClass? true ((Attribute.pair name quote value).write ++ t) =
      (Attribute.pair name quote value).classWith? t later? ↔ later? = none := by
  rw [breakAtClass?_of_some ((readClass?_append_pair h t).trans (if_pos hclass))]
  cases later? with
  | none => simp [Attribute.classWith?, hclass.1]
  | some later => simp [Attribute.classWith?, behind, Attribute.write]

/-- What seems to be a class attribute in a value does not count. -/
theorem breakAtClass?_ne_classWith?_of_mentions (hclass : ¬ (name = className ∧ value.any isQuote = false))
    (hmentions : mentionsClass ((t.dropWhile fun c => !isQuote c).head? = some quote) false value = true) :
    breakAtClass? true ((Attribute.pair name quote value).write ++ t) ≠
      (Attribute.pair name quote value).classWith? t later? := by
  obtain ⟨before, v, after, hfound, hlength⟩ := exists_of_mentionsClass h.2.1 h.2.2.1 t hmentions
  rw [breakAtClass?_append_pair h t hclass, hfound]
  cases later? with
  | some later =>
    show _ ≠ (some later).map (behind (Attribute.pair name quote value).write)
    refine (map_behind_ne ?_).symm
    simp only [Attribute.write, List.length_append, List.length_cons, List.length_nil]
    omega
  | none => by_cases hname : name = className <;> simp [Attribute.classWith?, hname, behind]

end

/-- Behind an attribute that is passed over, what counts is found if it is found there; but a class attribute that
is passed over may not be the last one. -/
theorem map_behind_eq_classWith?_iff {found : Option (Text × Text × Text)} :
    found.map (behind a.write) = a.classWith? t later? ↔
      found = later? ∧ ((∀ p ∈ a.quoted?, p.name ≠ className) ∨ later? ≠ none) := by
  by_cases hlater : (∀ p ∈ a.quoted?, p.name ≠ className) ∨ later? ≠ none
  · rw [classWith?_eq_map t hlater, map_behind_inj]
    exact (and_iff_left hlater).symm
  · refine iff_of_false (fun heq => ?_) fun hboth => hlater hboth.2
    obtain ⟨hname, hnone⟩ := not_or.mp hlater
    obtain rfl : later? = none := Decidable.not_not.mp hnone
    cases a with
    | flag name => exact hname (by simp [Attribute.quoted?])
    | pair name quote value =>
      have hname : name = className := Decidable.not_not.mp (by simpa [Attribute.quoted?] using hname)
      simp only [Attribute.classWith?, hname, if_true] at heq
      have hne : (Attribute.pair className quote value).write ≠ [] := by simp [Attribute.write]
      refine map_behind_ne ?_ heq
      exact List.length_pos_iff.mpr hne

end

/-- **The search finds the class attribute that counts exactly among plain attributes**, and none exactly where none
counts. -/
theorem breakAtClass?_eq_lastClass?_iff (h : AreSpaced items) :
    breakAtClass? false (writeSpaced items) = lastClass? items ↔ classIsPlain (items.map (·.2)) = true := by
  induction items with
  | nil => exact iff_of_true rfl rfl
  | cons item items ih =>
    obtain ⟨gap, a⟩ := item
    obtain ⟨hgap, hblank, hproper⟩ := h _ List.mem_cons_self
    rw [writeSpaced_cons, List.append_assoc, breakAtClass?_append_blank hgap hblank, lastClass?, map_behind_inj]
    cases a with
    | flag name =>
      rw [breakAtClass?_append_flag hproper h.tail, map_behind_eq_classWith?_iff, ih h.tail]
      exact and_iff_left (.inl (by simp [Attribute.quoted?]))
    | pair name quote value =>
      rw [List.map_cons, classIsPlain, ← head?_dropWhile_writeSpaced h.tail]
      split
      · next hclass =>
        rw [breakAtClass?_eq_classWith?_of_read hproper hclass, decide_eq_true_eq, lastClass?_eq_none_iff]
      · next hclass =>
        cases hmentions : mentionsClass (((writeSpaced items).dropWhile fun c => !isQuote c).head? = some quote)
            false value with
        | true => exact iff_of_false (breakAtClass?_ne_classWith?_of_mentions hproper hclass hmentions) (by simp)
        | false =>
          have hpassed : breakAtClass? true ((Attribute.pair name quote value).write ++ writeSpaced items) =
              (breakAtClass? false (writeSpaced items)).map (behind (Attribute.pair name quote value).write) := by
            rw [breakAtClass?_append_pair hproper _ hclass,
              breakAtClass?_append_value hproper.2.1 hproper.2.2.1 (writeSpaced items) hmentions, ← map_behind_append]
            simp [Attribute.write]
          rw [hpassed, map_behind_eq_classWith?_iff, ih h.tail, and_comm, ne_eq, lastClass?_eq_none_iff]
          by_cases hname : name = className <;> simp [Attribute.quoted?, hname]

end Inlay
