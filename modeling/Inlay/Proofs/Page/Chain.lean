import Inlay.Proofs.Attributes.ClassUnion
import Inlay.Proofs.Attributes.Named
import Inlay.Proofs.Page.Tokens

/-!
# Chains of wrapping components

A component may do no more than wrap its content in another one. The attributes of a tag then go from link to
link: each pass writes them on the next tag, and the next pass reads them from there. Nothing is lost on the way,
and every link adds its class names.

* `Link` — a component that wraps its content, with the class names that its template wears.
* `Supply.Chains` — components each of which wraps its content in the next one, and the last in a `div`.

Main statements: `Markup.fill_wrapper` (content in a wrapper), `Attributes.extend_wrapper` (attributes on a
wrapper), `Supply.pass_wrapped` (one link), `Supply.reaches_of_chains` (all of them) and `expand_chain`.
-/

namespace Inlay

open Markup

/-- A template that wraps its content in the element called `next`, which wears the given class names. -/
def wrapper (next : Text) (tokens : List Text) : Text :=
  Tag.opening next (' ' :: Attributes.classText tokens) ++ "<slot/>".toList ++ Tag.closing next

/-- A component that wraps its content in another element, and the class names of that element. -/
structure Link where
  name : Text
  tokens : List Text
  deriving DecidableEq, Repr

/-- A class name of a template: a word without quotes and greater-than signs. -/
def IsToken (word : Text) : Prop := Text.IsWord word ∧ word.any isQuote = false ∧ '>' ∉ word

instance (word : Text) : Decidable (IsToken word) := inferInstanceAs (Decidable (_ ∧ _))

theorem IsToken.closed {word : Text} (h : IsToken word) : '\x22' ∉ word ∧ '>' ∉ word :=
  ⟨fun hmem => List.any_eq_false.mp h.2.1 _ hmem (by decide), h.2.2⟩

/-- The name is a name, and the template can wear the class names. -/
def Link.IsProper (link : Link) : Prop := isName link.name = true ∧ ∀ word ∈ link.tokens, IsToken word

instance (link : Link) : Decidable link.IsProper :=
  inferInstanceAs (Decidable (_ ∧ ∀ word ∈ link.tokens, _))

/-- The element that a chain begins with: its first component, or a `div` behind the last. -/
def chainHead : List Link → Text
  | [] => "div".toList
  | link :: _ => link.name

/-- Each link is a component that wraps its content in the next one. -/
def Supply.Chains (s : Supply) (native : NativeSet) : List Link → Prop
  | [] => True
  | link :: rest =>
    s.isComponent native link.name = .ok true ∧ s.load link.name = .ok (wrapper (chainHead rest) link.tokens) ∧
      s.Chains native rest

/-- The class names at the end of a chain. -/
def chainClasses (chain : List Link) (classes : List Text) : List Text :=
  chain.foldl (fun classes link => mergeClasses link.tokens classes) classes

/-! ## Content in a wrapper -/

namespace Markup

theorem eq_concat_of_mem_slotMarks :
    ∀ mark ∈ slotMarks, mark = mark.dropLast ++ ['>'] ∧ '>' ∉ mark.dropLast ∧ '\x22' ∉ mark.dropLast := by
  decide

/-- No slot mark ends where a quote stands before the greater-than sign, so a tag that ends with a quoted value
is passed over. -/
theorem breakAtMark?_append_quoted {t : Text} (h : '>' ∉ t) (u : Text) :
    breakAtMark? slotMarks (t ++ '\x22' :: '>' :: u) =
      (breakAtMark? slotMarks u).map fun parts => (t ++ '\x22' :: '>' :: parts.1, parts.2) := by
  induction t with
  | nil => exact breakAtMark?_of_not_mem (t := ['\x22', '>']) (by decide) u
  | cons c t ih =>
    have hno : ∀ mark ∈ slotMarks, ¬ mark <+: c :: (t ++ '\x22' :: '>' :: u) := by
      intro mark hmark hp
      obtain ⟨hconcat, hclosed, hquote⟩ := eq_concat_of_mem_slotMarks mark hmark
      obtain ⟨v, hv⟩ := hp
      have heq : mark.dropLast ++ '>' :: v = (c :: t ++ ['\x22']) ++ '>' :: u := by
        rw [hconcat] at hv
        simpa using hv
      have hfront : '>' ∉ c :: t ++ ['\x22'] := by simpa using h
      obtain ⟨hlast, -⟩ := Text.append_cons_inj (Text.ne_of_not_mem hclosed) (by decide)
        (Text.ne_of_not_mem hfront) (by decide) heq
      exact hquote (by rw [hlast]; simp)
    rw [List.cons_append, breakAtMark?_cons hno, ih fun hmem => h (List.mem_cons_of_mem _ hmem)]
    cases breakAtMark? slotMarks u <;> rfl

/-- **The content of a tag stands between the tags of the wrapper.** -/
theorem fill_wrapper {next : Text} {tokens : List Text} (hnext : isName next = true)
    (htokens : ∀ word ∈ tokens, '>' ∉ word) {content : Text} (h : Text.isAllBlank content = false) :
    fill (wrapper next tokens) content =
      Tag.opening next (' ' :: Attributes.classText tokens) ++ content ++ Tag.closing next := by
  have hjoin : '>' ∉ Text.join [' '] tokens := fun hmem =>
    (Text.of_mem_join hmem).elim (by decide) fun ⟨word, hword, hc⟩ => htokens word hword hc
  have hfront : '>' ∉ '<' :: next ++ ' ' :: className ++ '=' :: '\x22' :: Text.join [' '] tokens := by
    simp [not_mem_of_isName hnext (by decide : isNameChar '>' = false), className, hjoin]
  have hopening : Tag.opening next (' ' :: Attributes.classText tokens) =
      ('<' :: next ++ ' ' :: className ++ '=' :: '\x22' :: Text.join [' '] tokens) ++ ['\x22', '>'] := by
    simp [Tag.opening, Attributes.classText, Attributes.pairText]
  have hslot : breakAtMark? slotMarks ("<slot/>".toList ++ Tag.closing next) = some ([], Tag.closing next) :=
    breakAtMark?_slot isClean_slotMark isSlot_slotMark _
  have hbreak : breakAtMark? slotMarks (wrapper next tokens) =
      some (Tag.opening next (' ' :: Attributes.classText tokens), Tag.closing next) := by
    have hquoted := breakAtMark?_append_quoted hfront ("<slot/>".toList ++ Tag.closing next)
    rw [hslot] at hquoted
    rw [wrapper, hopening]
    simpa using hquoted
  unfold fill slot
  rw [h, hbreak]
  rfl

end Markup

/-! ## Attributes on a wrapper -/

namespace Attributes

variable {next : Text} {tokens : List Text}

/-- The class names of an element with some in its template and some from its tag. -/
def worn (tokens classes : List Text) : List Text :=
  if classes.isEmpty then tokens else mergeClasses tokens classes

/-- Without copies in the template it does not matter whether the tag has class names. -/
theorem worn_eq_mergeClasses {tokens classes : List Text} (h : classes ≠ [] ∨ tokens.Nodup) :
    worn tokens classes = mergeClasses tokens classes := by
  unfold worn
  split
  · next hempty =>
    obtain rfl := List.isEmpty_iff.mp hempty
    have hnodup : tokens.Nodup := h.resolve_left (absurd rfl)
    rw [mergeClasses_nil_of_nodup hnodup]
  · rfl

theorem mergeClasses_ne_nil {existing added : List Text} (h : added ≠ []) : mergeClasses existing added ≠ [] := by
  obtain ⟨word, hword⟩ := List.exists_mem_of_ne_nil added h
  exact List.ne_nil_of_mem (mem_mergeClasses.mpr (.inr hword))

theorem writeSpaced_classAttribute (tokens : List Text) :
    writeSpaced (spaced [classAttribute tokens]) = ' ' :: classText tokens := by
  rw [spaced, List.map_singleton, writeSpaced_cons]
  exact List.append_nil _

theorem areSpaced_classAttribute (htokens : ∀ word ∈ tokens, IsToken word) :
    AreSpaced (spaced [classAttribute tokens]) := by
  have hproper : (classAttribute tokens).IsProper :=
    isProper_classAttribute fun word hword => (htokens word hword).closed
  exact areSpaced_spaced fun b hb => by rwa [List.mem_singleton.mp hb]

/-- The attribute text of a tag on its way through a chain: the class names that it wears, and all other
attributes behind them. -/
def carried (classes : List Text) (a : Attributes) : Text :=
  writeSpaced (spaced (classAttribute classes :: a.rest))

/-- **A wrapper wears the class names of both and takes all other attributes behind them.** -/
theorem extend_wrapper (hnext : isName next = true) (htokens : ∀ word ∈ tokens, IsToken word) (a : Attributes) :
    a.extend ('<' :: (next ++ ' ' :: classText tokens)) =
      '<' :: (next ++ carried (worn tokens a.classes) a) := by
  have hwords : Text.words (Text.join [' '] tokens) = tokens :=
    Text.words_join fun word hword => (htokens word hword).1
  have hquote : (Text.join [' '] tokens).any isQuote = false := by
    refine List.any_eq_false.mpr fun c hc => ?_
    rcases Text.of_mem_join hc with rfl | ⟨word, hword, hmem⟩
    · decide
    · exact List.any_eq_false.mp (htokens word hword).2.1 c hmem
  have hspaced : AreSpaced (spaced [classAttribute tokens]) := areSpaced_classAttribute htokens
  have hclasses : extendClasses a.classes ('<' :: (next ++ ' ' :: classText tokens)) =
      '<' :: (next ++ ' ' :: classText (worn tokens a.classes)) := by
    cases hempty : a.classes.isEmpty with
    | true => rw [extendClasses, if_pos hempty, worn, if_pos hempty]
    | false =>
      have hjoined : joinClasses a.classes (spaced [classAttribute tokens]) =
          spaced [classAttribute (mergeClasses tokens a.classes)] := by
        rw [spaced, List.map_singleton, classAttribute, joinClasses, if_pos ⟨rfl, by simp [LackClass]⟩, hwords]
        rfl
      have hplain : classIsPlain ((spaced [classAttribute tokens]).map (·.2)) = true := by
        simp [spaced, classAttribute, classIsPlain, LackClass, hquote]
      have hpassed := extendClasses_opening hnext (by simpa using hempty) hspaced hplain
      rw [hjoined, writeSpaced_classAttribute, writeSpaced_classAttribute] at hpassed
      rw [hpassed, worn, hempty]
      rfl
  have hwritten : carried (worn tokens a.classes) a =
      ' ' :: classText (worn tokens a.classes) ++ a.appendix := by
    rw [← writeSpaced_rest, ← writeSpaced_classAttribute, ← writeSpaced_append]
    rfl
  rw [extend, hclasses, hwritten]
  simp

theorem addTo_wrapper (hnext : isName next = true) (htokens : ∀ word ∈ tokens, IsToken word) (a : Attributes)
    (content : Text) :
    a.addTo (Tag.opening next (' ' :: classText tokens) ++ content ++ Tag.closing next) =
      Tag.opening next (carried (worn tokens a.classes) a) ++ content ++ Tag.closing next := by
  have hspaced : AreSpaced (spaced [classAttribute tokens]) := areSpaced_classAttribute htokens
  have hbegins := beginsElement_writeSpaced hnext hspaced (content ++ Tag.closing next)
  have hroot := rootTag?_opening hbegins (not_mem_name_writeSpaced hnext hspaced)
  have hextend := extend_wrapper hnext htokens a
  rw [writeSpaced_classAttribute] at hroot
  have htext : Tag.opening next (' ' :: classText tokens) ++ content ++ Tag.closing next =
      '<' :: (next ++ ' ' :: classText tokens ++ '>' :: (content ++ Tag.closing next)) := by
    simp [Tag.opening]
  rw [htext, addTo, hroot]
  simp only [RootTag.text, hextend]
  simp [Tag.opening]

/-- The class names can be carried: each is a word without double quotes and greater-than signs, and none stands
twice. -/
structure AreCarried (classes : List Text) : Prop where
  tokens : AreTokens classes
  nodup : classes.Nodup

theorem AreCarried.merge {link : Link} {classes : List Text} (hlink : link.IsProper) (h : AreCarried classes) :
    AreCarried (mergeClasses link.tokens classes) where
  tokens word hword := (mem_mergeClasses.mp hword).elim
    (fun hnew => ⟨(hlink.2 word hnew).1, (hlink.2 word hnew).closed⟩) (h.tokens word)
  nodup := nodup_mergeClasses _ _

theorem AreCarried.chain {chain : List Link} (hproper : ∀ link ∈ chain, link.IsProper) {classes : List Text}
    (h : AreCarried classes) : AreCarried (chainClasses chain classes) := by
  induction chain generalizing classes with
  | nil => exact h
  | cons link rest ih =>
    obtain ⟨hlink, hrest⟩ := List.forall_mem_cons.mp hproper
    exact ih hrest (h.merge hlink)

theorem areSpaced_carried {a : Attributes} (ha : a.InOrder) (hquotable : a.IsQuotable) {classes : List Text}
    (h : AreCarried classes) : AreSpaced (spaced (classAttribute classes :: a.rest)) :=
  areSpaced_spaced (List.forall_mem_cons.mpr
    ⟨isProper_classAttribute fun word hword => (h.tokens word hword).2, ha.isProper_rest hquotable⟩)

/-- **What is carried is read.** -/
theorem ofTag_carried {a : Attributes} (ha : a.InOrder) (hquotable : a.IsQuotable) (hflags : className ∉ a.flags)
    {name : Text} (hname : isName name = true) {classes : List Text} (h : AreCarried classes) :
    ofTag (Tag.opening name (carried classes a)) = { a with classes := classes } := by
  have hread := ofTag_writeSpaced hname (areSpaced_carried ha hquotable h) []
  rw [map_spaced, classAttribute, ofList_cons_rest ha hflags,
    Text.words_join fun word hword => (h.tokens word hword).1] at hread
  rw [nil_mergeClasses_of_nodup h.nodup] at hread
  exact hread

end Attributes

/-- Attributes behind a name make an opening tag. -/
theorem isOpening_writeSpaced {name : Text} {items : SpacedAttributes} (hname : isName name = true)
    (h : AreSpaced items) : Tag.IsOpening name (writeSpaced items) where
  isName := isTagName_of_isName hname
  endsName := by
    rcases h.writeSpaced_cases with hnil | ⟨c, rest, hcons, hc⟩
    · rw [hnil]
      rfl
    · have htag : isTagChar c = false := Bool.eq_false_iff.mpr fun htag => by
        rw [isBlank_of_isTagChar htag] at hc
        cases hc
      rw [hcons]
      simp [endsName, htag]
  not_mem := Attributes.not_mem_writeSpaced h

/-! ## The passes over a chain -/

namespace Supply

variable {s : Supply} {native : NativeSet} {link : Link} {next attributes content : Text}

/-- **A pass moves the content and the attributes of a tag on to the next link.** -/
theorem pass_wrapped (hlink : link.IsProper) (hnext : isName next = true)
    (hcomponent : s.isComponent native link.name = .ok true)
    (hload : s.load link.name = .ok (wrapper next link.tokens))
    (hopening : Tag.IsOpening link.name attributes) (hcontent : '<' ∉ content)
    (hblank : Text.isAllBlank content = false) {a : Attributes}
    (ha : Attributes.ofTag (Tag.opening link.name attributes) = a) :
    s.pass native (Tag.opening link.name attributes ++ content ++ Tag.closing link.name) =
      .ok ([], some (Tag.opening next (Attributes.carried (Attributes.worn link.tokens a.classes) a) ++
        Text.strip content ++ Tag.closing next)) := by
  have hname := hopening.isName
  have hscan : Tag.scan (Tag.opening link.name attributes ++ content ++ Tag.closing link.name) =
      [] ++ ⟨0, (Tag.opening link.name attributes).length, link.name, attributes⟩ ::
        Tag.scanFrom (Tag.opening link.name attributes).length (content ++ Tag.closing link.name) := by
    rw [Tag.scan, List.append_assoc, Tag.scanFrom_opening hopening, Nat.zero_add]
    rfl
  have hclose : closing? (Tag.opening link.name attributes ++ content ++ Tag.closing link.name) link.name
      ((Tag.opening link.name attributes).length : Nat) =
        some ((Tag.opening link.name attributes).length + content.length) := by
    have hclosing := closingFrom_closing hname hname 0
      ((Tag.opening link.name attributes).length + content.length) []
    rw [List.append_assoc, closing?_eq, closingFrom_of_not_mem hcontent]
    simpa using hclosing
  have hsearch : s.search native (Tag.opening link.name attributes ++ content ++ Tag.closing link.name) =
      .ok ([], some ⟨link.name, attributes, (0 : Nat), (Tag.opening link.name attributes).length,
        ((Tag.opening link.name attributes).length + content.length : Nat)⟩) :=
    searchAmong_eq_some_iff.mpr ⟨_, _, _, _, hscan, .nil, hcomponent, hclose, rfl⟩
  have hsplits : Occurrence.Splits ⟨link.name, attributes, (0 : Nat),
      (Tag.opening link.name attributes).length,
      ((Tag.opening link.name attributes).length + content.length : Nat)⟩
      (Tag.opening link.name attributes ++ content ++ Tag.closing link.name) [] content [] := by
    refine ⟨?_, rfl, rfl, congrArg Int.ofNat List.length_append.symm⟩
    simp [Occurrence.openingTag, Occurrence.closingTag]
  have htokens : ∀ word ∈ link.tokens, '>' ∉ word := fun word hword => (hlink.2 word hword).2.2
  have hstrip : Text.isAllBlank (Text.strip content) = false := by rwa [Text.isAllBlank_strip]
  unfold pass
  rw [hsearch]
  dsimp only
  rw [hsplits.rewrite, hload]
  dsimp only [Except.map]
  rw [Occurrence.expansion, Occurrence.openingTag, ha, fill_wrapper hnext htokens hstrip,
    Attributes.addTo_wrapper hnext hlink.2, List.nil_append, List.append_nil]

/-- A page of one native element is done. -/
theorem pass_element (hname : s.isComponent native next = .ok false) (hopening : Tag.IsOpening next attributes)
    (hcontent : '<' ∉ content) :
    s.pass native (Tag.opening next attributes ++ content ++ Tag.closing next) = .ok ([], none) := by
  have hscan : Tag.scan (Tag.opening next attributes ++ content ++ Tag.closing next) =
      [⟨0, (Tag.opening next attributes).length, next, attributes⟩] := by
    rw [Tag.scan, List.append_assoc, Tag.scanFrom_opening hopening,
      Tag.scanFrom_append (Tag.isClosed_of_not_mem hcontent), Tag.scanFrom_of_not_mem hcontent,
      Tag.scanFrom_closing hopening.isName, Nat.zero_add]
    rfl
  have hover : s.PassesOver native (Tag.opening next attributes ++ content ++ Tag.closing next)
      (Tag.scan (Tag.opening next attributes ++ content ++ Tag.closing next)) [] := by
    rw [hscan]
    exact (PassesOver.plain hname).mpr .nil
  unfold pass search
  rw [searchAmong_eq_none_iff.mpr hover]

theorem isName_chainHead {chain : List Link} (hproper : ∀ link ∈ chain, link.IsProper) :
    isName (chainHead chain) = true := by
  cases chain with
  | nil => decide
  | cons link rest => exact (hproper link List.mem_cons_self).1

/-- **The passes move content and attributes through the whole chain.** -/
theorem reaches_of_chains {chain : List Link} (hproper : ∀ link ∈ chain, link.IsProper)
    (hchains : s.Chains native chain) {a : Attributes} (ha : a.InOrder) (hquotable : a.IsQuotable)
    (hflags : className ∉ a.flags) {classes : List Text} (hclasses : Attributes.AreCarried classes)
    (hclass : classes ≠ [] ∨ ∀ link ∈ chain, link.tokens.Nodup) (hcontent : '<' ∉ content)
    (hblank : Text.isAllBlank content = false) (hstrip : Text.strip content = content) :
    s.Reaches native chain.length
      (Tag.opening (chainHead chain) (Attributes.carried classes a) ++ content ++ Tag.closing (chainHead chain))
      (Tag.opening "div".toList (Attributes.carried (chainClasses chain classes) a) ++ content ++
        Tag.closing "div".toList) := by
  induction chain generalizing classes with
  | nil => exact .refl _
  | cons link rest ih =>
    obtain ⟨hlink, hrest⟩ := List.forall_mem_cons.mp hproper
    obtain ⟨hcomponent, hload, hchains⟩ := hchains
    have hopening : Tag.IsOpening link.name (Attributes.carried classes a) :=
      isOpening_writeSpaced hlink.1 (Attributes.areSpaced_carried ha hquotable hclasses)
    have hworn : Attributes.worn link.tokens classes = mergeClasses link.tokens classes :=
      Attributes.worn_eq_mergeClasses (hclass.imp_right fun hnodup => hnodup link List.mem_cons_self)
    have hpass := pass_wrapped hlink (isName_chainHead hrest) hcomponent hload hopening hcontent hblank
      (Attributes.ofTag_carried ha hquotable hflags hlink.1 hclasses)
    rw [hstrip, hworn] at hpass
    refine .step hpass (ih hrest hchains (hclasses.merge hlink) ?_)
    exact hclass.imp Attributes.mergeClasses_ne_nil
      fun hnodup other hother => hnodup other (List.mem_cons_of_mem _ hother)

end Supply

namespace Attributes

variable {as : List Attribute}

theorem subset_grouped (as : List Attribute) : grouped as ⊆ as := by
  intro a ha
  unfold grouped at ha
  rcases List.mem_append.mp ha with ha | ha
  · exact (List.mem_append.mp ha).elim List.mem_of_mem_filter List.mem_of_mem_filter
  · exact List.mem_of_mem_filter ha

/-- A word of a class attribute holds no character that its value does not hold. -/
theorem areTokens_classTokens (hproper : ∀ a ∈ as, a.IsProper) (hquotes : ∀ a ∈ as, a.isDoubleQuoted = true) :
    AreTokens (classTokens as) := by
  intro word hword
  obtain ⟨p, hp, hword⟩ := List.mem_flatMap.mp hword
  obtain ⟨a, ha, hquoted⟩ := List.mem_filterMap.mp (List.mem_of_mem_filter hp)
  have hsubset := Text.subset_of_mem_words hword
  cases a with
  | flag => cases hquoted
  | pair name quote value =>
    obtain rfl := Option.some.inj hquoted
    obtain rfl : quote = '\x22' := of_decide_eq_true (hquotes _ ha)
    obtain ⟨-, -, hquote, hclosed⟩ := hproper _ ha
    exact ⟨Text.isWord_of_mem_words hword, fun hmem => hquote (hsubset hmem), fun hmem => hclosed (hsubset hmem)⟩

/-- Attributes in double quotes with names of their own can be written as they have been read. -/
theorem isQuotable_ofList (hproper : ∀ a ∈ as, a.IsProper) (hquotes : ∀ a ∈ as, a.isDoubleQuoted = true)
    (hnames : (as.map Attribute.name).Nodup) : (ofList as).IsQuotable := by
  constructor
  · intro word hword
    rw [classes_ofList_of_nodup hnames, mem_mergeClasses] at hword
    exact (areTokens_classTokens hproper hquotes word (hword.resolve_left List.not_mem_nil)).2.1
  · intro p hp
    have hrest : Attribute.pair p.1 '\x22' p.2 ∈ (ofList as).rest :=
      List.mem_append_left _ (List.mem_map_of_mem (f := fun p => Attribute.pair p.1 '\x22' p.2) hp)
    rw [rest_ofList_of_nodup hnames hquotes] at hrest
    exact (hproper _ (subset_grouped as hrest)).2.2.1

theorem className_not_mem_flags (ha : (ofList as).InOrder) (hnames : (as.map Attribute.name).Nodup)
    (hclass : classTokens as ≠ [] ∨ className ∉ as.map Attribute.name) : className ∉ (ofList as).flags := by
  intro hmem
  rcases hclass with hne | hfree
  · have hclasses := ha.flags_class hmem
    rw [classes_ofList_of_nodup hnames] at hclasses
    exact mergeClasses_ne_nil hne hclasses
  · rw [flags_ofList_of_nodup hnames] at hmem
    obtain ⟨a, ha, hflag⟩ := List.mem_filterMap.mp hmem
    cases a with
    | pair => cases hflag
    | flag name =>
      obtain rfl := Option.some.inj hflag
      exact hfree (List.mem_map_of_mem ha)

end Attributes

open Attributes

/-- **Attributes are forwarded through a chain of any length.** -/
theorem expand_chain {w : Workspace} (hw : w.Reliable) {native : NativeSet}
    (hdiv : native.isNative "div".toList = true) {first : Link} {rest : List Link}
    (hproper : ∀ link ∈ first :: rest, link.IsProper) (hchains : w.supply.Chains native (first :: rest))
    {items : SpacedAttributes} (hspaced : AreSpaced items)
    (hquotes : ∀ a ∈ items.map (·.2), a.isDoubleQuoted = true)
    (hnames : ((items.map (·.2)).map Attribute.name).Nodup)
    (hclass : classTokens (items.map (·.2)) ≠ [] ∨
      className ∉ (items.map (·.2)).map Attribute.name ∧ ∀ link ∈ first :: rest, link.tokens.Nodup)
    {content : Text} (hcontent : '<' ∉ content) (hblank : Text.isAllBlank content = false) {ceiling : Nat}
    (hc : (first :: rest).length < ceiling) :
    w.expand native ceiling (Tag.opening first.name (writeSpaced items) ++ content ++ Tag.closing first.name) =
      .ok ⟨Tag.opening "div".toList (writeSpaced (spaced
          (classAttribute (chainClasses (first :: rest) (classTokens (items.map (·.2)))) ::
            grouped (items.map (·.2))))) ++ Text.strip content ++ Tag.closing "div".toList,
        (first :: rest).length + 1, (first :: rest).length, [], false⟩ := by
  obtain ⟨hfirst, hrest⟩ := List.forall_mem_cons.mp hproper
  obtain ⟨hcomponent, hload, hnext⟩ := hchains
  have hread : ofTag (Tag.opening first.name (writeSpaced items)) = ofList (items.map (·.2)) :=
    ofTag_writeSpaced hfirst.1 hspaced []
  have ha : (ofList (items.map (·.2))).InOrder := hread ▸ inOrder_ofTag _
  have hquotable := isQuotable_ofList hspaced.isProper hquotes hnames
  have hflags := className_not_mem_flags ha hnames (hclass.imp_right And.left)
  have hclasses := classes_ofList_of_nodup hnames
  have hcarried : AreCarried (ofList (items.map (·.2))).classes :=
    ⟨fun word hword => ⟨ha.classes_word word hword, hquotable.1 word hword, ha.classes_closed word hword⟩,
      ha.classes_nodup⟩
  have hworn : (ofList (items.map (·.2))).classes ≠ [] ∨ ∀ link ∈ first :: rest, link.tokens.Nodup :=
    hclass.imp (fun hne => hclasses ▸ mergeClasses_ne_nil hne) And.right
  have hmerged : mergeClasses first.tokens (ofList (items.map (·.2))).classes =
      mergeClasses first.tokens (classTokens (items.map (·.2))) := by
    rw [hclasses]
    exact eraseDups_append_eraseDups _ _
  have hpass := Supply.pass_wrapped hfirst (Supply.isName_chainHead hrest) hcomponent hload
    (isOpening_writeSpaced hfirst.1 hspaced) hcontent hblank hread
  rw [worn_eq_mergeClasses (hworn.imp_right fun hnodup => hnodup first List.mem_cons_self)] at hpass
  have hkept : '<' ∉ Text.strip content := fun hmem => hcontent (Text.mem_of_mem_strip hmem)
  have hreach := Supply.reaches_of_chains hrest hnext ha hquotable hflags (hcarried.merge hfirst)
    (hworn.imp mergeClasses_ne_nil fun hnodup link hlink => hnodup link (List.mem_cons_of_mem _ hlink))
    hkept (by rwa [Text.isAllBlank_strip]) (Text.strip_strip content)
  have hlast := Supply.pass_element (s := w.supply) (Supply.isComponent_of_isNative hdiv)
    (isOpening_writeSpaced (by decide) (areSpaced_carried ha hquotable ((hcarried.merge hfirst).chain hrest)))
    hkept
  have hwritten : carried (chainClasses rest (mergeClasses first.tokens (ofList (items.map (·.2))).classes))
      (ofList (items.map (·.2))) = writeSpaced (spaced
        (classAttribute (chainClasses (first :: rest) (classTokens (items.map (·.2)))) ::
          grouped (items.map (·.2)))) := by
    rw [carried, hmerged, rest_ofList_of_nodup hnames hquotes]
    rfl
  rw [Workspace.expand_eq hw, Supply.expand_eq_ok_iff (Nat.one_le_of_lt hc), ← hwritten]
  exact .settled hc (.step hpass hreach) hlast

set_option maxRecDepth 10000 in
/-- Two links with a class name in common, and a tag with attributes of every group. -/
theorem expand_chain_card_note :
    (Workspace.holding [("card".toList, "<note class=\"a b\"><slot/></note>".toList),
        ("note".toList, "<div class=\"b c\"><slot/></div>".toList)]).expand .html 3
          "<card open class=\"x\" id=\"<1\"  data-k=\"it's\"> Hi </card>".toList =
      .ok ⟨"<div class=\"b c a x\" data-k=\"it's\" id=\"<1\" open>Hi</div>".toList, 3, 2, [], false⟩ := by
  let w := Workspace.holding [("card".toList, "<note class=\"a b\"><slot/></note>".toList),
    ("note".toList, "<div class=\"b c\"><slot/></div>".toList)]
  let card : Link := ⟨"card".toList, ["a".toList, "b".toList]⟩
  let note : Link := ⟨"note".toList, ["b".toList, "c".toList]⟩
  have hchains : w.supply.Chains .html [card, note] := ⟨by cbv, by cbv, by cbv, by cbv, trivial⟩
  have hspaced : AreSpaced [(" ".toList, .flag "open".toList), (" ".toList, .pair className '\x22' "x".toList),
      (" ".toList, .pair "id".toList '\x22' "<1".toList), ("  ".toList, .pair "data-k".toList '\x22' "it's".toList)] := by
    decide
  have hproper : ∀ link ∈ [card, note], link.IsProper := by decide
  have hcontent : '<' ∉ " Hi ".toList := by decide
  have hblank : Text.isAllBlank " Hi ".toList = false := by decide
  have hceiling : [card, note].length < 3 := by decide
  exact expand_chain (Workspace.reliable_holding _) (by cbv) hproper hchains hspaced (by decide) (by decide)
    (.inl (by decide)) hcontent hblank hceiling

end Inlay
