import Inlay.Proofs.Page.Fill

/-!
# Pages as trees

A page in which every element is closed is a list of nodes: plain text, slots, and elements with nodes
inside. Putting content into the slot of a template, and stripping blanks from content, are operations
on such lists.

* `Nodes` — a list of nodes, given by its first node and the rest.
* `Nodes.render`, `Nodes.tokens` — the text and the tokens of the nodes.
* `Nodes.IsWellFormed` — the nodes are read as what they are.
* `Nodes.strip`, `Nodes.plug`, `Nodes.substitute` — stripping nodes, and putting them into a template.

Main statements: `Nodes.render_strip`, `Nodes.fill_render` (what the operations do to the text),
`Nodes.splitClosing_tokens` (counting passes over whole elements).
-/

namespace Inlay

open Markup

/-- A list of nodes: nothing, or a first node with the nodes after it. -/
inductive Nodes where
  | nil
  | text (t : Text) (rest : Nodes)
  | slot (rest : Nodes)
  | element (name attributes : Text) (children rest : Nodes)
  deriving DecidableEq, Repr

namespace Nodes

/-- The nodes as they are written. -/
def render : Nodes → Text
  | nil => []
  | text t rest => t ++ rest.render
  | slot rest => Token.slotMark.write ++ rest.render
  | element name attributes children rest =>
    Tag.opening name attributes ++ children.render ++ Tag.closing name ++ rest.render

/-- The tokens of the nodes. -/
def tokens : Nodes → List Token
  | nil => []
  | text t rest => .text t :: rest.tokens
  | slot rest => .slotMark :: rest.tokens
  | element name attributes children rest =>
    .opening name attributes :: (children.tokens ++ .closing name :: rest.tokens)

/-- The nodes of the first list, and then those of the second. -/
def append : Nodes → Nodes → Nodes
  | nil, others => others
  | text t rest, others => text t (rest.append others)
  | slot rest, others => slot (rest.append others)
  | element name attributes children rest, others =>
    element name attributes children (rest.append others)

/-- The nodes without the blanks that stand in front. -/
def stripFront : Nodes → Nodes
  | text t rest =>
    if Text.isAllBlank t then rest.stripFront else text (t.dropWhile Text.isBlank) rest
  | ns => ns

/-- The nodes without the blanks that stand at the end. -/
def stripEnd : Nodes → Nodes
  | nil => nil
  | text t rest =>
    if Text.isAllBlank rest.render then text (Text.stripEnd t) nil else text t rest.stripEnd
  | slot rest => slot rest.stripEnd
  | element name attributes children rest => element name attributes children rest.stripEnd

/-- The nodes without the blanks around them. -/
def strip (ns : Nodes) : Nodes := ns.stripFront.stripEnd

/-- The template with the content in the place of its slots. -/
def plug : Nodes → Nodes → Nodes
  | nil, _ => nil
  | text t rest, content => text t (rest.plug content)
  | slot rest, content => content.append (rest.plug content)
  | element name attributes children rest, content =>
    element name attributes (children.plug content) (rest.plug content)

/-- What stands for an element with the given children: its template with the stripped children in the
slot, or the template itself if there is nothing but blanks. -/
def substitute (template children : Nodes) : Nodes :=
  if Text.isAllBlank children.render then template else template.plug children.strip

/-- The number of slots. -/
def slots : Nodes → Nat
  | nil => 0
  | text _ rest => rest.slots
  | slot rest => rest.slots + 1
  | element _ _ children rest => children.slots + rest.slots

/-- Whether one of the elements is called `name`. -/
def Mentions (name : Text) : Nodes → Prop
  | nil => False
  | text _ rest => rest.Mentions name
  | slot rest => rest.Mentions name
  | element n _ children rest => n = name ∨ children.Mentions name ∨ rest.Mentions name

/-- An element begins with a native tag, whose attribute text begins with a blank and has no less-than and
no greater-than sign, or with a component tag without attributes. Neither is called `slot`. -/
structure IsElementTag (native : NativeSet) (components : Text → Bool) (name attributes : Text) :
    Prop where
  isName : isTagName name = true
  ne_slot : name ≠ "slot".toList
  blank : attributes.head?.all Text.isBlank = true
  not_lt : '<' ∉ attributes
  not_gt : '>' ∉ attributes
  known : native.isNative name = true ∨ components name = true ∧ attributes = []

/-- The text is plain, and all elements are native or components. -/
def IsWellFormed (native : NativeSet) (components : Text → Bool) : Nodes → Prop
  | nil => True
  | text t rest => '<' ∉ t ∧ rest.IsWellFormed native components
  | slot rest => rest.IsWellFormed native components
  | element name attributes children rest =>
    IsElementTag native components name attributes ∧
      children.IsWellFormed native components ∧ rest.IsWellFormed native components

variable {native : NativeSet} {components : Text → Bool}

/-! ## Text and tokens -/

theorem IsElementTag.isOpening {name attributes : Text}
    (h : IsElementTag native components name attributes) : Tag.IsOpening name attributes := by
  refine ⟨h.isName, ?_, h.not_gt⟩
  cases attributes with
  | nil => rfl
  | cons c attributes =>
    have hc : Text.isBlank c = true := h.blank
    cases htag : isTagChar c with
    | false => simp [endsName, htag]
    | true =>
      rw [isBlank_of_isTagChar htag] at hc
      cases hc

theorem IsElementTag.component {name : Text} (hname : isTagName name = true)
    (hslot : name ≠ "slot".toList) (h : components name = true) :
    IsElementTag native components name [] :=
  ⟨hname, hslot, rfl, by simp, by simp, .inr ⟨h, rfl⟩⟩

theorem render_eq (ns : Nodes) : ns.render = writeAll ns.tokens := by
  induction ns with
  | nil => rfl
  | text t rest ih =>
    rw [render, tokens, writeAll_cons, ih]
    rfl
  | slot rest ih => rw [render, tokens, writeAll_cons, ih]
  | element name attributes children rest ihc ih =>
    rw [render, tokens, writeAll_cons, writeAll_append, writeAll_cons, ihc, ih]
    simp only [List.append_assoc]
    rfl

theorem isClean_tokens {ns : Nodes} (h : ns.IsWellFormed native components) :
    ∀ t ∈ ns.tokens, t.IsClean := by
  induction ns with
  | nil => simp [tokens]
  | text t rest ih =>
    rw [tokens, List.forall_mem_cons]
    exact ⟨h.1, ih h.2⟩
  | slot rest ih =>
    rw [tokens, List.forall_mem_cons]
    exact ⟨isClean_slotMark, ih h⟩
  | element name attributes children rest ihc ih =>
    obtain ⟨htag, hc, hr⟩ := h
    rw [tokens, List.forall_mem_cons, List.forall_mem_append, List.forall_mem_cons]
    exact ⟨⟨htag.isOpening, htag.not_lt⟩, ihc hc, htag.isName, ih hr⟩

/-- An element closes what it opens. -/
theorem depthAfter_element {n attributes : Text} (h : attributes.head?.all Text.isBlank = true)
    (name : Text) (depth : Nat) :
    ¬(Token.closing n = .closing name ∧ depthAfter name depth (.opening n attributes) = 0) ∧
      depthAfter name (depthAfter name depth (.opening n attributes)) (.closing n) = depth := by
  rw [depthAfter_opening, depthAfter_closing]
  by_cases hn : n = name
  · subst hn
    rw [if_pos (Token.opens_opening_iff.mpr ⟨rfl, h⟩), if_pos rfl]
    exact ⟨fun hzero => Nat.succ_ne_zero depth hzero.2, Nat.add_sub_cancel ..⟩
  · rw [if_neg fun hopens => hn (Token.opens_opening_iff.mp hopens).1, if_neg hn]
    exact ⟨fun hclosing => hn (Token.closing.inj hclosing.1), rfl⟩

theorem depthAfter_slotMark (name : Text) (depth : Nat) : depthAfter name depth .slotMark = depth := by
  unfold Token.slotMark
  rw [depthAfter_opening]
  exact if_neg fun hopens => absurd (Token.opens_opening_iff.mp hopens).2 (by decide)

/-- **Counting passes over whole elements.** -/
theorem splitClosing_tokens {ns : Nodes} (h : ns.IsWellFormed native components) (name : Text)
    (depth : Nat) (rest : List Token) :
    splitClosing name depth (ns.tokens ++ rest) =
      (splitClosing name depth rest).map fun parts => (ns.tokens ++ parts.1, parts.2) := by
  induction ns generalizing depth rest with
  | nil => cases hs : splitClosing name depth rest <;> exact hs
  | text t others ih =>
    rw [tokens, List.cons_append, splitClosing_cons (by simp),
      depthAfter_text, ih h.2, Option.map_map]
    rfl
  | slot others ih =>
    rw [tokens, List.cons_append, splitClosing_cons (by simp [Token.slotMark]), depthAfter_slotMark,
      ih h, Option.map_map]
    rfl
  | element n attributes children others ihc ih =>
    obtain ⟨htag, hchildren, hothers⟩ := h
    obtain ⟨hmatch, hdepth⟩ := depthAfter_element htag.blank name depth
    rw [tokens, List.cons_append, List.append_assoc, List.cons_append, splitClosing_cons (by simp),
      ihc hchildren, splitClosing_cons hmatch, hdepth, ih hothers]
    simp only [Option.map_map]
    congr 1
    funext parts
    simp

/-! ## Stripping -/

theorem render_append (ns others : Nodes) : (ns.append others).render = ns.render ++ others.render := by
  induction ns with
  | nil => rfl
  | text t rest ih => rw [append, render, render, ih, List.append_assoc]
  | slot rest ih => rw [append, render, render, ih, List.append_assoc]
  | element name attributes children rest _ ih =>
    rw [append, render, render, ih, ← List.append_assoc]

theorem render_stripFront (ns : Nodes) :
    ns.stripFront.render = ns.render.dropWhile Text.isBlank := by
  induction ns with
  | nil => rfl
  | text t rest ih =>
    rw [stripFront, render]
    split
    · rename_i hblank
      rw [ih, Text.dropWhile_append_blank hblank]
    · rename_i hblank
      rw [render, Text.dropWhile_append_solid (by simpa using hblank)]
  | slot rest => rfl
  | element name attributes children rest => rfl

theorem render_stripEnd (ns : Nodes) : ns.stripEnd.render = Text.stripEnd ns.render := by
  induction ns with
  | nil => rfl
  | text t rest ih =>
    rw [stripEnd, render]
    split
    · rename_i hblank
      rw [Text.stripEnd_append_blank hblank, render, render, List.append_nil]
    · rename_i hblank
      rw [Text.stripEnd_append_solid (by simpa using hblank), render, ih]
  | slot rest ih =>
    rw [stripEnd, render, render, ih]
    exact (Text.stripEnd_append_of_end rfl rest.render).symm
  | element name attributes children rest _ ih =>
    have hend : Text.stripEnd (Tag.opening name attributes ++ children.render ++ Tag.closing name) =
        Tag.opening name attributes ++ children.render ++ Tag.closing name := by
      have hgt : Tag.closing name = '<' :: '/' :: name ++ ['>'] := rfl
      rw [hgt, ← List.append_assoc]
      exact Text.stripEnd_concat (by decide) _
    rw [stripEnd, render, render, ih]
    exact (Text.stripEnd_append_of_end hend rest.render).symm

/-- **Stripping nodes strips their text.** -/
theorem render_strip (ns : Nodes) : ns.strip.render = Text.strip ns.render := by
  unfold strip
  rw [render_stripEnd, render_stripFront]
  rfl

theorem IsWellFormed.append {ns others : Nodes} (h : ns.IsWellFormed native components)
    (h' : others.IsWellFormed native components) :
    (ns.append others).IsWellFormed native components := by
  induction ns with
  | nil => exact h'
  | text t rest ih => exact ⟨h.1, ih h.2⟩
  | slot rest ih => exact ih h
  | element name attributes children rest _ ih => exact ⟨h.1, h.2.1, ih h.2.2⟩

theorem IsWellFormed.stripFront {ns : Nodes} (h : ns.IsWellFormed native components) :
    ns.stripFront.IsWellFormed native components := by
  induction ns with
  | nil => exact h
  | text t rest ih =>
    rw [Nodes.stripFront]
    split
    · exact ih h.2
    · exact ⟨fun hmem => h.1 ((List.dropWhile_suffix _).subset hmem), h.2⟩
  | slot rest => exact h
  | element name attributes children rest => exact h

theorem IsWellFormed.stripEnd {ns : Nodes} (h : ns.IsWellFormed native components) :
    ns.stripEnd.IsWellFormed native components := by
  induction ns with
  | nil => exact h
  | text t rest ih =>
    rw [Nodes.stripEnd]
    split
    · refine ⟨fun hmem => h.1 ?_, trivial⟩
      exact List.mem_reverse.mp ((List.dropWhile_suffix _).subset (List.mem_reverse.mp hmem))
    · exact ⟨h.1, ih h.2⟩
  | slot rest ih => exact ih h
  | element name attributes children rest _ ih => exact ⟨h.1, h.2.1, ih h.2.2⟩

theorem IsWellFormed.plug {content ns : Nodes} (hc : content.IsWellFormed native components)
    (h : ns.IsWellFormed native components) : (ns.plug content).IsWellFormed native components := by
  induction ns with
  | nil => exact h
  | text t rest ih => exact ⟨h.1, ih h.2⟩
  | slot rest ih => exact hc.append (ih h)
  | element name attributes children rest ihc ih => exact ⟨h.1, ihc h.2.1, ih h.2.2⟩

theorem IsWellFormed.substitute {template children : Nodes}
    (h : template.IsWellFormed native components)
    (hc : children.IsWellFormed native components) :
    (template.substitute children).IsWellFormed native components := by
  unfold Nodes.substitute
  split
  · exact h
  · exact hc.stripFront.stripEnd.plug h

/-! ## Filling a template -/

theorem plug_of_slots_zero {ns : Nodes} (hs : ns.slots = 0) (content : Nodes) :
    ns.plug content = ns := by
  induction ns with
  | nil => rfl
  | text t rest ih => rw [plug, ih hs]
  | slot rest => cases hs
  | element name attributes children rest ihc ih =>
    rw [slots, Nat.add_eq_zero_iff] at hs
    rw [plug, ihc hs.1, ih hs.2]

theorem isSlot_of_slots_zero {ns : Nodes} (h : ns.IsWellFormed native components)
    (hs : ns.slots = 0) : ∀ t ∈ ns.tokens, t.isSlot = false := by
  induction ns with
  | nil => simp [tokens]
  | text t rest ih =>
    rw [tokens, List.forall_mem_cons]
    exact ⟨rfl, ih h.2 hs⟩
  | slot rest => cases hs
  | element name attributes children rest ihc ih =>
    rw [slots, Nat.add_eq_zero_iff] at hs
    rw [tokens, List.forall_mem_cons, List.forall_mem_append, List.forall_mem_cons]
    exact ⟨isSlot_opening h.1.isOpening h.1.ne_slot, ihc h.2.1 hs.1, rfl, ih h.2.2 hs.2⟩

/-- A template with one slot is what stands before the slot, the slot, and what stands after it. -/
theorem exists_of_slots_one {ns : Nodes} (h : ns.IsWellFormed native components)
    (hs : ns.slots = 1) :
    ∃ before after, ns.tokens = before ++ .slotMark :: after ∧
      (∀ t ∈ before, t.isSlot = false) ∧
      ∀ content : Nodes,
        (ns.plug content).render = writeAll before ++ content.render ++ writeAll after := by
  induction ns with
  | nil => cases hs
  | text t rest ih =>
    obtain ⟨before, after, htokens, hno, hplug⟩ := ih h.2 hs
    refine ⟨.text t :: before, after, ?_, ?_, ?_⟩
    · rw [tokens, htokens, List.cons_append]
    · rw [List.forall_mem_cons]
      exact ⟨rfl, hno⟩
    · intro content
      rw [plug, render, hplug, writeAll_cons, List.append_assoc, List.append_assoc, List.append_assoc]
      rfl
  | slot rest ih =>
    have hrest : rest.slots = 0 := Nat.succ_inj.mp hs
    refine ⟨[], rest.tokens, rfl, by simp, ?_⟩
    intro content
    rw [plug, plug_of_slots_zero hrest, render_append, ← render_eq]
    rfl
  | element name attributes children rest ihc ih =>
    obtain ⟨htag, hchildren, hrest⟩ := h
    have hopening := isSlot_opening htag.isOpening htag.ne_slot
    rw [slots] at hs
    rcases Nat.eq_zero_or_pos children.slots with hzero | hpos
    · obtain ⟨before, after, htokens, hno, hplug⟩ := ih hrest (by omega)
      refine ⟨.opening name attributes :: (children.tokens ++ .closing name :: before), after, ?_, ?_,
        ?_⟩
      · rw [tokens, htokens]
        simp
      · rw [List.forall_mem_cons, List.forall_mem_append, List.forall_mem_cons]
        exact ⟨hopening, isSlot_of_slots_zero hchildren hzero, rfl, hno⟩
      · intro content
        rw [plug, plug_of_slots_zero hzero, render, hplug, render_eq children]
        simp [Token.write]
    · obtain ⟨before, after, htokens, hno, hplug⟩ := ihc hchildren (by omega)
      refine ⟨.opening name attributes :: before, after ++ .closing name :: rest.tokens, ?_, ?_, ?_⟩
      · rw [tokens, htokens]
        simp
      · rw [List.forall_mem_cons]
        exact ⟨hopening, hno⟩
      · intro content
        rw [plug, plug_of_slots_zero (by omega : rest.slots = 0), render, hplug, render_eq rest]
        simp [Token.write]

/-- **Filling a template with the stripped text of children is substituting the children.** -/
theorem fill_render {template : Nodes} (h : template.IsWellFormed native components)
    (hs : template.slots = 1) (children : Nodes) :
    fill template.render (Text.strip children.render) = (template.substitute children).render := by
  unfold substitute
  cases hblank : Text.isAllBlank children.render with
  | true =>
    rw [if_pos rfl, fill_of_isAllBlank]
    rw [Text.isAllBlank_strip, hblank]
  | false =>
    obtain ⟨before, after, htokens, hno, hplug⟩ := exists_of_slots_one h hs
    have hclean := isClean_tokens h
    rw [htokens, List.forall_mem_append] at hclean
    rw [if_neg Bool.false_ne_true, hplug, render_strip, render_eq template, htokens]
    exact fill_writeAll hclean.1 hno isClean_slotMark isSlot_slotMark
      (by rw [Text.isAllBlank_strip, hblank])

end Nodes
end Inlay
