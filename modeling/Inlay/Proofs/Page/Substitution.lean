import Inlay.Proofs.Page.Meaning
import Inlay.Proofs.Page.Tokens

/-!
# Expanding is substituting

A page of nodes is expanded to the text that it means. Each pass rewrites the first component that is
left, from the outside to the inside and from left to right, so in the midst of a run the page is made of
finished text, of nodes that are still to be expanded, and of what follows them.

* `Supply.Provides` — the supply holds the given templates, and they are pages of nodes with one slot.
* `Supply.IsSettled` — a token that no pass rewrites.
* `Supply.Settles` — a run turns tokens into settled ones, wherever they stand.

Main statements: `Supply.pass_of_component` (a pass substitutes the first component),
`Supply.settles_of_means` (a run carries out the substitutions of a page one after the other),
`expand_substitution`.
-/

namespace Inlay

open Markup

namespace Supply

/-- The lookups tell of the given templates, which are pages of nodes with one slot each. The name of the
slot mark is not that of a component. -/
structure Provides (s : Supply) (native : NativeSet) (templates : Templates) : Prop where
  slot : s.isComponent native "slot".toList = .ok false
  component : ∀ {name template}, templates.lookup name = some template →
    s.isComponent native name = .ok true
  load : ∀ {name template}, templates.lookup name = some template →
    s.load name = .ok template.render
  wellFormed : ∀ {name template}, templates.lookup name = some template →
    template.IsWellFormed native templates.has
  slots : ∀ {name template}, templates.lookup name = some template → template.slots = 1

/-- The token is legible and no component tag. -/
structure IsSettled (s : Supply) (native : NativeSet) (t : Token) : Prop where
  legible : s.Legible native t
  plain : ∀ name attributes, t = .opening name attributes → s.offers native name = false

variable {s : Supply} {native : NativeSet} {templates : Templates}

/-! ## Tokens -/

theorem isSettled_text {t : Text} (h : '<' ∉ t) : s.IsSettled native (.text t) :=
  ⟨legible_text h, fun _ _ heq => by cases heq⟩

theorem isSettled_closing {name : Text} (h : isTagName name = true) :
    s.IsSettled native (.closing name) :=
  ⟨legible_closing h, fun _ _ heq => by cases heq⟩

theorem isSettled_opening {name attributes : Text} (h : Tag.IsOpening name attributes)
    (hlt : '<' ∉ attributes) (hname : s.isComponent native name = .ok false) :
    s.IsSettled native (.opening name attributes) := by
  refine ⟨legible_opening h hlt hname, ?_⟩
  intro n a heq
  cases heq
  exact offers_eq_false hname

theorem Provides.isSettled_slotMark (hs : s.Provides native templates) :
    s.IsSettled native .slotMark :=
  isSettled_opening isClean_slotMark.1 isClean_slotMark.2 hs.slot

theorem unmatched_of_settled {before : List Token} (h : ∀ t ∈ before, s.IsSettled native t)
    (rest : List Token) : s.Unmatched native before rest := by
  rintro front name attributes back rfl hoffers
  rw [(h _ (by simp)).plain name attributes rfl] at hoffers
  cases hoffers

theorem openNames_of_settled {ts : List Token} (h : ∀ t ∈ ts, s.IsSettled native t) :
    s.openNames native ts = [] := by
  unfold openNames
  rw [List.filter_eq_nil_iff]
  intro name hname
  obtain ⟨t, ht, heq⟩ := List.mem_filterMap.mp hname
  cases t with
  | opening n attributes =>
    cases heq
    rw [(h _ ht).plain name attributes rfl]
    exact Bool.false_ne_true
  | text | closing => cases heq

theorem Provides.lookup_none_of_native (hs : s.Provides native templates) {name : Text}
    (h : native.isNative name = true) : templates.lookup name = none := by
  cases hname : templates.lookup name with
  | none => rfl
  | some template =>
    have := hs.component hname
    rw [isComponent_of_isNative h] at this
    cases this

theorem isNative_of_lookup_none {name attributes : Text}
    (htag : Nodes.IsElementTag native templates.has name attributes)
    (hname : templates.lookup name = none) : native.isNative name = true := by
  rcases htag.known with h | ⟨h, -⟩
  · exact h
  · unfold Templates.has at h
    rw [hname] at h
    cases h

theorem Provides.legible_tokens (hs : s.Provides native templates) {ns : Nodes}
    (h : ns.IsWellFormed native templates.has) : ∀ t ∈ ns.tokens, s.Legible native t := by
  induction ns with
  | nil => simp [Nodes.tokens]
  | text t rest ih =>
    rw [Nodes.tokens, List.forall_mem_cons]
    exact ⟨legible_text h.1, ih h.2⟩
  | slot rest ih =>
    rw [Nodes.tokens, List.forall_mem_cons]
    exact ⟨hs.isSettled_slotMark.legible, ih h⟩
  | element name attributes children rest ihc ih =>
    obtain ⟨htag, hchildren, hrest⟩ := h
    have hopening : s.Legible native (.opening name attributes) := by
      rcases htag.known with hnative | ⟨hhas, -⟩
      · exact legible_opening htag.isOpening htag.not_lt (isComponent_of_isNative hnative)
      · obtain ⟨template, hname⟩ := Option.isSome_iff_exists.mp hhas
        exact legible_opening htag.isOpening htag.not_lt (hs.component hname)
    rw [Nodes.tokens, List.forall_mem_cons, List.forall_mem_append, List.forall_mem_cons]
    exact ⟨hopening, ihc hchildren, legible_closing htag.isName, ih hrest⟩

/-! ## One pass -/

/-- **A pass substitutes the first component**, when only settled tokens stand before it. -/
theorem pass_of_component (hs : s.Provides native templates) {before after : List Token}
    (hbefore : ∀ t ∈ before, s.IsSettled native t) (hafter : ∀ t ∈ after, s.Legible native t)
    {name : Text} {template children : Nodes} (hname : templates.lookup name = some template)
    (htag : isTagName name = true) (hchildren : children.IsWellFormed native templates.has) :
    s.pass native
        (writeAll (before ++ .opening name [] :: (children.tokens ++ .closing name :: after))) =
      .ok ([], some (writeAll (before ++ (template.substitute children).tokens ++ after))) := by
  have hlegible : ∀ t ∈ before ++ .opening name [] :: (children.tokens ++ .closing name :: after),
      s.Legible native t := by
    rw [List.forall_mem_append, List.forall_mem_cons, List.forall_mem_append, List.forall_mem_cons]
    exact ⟨fun t ht => (hbefore t ht).legible,
      legible_opening (Tag.isOpening_bare htag) (by simp) (hs.component hname),
      hs.legible_tokens hchildren, legible_closing htag, hafter⟩
  have hsplit : splitClosing name 0 (children.tokens ++ .closing name :: after) =
      some (children.tokens, after) := by
    rw [Nodes.splitClosing_tokens hchildren]
    simp [splitClosing, Token.opens]
  rw [pass_writeAll_some hlegible (unmatched_of_settled hbefore _) (hs.component hname) hsplit
    (hs.load hname), openNames_of_settled hbefore, ← Nodes.render_eq,
    Nodes.fill_render (hs.wellFormed hname) (hs.slots hname), writeAll_append, writeAll_append,
    ← Nodes.render_eq]

/-! ## The run -/

/-- In `r` passes a run turns the tokens `ts` into the settled tokens `done`, with anything settled before them
and anything legible after them. -/
structure Settles (s : Supply) (native : NativeSet) (r : Nat) (ts done : List Token) : Prop where
  settled : ∀ t ∈ done, s.IsSettled native t
  reaches : ∀ before after, (∀ t ∈ before, s.IsSettled native t) → (∀ t ∈ after, s.Legible native t) →
    s.Reaches native r (writeAll (before ++ ts ++ after)) (writeAll (before ++ done ++ after))

namespace Settles

variable {r r' : Nat} {ts done ts' done' : List Token}

theorem nil (s : Supply) (native : NativeSet) : s.Settles native 0 [] [] :=
  ⟨by simp, fun _ _ _ _ => .refl _⟩

/-- A settled token in front belongs to the finished text. -/
theorem cons {t : Token} (ht : s.IsSettled native t) (h : s.Settles native r ts done) :
    s.Settles native r (t :: ts) (t :: done) where
  settled := List.forall_mem_cons.mpr ⟨ht, h.settled⟩
  reaches := by
    intro before after hbefore hafter
    have hfront : ∀ u ∈ before ++ [t], s.IsSettled native u :=
      List.forall_mem_append.mpr ⟨hbefore, by simpa using ht⟩
    simpa using h.reaches (before ++ [t]) after hfront hafter

/-- Two runs one after the other: the first passes over what is still to be done behind its tokens. -/
theorem append (h : s.Settles native r ts done) (h' : s.Settles native r' ts' done')
    (hlegible : ∀ t ∈ ts', s.Legible native t) :
    s.Settles native (r + r') (ts ++ ts') (done ++ done') where
  settled := List.forall_mem_append.mpr ⟨h.settled, h'.settled⟩
  reaches := by
    intro before after hbefore hafter
    have hfirst := h.reaches before (ts' ++ after) hbefore
      (List.forall_mem_append.mpr ⟨hlegible, hafter⟩)
    have hthen := h'.reaches (before ++ done) after (List.forall_mem_append.mpr ⟨hbefore, h.settled⟩)
      hafter
    simp only [List.append_assoc] at hfirst hthen ⊢
    exact hfirst.trans hthen

end Settles

/-- **A run carries out the substitutions of nodes one after the other.** -/
theorem settles_of_means (hs : s.Provides native templates) {ns : Nodes} {out : Text} {r : Nat}
    (h : templates.Means ns out r) (hns : ns.IsWellFormed native templates.has) :
    ∃ done, writeAll done = out ∧ s.Settles native r ns.tokens done := by
  induction h with
  | nil => exact ⟨[], rfl, .nil s native⟩
  | @text t out rest r _ ih =>
    obtain ⟨done, rfl, hdone⟩ := ih hns.2
    exact ⟨.text t :: done, rfl, hdone.cons (isSettled_text hns.1)⟩
  | @slot out rest r _ ih =>
    obtain ⟨done, rfl, hdone⟩ := ih hns
    exact ⟨.slotMark :: done, rfl, hdone.cons hs.isSettled_slotMark⟩
  | @native name attributes inner out children rest m r hname _ _ ihc ih =>
    obtain ⟨htag, hchildren, hrest⟩ := hns
    obtain ⟨doneInner, rfl, hinner⟩ := ihc hchildren
    obtain ⟨done, rfl, hdone⟩ := ih hrest
    have hnative : native.isNative name = true := isNative_of_lookup_none htag hname
    have hopening := isSettled_opening htag.isOpening htag.not_lt
      (isComponent_of_isNative (s := s) hnative)
    have hclosing : s.IsSettled native (.closing name) := isSettled_closing htag.isName
    have hbehind : ∀ t ∈ .closing name :: rest.tokens, s.Legible native t :=
      List.forall_mem_cons.mpr ⟨hclosing.legible, hs.legible_tokens hrest⟩
    refine ⟨.opening name attributes :: (doneInner ++ .closing name :: done), ?_,
      (hinner.append (hdone.cons hclosing) hbehind).cons hopening⟩
    simp [Token.write]
  | @component name attributes inner out template children rest m r hname _ _ ihc ih =>
    obtain ⟨htag, hchildren, hrest⟩ := hns
    obtain rfl : attributes = [] := by
      rcases htag.known with h | ⟨-, h⟩
      · rw [hs.lookup_none_of_native h] at hname
        cases hname
      · exact h
    obtain ⟨doneInner, rfl, hinner⟩ := ihc ((hs.wellFormed hname).substitute hchildren)
    obtain ⟨done, rfl, hdone⟩ := ih hrest
    have hlegible := hs.legible_tokens hrest
    have hall := hinner.append hdone hlegible
    refine ⟨doneInner ++ done, writeAll_append _ _, hall.settled, fun before after hbefore hafter => ?_⟩
    have hbehind : ∀ t ∈ rest.tokens ++ after, s.Legible native t :=
      List.forall_mem_append.mpr ⟨hlegible, hafter⟩
    have hpass := pass_of_component hs hbefore hbehind hname htag.isName hchildren
    have hthen := hall.reaches before after hbefore hafter
    rw [Nat.add_right_comm]
    exact .step (by simpa [Nodes.tokens] using hpass) hthen

end Supply

/-- **Expanding a page of nodes is substituting its components.** -/
theorem expand_substitution {w : Workspace} (hw : w.Reliable) {native : NativeSet}
    {templates : Templates} (htemplates : w.supply.Provides native templates)
    (hacyclic : templates.Acyclic) {page : Nodes}
    (hpage : page.IsWellFormed native templates.has) :
    ∃ out r, templates.Means page out r ∧
      (∀ out' r', templates.Means page out' r' → out' = out ∧ r' = r) ∧
      ∀ ceiling, r < ceiling →
        w.expand native ceiling page.render = .ok ⟨out, r + 1, r, [], false⟩ := by
  obtain ⟨out, r, hmeans⟩ := Templates.exists_means hacyclic page
  refine ⟨out, r, hmeans, fun out' r' h => h.unique hmeans, ?_⟩
  intro ceiling hc
  obtain ⟨done, rfl, hdone, hreach⟩ := Supply.settles_of_means htemplates hmeans hpage
  have hrun := hreach [] [] (by simp) (by simp)
  simp only [List.nil_append, List.append_nil] at hrun
  have hlast := Supply.pass_writeAll_none (fun t ht => (hdone t ht).legible)
    (Supply.unmatched_of_settled hdone [])
  rw [Supply.openNames_of_settled hdone] at hlast
  rw [Workspace.expand_eq hw, Supply.expand_eq_ok_iff (by omega), Nodes.render_eq]
  exact .settled hc hrun hlast

/-! ## A note with a card inside -/

/-- A card, and a note whose content goes into a card. -/
def noteTemplates : Templates :=
  [("card".toList, .element "p".toList [] (.slot .nil) .nil),
    ("note".toList, .element "b".toList " hidden".toList
      (.element "card".toList [] (.text " ".toList (.slot .nil)) .nil) .nil)]

/-- A note with an empty card. -/
def notePage : Nodes :=
  .element "note".toList []
    (.text " hi ".toList (.element "card".toList [] (.text " ".toList .nil) .nil)) .nil

theorem lookup_noteTemplates {name : Text} {template : Nodes}
    (h : noteTemplates.lookup name = some template) :
    (name = "card".toList ∧ template = .element "p".toList [] (.slot .nil) .nil) ∨
      (name = "note".toList ∧ template = .element "b".toList " hidden".toList
        (.element "card".toList [] (.text " ".toList (.slot .nil)) .nil) .nil) := by
  unfold noteTemplates at h
  rw [List.lookup_cons] at h
  split at h
  · rename_i hname
    cases h
    exact .inl ⟨eq_of_beq hname, rfl⟩
  · rw [List.lookup_cons] at h
    split at h
    · rename_i hname
      cases h
      exact .inr ⟨eq_of_beq hname, rfl⟩
    · cases h

theorem acyclic_noteTemplates : noteTemplates.Acyclic := by
  apply Templates.acyclic_of_rank fun name => if name = "note".toList then 1 else 0
  rintro c d ⟨template, hlookup, hmention, hhas⟩
  rcases lookup_noteTemplates hlookup with ⟨rfl, rfl⟩ | ⟨rfl, rfl⟩
  · rcases hmention with rfl | h | h
    · exact absurd hhas (by decide)
    · cases h
    · cases h
  · rcases hmention with rfl | (rfl | h | h) | h
    · exact absurd hhas (by decide)
    · decide
    · cases h
    · cases h
    · cases h

set_option maxRecDepth 10000 in
/-- The note with an empty card, expanded. -/
theorem expand_substitution_note :
    (Workspace.holding [("card".toList, "<p><slot/></p>".toList),
      ("note".toList, "<b hidden><card> <slot/></card></b>".toList)]).expand .html 10
        notePage.render =
      .ok ⟨"<b hidden><p>hi <p><slot/></p></p></b>".toList, 4, 3, [], false⟩ := by
  have htemplates : (Workspace.holding [("card".toList, "<p><slot/></p>".toList),
      ("note".toList, "<b hidden><card> <slot/></card></b>".toList)]).supply.Provides .html
        noteTemplates := by
    refine ⟨by cbv, ?_, ?_, ?_, ?_⟩
    · intro name template h
      rcases lookup_noteTemplates h with ⟨rfl, rfl⟩ | ⟨rfl, rfl⟩ <;> cbv
    · intro name template h
      rcases lookup_noteTemplates h with ⟨rfl, rfl⟩ | ⟨rfl, rfl⟩ <;> cbv
    · intro name template h
      rcases lookup_noteTemplates h with ⟨rfl, rfl⟩ | ⟨rfl, rfl⟩
      · exact ⟨⟨by decide, by decide, by decide, by decide, by decide, .inl (by decide)⟩, trivial,
          trivial⟩
      · exact ⟨⟨by decide, by decide, by decide, by decide, by decide, .inl (by decide)⟩,
          ⟨.component (by decide) (by decide) (by decide), ⟨by decide, trivial⟩, trivial⟩, trivial⟩
    · intro name template h
      rcases lookup_noteTemplates h with ⟨rfl, rfl⟩ | ⟨rfl, rfl⟩ <;> rfl
  have hpage : notePage.IsWellFormed .html noteTemplates.has :=
    ⟨.component (by decide) (by decide) (by decide), ⟨by decide,
      .component (by decide) (by decide) (by decide), ⟨by decide, trivial⟩, trivial⟩, trivial⟩
  obtain ⟨out, r, -, hunique, hexpand⟩ :=
    expand_substitution (Workspace.reliable_holding _) htemplates acyclic_noteTemplates hpage
  -- the note, its card, and the empty card inside
  have hempty : noteTemplates.Means (.element "card".toList [] (.text " ".toList .nil) .nil) _ _ :=
    .component rfl (.native rfl (.slot .nil) .nil) .nil
  have hcard : noteTemplates.Means (.element "card".toList [] (.text " ".toList
      (.text "hi ".toList (.element "card".toList [] (.text " ".toList .nil) .nil))) .nil) _ _ :=
    .component rfl (.native rfl (.text hempty) .nil) .nil
  have hnote : noteTemplates.Means notePage _ _ :=
    .component rfl (.native rfl hcard .nil) .nil
  obtain ⟨rfl, rfl⟩ := hunique _ _ hnote
  exact hexpand 10 (by decide)

end Inlay
