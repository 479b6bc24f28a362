import Inlay.Proofs.Page.Nodes
import Mathlib.Data.Fintype.Card
import Mathlib.Data.Set.Finite.Basic
import Mathlib.Logic.Relation

/-!
# What a page of nodes means

A page means the text in which every component has been replaced by what its template means, with the
children in the template's slot. Where no component uses itself, every page has a meaning.

* `Templates` — the templates of the components.
* `Templates.Uses`, `Templates.Acyclic` — which components a template is made of.
* `Templates.Means` — the text that nodes mean, and how many components are met on the way.

Main statements: `Templates.Means.unique` (the meaning is unique), `Templates.exists_means` (it exists).
-/

namespace Inlay

open Markup

/-- The templates of the components; the first one that stands for a name is the one in use. -/
abbrev Templates := List (Text × Nodes)

namespace Templates

/-- Whether there is a component called `name`. -/
def has (templates : Templates) (name : Text) : Bool := (templates.lookup name).isSome

/-- The template of the component `c` has an element that is the component `d`. -/
def Uses (templates : Templates) (c d : Text) : Prop :=
  ∃ template, templates.lookup c = some template ∧ template.Mentions d ∧ templates.has d = true

/-- No component uses itself, be it through others. -/
def Acyclic (templates : Templates) : Prop := ∀ c, ¬Relation.TransGen templates.Uses c c

/-- The nodes mean the text, and so many components are met: text, slots and native tags stand for
themselves, and a component stands for its template with its children in the slot. -/
inductive Means (templates : Templates) : Nodes → Text → Nat → Prop
  | nil : Means templates .nil [] 0
  | text {t out : Text} {rest : Nodes} {r : Nat} :
      Means templates rest out r → Means templates (.text t rest) (t ++ out) r
  | slot {out : Text} {rest : Nodes} {r : Nat} :
      Means templates rest out r → Means templates (.slot rest) (Token.slotMark.write ++ out) r
  | native {name attributes inner out : Text} {children rest : Nodes} {m r : Nat} :
      templates.lookup name = none → Means templates children inner m →
        Means templates rest out r →
          Means templates (.element name attributes children rest)
            (Tag.opening name attributes ++ inner ++ Tag.closing name ++ out) (m + r)
  | component {name attributes inner out : Text} {template children rest : Nodes} {m r : Nat} :
      templates.lookup name = some template →
        Means templates (template.substitute children) inner m → Means templates rest out r →
          Means templates (.element name attributes children rest) (inner ++ out) (m + 1 + r)

variable {templates : Templates}

/-! ## Uniqueness -/

/-- **Nodes have one meaning at most.** -/
theorem Means.unique {ns : Nodes} {out out' : Text} {r r' : Nat} (h : templates.Means ns out r)
    (h' : templates.Means ns out' r') : out = out' ∧ r = r' := by
  induction h generalizing out' r' with
  | nil =>
    cases h'
    exact ⟨rfl, rfl⟩
  | text _ ih =>
    cases h' with
    | text h' =>
      obtain ⟨rfl, rfl⟩ := ih h'
      exact ⟨rfl, rfl⟩
  | slot _ ih =>
    cases h' with
    | slot h' =>
      obtain ⟨rfl, rfl⟩ := ih h'
      exact ⟨rfl, rfl⟩
  | native hname _ _ ihc ih =>
    cases h' with
    | native _ hc' h' =>
      obtain ⟨rfl, rfl⟩ := ihc hc'
      obtain ⟨rfl, rfl⟩ := ih h'
      exact ⟨rfl, rfl⟩
    | component hname' _ _ =>
      rw [hname] at hname'
      cases hname'
  | component hname _ _ ihc ih =>
    cases h' with
    | native hname' _ _ =>
      rw [hname] at hname'
      cases hname'
    | component hname' hc' h' =>
      rw [hname] at hname'
      cases hname'
      obtain ⟨rfl, rfl⟩ := ihc hc'
      obtain ⟨rfl, rfl⟩ := ih h'
      exact ⟨rfl, rfl⟩

/-! ## Existence -/

/-- The nodes mean something. -/
def HasMeaning (templates : Templates) (ns : Nodes) : Prop := ∃ out r, templates.Means ns out r

namespace HasMeaning

theorem text {rest : Nodes} (h : templates.HasMeaning rest) (t : Text) :
    templates.HasMeaning (.text t rest) := by
  obtain ⟨out, r, h⟩ := h
  exact ⟨_, _, .text h⟩

theorem slot {rest : Nodes} (h : templates.HasMeaning rest) : templates.HasMeaning (.slot rest) := by
  obtain ⟨out, r, h⟩ := h
  exact ⟨_, _, .slot h⟩

theorem of_text {t : Text} {rest : Nodes} (h : templates.HasMeaning (.text t rest)) :
    templates.HasMeaning rest := by
  obtain ⟨out, r, h⟩ := h
  cases h with
  | text h => exact ⟨_, _, h⟩

theorem of_slot {rest : Nodes} (h : templates.HasMeaning (.slot rest)) :
    templates.HasMeaning rest := by
  obtain ⟨out, r, h⟩ := h
  cases h with
  | slot h => exact ⟨_, _, h⟩

/-- The nodes after an element may be changed. -/
theorem of_element {name attributes : Text} {children rest : Nodes}
    (h : templates.HasMeaning (.element name attributes children rest)) :
    templates.HasMeaning rest ∧ ∀ rest', templates.HasMeaning rest' →
      templates.HasMeaning (.element name attributes children rest') := by
  obtain ⟨out, r, h⟩ := h
  cases h with
  | native hname hc h =>
    refine ⟨⟨_, _, h⟩, ?_⟩
    rintro rest' ⟨out', r', h'⟩
    exact ⟨_, _, .native hname hc h'⟩
  | component hname hc h =>
    refine ⟨⟨_, _, h⟩, ?_⟩
    rintro rest' ⟨out', r', h'⟩
    exact ⟨_, _, .component hname hc h'⟩

theorem append {ns others : Nodes} (h : templates.HasMeaning ns)
    (h' : templates.HasMeaning others) : templates.HasMeaning (ns.append others) := by
  induction ns with
  | nil => exact h'
  | text t rest ih => exact (ih h.of_text).text t
  | slot rest ih => exact (ih h.of_slot).slot
  | element name attributes children rest _ ih =>
    obtain ⟨hrest, hchange⟩ := h.of_element
    exact hchange _ (ih hrest)

theorem stripFront {ns : Nodes} (h : templates.HasMeaning ns) :
    templates.HasMeaning ns.stripFront := by
  induction ns with
  | nil => exact h
  | text t rest ih =>
    rw [Nodes.stripFront]
    split
    · exact ih h.of_text
    · exact h.of_text.text _
  | slot rest => exact h
  | element name attributes children rest => exact h

theorem stripEnd {ns : Nodes} (h : templates.HasMeaning ns) : templates.HasMeaning ns.stripEnd := by
  induction ns with
  | nil => exact h
  | text t rest ih =>
    rw [Nodes.stripEnd]
    split
    · exact text ⟨_, _, .nil⟩ _
    · exact (ih h.of_text).text t
  | slot rest ih => exact (ih h.of_slot).slot
  | element name attributes children rest _ ih =>
    obtain ⟨hrest, hchange⟩ := h.of_element
    exact hchange _ (ih hrest)

/-- Nodes with content in their slots mean something if the content does, and if the components among
them stand for something that does. -/
theorem plug {ns content : Nodes} (hc : templates.HasMeaning content)
    (h : ∀ name template, ns.Mentions name → templates.lookup name = some template →
      ∀ children, templates.HasMeaning children →
        templates.HasMeaning (template.substitute children)) :
    templates.HasMeaning (ns.plug content) := by
  induction ns with
  | nil => exact ⟨_, _, .nil⟩
  | text t rest ih => exact (ih h).text t
  | slot rest ih => exact hc.append (ih h)
  | element name attributes children rest ihc ih =>
    obtain ⟨inner, m, hchildren⟩ := ihc fun n t hn => h n t (.inr (.inl hn))
    obtain ⟨out, r, hrest⟩ := ih fun n t hn => h n t (.inr (.inr hn))
    rw [Nodes.plug]
    cases hname : templates.lookup name with
    | none => exact ⟨_, _, .native hname hchildren hrest⟩
    | some template =>
      obtain ⟨inner', m', hinner⟩ := h name template (.inl rfl) hname _ ⟨_, _, hchildren⟩
      exact ⟨_, _, .component hname hinner hrest⟩

end HasMeaning

theorem plug_slot (ns : Nodes) : ns.plug (.slot .nil) = ns := by
  induction ns with
  | nil => rfl
  | text t rest ih => rw [Nodes.plug, ih]
  | slot rest ih =>
    rw [Nodes.plug, ih]
    rfl
  | element name attributes children rest ihc ih => rw [Nodes.plug, ihc, ih]

theorem hasMeaning_slot : templates.HasMeaning (.slot .nil) := ⟨_, _, .slot .nil⟩

theorem hasMeaning_substitute {template children : Nodes} (hc : templates.HasMeaning children)
    (h : ∀ name t, template.Mentions name → templates.lookup name = some t →
      ∀ children, templates.HasMeaning children → templates.HasMeaning (t.substitute children)) :
    templates.HasMeaning (template.substitute children) := by
  unfold Nodes.substitute
  split
  · rw [← plug_slot template]
    exact hasMeaning_slot.plug h
  · exact hc.stripFront.stripEnd.plug h

theorem finite_components (templates : Templates) : Finite { c // templates.has c = true } := by
  apply Set.Finite.to_subtype
  apply (List.finite_toSet (templates.map Prod.fst)).subset
  intro c hc
  obtain ⟨p, hp, heq⟩ := List.lookup_isSome_iff.mp hc
  exact List.mem_map.mpr ⟨p, hp, (eq_of_beq heq).symm⟩

/-- There are finitely many components, so going from a component to those that it uses ends. -/
theorem Acyclic.wellFounded (h : templates.Acyclic) :
    WellFounded fun d c : { c // templates.has c = true } => Relation.TransGen templates.Uses c.1 d.1 := by
  have := finite_components templates
  have : IsTrans { c // templates.has c = true } fun d c => Relation.TransGen templates.Uses c.1 d.1 :=
    ⟨fun _ _ _ hab hbc => hbc.trans hab⟩
  have : Std.Irrefl fun d c : { c // templates.has c = true } =>
      Relation.TransGen templates.Uses c.1 d.1 := ⟨fun c hc => h c.1 hc⟩
  exact Finite.wellFounded_of_trans_of_irrefl _

/-- Components can be ranked so that they use components of lower rank only. -/
theorem acyclic_of_rank (rank : Text → Nat)
    (h : ∀ c d, templates.Uses c d → rank d < rank c) : templates.Acyclic := by
  have hlt : ∀ c d, Relation.TransGen templates.Uses c d → rank d < rank c := by
    intro c d hcd
    induction hcd with
    | single hcd => exact h _ _ hcd
    | tail _ huse ih => exact Nat.lt_trans (h _ _ huse) ih
  intro c hc
  exact Nat.lt_irrefl _ (hlt c c hc)

/-- What stands for a component means something if the children do. -/
theorem Acyclic.hasMeaning_component (hacyclic : templates.Acyclic) {name : Text} {template : Nodes}
    (h : templates.lookup name = some template) {children : Nodes}
    (hc : templates.HasMeaning children) : templates.HasMeaning (template.substitute children) := by
  have hall : ∀ c : { c // templates.has c = true }, ∀ template,
      templates.lookup c.1 = some template → ∀ children, templates.HasMeaning children →
        templates.HasMeaning (template.substitute children) := by
    intro c
    -- the components of a template come before the component itself
    induction c using hacyclic.wellFounded.induction with
    | _ c ih =>
      intro template hlookup children hc
      apply hasMeaning_substitute hc
      intro d t hd hdlookup
      have hhas : templates.has d = true := by
        unfold has
        rw [hdlookup]
        rfl
      exact ih ⟨d, hhas⟩ (.single ⟨template, hlookup, hd, hhas⟩) t hdlookup
  refine hall ⟨name, ?_⟩ template h children hc
  unfold has
  rw [h]
  rfl

/-- **Where no component uses itself, all nodes mean something.** -/
theorem exists_means (h : templates.Acyclic) (ns : Nodes) : ∃ out r, templates.Means ns out r := by
  have hns : templates.HasMeaning (ns.plug (.slot .nil)) :=
    hasMeaning_slot.plug fun _ _ _ hlookup _ hc => h.hasMeaning_component hlookup hc
  rwa [plug_slot] at hns

end Templates

end Inlay
