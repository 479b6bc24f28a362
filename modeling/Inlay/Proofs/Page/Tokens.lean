import Inlay.Proofs.Page.Fill
import Inlay.Proofs.Page.Search

/-!
# Passes over tokens

On a page that is written by tokens one pass is told by the tokens: it replaces the first component tag
that counting finds a closing tag for, and notes those before it.

* `Supply.Legible` — a token that is read as what it is, and whose name can be looked up.
* `Supply.Unmatched` — counting finds no closing tag for any component tag among the tokens.
* `Supply.openNames` — the names of the component tags among the tokens.

Main statements: `Supply.pass_writeAll_none`, `Supply.pass_writeAll_some` (the two outcomes of a pass).
-/

namespace Inlay.Supply

open Markup

/-- The token is read as what it is, and if it is an opening tag, then it can be told whether it is a
component tag. -/
structure Legible (s : Supply) (native : NativeSet) (token : Token) : Prop where
  clean : token.IsClean
  answered : ∀ name, token.openingName? = some name → ∃ b, s.isComponent native name = .ok b

/-- Counting finds no closing tag for any component tag among `before`, when `rest` follows. -/
def Unmatched (s : Supply) (native : NativeSet) (before rest : List Token) : Prop :=
  ∀ front name attributes back, before = front ++ .opening name attributes :: back →
    s.offers native name = true → splitClosing name 0 (back ++ rest) = none

/-- The names of the component tags among the tokens, in their order. -/
def openNames (s : Supply) (native : NativeSet) (ts : List Token) : List Text :=
  (ts.filterMap Token.openingName?).filter (s.offers native)

variable {s : Supply} {native : NativeSet}

theorem legible_text {t : Text} (h : '<' ∉ t) : s.Legible native (.text t) :=
  ⟨h, fun _ hname => by cases hname⟩

theorem legible_closing {name : Text} (h : isTagName name = true) :
    s.Legible native (.closing name) :=
  ⟨h, fun _ hname => by cases hname⟩

theorem legible_opening {name attributes : Text} (h : Tag.IsOpening name attributes)
    (hlt : '<' ∉ attributes) {b : Bool} (hb : s.isComponent native name = .ok b) :
    s.Legible native (.opening name attributes) := by
  refine ⟨⟨h, hlt⟩, ?_⟩
  intro n hn
  cases hn
  exact ⟨b, hb⟩

theorem isComponent_of_isNative {name : Text} (h : native.isNative name = true) :
    s.isComponent native name = .ok false := by
  unfold isComponent
  rw [if_pos h]

/-- A scan passes over tokens whose component tags counting finds no closing tag for. -/
theorem passesOver_writeAll {before rest : List Token}
    (hl : ∀ t ∈ before ++ rest, s.Legible native t)
    (hun : s.Unmatched native before rest) :
    s.PassesOver native (writeAll (before ++ rest)) (Tag.scan (writeAll before))
      (s.openNames native before) := by
  have hclean : ∀ t ∈ before, t.IsClean := fun t ht => (hl t (List.mem_append_left _ ht)).clean
  have hnames := map_name_scanFrom_writeAll hclean 0
  refine ⟨?_, ?_, ?_⟩
  · intro tag htag
    have hmem : tag.name ∈ before.filterMap Token.openingName? := by
      rw [← hnames]
      exact List.mem_map_of_mem htag
    obtain ⟨t, ht, hname⟩ := List.mem_filterMap.mp hmem
    exact (hl t (List.mem_append_left _ ht)).answered tag.name hname
  · intro tag htag
    obtain ⟨hmem, hoffers⟩ := List.mem_filter.mp htag
    obtain ⟨front, back, rfl, hstop⟩ := exists_of_mem_scanFrom_writeAll hclean hmem
    have hbehind : ∀ t ∈ back ++ rest, t.IsClean := by
      intro t ht
      apply Legible.clean
      apply hl t
      rw [List.append_assoc, List.cons_append]
      exact List.mem_append_right _ (List.mem_cons_of_mem _ ht)
    have hname : isTagName tag.name = true :=
      (hclean (.opening tag.name tag.attributes) (by simp)).1.isName
    have hpage : writeAll (front ++ .opening tag.name tag.attributes :: back ++ rest) =
        writeAll (front ++ [.opening tag.name tag.attributes]) ++ writeAll (back ++ rest) := by
      simp only [writeAll_append, writeAll_cons, writeAll_nil, List.append_assoc, List.append_nil]
    rw [hpage, hstop, Nat.zero_add, closing?_eq, closingFrom_writeAll hname hbehind,
      hun front tag.name tag.attributes back rfl hoffers]
    rfl
  · unfold openNames components
    rw [← hnames, List.filter_map]
    rfl

/-- **A pass that finds no closing tag for any component tag notes them all.** -/
theorem pass_writeAll_none {ts : List Token} (hl : ∀ t ∈ ts, s.Legible native t)
    (hun : s.Unmatched native ts []) :
    s.pass native (writeAll ts) = .ok (s.openNames native ts, none) := by
  have hover : s.PassesOver native (writeAll (ts ++ [])) (Tag.scan (writeAll ts))
      (s.openNames native ts) := passesOver_writeAll (by rwa [List.append_nil]) hun
  rw [List.append_nil] at hover
  have hsearch : s.search native (writeAll ts) = .ok (s.openNames native ts, none) :=
    searchAmong_eq_none_iff.mpr hover
  unfold pass
  rw [hsearch]

theorem writeAll_append_opening (before rest : List Token) (name attributes : Text) :
    writeAll (before ++ .opening name attributes :: rest) =
      writeAll before ++ Tag.opening name attributes ++ writeAll rest := by
  rw [writeAll_append, writeAll_cons, List.append_assoc]
  rfl

/-- A scan meets the tags before an opening tag, that tag and the tags behind it. -/
theorem scan_writeAll_opening {before : List Token} (hbefore : ∀ t ∈ before, t.IsClean)
    {name attributes : Text} (h : Tag.IsOpening name attributes) (rest : List Token) :
    Tag.scan (writeAll (before ++ .opening name attributes :: rest)) =
      Tag.scan (writeAll before) ++
        ⟨(writeAll before).length, (writeAll before ++ Tag.opening name attributes).length, name, attributes⟩ ::
          Tag.scanFrom (writeAll before ++ Tag.opening name attributes).length (writeAll rest) := by
  unfold Tag.scan
  rw [writeAll_append_opening, List.append_assoc, Tag.scanFrom_append (isClosed_writeAll hbefore),
    Nat.zero_add, Tag.scanFrom_opening h, List.length_append]

/-- Behind an opening tag, the search finds the closing tag that counting finds. -/
theorem closing?_writeAll_opening {name : Text} (hname : isTagName name = true) (attributes : Text)
    (before : List Token) {rest body after : List Token} (hrest : ∀ t ∈ rest, t.IsClean)
    (hsplit : splitClosing name 0 rest = some (body, after)) :
    closing? (writeAll (before ++ .opening name attributes :: rest)) name
        ((writeAll before ++ Tag.opening name attributes).length : Nat) =
      some ((writeAll before ++ Tag.opening name attributes).length + (writeAll body).length) := by
  rw [writeAll_append_opening, closing?_eq, closingFrom_writeAll hname hrest, hsplit]
  rfl

/-- **A pass replaces the first component tag that counting finds a closing tag for.** -/
theorem pass_writeAll_some {before rest body after : List Token} {name template : Text}
    (hl : ∀ t ∈ before ++ .opening name [] :: rest, s.Legible native t)
    (hun : s.Unmatched native before (.opening name [] :: rest))
    (hname : s.isComponent native name = .ok true)
    (hsplit : splitClosing name 0 rest = some (body, after)) (hload : s.load name = .ok template) :
    s.pass native (writeAll (before ++ .opening name [] :: rest)) =
      .ok (s.openNames native before, some
        (writeAll before ++ fill template (Text.strip (writeAll body)) ++ writeAll after)) := by
  obtain ⟨hbefore, hopening⟩ := List.forall_mem_append.mp hl
  have hbare : Tag.IsOpening name [] := (hopening _ (List.mem_cons_self ..)).clean.1
  have hbroken : writeAll (before ++ .opening name [] :: rest) =
      writeAll before ++ Tag.opening name [] ++ writeAll body ++ Tag.closing name ++
        writeAll after := by
    rw [writeAll_append_opening, append_of_splitClosing hsplit, writeAll_append, writeAll_cons]
    simp only [List.append_assoc]
    rfl
  have hscan := scan_writeAll_opening (fun t ht => (hbefore t ht).clean) hbare rest
  have hclose := closing?_writeAll_opening hbare.isName [] before
    (fun t ht => (hopening t (List.mem_cons_of_mem _ ht)).clean) hsplit
  have hsearch : s.search native (writeAll (before ++ .opening name [] :: rest)) =
      .ok (s.openNames native before, some ⟨name, [], (writeAll before).length,
        (writeAll before ++ Tag.opening name []).length,
        ((writeAll before ++ Tag.opening name []).length + (writeAll body).length : Nat)⟩) :=
    searchAmong_eq_some_iff.mpr ⟨_, _, _, _, hscan, passesOver_writeAll hl hun, hname, hclose, rfl⟩
  have hsplits : Occurrence.Splits ⟨name, [], (writeAll before).length,
      (writeAll before ++ Tag.opening name []).length,
      ((writeAll before ++ Tag.opening name []).length + (writeAll body).length : Nat)⟩
      (writeAll (before ++ .opening name [] :: rest)) (writeAll before) (writeAll body)
      (writeAll after) := by
    refine ⟨hbroken, rfl, rfl, ?_⟩
    exact congrArg Int.ofNat List.length_append.symm
  unfold pass
  rw [hsearch]
  dsimp only
  rw [hsplits.rewrite, hload]
  dsimp only [Except.map]
  rw [Occurrence.expansion_bare hbare.isName rfl]

end Inlay.Supply
