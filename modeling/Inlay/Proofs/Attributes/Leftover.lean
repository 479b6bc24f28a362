import Mathlib
import Inlay.Proofs.Attributes.Written

/-!
# What is left without the pairs

The names without a value are looked for in what is left of a tag's text when its pairs have been taken out. A
pair is taken out where its written form stands first, which is the place where it was found unless the text that
is left in front of it can be read as the same pair. Taking other pairs out can make such a text, but only where
it brings a quote behind an equals sign.

* `withoutPairs` — the text with each pair cut out where it was found.
* `opensValue` — whether a quote comes behind an equals sign.

Main statements: `leftover_quotedPairs` (taking out by the written form is cutting out by the place, where the cut
text opens no value), `Attributes.flags_ofTag`, and `Attributes.not_flags_ofTag` (it is not so everywhere).
-/

namespace Inlay

open Markup

/-- The text with each pair that is found in it cut out, and a space in its place. -/
def withoutPairs : Text → Text
  | [] => []
  | c :: rest =>
    match hread : readPair? (c :: rest) with
    | some (_, _, after) =>
      have : after.length ≤ rest.length := (suffix_of_readPair? hread).length_le
      ' ' :: withoutPairs after
    | none => c :: withoutPairs rest
termination_by t => t.length

/-- Whether a value is opened somewhere in the text: a quote comes behind an equals sign, with nothing but blanks
between them. -/
def opensValue : Text → Bool
  | [] => false
  | c :: rest => (c = '=' && (rest.dropWhile Text.isBlank).head?.any isQuote) || opensValue rest

section

variable {t u name value after : Text} {c : Char}

theorem withoutPairs_of_some (h : readPair? t = some (name, value, after)) :
    withoutPairs t = ' ' :: withoutPairs after := by
  cases t with
  | nil => cases h
  | cons c rest =>
    rw [withoutPairs]
    split
    · rename_i hsome
      rw [h] at hsome
      cases hsome
      rfl
    · rename_i hnone
      rw [h] at hnone
      cases hnone

theorem withoutPairs_of_none (h : readPair? (c :: t) = none) : withoutPairs (c :: t) = c :: withoutPairs t := by
  rw [withoutPairs]
  split
  · rename_i hsome
    rw [h] at hsome
    cases hsome
  · rfl

theorem opensValue_cons_eq_false :
    opensValue (c :: t) = false ↔
      (c = '=' → (t.dropWhile Text.isBlank).head?.any isQuote = false) ∧ opensValue t = false := by
  rw [opensValue, Bool.or_eq_false_iff, Bool.and_eq_false_imp, decide_eq_true_eq]

theorem opensValue_append_left (h : opensValue (t ++ u) = false) : opensValue t = false := by
  induction t with
  | nil => rfl
  | cons c t ih =>
    rw [List.cons_append, opensValue_cons_eq_false] at h
    obtain ⟨hc, hrest⟩ := h
    refine opensValue_cons_eq_false.mpr ⟨fun heq => ?_, ih hrest⟩
    have hquote := hc heq
    cases hblank : Text.isAllBlank t with
    | true =>
      rw [Text.dropWhile_blank hblank]
      rfl
    | false =>
      rw [Text.dropWhile_append_solid hblank, List.head?_append] at hquote
      cases hdrop : t.dropWhile Text.isBlank with
      | nil => rfl
      | cons d rest =>
        rw [hdrop] at hquote
        exact hquote

theorem opensValue_append_right (h : opensValue (t ++ u) = false) : opensValue u = false := by
  induction t with
  | nil => exact h
  | cons c t ih => exact ih (opensValue_cons_eq_false.mp h).2

end

/-! ## Where a pair stands first -/

/-- A pair does not begin in a text that opens no value and stands in front of it. -/
theorem not_prefix_of_opensValue {name gap gap' rest b u : Text} {quote c : Char} (hname : isName name = true)
    (hgap : Text.isAllBlank gap = true) (hgap' : Text.isAllBlank gap' = true) (hquote : isQuote quote = true)
    (hopens : opensValue (c :: b) = false) :
    ¬ name ++ gap ++ '=' :: (gap' ++ quote :: rest) <+:
      c :: b ++ (name ++ gap ++ '=' :: (gap' ++ quote :: rest) ++ u) := by
  have hfront : '=' ∉ name ++ gap := by
    rw [List.mem_append, not_or]
    exact ⟨not_mem_of_isName hname (by decide), fun hmem => absurd (List.all_eq_true.mp hgap _ hmem) (by decide)⟩
  by_cases heq : '=' ∈ c :: b
  · -- the equals sign of the pair would be the first one in front of it
    rintro ⟨v, hv⟩
    obtain ⟨p, q, hsplit, hp⟩ := List.eq_append_cons_of_mem heq
    rw [hsplit] at hv hopens
    have hparts : name ++ gap ++ '=' :: (gap' ++ quote :: rest ++ v) =
        p ++ '=' :: (q ++ (name ++ gap ++ '=' :: (gap' ++ quote :: rest) ++ u)) := by
      simpa using hv
    obtain ⟨-, -, hbehind⟩ := Text.append_cons_inj (Text.ne_of_not_mem hfront) (by decide)
      (Text.ne_of_not_mem hp) (by decide) hparts
    have hq : (q.dropWhile Text.isBlank).head?.any isQuote = false :=
      (opensValue_cons_eq_false.mp (opensValue_append_right hopens)).1 rfl
    have hhead : ((gap' ++ quote :: rest ++ v).dropWhile Text.isBlank).head? = some quote := by
      rw [List.append_assoc, List.cons_append,
        Text.dropWhile_append_cons (List.all_eq_true.mp hgap') (isBlank_of_isQuote hquote)]
      rfl
    rw [hbehind] at hhead
    cases hblank : Text.isAllBlank q with
    | true =>
      -- what comes behind the blanks is the first letter of the name
      obtain ⟨d, others, rfl, hd, -⟩ := exists_cons_of_isName hname
      rw [Text.dropWhile_append_blank hblank, List.cons_append, List.cons_append, List.cons_append,
        List.dropWhile_cons_of_neg (by simp [isBlank_of_isNameChar (isNameChar_of_isNameStart hd)])] at hhead
      obtain rfl := Option.some.inj hhead
      rcases eq_of_isQuote hquote with rfl | rfl <;> exact absurd hd (by decide)
    | false =>
      rw [Text.dropWhile_append_solid hblank, List.head?_append] at hhead
      have hsolid : q.dropWhile Text.isBlank ≠ [] := by
        intro hnil
        have hall := Text.isAllBlank_dropWhile q
        rw [hnil, hblank] at hall
        cases hall
      obtain ⟨d, others, hd⟩ := List.exists_cons_of_ne_nil hsolid
      rw [hd] at hhead hq
      obtain rfl := Option.some.inj hhead
      simp [hquote] at hq
  · exact Text.not_prefix_of_not_mem hfront heq _ u

section

variable {t p name value after : Text}

/-- Behind a text that opens no value, a pair that is read becomes a space. -/
theorem replaceFirst_of_readPair? (h : readPair? t = some (name, value, after)) (hp : opensValue p = false) :
    Text.replaceFirst (t.take (t.length - after.length)) [' '] (p ++ t) = p ++ ' ' :: after := by
  obtain ⟨gap, gap', quote, hname, hgap, hgap', hquote, -, ht⟩ := exists_of_readPair? h
  have hwritten : t.take (t.length - after.length) =
      name ++ gap ++ '=' :: (gap' ++ quote :: (value ++ [quote])) := by
    rw [ht, List.length_append, Nat.add_sub_cancel, List.take_left]
  have hfind : Text.breakOn? (name ++ gap ++ '=' :: (gap' ++ quote :: (value ++ [quote]))) (p ++ t) =
      some (p, after) := by
    rw [ht]
    refine Text.breakOn?_of_first (by simp) fun a c b hpieces => ?_
    rw [hpieces] at hp
    exact not_prefix_of_opensValue hname hgap hgap' hquote (opensValue_append_right hp)
  rw [hwritten, Text.replaceFirst, hfind]
  exact List.append_assoc ..

/-- **Taking the pairs out by their written form is cutting them out where they stand**, if that leaves no equals
sign with a quote behind it. -/
theorem leftover_quotedPairs (h : opensValue (p ++ withoutPairs t) = false) :
    Attributes.leftover (quotedPairs t) (p ++ t) = p ++ withoutPairs t := by
  induction t using quotedPairs.induct generalizing p with
  | case1 =>
    rw [quotedPairs, withoutPairs]
    rfl
  | case2 c rest name value after hread ih =>
    rw [withoutPairs_of_some hread] at h ⊢
    have hrest : Attributes.leftover (quotedPairs after) (p ++ [' '] ++ after) =
        p ++ [' '] ++ withoutPairs after := ih (by simpa using h)
    rw [quotedPairs_of_some hread, Attributes.leftover, List.foldl_cons,
      replaceFirst_of_readPair? hread (opensValue_append_left h)]
    simpa [Attributes.leftover] using hrest
  | case3 c rest hread ih =>
    rw [withoutPairs_of_none hread] at h ⊢
    have hrest : Attributes.leftover (quotedPairs rest) (p ++ [c] ++ rest) = p ++ [c] ++ withoutPairs rest :=
      ih (by simpa using h)
    rw [quotedPairs_of_none hread]
    simpa using hrest

end

namespace Attributes

variable {t raw : Text}

/-- **The names without a value are the words that are left when the pairs are cut out**, if that leaves no equals
sign with a quote behind it. -/
theorem flags_ofTag (hraw : attributeText? t = some raw) (hopens : opensValue (withoutPairs raw) = false) :
    (ofTag t).flags = (Text.words (withoutPairs raw)).filter fun word =>
      isName word && !(quotedPairs raw).any (·.name = word) := by
  have hleft : leftover (quotedPairs raw) raw = withoutPairs raw := leftover_quotedPairs (p := []) hopens
  simp only [ofTag, hraw, ofText, hleft]

/-- A tag with a value without quotes and pairs of all kinds. -/
theorem flags_ofTag_card :
    attributeText? "<card id=main data-sum='a = b' open title = \"Open it\" hidden>".toList =
      some "id=main data-sum='a = b' open title = \"Open it\" hidden".toList ∧
    opensValue (withoutPairs "id=main data-sum='a = b' open title = \"Open it\" hidden".toList) = false ∧
    (ofTag "<card id=main data-sum='a = b' open title = \"Open it\" hidden>".toList).flags =
      ["open".toList, "hidden".toList] := by
  have hraw : attributeText? "<card id=main data-sum='a = b' open title = \"Open it\" hidden>".toList =
      some "id=main data-sum='a = b' open title = \"Open it\" hidden".toList := by cbv
  have hopens :
      opensValue (withoutPairs "id=main data-sum='a = b' open title = \"Open it\" hidden".toList) = false := by
    cbv
  refine ⟨hraw, hopens, ?_⟩
  rw [flags_ofTag hraw hopens]
  cbv

/-- **It is not so everywhere.** Cutting out `x="1"` leaves the written form of the last pair further in front. -/
theorem not_flags_ofTag :
    ¬ ∀ t raw : Text, attributeText? t = some raw →
      (ofTag t).flags = (Text.words (withoutPairs raw)).filter fun word =>
        isName word && !(quotedPairs raw).any (·.name = word) := by
  intro h
  have hraw : attributeText? "<card a=x=\"1\"\"b\"flag a= \"b\">".toList =
      some "a=x=\"1\"\"b\"flag a= \"b\"".toList := by cbv
  have hflags : (ofTag "<card a=x=\"1\"\"b\"flag a= \"b\">".toList).flags = ["flag".toList] := by cbv
  have hwords : ((Text.words (withoutPairs "a=x=\"1\"\"b\"flag a= \"b\"".toList)).filter fun word =>
      isName word && !(quotedPairs "a=x=\"1\"\"b\"flag a= \"b\"".toList).any (·.name = word)) = [] := by cbv
  have hclash := h _ _ hraw
  rw [hflags, hwords] at hclash
  cases hclash

end Attributes

end Inlay
