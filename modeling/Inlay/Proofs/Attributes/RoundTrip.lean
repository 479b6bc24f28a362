import Inlay.Proofs.Attributes.Groups

/-!
# Attributes that are added and read again

Attributes are written with double quotes, whatever quotes they were read from, and nothing in a value is
escaped. A value that holds a double quote is therefore cut short when it is read again; all else comes back.

* `Attributes.firstTag` — a text up to the end of its first tag.

Main statements: `Attributes.addTo_div` (how attributes are written on a root without any) and
`Attributes.ofTag_firstTag_addTo` (attributes that can stand between double quotes are read back).
-/

namespace Inlay.Attributes

open Markup

/-- The text up to its first greater-than sign, and that sign. -/
def firstTag (t : Text) : Text := t.takeWhile (· != '>') ++ ['>']

theorem firstTag_append {t : Text} (h : '>' ∉ t) (after : Text) : firstTag (t ++ '>' :: after) = t ++ ['>'] := by
  rw [firstTag, Text.takeWhile_append_cons (Text.ne_of_not_mem h) (by decide)]

/-- Attributes are appended one after the other to an opening tag without a class attribute. -/
theorem extend_of_no_class {opening : Text} (h : breakAtClass? false opening = none) (a : Attributes) :
    a.extend opening = opening ++ writeSpaced (spaced a.list) := by
  unfold extend extendClasses list
  rw [h, ← writeSpaced_rest]
  split
  · rfl
  · exact List.append_assoc ..

theorem addTo_div (a : Attributes) :
    a.addTo "<div></div>".toList = '<' :: ("div".toList ++ writeSpaced (spaced a.list) ++ '>' :: "</div>".toList) := by
  have hroot : rootTag? endsRootName "<div></div>".toList = some ⟨[], "<div".toList, "</div>".toList⟩ := by decide
  have hextend : a.extend "<div".toList = "<div".toList ++ writeSpaced (spaced a.list) :=
    extend_of_no_class (by decide) a
  unfold addTo
  rw [hroot]
  simp only [RootTag.text, hextend]
  simp

/-- **Attributes that can stand between double quotes are read back when they are added to a root.** -/
theorem ofTag_firstTag_addTo (t : Text) (h : (ofTag t).IsQuotable) :
    ofTag (firstTag ((ofTag t).addTo "<div></div>".toList)) = ofTag t := by
  have horder := inOrder_ofTag t
  have hspaced : AreSpaced (spaced (ofTag t).list) := areSpaced_spaced (horder.isProper_list h)
  have hclosed : '>' ∉ '<' :: ("div".toList ++ writeSpaced (spaced (ofTag t).list)) := by
    simp [not_mem_writeSpaced hspaced]
  calc
    _ = ofTag (firstTag ('<' :: ("div".toList ++ writeSpaced (spaced (ofTag t).list)) ++
          '>' :: "</div>".toList)) := by
      rw [addTo_div, List.cons_append]
    _ = ofTag ('<' :: ("div".toList ++ writeSpaced (spaced (ofTag t).list) ++ '>' :: [])) := by
      rw [firstTag_append hclosed, List.cons_append]
    _ = ofList (ofTag t).list := by
      rw [ofTag_writeSpaced (by decide) hspaced, map_spaced]
    _ = ofTag t := ofList_list horder

/-- Both quotes, all four groups, a name that is written twice, and a value with the other quote. -/
theorem ofTag_firstTag_addTo_card :
    let t := "<card id='1' CLASS=\"x\" class='a b a' checked data-k = \"it's\" id=\"2\" off>".toList
    (ofTag t).IsQuotable ∧ ofTag (firstTag ((ofTag t).addTo "<div></div>".toList)) = ofTag t ∧
      ofTag t = ⟨["a".toList, "b".toList], [("data-k".toList, "it's".toList)],
        [("id".toList, "2".toList), ("CLASS".toList, "x".toList)], ["checked".toList, "off".toList]⟩ := by
  have hread : ofTag "<card id='1' CLASS=\"x\" class='a b a' checked data-k = \"it's\" id=\"2\" off>".toList =
      ⟨["a".toList, "b".toList], [("data-k".toList, "it's".toList)],
        [("id".toList, "2".toList), ("CLASS".toList, "x".toList)], ["checked".toList, "off".toList]⟩ := by cbv
  have hquotable : (ofTag "<card id='1' CLASS=\"x\" class='a b a' checked data-k = \"it's\" id=\"2\" off>".toList
      ).IsQuotable := by
    rw [hread]
    decide
  exact ⟨hquotable, ofTag_firstTag_addTo _ hquotable, hread⟩

/-- A value that holds a double quote is cut short: nothing in it is escaped. -/
theorem not_ofTag_firstTag_addTo :
    let t := "<card a='say \"hi\"'>".toList
    (ofTag t).other = [("a".toList, "say \"hi\"".toList)] ∧
      (ofTag t).addTo "<div></div>".toList = "<div a=\"say \"hi\"\"></div>".toList ∧
      (ofTag (firstTag ((ofTag t).addTo "<div></div>".toList))).other = [("a".toList, "say ".toList)] ∧
      ofTag (firstTag ((ofTag t).addTo "<div></div>".toList)) ≠ ofTag t := by
  have hread : (ofTag "<card a='say \"hi\"'>".toList).other = [("a".toList, "say \"hi\"".toList)] := by cbv
  have hwritten : (ofTag "<card a='say \"hi\"'>".toList).addTo "<div></div>".toList =
      "<div a=\"say \"hi\"\"></div>".toList := by cbv
  have hagain : (ofTag (firstTag "<div a=\"say \"hi\"\"></div>".toList)).other =
      [("a".toList, "say ".toList)] := by cbv
  rw [← hwritten] at hagain
  refine ⟨hread, hwritten, hagain, fun heq => ?_⟩
  rw [heq, hread] at hagain
  exact absurd hagain (by decide)

end Inlay.Attributes
