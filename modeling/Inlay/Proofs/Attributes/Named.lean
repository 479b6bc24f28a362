import Inlay.Proofs.Attributes.Groups

/-!
# Attributes with names of their own

Where no name stands twice, reading loses nothing: the attributes come out in their groups, each group in the
order in which its attributes are written.

* `classTokens` — the words of the class attributes.
* `grouped` — the attributes but for the class attribute, group by group.

Main statements: `Attributes.classes_ofList_of_nodup` and `Attributes.rest_ofList_of_nodup`.
-/

namespace Inlay

open Markup

/-- Whether the attribute is a pair whose name belongs to a group. -/
def Attribute.isPairIn (belongs : Text → Bool) : Attribute → Bool
  | flag _ => false
  | pair name _ _ => belongs name

/-- Whether the attribute is a name without a value. -/
def Attribute.isFlag : Attribute → Bool
  | flag _ => true
  | pair .. => false

/-- Whether a value, if there is one, stands between double quotes. -/
def Attribute.isDoubleQuoted : Attribute → Bool
  | flag _ => true
  | pair _ quote _ => quote = '\x22'

/-- The words of the class attributes. -/
def classTokens (as : List Attribute) : List Text :=
  ((as.filterMap Attribute.quoted?).filter (·.name = className)).flatMap fun p => Text.words p.value

/-- The attributes but for the class attribute: `data-` pairs, other pairs, and names without a value, each group
in the order in which it is written. -/
def grouped (as : List Attribute) : List Attribute :=
  as.filter (Attribute.isPairIn dataStart.isPrefixOf) ++ as.filter (Attribute.isPairIn Attributes.isOtherName) ++
    as.filter Attribute.isFlag

namespace Attributes

variable {as : List Attribute}

theorem sublist_names_quoted (as : List Attribute) :
    ((as.filterMap Attribute.quoted?).map (·.name)).Sublist (as.map Attribute.name) := by
  induction as with
  | nil => exact .slnil
  | cons a as ih =>
    cases a with
    | flag name => exact ih.cons name
    | pair name quote value => exact ih.cons_cons name

/-- A group of pairs is read and written as it stands. -/
theorem map_filter_quoted (hquotes : ∀ a ∈ as, a.isDoubleQuoted = true) (belongs : Text → Bool) :
    (((as.filterMap Attribute.quoted?).filter fun p => belongs p.name).map entry).map
        (fun p => Attribute.pair p.1 '\x22' p.2) =
      as.filter (Attribute.isPairIn belongs) := by
  induction as with
  | nil => rfl
  | cons a as ih =>
    obtain ⟨ha, has⟩ := List.forall_mem_cons.mp hquotes
    cases a with
    | flag name => exact ih has
    | pair name quote value =>
      obtain rfl : quote = '\x22' := of_decide_eq_true ha
      rw [filterMap_cons_toList]
      cases hname : belongs name with
      | false =>
        rw [List.filter_cons_of_neg (by simpa [Attribute.isPairIn] using hname), ← ih has]
        simp [Attribute.quoted?, hname]
      | true =>
        rw [List.filter_cons_of_pos (by simpa [Attribute.isPairIn] using hname), ← ih has]
        simp [Attribute.quoted?, hname, entry]

/-- A group of pairs with names of their own is the table that is read. -/
theorem ofList_group (hnames : (as.map Attribute.name).Nodup) (belongs : Text → Bool) :
    Pairs.ofList (((as.filterMap Attribute.quoted?).filter fun p => belongs p.name).map entry) =
      ((as.filterMap Attribute.quoted?).filter fun p => belongs p.name).map entry := by
  refine Pairs.ofList_of_nodup ?_
  rw [List.map_map]
  exact (hnames.sublist (sublist_names_quoted as)).sublist (List.Sublist.map _ List.filter_sublist)

theorem flags_ofList_of_nodup (hnames : (as.map Attribute.name).Nodup) :
    (ofList as).flags = as.filterMap Attribute.flag? := by
  refine List.filter_eq_self.mpr fun name hname => ?_
  rw [Bool.not_eq_true', List.any_eq_false]
  intro p hp heq
  obtain ⟨a, ha, hflag⟩ := List.mem_filterMap.mp hname
  obtain ⟨b, hb, hquoted⟩ := List.mem_filterMap.mp hp
  have hsame : a.name = b.name := by
    cases a with
    | pair => cases hflag
    | flag other =>
      cases b with
      | flag => cases hquoted
      | pair n quote value =>
        obtain rfl := Option.some.inj hflag
        obtain rfl := Option.some.inj hquoted
        exact (of_decide_eq_true heq).symm
  obtain rfl := List.inj_on_of_nodup_map hnames ha hb hsame
  cases a with
  | pair => cases hflag
  | flag => cases hquoted

theorem map_flags (as : List Attribute) :
    (as.filterMap Attribute.flag?).map .flag = as.filter Attribute.isFlag := by
  induction as with
  | nil => rfl
  | cons a as ih =>
    cases a with
    | flag name => exact congrArg _ ih
    | pair => exact ih

/-- **The groups are read as they are written.** -/
theorem rest_ofList_of_nodup (hnames : (as.map Attribute.name).Nodup)
    (hquotes : ∀ a ∈ as, a.isDoubleQuoted = true) : (ofList as).rest = grouped as := by
  have hdata : (ofList as).data = _ := (data_foldl_put_empty _).trans (ofList_group hnames dataStart.isPrefixOf)
  have hother : (ofList as).other = _ := (other_foldl_put_empty _).trans (ofList_group hnames isOtherName)
  rw [rest, List.map_append, hdata, hother, flags_ofList_of_nodup hnames, map_filter_quoted hquotes,
    map_filter_quoted hquotes isOtherName, map_flags]
  rfl

/-- **The class names are the words of the class attribute.** -/
theorem classes_ofList_of_nodup (hnames : (as.map Attribute.name).Nodup) :
    (ofList as).classes = mergeClasses [] (classTokens as) := by
  have hclasses : (ofList as).classes = _ := classes_foldl_put (as.filterMap Attribute.quoted?) {}
  have hnodup : (((as.filterMap Attribute.quoted?).filter (·.name = className)).map (·.name)).Nodup :=
    (hnames.sublist (sublist_names_quoted as)).sublist (List.Sublist.map _ List.filter_sublist)
  have hname : ∀ p ∈ (as.filterMap Attribute.quoted?).filter (·.name = className), p.name = className :=
    fun p hp => of_decide_eq_true (List.mem_filter.mp hp).2
  unfold classTokens
  rw [hclasses]
  generalize (as.filterMap Attribute.quoted?).filter (·.name = className) = ps at hnodup hname
  match ps with
  | [] => rfl
  | [p] => simp
  | p :: q :: _ => simp [hname p, hname q] at hnodup

end Attributes

end Inlay
