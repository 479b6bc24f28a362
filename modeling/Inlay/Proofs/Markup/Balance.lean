import Mathlib.Data.Nat.Count
import Mathlib.Order.Bounds.Basic
import Inlay.Page.Occurrence
import Inlay.Proofs.Markup.Matching

/-!
# Closing tags that balance

Behind the end of an opening tag, a closing tag balances it when the closing tags up to and with that one are
one more than the opening tags in front of it. All tags of the name count, wherever one begins; the search
passes over the text of the tags that it has counted, and loses none by that because a name has no less-than
sign.

* `countBetween` — the number of positions at which something begins.
* `Balances` — the closing tag at a position balances an opening tag.
* `Levels` — the same with further open tags, seen from where the search stands.

Main statements: `closing?_eq_some_iff`, `closing?_eq_none_iff` (the search finds the first closing tag that
balances, and finds nothing only if there is none) and `matchingClose_balances`.
-/

namespace Inlay.Markup

variable {name page t : Text}

/-- The number of positions from `i` on and before `j` at which `begins` holds of the rest of `t`. -/
def countBetween (begins : Text → Bool) (t : Text) (i j : Nat) : Nat :=
  Nat.count (fun k => begins (t.drop (i + k)) = true) (j - i)

/-- A closing tag called `name` begins at `p`, and with it the closing tags behind `start` are one more than the
opening tags there. -/
structure Balances (page name : Text) (start p : Nat) : Prop where
  start_le : start ≤ p
  closes : closesAt name (page.drop p) = true
  level : 1 + countBetween (opensAt name) page start p = countBetween (closesAt name) page start (p + 1)

instance (page name : Text) (start p : Nat) : Decidable (Balances page name start p) :=
  decidable_of_iff
    (start ≤ p ∧ closesAt name (page.drop p) = true ∧
      1 + countBetween (opensAt name) page start p = countBetween (closesAt name) page start (p + 1))
    ⟨fun ⟨hle, hcloses, hlevel⟩ => ⟨hle, hcloses, hlevel⟩, fun h => ⟨h.start_le, h.closes, h.level⟩⟩

/-- A closing tag called `name` begins at position `k` of `t`, and with it the closing tags of `t` are as many as
the opening tags and `depth + 1` more that were open before. -/
structure Levels (name : Text) (depth : Nat) (t : Text) (k : Nat) : Prop where
  closes : closesAt name (t.drop k) = true
  level : depth + 1 + countBetween (opensAt name) t 0 k = countBetween (closesAt name) t 0 (k + 1)

/-! ## Counting -/

theorem countBetween_cons (begins : Text → Bool) (c : Char) (t : Text) (k : Nat) :
    countBetween begins (c :: t) 0 (k + 1) = (begins (c :: t)).toNat + countBetween begins t 0 k := by
  unfold countBetween
  simp only [Nat.sub_zero, Nat.zero_add, Nat.count_succ', List.drop_zero, List.drop_succ_cons]
  cases begins (c :: t) with
  | false => simp
  | true => simp [Nat.add_comm]

theorem countBetween_drop (begins : Text → Bool) (t : Text) (i k : Nat) :
    countBetween begins (t.drop i) 0 k = countBetween begins t i (i + k) := by
  unfold countBetween
  simp only [List.drop_drop, Nat.sub_zero, Nat.zero_add, Nat.add_sub_cancel_left]

/-- The least element of a set that is moved to the right. -/
theorem isLeast_add_iff {P Q : Nat → Prop} {n : Nat} (h : ∀ m, P m ↔ ∃ k, m = n + k ∧ Q k) {m : Nat} :
    IsLeast {m | P m} m ↔ ∃ k, m = n + k ∧ IsLeast {k | Q k} k := by
  constructor
  · rintro ⟨hm, hlow⟩
    obtain ⟨k, rfl, hk⟩ := (h m).mp hm
    refine ⟨k, rfl, hk, fun j hj => ?_⟩
    have hle : n + k ≤ n + j := hlow ((h (n + j)).mpr ⟨j, rfl, hj⟩)
    omega
  · rintro ⟨k, rfl, hk, hlow⟩
    refine ⟨(h (n + k)).mpr ⟨k, rfl, hk⟩, fun m hm => ?_⟩
    obtain ⟨j, rfl, hj⟩ := (h m).mp hm
    have hle : k ≤ j := hlow hj
    omega

/-! ## Tags of one name -/

theorem closesAt_nil (name : Text) : closesAt name [] = false := rfl

theorem eq_slash_of_append {n a b : Text} {c : Char} (h : n ++ c :: a = '/' :: (n ++ '>' :: b)) : c = '/' := by
  induction n with
  | nil => exact (List.cons.inj h).1
  | cons d n ih =>
    obtain ⟨rfl, hrest⟩ := List.cons.inj h
    exact ih hrest

/-- No opening tag begins where a closing tag does, whatever their name. -/
theorem not_opensAt_of_closesAt (h : closesAt name t = true) : opensAt name t = false := by
  rw [Bool.eq_false_iff]
  intro hopens
  obtain ⟨c, a, rfl, hc⟩ := opensAt_iff.mp hopens
  obtain ⟨b, hb⟩ := closesAt_iff.mp h
  have hslash : c = '/' := eq_slash_of_append (b := b) (by simpa [Tag.closing] using hb)
  subst hslash
  rcases hc with hc | hc <;> exact absurd hc (by decide)

theorem not_closesAt_of_opensAt (h : opensAt name t = true) : closesAt name t = false := by
  rw [Bool.eq_false_iff]
  intro hcloses
  rw [not_opensAt_of_closesAt hcloses] at h
  cases h

theorem opensAt_of_ne {c : Char} (hc : c ≠ '<') : opensAt name (c :: t) = false := by
  rw [Bool.eq_false_iff]
  intro h
  obtain ⟨_, _, heq, -⟩ := opensAt_iff.mp h
  exact hc (List.cons.inj heq).1

theorem closesAt_of_ne {c : Char} (hc : c ≠ '<') : closesAt name (c :: t) = false := by
  rw [Bool.eq_false_iff]
  intro h
  obtain ⟨_, heq⟩ := closesAt_iff.mp h
  exact hc (List.cons.inj heq).1

/-- What is passed over of an opening tag is its name. -/
theorem not_mem_take_of_opensAt {c : Char} (hname : '<' ∉ name) (h : opensAt name (c :: t) = true) :
    '<' ∉ t.take name.length := by
  obtain ⟨d, after, heq, -⟩ := opensAt_iff.mp h
  have ht : t = name ++ d :: after := (List.cons.inj heq).2
  rwa [ht, List.take_left]

/-- What is passed over of a closing tag is all that comes after its less-than sign. -/
theorem not_mem_take_of_closesAt {c : Char} (hname : '<' ∉ name) (h : closesAt name (c :: t) = true) :
    '<' ∉ t.take (name.length + 2) := by
  obtain ⟨after, heq⟩ := closesAt_iff.mp h
  have ht : t = '/' :: (name ++ ['>']) ++ after := (List.cons.inj heq).2
  rw [ht, show name.length + 2 = ('/' :: (name ++ ['>'])).length by simp, List.take_left]
  simpa using hname

/-! ## The search -/

/-- With its first character a text loses at most one tag, and what is left is levelled from the depth
behind that tag. -/
theorem levels_cons_iff {c : Char} {depth d : Nat}
    (h : depth + (opensAt name (c :: t)).toNat = d + (closesAt name (c :: t)).toNat) (k : Nat) :
    Levels name depth (c :: t) k ↔ ∃ j, k = 1 + j ∧ Levels name d t j := by
  cases k with
  | zero =>
    constructor
    · rintro ⟨hcloses, hlevel⟩
      rw [List.drop_zero] at hcloses
      rw [not_opensAt_of_closesAt hcloses, hcloses, Bool.toNat_false, Bool.toNat_true] at h
      rw [countBetween_cons, hcloses, Bool.toNat_true] at hlevel
      simp only [countBetween, Nat.sub_self, Nat.count_zero] at hlevel
      omega
    · rintro ⟨j, hj, -⟩
      omega
  | succ k =>
    constructor
    · rintro ⟨hcloses, hlevel⟩
      rw [countBetween_cons, countBetween_cons] at hlevel
      exact ⟨k, Nat.add_comm .., hcloses, by omega⟩
    · rintro ⟨j, hj, hcloses, hlevel⟩
      obtain rfl : k = j := by omega
      refine ⟨hcloses, ?_⟩
      rw [countBetween_cons, countBetween_cons]
      omega

theorem not_levels_nil {depth : Nat} (k : Nat) : ¬ Levels name depth [] k := by
  intro h
  have hcloses := h.closes
  rw [List.drop_nil, closesAt_nil] at hcloses
  cases hcloses

/-- A closing tag in front, with nothing open, is the first that levels. -/
theorem isLeast_levels_zero {c : Char} (h : closesAt name (c :: t) = true) :
    IsLeast {k | Levels name 0 (c :: t) k} 0 := by
  refine ⟨⟨h, ?_⟩, fun _ _ => Nat.zero_le _⟩
  rw [countBetween_cons, h]
  rfl

/-- Behind the first character, at the depth there, the first closing tag that levels is the same. -/
theorem exists_isLeast_levels_cons_iff {c : Char} {depth d i p : Nat}
    (h : depth + (opensAt name (c :: t)).toNat = d + (closesAt name (c :: t)).toNat) :
    (∃ k, p = i + k ∧ IsLeast {k | Levels name depth (c :: t) k} k) ↔
      ∃ j, p = i + 1 + j ∧ IsLeast {k | Levels name d t k} j := by
  simp only [isLeast_add_iff (levels_cons_iff h)]
  constructor
  · rintro ⟨k, rfl, j, rfl, hj⟩
    exact ⟨j, by omega, hj⟩
  · rintro ⟨j, rfl, hj⟩
    exact ⟨1 + j, by omega, j, rfl, hj⟩

/-- **From any depth, the search finds the first closing tag that leaves nothing open.** -/
theorem closingFrom_eq_some_iff (hname : '<' ∉ name) {depth passed i p : Nat} (hpassed : '<' ∉ t.take passed) :
    closingFrom name depth passed i t = some p ↔
      ∃ k, p = i + k ∧ IsLeast {k | Levels name depth t k} k := by
  induction t generalizing depth passed i with
  | nil =>
    constructor
    · intro h
      cases h
    · rintro ⟨k, -, hk, -⟩
      exact absurd hk (not_levels_nil k)
  | cons c t ih =>
    -- the search goes on behind the first character, at another depth
    have behind {d n : Nat} (hn : '<' ∉ t.take n)
        (hd : depth + (opensAt name (c :: t)).toNat = d + (closesAt name (c :: t)).toNat) :
        closingFrom name d n (i + 1) t = some p ↔
          ∃ k, p = i + k ∧ IsLeast {k | Levels name depth (c :: t) k} k :=
      (ih hn).trans (exists_isLeast_levels_cons_iff hd).symm
    cases passed with
    | succ passed =>
      rw [List.take_succ_cons, List.mem_cons, not_or] at hpassed
      obtain ⟨hc, hrest⟩ := hpassed
      refine behind hrest ?_
      rw [opensAt_of_ne (Ne.symm hc), closesAt_of_ne (Ne.symm hc)]
    | zero =>
      unfold closingFrom
      dsimp only
      cases hopens : opensAt name (c :: t) with
      | true =>
        rw [if_pos rfl]
        refine behind (not_mem_take_of_opensAt hname hopens) ?_
        rw [hopens, not_closesAt_of_opensAt hopens]
        rfl
      | false =>
        rw [if_neg Bool.false_ne_true]
        cases hcloses : closesAt name (c :: t) with
        | false =>
          rw [if_neg Bool.false_ne_true]
          refine behind (by simp) ?_
          rw [hopens, hcloses]
        | true =>
          rw [if_pos rfl]
          cases depth with
          | zero =>
            have hleast := isLeast_levels_zero hcloses
            constructor
            · intro h
              exact ⟨0, (Option.some.inj h).symm, hleast⟩
            · rintro ⟨k, rfl, hk⟩
              rw [hk.unique hleast]
              rfl
          | succ depth =>
            refine behind (not_mem_take_of_closesAt hname hcloses) ?_
            rw [hopens, hcloses]
            rfl

theorem balances_iff {start p : Nat} :
    Balances page name start p ↔ ∃ k, p = start + k ∧ Levels name 0 (page.drop start) k := by
  constructor
  · rintro ⟨hle, hcloses, hlevel⟩
    obtain ⟨k, rfl⟩ := Nat.exists_eq_add_of_le hle
    refine ⟨k, rfl, ?_, ?_⟩
    · rwa [List.drop_drop]
    · rwa [countBetween_drop, countBetween_drop, Nat.zero_add]
  · rintro ⟨k, rfl, hcloses, hlevel⟩
    refine ⟨Nat.le_add_right .., ?_, ?_⟩
    · rwa [List.drop_drop] at hcloses
    · rwa [countBetween_drop, countBetween_drop, Nat.zero_add] at hlevel

/-- **The search finds the first closing tag that balances.** -/
theorem closing?_eq_some_iff (hname : '<' ∉ name) {start p : Nat} :
    closing? page name start = some p ↔ IsLeast {p | Balances page name start p} p := by
  rw [isLeast_add_iff fun _ => balances_iff]
  rcases Nat.le_total start page.length with hstart | hstart
  · unfold closing?
    rw [Text.position_natCast hstart]
    exact closingFrom_eq_some_iff hname List.not_mem_nil
  · -- there is nothing behind the end of the page
    have hnone : closing? page name start = none := by
      have hend : page.length ≤ Text.position page.length start := by
        unfold Text.position
        split <;> omega
      unfold closing?
      dsimp only
      rw [List.drop_of_length_le hend]
      rfl
    rw [hnone, List.drop_of_length_le hstart]
    constructor
    · intro h
      cases h
    · rintro ⟨k, -, hk, -⟩
      exact absurd hk (not_levels_nil k)

theorem closing?_eq_none_iff (hname : '<' ∉ name) {start : Nat} :
    closing? page name start = none ↔ ∀ p, ¬ Balances page name start p := by
  rw [Option.eq_none_iff_forall_ne_some]
  constructor
  · intro h p hp
    have hex : ∃ p, Balances page name start p := ⟨p, hp⟩
    refine h (Nat.find hex) ((closing?_eq_some_iff hname).mpr ⟨Nat.find_spec hex, ?_⟩)
    exact fun q hq => Nat.find_min' hex hq
  · intro h p hp
    exact h p ((closing?_eq_some_iff hname).mp hp).1

/-- **Matching closing tags is exact bracket matching.** -/
theorem matchingClose_balances (hname : '<' ∉ name) (page : Text) (start : Nat) :
    (∀ p, matchingClose page name start = .ok p ↔ IsLeast {p | Balances page name start p} p) ∧
      ∀ failure, matchingClose page name start = .error failure ↔
        failure = .unterminated name start ∧ ∀ p, ¬ Balances page name start p := by
  unfold matchingClose
  cases hclose : closing? page name start with
  | some close =>
    have hleast := (closing?_eq_some_iff hname).mp hclose
    refine ⟨fun p => ?_, fun failure => ?_⟩
    · rw [← closing?_eq_some_iff hname, hclose]
      simp
    · simp only [reduceCtorEq, false_iff, not_and, not_forall, not_not]
      exact fun _ => ⟨close, hleast.1⟩
  | none =>
    have hno := (closing?_eq_none_iff hname).mp hclose
    refine ⟨fun p => ?_, fun failure => ?_⟩
    · simp only [reduceCtorEq, false_iff]
      exact fun hp => hno p hp.1
    · simp only [Except.error.injEq]
      exact ⟨fun h => ⟨h.symm, hno⟩, fun h => h.1.symm⟩

/-- A tag with another one of its name inside and a longer name around that one, and a tag that is not closed. -/
theorem matchingClose_balances_box :
    '<' ∉ "box".toList ∧
    matchingClose "<box><box-item><box>B</box></box-item>C</box>".toList "box".toList (5 : Nat) = .ok 39 ∧
    IsLeast {p | Balances "<box><box-item><box>B</box></box-item>C</box>".toList "box".toList 5 p} 39 ∧
    matchingClose "<box>A<box>B</box>".toList "box".toList (5 : Nat) =
      .error (.unterminated "box".toList (5 : Nat)) ∧
    ∀ p, ¬ Balances "<box>A<box>B</box>".toList "box".toList 5 p := by
  have hname : '<' ∉ "box".toList := by decide
  have hfound : matchingClose "<box><box-item><box>B</box></box-item>C</box>".toList "box".toList (5 : Nat) =
      .ok 39 := by decide
  have hlost : matchingClose "<box>A<box>B</box>".toList "box".toList (5 : Nat) =
      .error (.unterminated "box".toList (5 : Nat)) := by decide
  exact ⟨hname, hfound, ((matchingClose_balances hname _ 5).1 39).mp hfound, hlost,
    (((matchingClose_balances hname _ 5).2 _).mp hlost).2⟩

end Inlay.Markup
