import Inlay.Proofs.Markup.Token

/-!
# Pairing opening and closing tags

Reading tags from left to right, a closing tag is paired with the latest opening tag of its name that has
no partner yet; without such a tag it is stray. Tags of one name are paired among themselves, as with a
stack for each name, however the names cross.

* `takeOpening?` — takes the top of a name's stack.
* `Pairing` — the tags without a partner, and the number of pairs.
* `Pairing.step`, `Pairing.sweep` — reading one tag, and a list of tags.
* `Pairing.ofTokens` — the pairing of a page.

Main statements: `Pairing.unpaired_filter` (names do not interfere), `Pairing.sweep_of_split` (taking a pair
that counting finds out of a page leaves the other tags as they are), `Pairing.pairs_of_unmatched` (where
counting finds nothing there are no pairs).
-/

namespace Inlay.Markup

/-- The tags, given latest first, without the latest opening tag called `name`. -/
def takeOpening? (name : Text) : List Token → Option (List Token)
  | [] => none
  | t :: ts => if t.opens name then some ts else (takeOpening? name ts).map (t :: ·)

/-- What has been read of a page: the tags without a partner, latest first, and the number of pairs. -/
structure Pairing where
  unpaired : List Token := []
  pairs : Nat := 0
  deriving DecidableEq, Repr

namespace Pairing

variable (names : Text → Bool)

/-- Reads a token. Tags with other names than the given ones are not looked at. -/
def step (p : Pairing) (t : Token) : Pairing :=
  if t.isTagIn names then
    match t with
    | .closing name =>
      match takeOpening? name p.unpaired with
      | some rest => ⟨rest, p.pairs + 1⟩
      | none => ⟨t :: p.unpaired, p.pairs⟩
    | _ => ⟨t :: p.unpaired, p.pairs⟩
  else p

/-- Reads tokens one after the other. -/
def sweep (p : Pairing) (ts : List Token) : Pairing := ts.foldl (step names) p

/-- The pairing of a page. -/
def ofTokens (ts : List Token) : Pairing := sweep names {} ts

/-- The tags without a partner, in the order of the page. -/
def leftOver (p : Pairing) : List Token := p.unpaired.reverse

end Pairing

/-! ## The top of a stack -/

theorem takeOpening?_append (name : Text) (xs ys : List Token) :
    takeOpening? name (xs ++ ys) =
      match takeOpening? name xs with
      | some rest => some (rest ++ ys)
      | none => (takeOpening? name ys).map (xs ++ ·) := by
  induction xs with
  | nil => cases h : takeOpening? name ys <;> simp [takeOpening?, h]
  | cons x xs ih =>
    rw [List.cons_append, takeOpening?, takeOpening?, ih]
    split
    · rfl
    · cases takeOpening? name xs with
      | some rest => rfl
      | none => cases takeOpening? name ys <;> rfl

theorem takeOpening?_eq_none {name : Text} {ts : List Token} :
    takeOpening? name ts = none ↔ ts.countP (Token.opens name) = 0 := by
  induction ts with
  | nil => simp [takeOpening?]
  | cons t ts ih =>
    rw [takeOpening?, List.countP_cons]
    split
    · simp
    · rw [Option.map_eq_none_iff, ih, Nat.add_zero]

/-- What is taken counts as an opening tag called `name`, and nothing else is taken. -/
theorem exists_of_takeOpening? {name : Text} {ts rest : List Token}
    (h : takeOpening? name ts = some rest) :
    ∃ before t after, ts = before ++ t :: after ∧ rest = before ++ after ∧ t.opens name = true ∧
      before.countP (Token.opens name) = 0 := by
  induction ts generalizing rest with
  | nil => cases h
  | cons t ts ih =>
    rw [takeOpening?] at h
    split at h
    · rename_i ht
      cases h
      exact ⟨[], t, ts, rfl, rfl, ht, rfl⟩
    · rename_i ht
      obtain ⟨rest', hrest, rfl⟩ := Option.map_eq_some_iff.mp h
      obtain ⟨before, u, after, rfl, rfl, hu, hbefore⟩ := ih hrest
      refine ⟨t :: before, u, after, rfl, rfl, hu, ?_⟩
      rw [List.countP_cons, hbefore, if_neg ht]

theorem isTagIn_of_opens {t : Token} {name : Text} (h : t.opens name = true) (names : Text → Bool) :
    t.isTagIn names = names name := by
  cases t with
  | opening n attributes =>
    obtain ⟨rfl, -⟩ := Token.opens_opening_iff.mp h
    rfl
  | text | closing => cases h

/-- A tag with a name that is not looked at does not count. -/
theorem depthAfter_of_other {name : Text} {t : Token} {names : Text → Bool} (hname : names name = true)
    (h : t.isTagIn names = false) (depth : Nat) : depthAfter name depth t = depth := by
  have hopens : ¬t.opens name = true := by
    intro hopens
    rw [isTagIn_of_opens hopens, hname] at h
    cases h
  have hcloses : ¬t = .closing name := by
    rintro rfl
    exact absurd (hname.symm.trans h) (by simp)
  unfold depthAfter
  rw [if_neg hopens, if_neg hcloses]

theorem eq_of_opens {t : Token} {a b : Text} (ha : t.opens a = true) (hb : t.opens b = true) :
    a = b := by
  cases t with
  | opening n attributes =>
    exact (Token.opens_opening_iff.mp ha).1.symm.trans (Token.opens_opening_iff.mp hb).1
  | text | closing => cases ha

/-- An opening tag that is taken lowers the count of its own name, and of no other. -/
theorem countP_of_takeOpening? {name : Text} {ts rest : List Token}
    (h : takeOpening? name ts = some rest) (c : Text) :
    ts.countP (Token.opens c) = rest.countP (Token.opens c) + if name = c then 1 else 0 := by
  obtain ⟨before, t, after, rfl, rfl, ht, -⟩ := exists_of_takeOpening? h
  have hown : t.opens c = true ↔ name = c := by
    constructor
    · exact eq_of_opens ht
    · rintro rfl
      exact ht
  rw [List.countP_append, List.countP_append, List.countP_cons, Nat.add_assoc]
  simp only [hown]

/-- An opening tag that does not count for its own name counts for none. -/
theorem opens_eq_false_of_own {n attributes : Text} (h : Token.opens n (.opening n attributes) = false)
    (name : Text) : Token.opens name (.opening n attributes) = false := by
  rw [Bool.eq_false_iff] at h ⊢
  intro hname
  exact h (Token.opens_opening_iff.mpr ⟨rfl, (Token.opens_opening_iff.mp hname).2⟩)

theorem takeOpening?_of_inert {ts : List Token} (h : ∀ t ∈ ts, ∀ name, t.opens name = false)
    (name : Text) : takeOpening? name ts = none := by
  rw [takeOpening?_eq_none, List.countP_eq_zero]
  intro t ht
  simp [h t ht]

namespace Pairing

variable {names : Text → Bool}

/-! ## Reading one token -/

theorem step_of_other {t : Token} (h : t.isTagIn names = false) (p : Pairing) :
    p.step names t = p := by
  unfold step
  rw [h, if_neg Bool.false_ne_true]

theorem step_opening {name : Text} (h : names name = true) (attributes : Text) (p : Pairing) :
    p.step names (.opening name attributes) = ⟨.opening name attributes :: p.unpaired, p.pairs⟩ := by
  unfold step
  rw [if_pos (by exact h)]

theorem step_closing {name : Text} (h : names name = true) (p : Pairing) :
    p.step names (.closing name) =
      match takeOpening? name p.unpaired with
      | some rest => ⟨rest, p.pairs + 1⟩
      | none => ⟨.closing name :: p.unpaired, p.pairs⟩ := by
  unfold step
  rw [if_pos (by exact h)]

theorem step_add (p : Pairing) (n : Nat) (t : Token) :
    step names ⟨p.unpaired, p.pairs + n⟩ t =
      ⟨(p.step names t).unpaired, (p.step names t).pairs + n⟩ := by
  unfold step
  dsimp only
  split
  · split
    · split
      · simp only [Pairing.mk.injEq, true_and]
        omega
      · rfl
    · rfl
  · rfl

theorem sweep_add (p : Pairing) (n : Nat) (ts : List Token) :
    sweep names ⟨p.unpaired, p.pairs + n⟩ ts =
      ⟨(p.sweep names ts).unpaired, (p.sweep names ts).pairs + n⟩ := by
  induction ts generalizing p with
  | nil => rfl
  | cons t ts ih =>
    unfold sweep at ih ⊢
    rw [List.foldl_cons, List.foldl_cons, step_add, ih]

theorem sweep_filter (p : Pairing) (ts : List Token) :
    p.sweep names (ts.filter (Token.isTagIn names)) = p.sweep names ts := by
  induction ts generalizing p with
  | nil => rfl
  | cons t ts ih =>
    unfold sweep at ih ⊢
    rw [List.foldl_cons]
    cases h : t.isTagIn names with
    | true => rw [List.filter_cons_of_pos h, List.foldl_cons, ih]
    | false => rw [List.filter_cons_of_neg (by simp [h]), step_of_other h, ih]

theorem sweep_append (p : Pairing) (ts us : List Token) :
    p.sweep names (ts ++ us) = (p.sweep names ts).sweep names us :=
  List.foldl_append

/-! ## Names apart -/

theorem takeOpening?_filter {only : Text → Bool} {name : Text} (h : only name = true)
    (ts : List Token) :
    takeOpening? name (ts.filter (Token.isTagIn only)) =
      (takeOpening? name ts).map (List.filter (Token.isTagIn only)) := by
  induction ts with
  | nil => rfl
  | cons t ts ih =>
    rw [takeOpening?]
    cases ht : t.opens name with
    | true =>
      have honly : t.isTagIn only = true := (isTagIn_of_opens ht only).trans h
      rw [List.filter_cons_of_pos honly, takeOpening?, ht]
      rfl
    | false =>
      rw [if_neg Bool.false_ne_true]
      cases honly : t.isTagIn only with
      | true =>
        rw [List.filter_cons_of_pos honly, takeOpening?, ht, if_neg Bool.false_ne_true, ih,
          Option.map_map, Option.map_map]
        congr 1
        funext rest
        simp [honly]
      | false =>
        rw [List.filter_cons_of_neg (by simp [honly]), ih, Option.map_map]
        congr 1
        funext rest
        simp [honly]

/-- A tag with another name changes nothing for the given names. -/
theorem unpaired_step_filter {only : Text → Bool} {t : Token} (h : t.isTagIn only = false)
    (p : Pairing) :
    (p.step names t).unpaired.filter (Token.isTagIn only) =
      p.unpaired.filter (Token.isTagIn only) := by
  cases hin : t.isTagIn names with
  | false => rw [step_of_other hin]
  | true =>
    cases t with
    | text t => cases hin
    | opening n attributes =>
      rw [step_opening (by exact hin), List.filter_cons_of_neg (by simp [h])]
    | closing n =>
      rw [step_closing (by exact hin)]
      cases htake : takeOpening? n p.unpaired with
      | none => rw [List.filter_cons_of_neg (by simp [h])]
      | some rest =>
        obtain ⟨before, u, after, heq, rfl, hu, -⟩ := exists_of_takeOpening? htake
        have hother : u.isTagIn only = false := (isTagIn_of_opens hu only).trans h
        rw [heq, List.filter_append, List.filter_append,
          List.filter_cons_of_neg (by simp [hother])]

/-- **Tags of some names are paired as if the others were not there.** -/
theorem unpaired_filter {only : Text → Bool} (honly : ∀ name, only name = true → names name = true)
    (p : Pairing) (k : Nat) (ts : List Token) :
    (p.sweep names ts).unpaired.filter (Token.isTagIn only) =
      (sweep only ⟨p.unpaired.filter (Token.isTagIn only), k⟩ ts).unpaired := by
  induction ts generalizing p k with
  | nil => rfl
  | cons t ts ih =>
    have hstep : ∃ k', (step only ⟨p.unpaired.filter (Token.isTagIn only), k⟩ t) =
        ⟨(p.step names t).unpaired.filter (Token.isTagIn only), k'⟩ := by
      cases hin : t.isTagIn only with
      | false =>
        refine ⟨k, ?_⟩
        rw [step_of_other hin, unpaired_step_filter hin]
      | true =>
        cases t with
        | text t => cases hin
        | opening n attributes =>
          refine ⟨k, ?_⟩
          rw [step_opening (by exact hin), step_opening (honly n hin),
            List.filter_cons_of_pos (by exact hin)]
        | closing n =>
          rw [step_closing (by exact hin), step_closing (honly n hin),
            takeOpening?_filter (by exact hin)]
          cases takeOpening? n p.unpaired with
          | some rest => exact ⟨k + 1, rfl⟩
          | none =>
            refine ⟨k, ?_⟩
            dsimp only [Option.map]
            rw [List.filter_cons_of_pos (by exact hin)]
    obtain ⟨k', hk⟩ := hstep
    unfold sweep at ih ⊢
    rw [List.foldl_cons, List.foldl_cons, hk, ih]

/-! ## Taking out a pair -/

/-- Reading a closing tag with and without an opening tag `o` that is not its partner: the partner stands
above `o`, or below, or nowhere. -/
theorem step_closing_beside {n : Text} (hn : names n = true) {o : Token} {xs : List Token}
    (ho : takeOpening? n xs = none → o.opens n = false) (rs : List Token) :
    ∃ xs' rs' m,
      (∀ c, xs'.countP (Token.opens c) = depthAfter c (xs.countP (Token.opens c)) (.closing n)) ∧
      ∀ k, step names ⟨xs ++ o :: rs, k⟩ (.closing n) = ⟨xs' ++ o :: rs', k + m⟩ ∧
        step names ⟨xs ++ rs, k⟩ (.closing n) = ⟨xs' ++ rs', k + m⟩ := by
  simp only [step_closing hn, takeOpening?_append, depthAfter_closing]
  cases htake : takeOpening? n xs with
  | some xs' =>
    refine ⟨xs', rs, 1, fun c => ?_, fun k => ⟨rfl, rfl⟩⟩
    rw [countP_of_takeOpening? htake c]
    split <;> rfl
  | none =>
    have hcount (c : Text) : xs.countP (Token.opens c) =
        if n = c then xs.countP (Token.opens c) - 1 else xs.countP (Token.opens c) := by
      split
      · rename_i hc
        rw [← hc, takeOpening?_eq_none.mp htake]
      · rfl
    have hbelow : takeOpening? n (o :: rs) = (takeOpening? n rs).map (o :: ·) := by
      rw [takeOpening?, ho htake, if_neg Bool.false_ne_true]
    rw [hbelow]
    cases takeOpening? n rs with
    | some rs' => exact ⟨xs, rs', 1, hcount, fun k => ⟨rfl, rfl⟩⟩
    | none => exact ⟨.closing n :: xs, rs, 0, hcount, fun k => ⟨rfl, rfl⟩⟩

/-- Reading a token, with and without an opening tag `o` called `c` whose partner it is not. Above `o`
stand as many open tags called `c` as counting has counted. -/
theorem step_beside {c : Text} (hc : names c = true) {o : Token} (ho : o.opens c = true)
    {xs : List Token} {depth : Nat} (hdepth : xs.countP (Token.opens c) = depth) {t : Token}
    (ht : ¬(t = .closing c ∧ depth = 0)) (rs : List Token) :
    ∃ xs' rs' n, xs'.countP (Token.opens c) = depthAfter c depth t ∧ ∀ k,
      step names ⟨xs ++ o :: rs, k⟩ t = ⟨xs' ++ o :: rs', k + n⟩ ∧
      step names ⟨xs ++ rs, k⟩ t = ⟨xs' ++ rs', k + n⟩ := by
  cases hin : t.isTagIn names with
  | false =>
    refine ⟨xs, rs, 0, ?_, fun k => ⟨step_of_other hin _, step_of_other hin _⟩⟩
    rw [hdepth, depthAfter_of_other hc hin]
  | true =>
    cases t with
    | text t => cases hin
    | opening n attributes =>
      refine ⟨.opening n attributes :: xs, rs, 0, ?_,
        fun k => ⟨step_opening hin attributes _, step_opening hin attributes _⟩⟩
      rw [List.countP_cons, hdepth, depthAfter_opening]
      split <;> rfl
    | closing n =>
      have hother : takeOpening? n xs = none → o.opens n = false := by
        intro hnone
        rw [Bool.eq_false_iff]
        intro hopens
        obtain rfl := eq_of_opens hopens ho
        exact ht ⟨rfl, hdepth.symm.trans (takeOpening?_eq_none.mp hnone)⟩
      obtain ⟨xs', rs', m, hcount, hstep⟩ := step_closing_beside hin hother rs
      exact ⟨xs', rs', m, by rw [hcount, hdepth], hstep⟩

/-- **The partner that counting finds is the one of the pairing**: without the two the other tags are
paired as before. -/
theorem sweep_of_split {c : Text} (hc : names c = true) {o : Token} (ho : o.opens c = true)
    {ts body after : List Token} {depth : Nat} (h : splitClosing c depth ts = some (body, after))
    (xs : List Token) (hdepth : xs.countP (Token.opens c) = depth) (rs : List Token) (k : Nat) :
    sweep names ⟨xs ++ o :: rs, k⟩ ts = sweep names ⟨xs ++ rs, k + 1⟩ (body ++ after) := by
  induction ts generalizing depth body xs rs k with
  | nil => cases h
  | cons t ts ih =>
    by_cases ht : t = .closing c ∧ depth = 0
    · obtain ⟨rfl, rfl⟩ := ht
      have hparts : splitClosing c 0 (.closing c :: ts) = some ([], ts) := by simp [splitClosing, Token.opens]
      rw [hparts] at h
      cases h
      unfold sweep
      rw [List.foldl_cons, step_closing hc, takeOpening?_append, takeOpening?_eq_none.mpr hdepth,
        takeOpening?, ho]
      rfl
    · rw [splitClosing_cons ht] at h
      obtain ⟨⟨body', after'⟩, hparts, heq⟩ := Option.map_eq_some_iff.mp h
      cases heq
      obtain ⟨xs', rs', n, hdepth', hstep⟩ := step_beside hc ho hdepth ht rs
      have hrest := ih hparts xs' hdepth' rs' (k + n)
      unfold sweep at hrest ⊢
      rw [List.cons_append, List.foldl_cons, List.foldl_cons, (hstep k).1, (hstep (k + 1)).2, hrest,
        Nat.add_right_comm]

/-- An opening tag for which counting finds no closing tag has no partner. -/
theorem pairs_of_split_none {c : Text} (hc : names c = true) {o : Token} (ho : o.opens c = true)
    {ts : List Token} {depth : Nat} (h : splitClosing c depth ts = none) (xs : List Token)
    (hdepth : xs.countP (Token.opens c) = depth) (rs : List Token) (k : Nat) :
    (sweep names ⟨xs ++ o :: rs, k⟩ ts).pairs = (sweep names ⟨xs ++ rs, k⟩ ts).pairs := by
  induction ts generalizing depth xs rs k with
  | nil => rfl
  | cons t ts ih =>
    by_cases ht : t = .closing c ∧ depth = 0
    · obtain ⟨rfl, rfl⟩ := ht
      simp [splitClosing, Token.opens] at h
    · rw [splitClosing_cons ht, Option.map_eq_none_iff] at h
      obtain ⟨xs', rs', n, hdepth', hstep⟩ := step_beside hc ho hdepth ht rs
      have hrest := ih h xs' hdepth' rs' (k + n)
      unfold sweep at hrest ⊢
      rw [List.foldl_cons, List.foldl_cons, (hstep k).1, (hstep k).2, hrest]

/-- **Where counting finds no closing tag at all, there are no pairs.** -/
theorem pairs_of_unmatched {ts : List Token}
    (h : ∀ front name attributes back, ts = front ++ .opening name attributes :: back →
      names name = true → splitClosing name 0 back = none)
    (rs : List Token) (hrs : ∀ t ∈ rs, ∀ name, t.opens name = false) (k : Nat) :
    (sweep names ⟨rs, k⟩ ts).pairs = k := by
  induction ts generalizing rs with
  | nil => rfl
  | cons t ts ih =>
    have hrest : ∀ front name attributes back, ts = front ++ .opening name attributes :: back →
        names name = true → splitClosing name 0 back = none :=
      fun front name attributes back heq => h (t :: front) name attributes back (by rw [heq]; rfl)
    have hinert (u : Token) (hu : ∀ name, u.opens name = false) :
        (sweep names ⟨u :: rs, k⟩ ts).pairs = k := by
      apply ih hrest (u :: rs)
      intro v hv
      rcases List.mem_cons.mp hv with rfl | hv
      · exact hu
      · exact hrs v hv
    cases hin : t.isTagIn names with
    | false =>
      unfold sweep at ih ⊢
      rw [List.foldl_cons, step_of_other hin]
      exact ih hrest rs hrs
    | true =>
      cases t with
      | text t => cases hin
      | opening n attributes =>
        show (sweep names (step names ⟨rs, k⟩ (.opening n attributes)) ts).pairs = k
        rw [step_opening (by exact hin)]
        dsimp only
        cases ho : Token.opens n (.opening n attributes) with
        | true =>
          have hsame := pairs_of_split_none (by exact hin) ho (h [] n attributes ts rfl hin) []
            rfl rs k
          rw [List.nil_append, List.nil_append] at hsame
          rw [hsame]
          exact ih hrest rs hrs
        | false => exact hinert _ (opens_eq_false_of_own ho)
      | closing n =>
        show (sweep names (step names ⟨rs, k⟩ (.closing n)) ts).pairs = k
        rw [step_closing (by exact hin)]
        dsimp only
        rw [takeOpening?_of_inert hrs]
        exact hinert _ fun _ => rfl

theorem pairs_le_sweep (p : Pairing) (ts : List Token) : p.pairs ≤ (p.sweep names ts).pairs := by
  induction ts generalizing p with
  | nil => exact Nat.le_refl _
  | cons t ts ih =>
    refine Nat.le_trans ?_ (ih (p.step names t))
    unfold step
    split
    · split
      · split
        · exact Nat.le_succ _
        · exact Nat.le_refl _
      · exact Nat.le_refl _
    · exact Nat.le_refl _

/-- Without pairs all tags are left over. -/
theorem unpaired_of_pairs {p : Pairing} {ts : List Token} (h : (p.sweep names ts).pairs = p.pairs) :
    (p.sweep names ts).unpaired = (ts.filter (Token.isTagIn names)).reverse ++ p.unpaired := by
  induction ts generalizing p with
  | nil => rfl
  | cons t ts ih =>
    have hle : (p.step names t).pairs ≤ ((p.step names t).sweep names ts).pairs :=
      pairs_le_sweep _ ts
    rw [show (p.step names t).sweep names ts = p.sweep names (t :: ts) from rfl, h] at hle
    cases hin : t.isTagIn names with
    | false =>
      rw [List.filter_cons_of_neg (by simp [hin])]
      unfold sweep at ih h ⊢
      rw [List.foldl_cons, step_of_other hin] at h ⊢
      exact ih h
    | true =>
      -- a closing tag that finds a partner would make a pair
      have hstep : p.step names t = ⟨t :: p.unpaired, p.pairs⟩ := by
        cases t with
        | text t => cases hin
        | opening n attributes => exact step_opening (by exact hin) attributes p
        | closing n =>
          rw [step_closing (by exact hin)] at hle ⊢
          cases htake : takeOpening? n p.unpaired with
          | none => rfl
          | some rest =>
            rw [htake] at hle
            exact absurd hle (Nat.not_succ_le_self _)
      rw [List.filter_cons_of_pos hin, List.reverse_cons, List.append_assoc]
      unfold sweep at ih h ⊢
      rw [List.foldl_cons, hstep] at h ⊢
      exact ih h

end Pairing

end Inlay.Markup
